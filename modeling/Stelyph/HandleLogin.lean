import Stelyph.ListingAgrees
import Stelyph.Provenance

/-!
# Logging in with the handle that was registered

`create_account_inner` registers a handle in lower case. The login page
of OAuth trims what is typed, drops a leading `@` and puts it in lower
case; `create_session` and the `repo` parameter of `getRecord` and
`describeRepo` are looked up as they are. All four come to the same exact
match, so an upper-case letter typed at registration works at one of them
only.
-/

namespace Stelyph

/-! ## The characters of a handle -/

/-- What the segments of a handle are made of, and what joins them. -/
def handleChar (c : Char) : Bool := c.isAlphanum || c == '-' || c == '.'

theorem toNat_of_handleChar {c : Char} (h : handleChar c = true) : c.toNat < 128 := by
  simp only [handleChar, Bool.or_eq_true, beq_iff_eq] at h
  rcases h with (h | rfl) | rfl
  · exact Text.toNat_of_isAlphanum h
  · decide
  · decide

theorem not_special_of_handleChar {c : Char} (h : handleChar c.toLower = true) :
    c ≠ ':' ∧ c ≠ '@' ∧ Text.isWhitespace c = false := by
  cases hup : c.isUpper with
  | true =>
      obtain ⟨hlo, hhi⟩ := Text.isUpper_iff.mp hup
      refine ⟨?_, ?_, ?_⟩
      · rintro rfl
        exact absurd hlo (by decide)
      · rintro rfl
        exact absurd hlo (by decide)
      · simp only [Text.isWhitespace, Bool.or_eq_false_iff, Bool.and_eq_false_iff, decide_eq_false_iff_not,
          beq_eq_false_iff_ne]
        omega
  | false =>
      rw [Text.toLower_of_not_isUpper hup] at h
      refine ⟨?_, ?_, ?_⟩
      · rintro rfl
        exact absurd h (by decide)
      · rintro rfl
        exact absurd h (by decide)
      · have hall : ∀ n : Fin 128, handleChar (Char.ofNat n.val) = true →
            Text.isWhitespace (Char.ofNat n.val) = false := by decide +kernel
        have := hall ⟨c.toNat, toNat_of_handleChar h⟩
        rw [Char.ofNat_toNat] at this
        exact this h

theorem handleChar_of_valid {handle : String} (h : validateHandle handle = .ok ()) {c : Char}
    (hc : c ∈ handle.toList) : handleChar c = true := by
  unfold validateHandle at h
  split at h
  · cases h
  · simp only at h
    split at h
    · cases h
    · split at h
      · rename_i hall
        by_cases hdot : c = '.'
        · rw [hdot]
          rfl
        · obtain ⟨seg, hseg, hmem⟩ := Text.mem_splitOn hdot hc
          have hvalid := List.all_eq_true.mp hall (String.ofList seg) (List.mem_map_of_mem hseg)
          rw [validSegment, Bool.and_eq_true, String.toList_ofList] at hvalid
          have hchar := List.all_eq_true.mp hvalid.2 c hmem
          rw [handleChar, hchar, Bool.true_or]
      · cases h

/-- What is typed for a valid handle has no colon, no `@` and no blank. -/
theorem not_special_of_valid {handle : String}
    (h : validateHandle (Text.toAsciiLowercase handle) = .ok ()) {c : Char}
    (hc : c ∈ handle.toList) : c ≠ ':' ∧ c ≠ '@' ∧ Text.isWhitespace c = false := by
  refine not_special_of_handleChar (handleChar_of_valid h ?_)
  rw [Text.toAsciiLowercase, String.toList_ofList]
  exact List.mem_map_of_mem hc

theorem dropWhile_of_none {α : Type} {p : α → Bool} {xs : List α} (h : ∀ x ∈ xs, p x = false) :
    xs.dropWhile p = xs := by
  cases xs with
  | nil => rfl
  | cons x xs => rw [List.dropWhile_cons, h x List.mem_cons_self, if_neg Bool.false_ne_true]

/-- The login page changes the case only. -/
theorem normalizeUsername_of_valid {handle : String}
    (h : validateHandle (Text.toAsciiLowercase handle) = .ok ()) :
    AppState.normalizeUsername handle = Text.toAsciiLowercase handle := by
  have hblank : ∀ c ∈ handle.toList, Text.isWhitespace c = false :=
    fun c hc => (not_special_of_valid h hc).2.2
  have hat : ∀ c ∈ handle.toList, (c == '@') = false :=
    fun c hc => beq_eq_false_iff_ne.mpr (not_special_of_valid h hc).2.1
  have htrim : Text.trim handle = handle := by
    rw [Text.trim, dropWhile_of_none hblank,
      dropWhile_of_none fun c hc => hblank c (List.mem_reverse.mp hc), List.reverse_reverse,
      String.ofList_toList]
  rw [AppState.normalizeUsername, htrim, dropWhile_of_none hat, String.ofList_toList]

/-- It is not taken for a DID. -/
theorem not_did_of_valid {handle : String}
    (h : validateHandle (Text.toAsciiLowercase handle) = .ok ()) :
    Text.startsWith handle "did:" = false := by
  rw [← Bool.not_eq_true, Text.startsWith, List.isPrefixOf_iff_prefix]
  intro hpre
  exact (not_special_of_valid h (hpre.subset (by decide : ':' ∈ "did:".toList))).1 rfl

/-! ## The row of an account -/

/-- The only row under the handle, and the only one under the DID. -/
structure AccountStore.HasRow (s : AccountStore) (did handle : String) (a : Account) : Prop where
  byHandle : s.accounts.filter (fun b => b.handle == some handle) = [a]
  byDid : s.accounts.filter (fun b => b.did == did) = [a]

namespace AccountStore

variable {s t : AccountStore} {did handle : String} {a : Account}

theorem HasRow.did_eq (h : s.HasRow did handle a) : a.did = did := by
  have hmem : a ∈ s.accounts.filter fun b => b.did == did := by
    rw [h.byDid]
    exact List.mem_singleton_self a
  exact beq_iff_eq.mp (List.mem_filter.mp hmem).2

theorem HasRow.handle_eq (h : s.HasRow did handle a) : a.handle = some handle := by
  have hmem : a ∈ s.accounts.filter fun b => b.handle == some handle := by
    rw [h.byHandle]
    exact List.mem_singleton_self a
  exact beq_iff_eq.mp (List.mem_filter.mp hmem).2

theorem HasRow.mem (h : s.HasRow did handle a) : a ∈ s.accounts := by
  have hmem : a ∈ s.accounts.filter fun b => b.did == did := by
    rw [h.byDid]
    exact List.mem_singleton_self a
  exact (List.mem_filter.mp hmem).1

/-- A row under another handle is another account's. -/
theorem HasRow.handle_of_did (h : s.HasRow did handle a) {b : Account} (hb : b ∈ s.accounts)
    (hdid : b.did = did) : b.handle = some handle := by
  have hmem : b ∈ s.accounts.filter fun b => b.did == did :=
    List.mem_filter.mpr ⟨hb, beq_iff_eq.mpr hdid⟩
  rw [h.byDid, List.mem_singleton] at hmem
  rw [hmem]
  exact h.handle_eq

/-- Looked up by its handle, while it is active. -/
theorem HasRow.activeByHandle (h : s.HasRow did handle a) (hactive : Account.isActive a = true) :
    s.activeByHandle handle = some a := by
  have hfind : (s.accounts.find? fun b => b.handle == some handle) = some a := by
    rw [← List.head?_filter, h.byHandle]
    rfl
  rw [AccountStore.activeByHandle, hfind]
  exact Option.filter_eq_some_iff.mpr ⟨rfl, hactive⟩

theorem HasRow.getHandleByDid (h : s.HasRow did handle a) (hactive : Account.isActive a = true) :
    s.getHandleByDid did = some handle := by
  have hfind : (s.accounts.find? fun b => b.did == did) = some a := by
    rw [← List.head?_filter, h.byDid]
    rfl
  rw [AccountStore.getHandleByDid, hfind, Option.filter_eq_some_iff.mpr ⟨rfl, hactive⟩]
  exact h.handle_eq

/-- Any other handle leads elsewhere. -/
theorem HasRow.ne_of_activeByHandle (h : s.HasRow did handle a) {other : String}
    (hne : other ≠ handle) {b : Account} (hb : s.activeByHandle other = some b) : b.did ≠ did := by
  obtain ⟨hfind, -⟩ := Option.filter_eq_some_iff.mp hb
  have hother : b.handle = some other :=
    beq_iff_eq.mp (List.find?_some (p := fun b : Account => b.handle == some other) hfind)
  intro hdid
  have hsame := h.handle_of_did (List.mem_of_find?_eq_some hfind) hdid
  exact hne (Option.some.inj (hother.symm.trans hsame))

/-- A new row is of another account, under another handle. -/
theorem insertAccountLocked_rows {d handle' phc : String} {email : Option String}
    (h : s.insertAccountLocked d handle' email phc = .ok t) :
    (∀ b ∈ s.accounts, b.did ≠ d) ∧ (∀ b ∈ s.accounts, b.handle ≠ some handle')
      ∧ t.accounts = s.accounts ++ [{
          did := d, handle := some handle', email := email
          passwordPhc := phc, deactivatedAt := none, takedownRef := none }] := by
  unfold insertAccountLocked at h
  split at h
  · cases h
  · rename_i hdid
    split at h
    · cases h
    · rename_i hhandle
      obtain rfl := Except.ok.inj h
      refine ⟨fun b hb heq => hdid ?_, fun b hb heq => hhandle ?_, rfl⟩
      · exact List.any_eq_true.mpr ⟨b, hb, beq_iff_eq.mpr heq⟩
      · exact List.any_eq_true.mpr ⟨b, hb, beq_iff_eq.mpr heq⟩

theorem filter_eq_nil_of_ne {α : Type} {p : α → Bool} {xs : List α} (h : ∀ x ∈ xs, p x = false) :
    xs.filter p = [] := by
  rw [List.filter_eq_nil_iff]
  intro x hx
  rw [h x hx]
  exact Bool.false_ne_true

theorem hasRow_insert {phc : String} {email : Option String}
    (h : s.insertAccountLocked did handle email phc = .ok t) :
    ∃ a, t.HasRow did handle a ∧ a.passwordPhc = phc := by
  obtain ⟨hdid, hhandle, ht⟩ := insertAccountLocked_rows h
  refine ⟨⟨did, some handle, email, phc, none, none⟩, ⟨?_, ?_⟩, rfl⟩
  · rw [ht, List.filter_append, filter_eq_nil_of_ne fun b hb => beq_eq_false_iff_ne.mpr (hhandle b hb)]
    simp
  · rw [ht, List.filter_append, filter_eq_nil_of_ne fun b hb => beq_eq_false_iff_ne.mpr (hdid b hb)]
    simp

theorem HasRow.insert (h : s.HasRow did handle a) {d handle' phc : String} {email : Option String}
    (hins : s.insertAccountLocked d handle' email phc = .ok t) : t.HasRow did handle a := by
  obtain ⟨hdid, hhandle, ht⟩ := insertAccountLocked_rows hins
  have hd : d ≠ did := fun heq => hdid a h.mem (h.did_eq.trans heq.symm)
  have hh : handle' ≠ handle := fun heq => hhandle a h.mem (heq ▸ h.handle_eq)
  constructor
  · rw [ht, List.filter_append, h.byHandle]
    simp [hh]
  · rw [ht, List.filter_append, h.byDid]
    simp [hd]

/-- An update keeps the row in its place. -/
theorem HasRow.modify (h : s.HasRow did handle a) {d : String} {f : Account → Account}
    (hdid : ∀ b, (f b).did = b.did) (hhandle : ∀ b, (f b).handle = b.handle) :
    (s.modifyAccount d f).2.HasRow did handle (if a.did == d then f a else a) := by
  have hkey : ∀ b : Account, (if b.did == d then f b else b).did = b.did
      ∧ (if b.did == d then f b else b).handle = b.handle := by
    intro b
    split
    · exact ⟨hdid b, hhandle b⟩
    · exact ⟨rfl, rfl⟩
  constructor
  · show (s.accounts.map _).filter _ = _
    rw [List.filter_map]
    simp only [Function.comp_def, (hkey _).2]
    rw [h.byHandle]
    rfl
  · show (s.accounts.map _).filter _ = _
    rw [List.filter_map]
    simp only [Function.comp_def, (hkey _).1]
    rw [h.byDid]
    rfl

end AccountStore

/-! ## What a run does to it -/

/-- The DID, the handle and the password hash of a row that went in. -/
def AccountOp.insertedRow (o : AccountOp) (r : o.Ret) : Option (String × String × String) :=
  match o, r with
  | .countAndInsertAccount did handle _ phc, .ok _ => some (did, handle, phc)
  | _, _ => none

def ServerOp.insertedRow (o : ServerOp) (r : o.Ret) : Option (String × String × String) :=
  match o, r with
  | .account o, r => o.insertedRow r
  | _, _ => none

/-- The operator gave the account another password. -/
def resetsPassword (did : String) : OpPred serverSig
  | .updatePassword d _, .ok n => d == did && n != 0
  | _, _ => false

open AccountStore (HasRow)

variable {did handle : String} {a : Account}

theorem AccountOp.insert_of_exec {s s' : AccountStore} {d h phc : String} {email : Option String}
    {c : Outcome} {r : (AccountOp.countAndInsertAccount d h email phc).Ret}
    (hexec : AccountOp.exec s (.countAndInsertAccount d h email phc) c = some (r, s')) :
    (∃ n, r = .ok n ∧ s.insertAccountLocked d h email phc = .ok s') ∨ (∃ e, r = .error e ∧ s' = s) := by
  cases c with
  | done =>
      simp only [AccountOp.exec] at hexec
      split at hexec
      · rename_i n t hins
        obtain ⟨rfl, rfl⟩ := Prod.mk.injEq .. |>.mp (Option.some.inj hexec)
        unfold AccountStore.countAndInsertAccount at hins
        cases hlocked : s.insertAccountLocked d h email phc with
        | error e =>
            rw [hlocked] at hins
            cases hins
        | ok u =>
            rw [hlocked] at hins
            obtain ⟨-, rfl⟩ := Prod.mk.injEq .. |>.mp (Except.ok.inj hins)
            exact Or.inl ⟨n, rfl, rfl⟩
      · rename_i e hins
        obtain ⟨rfl, rfl⟩ := Prod.mk.injEq .. |>.mp (Option.some.inj hexec)
        exact Or.inr ⟨e, rfl, rfl⟩
  | fault msg =>
      obtain ⟨rfl, rfl⟩ := Prod.mk.injEq .. |>.mp (Option.some.inj hexec)
      exact Or.inr ⟨_, rfl, rfl⟩
  | document id => cases hexec

theorem AccountOp.hasRow_exec {s s' : AccountStore} {o : AccountOp} {c : Outcome} {r : o.Ret}
    (h : s.HasRow did handle a) (hexec : AccountOp.exec s o c = some (r, s')) :
    s'.HasRow did handle a := by
  have hsame : s'.accounts = s.accounts → s'.HasRow did handle a := by
    intro heq
    exact ⟨heq ▸ h.byHandle, heq ▸ h.byDid⟩
  cases o with
  | countAndInsertAccount d handle' email phc =>
      rcases AccountOp.insert_of_exec hexec with ⟨n, -, hins⟩ | ⟨e, -, rfl⟩
      · exact h.insert hins
      · exact h
  | consumeInvite code usedBy =>
      cases c <;> cases hexec
      · exact hsame (s.consumeInvite_accounts code usedBy)
      · exact h
  | _ => cases c <;> cases hexec <;> exact hsame rfl

/-- The row stays, with its password unless the operator changes it. -/
theorem ServerOp.hasRow_exec {s s' : ServerStore} {o : ServerOp} {c : ServerOutcome} {r : o.Ret}
    (h : s.accounts.HasRow did handle a) (hexec : o.exec s c = some (r, s')) :
    ∃ a', s'.accounts.HasRow did handle a'
      ∧ (a'.passwordPhc = a.passwordPhc ∨ resetsPassword did o r = true) := by
  cases o with
  | oauth o =>
      obtain ⟨c', -, heq⟩ := Option.map_eq_some_iff.mp hexec
      obtain ⟨-, rfl⟩ := Prod.mk.injEq .. |>.mp heq
      exact ⟨a, h, Or.inl rfl⟩
  | account o =>
      obtain ⟨⟨r', t⟩, hacc, heq⟩ := Option.map_eq_some_iff.mp hexec
      obtain ⟨rfl, rfl⟩ := Prod.mk.injEq .. |>.mp heq
      obtain ⟨c', -, hacc⟩ := Option.bind_eq_some_iff.mp hacc
      exact ⟨a, AccountOp.hasRow_exec h hacc, Or.inl rfl⟩
  | updatePassword d phc =>
      cases c <;> cases hexec
      · refine ⟨_, h.modify (fun _ => rfl) fun _ => rfl, ?_⟩
        by_cases hd : a.did = d
        · refine Or.inr ?_
          have hcount : (s.accounts.accounts.countP fun b => b.did == d) = 1 := by
            rw [List.countP_eq_length_filter, ← hd, h.did_eq, h.byDid]
            rfl
          show (d == did && (s.accounts.accounts.countP fun b => b.did == d) != 0) = true
          rw [hcount, ← hd, h.did_eq, beq_self_eq_true]
          rfl
        · rw [if_neg (mt beq_iff_eq.mp hd)]
          exact Or.inl rfl
      · exact ⟨a, h, Or.inl rfl⟩
  | setTakedown d reference now =>
      cases c <;> cases hexec
      · refine ⟨_, h.modify (fun _ => rfl) fun _ => rfl, Or.inl ?_⟩
        split <;> rfl
      · exact ⟨a, h, Or.inl rfl⟩
  | clearTakedown d =>
      cases c <;> cases hexec
      · refine ⟨_, h.modify (fun _ => rfl) fun _ => rfl, Or.inl ?_⟩
        split <;> rfl
      · exact ⟨a, h, Or.inl rfl⟩
  | getDidByHandle _ | getHandleByDid _ | joinBlocking | fetch _ =>
      cases c <;> cases hexec <;> exact ⟨a, h, Or.inl rfl⟩

theorem ServerOp.hasRow_of_inserted {s s' : ServerStore} {o : ServerOp} {c : ServerOutcome}
    {r : o.Ret} {phc : String} (hins : o.insertedRow r = some (did, handle, phc))
    (hexec : o.exec s c = some (r, s')) :
    ∃ a, s'.accounts.HasRow did handle a ∧ a.passwordPhc = phc := by
  cases o with
  | account o =>
      obtain ⟨⟨r', t⟩, hacc, heq⟩ := Option.map_eq_some_iff.mp hexec
      obtain ⟨rfl, rfl⟩ := Prod.mk.injEq .. |>.mp heq
      obtain ⟨c', -, hacc⟩ := Option.bind_eq_some_iff.mp hacc
      cases o with
      | countAndInsertAccount d handle' email phc' =>
          rcases AccountOp.insert_of_exec hacc with ⟨n, rfl, hlocked⟩ | ⟨e, rfl, -⟩
          · obtain ⟨rfl, rfl, rfl⟩ : d = did ∧ handle' = handle ∧ phc' = phc := by
              simpa [ServerOp.insertedRow, AccountOp.insertedRow] using hins
            exact AccountStore.hasRow_insert hlocked
          · cases hins
      | _ => cases hins
  | _ => cases hins

section

variable {Keypair : Type} {state : AppState Keypair} {P P' : ServerPool Keypair}

/-- The operator has set a password for the account. -/
def PasswordReset (did : String) (P : ServerPool Keypair) : Prop :=
  ∃ j o r, Logged P j o r ∧ resetsPassword did o r = true

/-- Every row that went in is there, with its password unless the operator
changed it. -/
def RowsKept (P : ServerPool Keypair) : Prop :=
  ∀ i o r did handle phc, Logged P i o r → o.insertedRow r = some (did, handle, phc) →
    ∃ a, P.store.accounts.HasRow did handle a ∧ (a.passwordPhc = phc ∨ PasswordReset did P)

theorem rowsKept_next {act : ServerAct Keypair} (h : RowsKept P)
    (hnext : serverStep state P act = some P') : RowsKept P' := by
  rcases Pool.next_cases hnext with ⟨q, rfl, rfl⟩ | ⟨i, c, q, o, k, r, s, rfl, -, hexec, rfl⟩
  · exact h
  · intro j o' r' did handle phc hlog hins
    rcases List.mem_append.mp hlog with hold | hnew
    · obtain ⟨a, ha, hphc⟩ := h j o' r' did handle phc hold hins
      obtain ⟨a', ha', hkept⟩ := ServerOp.hasRow_exec ha hexec
      refine ⟨a', ha', ?_⟩
      rcases hkept with hsame | hreset
      · refine hphc.imp (hsame.trans ·) ?_
        rintro ⟨j', o'', r'', hreset, hr⟩
        exact ⟨j', o'', r'', List.mem_append_left _ hreset, hr⟩
      · exact Or.inr ⟨i, o, r, List.mem_append_right _ List.mem_cons_self, hreset⟩
    · cases List.mem_singleton.mp hnew
      obtain ⟨a, ha, hphc⟩ := ServerOp.hasRow_of_inserted hins hexec
      exact ⟨a, ha, Or.inl hphc⟩

theorem rowsKept_run {s : ServerStore} {as : List (ServerAct Keypair)}
    (hrun : Steps.run (serverStep state) (Pool.init s) as = some P) : RowsKept P :=
  Steps.run_inv (fun _ _ _ h hnext => rowsKept_next h hnext)
    (fun _ _ _ _ _ _ hlog => (List.not_mem_nil hlog).elim) hrun

end

/-! ## Registration -/

section

variable {Keypair : Type} {cfg : ServerConfig Keypair}

abbrev insertedRows : Typestate accountSig (List (String × String × String)) :=
  .recording AccountOp.insertedRow

/-- What a successful call has done. -/
structure Registers (cfg : ServerConfig Keypair) (input : CreateAccountInput)
    (rnd : Entropy Keypair) (resp : CreateAccountResponse)
    (rows : List (String × String × String)) : Prop where
  handle : validateHandle (Text.toAsciiLowercase input.handle) = .ok ()
  did : Text.startsWith resp.did "did:" = true
  row : ∃ password phc, input.password = some password
    ∧ cfg.hashPassword rnd.salt password = .ok phc
    ∧ (resp.did, Text.toAsciiLowercase input.handle, phc) ∈ rows

theorem startsWith_of_prefix {s p q : String} (h : Text.startsWith s p = true)
    (hq : q.toList <+: p.toList) : Text.startsWith s q = true :=
  List.isPrefixOf_iff_prefix.mpr (hq.trans (List.isPrefixOf_iff_prefix.mp h))

theorem signGenesis_did {handle pdsEndpoint did : String} {signing rotation : Keypair}
    {op : PlcGenesisOpSigned}
    (h : signGenesis cfg.plc handle pdsEndpoint signing rotation = .ok (did, op)) :
    Text.startsWith did "did:" = true := by
  obtain ⟨unsignedCbor, -, h⟩ := Prog.except_bind_ok h
  obtain ⟨sigBytes, -, h⟩ := Prog.except_bind_ok h
  obtain ⟨signedCbor, -, h⟩ := Prog.except_bind_ok h
  obtain ⟨rfl, -⟩ := Prod.mk.injEq .. |>.mp (Except.ok.inj h)
  refine startsWith_of_prefix (p := "did:plc:") ?_ ⟨"plc:".toList, rfl⟩
  rw [Text.startsWith, List.isPrefixOf_iff_prefix]
  exact ⟨_, (String.toList_append ..).symm⟩

theorem follows_registerDidPlc {handle : String} {rnd : Entropy Keypair}
    {rows : List (String × String × String)} :
    (registerDidPlc cfg handle rnd).Follows insertedRows (fun t x => t = rows
      ∧ ∀ d, x = .ok d → Text.startsWith d "did:" = true) rows := by
  have herr : ∀ e : XrpcError, rows = rows
      ∧ ∀ d, (.error e : Except XrpcError String) = .ok d → Text.startsWith d "did:" = true :=
    fun e => ⟨rfl, fun d hd => by cases hd⟩
  refine Prog.follows_ofExcept_bind (fun e _ => herr _) fun ⟨did, signed⟩ hsigned => ?_
  refine ⟨trivial, fun r => ?_⟩
  change Prog.Follows insertedRows _ (rows ++ []) _
  rw [List.append_nil]
  refine Prog.follows_ofExcept_bind (fun e _ => herr _) fun u _ => ⟨rfl, fun d hd => ?_⟩
  obtain rfl := Except.ok.inj hd
  exact signGenesis_did hsigned

theorem follows_accountDid {handle : String} {did : Option String} {rnd : Entropy Keypair}
    {rows : List (String × String × String)} :
    (accountDid cfg handle did rnd).Follows insertedRows (fun t x => t = rows
      ∧ ∀ d, x = .ok d → Text.startsWith d "did:" = true) rows := by
  unfold accountDid
  split
  · exact follows_registerDidPlc
  · split
    · rename_i d hweb
      refine ⟨trivial, fun r => ?_⟩
      change Prog.Follows insertedRows _ (rows ++ []) _
      rw [List.append_nil]
      refine Prog.follows_ofExcept_bind (fun e _ => ⟨rfl, fun d hd => by cases hd⟩) fun docId _ => ?_
      split
      · refine ⟨rfl, fun d' hd => ?_⟩
        obtain rfl := Except.ok.inj hd
        exact startsWith_of_prefix hweb ⟨"web:".toList, rfl⟩
      · exact ⟨rfl, fun d' hd => by cases hd⟩
    · exact follows_registerDidPlc

theorem checkPassword_ok {password : Option String} {p : String}
    (h : checkPassword password = .ok p) : password = some p := by
  unfold checkPassword at h
  split at h
  · cases h
  · rename_i q hq
    split at h
    · cases h
    · obtain rfl := Except.ok.inj h
      exact (Option.filter_eq_some_iff.mp hq).1

/-- Only the insertion is kept. -/
theorem insertedRow_of_keeps {o : AccountOp} (h : o.Keeps) (r : o.Ret) : o.insertedRow r = none := by
  cases o with
  | countAndInsertAccount did handle email phc => exact h.elim
  | _ => rfl

theorem keeps_inviteGate (handle : String) (inviteCode : Option String) :
    (inviteGate cfg handle inviteCode).Each AccountOp.Keeps := by
  refine (Prog.Each.ask trivial).bind fun _ => Prog.Each.bind (Prog.each_ofExcept ..) fun n => ?_
  split
  · trivial
  · split
    · trivial
    · split
      · trivial
      · refine (Prog.Each.ask trivial).bind fun _ => Prog.Each.bind (Prog.each_ofExcept ..) fun b => ?_
        split <;> trivial

theorem follows_finishAccount {handle did : String} {rnd : Entropy Keypair}
    {rows : List (String × String × String)} :
    (finishAccount cfg handle did rnd).Follows insertedRows (fun t x => t = rows
      ∧ ∀ resp, x = .ok resp → resp.did = did) rows := by
  have herr : ∀ e : XrpcError, rows = rows
      ∧ ∀ resp, (.error e : Except XrpcError CreateAccountResponse) = .ok resp → resp.did = did :=
    fun e => ⟨rfl, fun resp h => by cases h⟩
  have hkey : ∀ (id : String) (nonce plaintext : Bytes), (storeKey cfg id nonce plaintext).Follows
      insertedRows (fun t _ => t = rows) rows := fun id nonce plaintext =>
    Prog.Each.recorded (fun _ => rfl)
      (each_storeKey.mono fun o ho r => insertedRow_of_keeps (o := o) ho.keeps r)
  refine Prog.Follows.bind ((hkey _ _ _).mono fun t x ht => ?_)
  subst ht
  cases x with
  | error e => exact herr _
  | ok u =>
      refine Prog.Follows.bind ((hkey _ _ _).mono fun t x ht => ?_)
      subst ht
      cases x with
      | error e => exact herr _
      | ok u =>
          refine Prog.follows_ofExcept_bind (fun e _ => herr _) fun access _ => ?_
          refine Prog.follows_ofExcept_bind (fun e _ => herr _) fun refresh _ => ?_
          refine ⟨rfl, fun resp h => ?_⟩
          obtain rfl := Except.ok.inj h
          rfl

theorem follows_createAccountInner (input : CreateAccountInput) (rnd : Entropy Keypair) :
    (createAccountInner cfg input rnd).Follows insertedRows
      (fun rows x => ∀ resp, x = .ok resp → Registers cfg input rnd resp rows) [] := by
  have herr : ∀ (rows : List (String × String × String)) (e : XrpcError) resp,
      (.error e : Except XrpcError CreateAccountResponse) = .ok resp →
      Registers cfg input rnd resp rows := fun rows e resp h => by cases h
  refine Prog.follows_ofExcept_bind (fun e _ => herr _ _) fun u hvalid => ?_
  split
  · exact herr _ _
  · refine ⟨trivial, fun existing => Prog.follows_ofExcept_bind (fun e _ => herr _ _) fun row _ => ?_⟩
    change Prog.Follows insertedRows _ [] _
    split
    · exact herr _ _
    · have hgate : (inviteGate cfg (Text.toAsciiLowercase input.handle) input.inviteCode).Follows
          insertedRows (fun rows _ => rows = []) [] := by
        exact Prog.Each.recorded (fun _ => rfl)
          ((keeps_inviteGate _ _).mono fun o ho r => insertedRow_of_keeps ho r)
      refine Prog.Follows.bind (hgate.mono fun rows x hrows => ?_)
      subst hrows
      cases x with
      | error e => exact herr _ _
      | ok inviteConsumed =>
          refine Prog.Follows.bind (follows_accountDid.mono fun rows x ⟨hrows, hdid⟩ => ?_)
          subst hrows
          cases x with
          | error e => exact herr _ _
          | ok did =>
              refine Prog.follows_ofExcept_bind (fun e _ => herr _ _) fun password hpassword => ?_
              refine Prog.follows_ofExcept_bind (fun e _ => herr _ _) fun phc hphc => ?_
              refine ⟨trivial, fun r => ?_⟩
              cases r with
              | error e => exact herr _ _
              | ok n =>
                  change Prog.Follows insertedRows _ [_] (if _ then _ else _)
                  split
                  · exact herr _ _
                  · refine follows_finishAccount.mono fun rows x ⟨hrows, hfinish⟩ resp hx => ?_
                    have hresp := hfinish resp hx
                    refine ⟨hvalid, hresp ▸ hdid did rfl, password, phc, checkPassword_ok hpassword,
                      hphc, ?_⟩
                    rw [hrows, hresp]
                    exact List.mem_singleton_self _

end

/-! ## The account answers to its handle -/

section

variable {Keypair : Type} {L : RepoLib}

/-- Nothing fails. -/
def quietServer (s : ServerStore) (o : ServerOp) : Option (o.Ret × ServerStore) := o.exec s .done

/-- argon2id verifies what it hashed, and an HS256 token can always be
encoded. -/
structure CredentialLaws (cfg : ServerConfig Keypair) : Prop where
  verify : ∀ salt password phc, cfg.hashPassword salt password = .ok phc →
    cfg.verifyPassword password phc = .ok true
  access : ∀ did now, ∃ token, cfg.encodeAccessJwt did now = .ok token
  refresh : ∀ did now, ∃ token, cfg.encodeRefreshJwt did now = .ok token

/-- The four uses of a handle, in one state: the login, the authorization,
the lookup of its DID, and the reads of its repository. -/
structure AnswersTo (state : AppState Keypair) (X : ReadLib L) (s : ServerStore)
    (handle password did : String) : Prop where
  session : ∀ now, ∃ resp, (state.createSession handle password now).alone quietServer s
    = some (.ok resp, s) ∧ resp.did = did
  authenticate : (state.authenticate handle password).alone quietServer s
    = some (.ok (.ok did), s)
  resolves : resolveRepoDid s.accounts handle = .ok did
  getRecord : ∀ r collection rkey, Axum.getRecord X s.accounts r ⟨handle, collection, rkey⟩
    = Axum.getRecord X s.accounts r ⟨did, collection, rkey⟩
  describeRepo : ∀ key endpoint r, Axum.describeRepo X key endpoint s.accounts r handle
    = Axum.describeRepo X key endpoint s.accounts r did

variable {state : AppState Keypair} {s : ServerStore} {did handle : String} {a : Account}

/-- The row that a finished registration left. -/
theorem registers_of_task {store : ServerStore} {as : List (ServerAct Keypair)}
    {P : ServerPool Keypair} (hrun : Steps.run (serverStep state) (Pool.init store) as = some P)
    {i : Nat} {input : CreateAccountInput} {rnd : Entropy Keypair} {resp : CreateAccountResponse}
    (htask : P.tasks[i]? = some (.createAccount input rnd, .ret (.account resp))) :
    ∃ rows, Registers state.server input rnd resp rows
      ∧ ∀ row ∈ rows, ∃ o r, Logged P i o r ∧ o.insertedRow r = some row := by
  have hfollows : ∀ q : ServerRequest Keypair, (serverHandler state q).Follows
      (.recording ServerOp.insertedRow) (fun rows x => ∀ input rnd resp,
        q = .createAccount input rnd → x = .ok (.account resp) →
        Registers state.server input rnd resp rows) [] := by
    intro q
    cases q with
    | createAccount input rnd =>
        refine follows_answer ?_
        rw [AccountProg.lift]
        apply Prog.Follows.hoist (A := insertedRows)
        · exact fun _ _ _ => trivial
        · exact fun _ _ _ => rfl
        · have hinner : (createAccountInner state.server input rnd).Follows insertedRows
              (fun rows x => ∀ resp, x = .ok resp → Registers state.server input rnd resp rows) [] :=
            follows_createAccountInner input rnd
          refine hinner.mono fun rows x hx => ?_
          intro input' rnd' resp hq hresp
          obtain ⟨rfl, rfl⟩ := ServerRequest.createAccount.inj hq
          cases x with
          | error e => cases hresp
          | ok r =>
              obtain rfl := ServerAnswer.account.inj (Except.ok.inj hresp)
              exact hx r rfl
    | _ =>
        refine Prog.follows_of_forall (fun _ _ => trivial) (fun rows x input rnd resp hq => ?_) _ _
        cases hq
  have hpost := (Pool.followed_run hfollows hrun).tasks i _ _ htask
  exact ⟨_, hpost input rnd resp rfl rfl, fun row hrow => World.mem_recording.mp hrow⟩

/-- The account of the DID has this password: the hash in its row verifies it. -/
def HasPassword (cfg : ServerConfig Keypair) (s : AccountStore) (did password : String) : Prop :=
  ∃ b ∈ s.accounts, b.did = did ∧ cfg.verifyPassword password b.passwordPhc = .ok true

theorem AccountStore.HasRow.verifies {password : String} (h : s.accounts.HasRow did handle a)
    (hpw : HasPassword state.server s.accounts did password) :
    state.server.verifyPassword password a.passwordPhc = .ok true := by
  obtain ⟨b, hb, hdid, hverify⟩ := hpw
  have hmem : b ∈ s.accounts.accounts.filter fun b => b.did == did :=
    List.mem_filter.mpr ⟨hb, beq_iff_eq.mpr hdid⟩
  rw [h.byDid, List.mem_singleton] at hmem
  rw [← hmem]
  exact hverify

theorem quiet_getAccountByHandle (h : String) :
    quietServer s (.account (.getAccountByHandle h))
      = some (.ok (s.accounts.getAccountByHandle h), s) := rfl

theorem alone_createSession (laws : CredentialLaws state.server) {password : String}
    (hfound : s.accounts.getAccountByHandle handle = some (did, a.passwordPhc))
    (hverify : state.server.verifyPassword password a.passwordPhc = .ok true) (now : Nat) :
    ∃ resp, (state.createSession handle password now).alone quietServer s = some (.ok resp, s)
      ∧ resp.did = did := by
  obtain ⟨access, haccess⟩ := laws.access did now
  obtain ⟨refresh, hrefresh⟩ := laws.refresh did now
  refine ⟨⟨access, refresh, handle, did, true⟩, ?_, rfl⟩
  refine (Prog.alone_op (quiet_getAccountByHandle handle)).trans ?_
  rw [hfound]
  refine (Prog.alone_op (show quietServer s .joinBlocking = some (.ok (), s) from rfl)).trans ?_
  simp only [Prog.pure_eq, Prog.bind_eq, Prog.ofExcept, Prog.ret_bind, hverify, haccess, hrefresh,
    not_true_eq_false, if_false]
  rfl

theorem alone_authenticate {password username : String}
    (hfound : s.accounts.getAccountByHandle (AppState.normalizeUsername username)
      = some (did, a.passwordPhc)) :
    (state.authenticate username password).alone quietServer s = some (.ok (.ok did), s)
      ↔ state.server.verifyPassword password a.passwordPhc = .ok true := by
  cases hverify : state.server.verifyPassword password a.passwordPhc with
  | error e =>
      have hrun : (state.authenticate username password).alone quietServer s
          = some (.ok (.error "Something went wrong. Please try again."), s) := by
        refine (Prog.alone_op (quiet_getAccountByHandle _)).trans ?_
        rw [hfound, Prog.ret_bind]
        dsimp only
        rw [hverify]
        rfl
      rw [hrun]
      exact iff_of_false (fun h => by cases h) fun h => by cases h
  | ok right =>
      have hrun : (state.authenticate username password).alone quietServer s
          = some (.ok (if right then .ok did else .error "Incorrect handle or password."), s) := by
        refine (Prog.alone_op (quiet_getAccountByHandle _)).trans ?_
        rw [hfound, Prog.ret_bind]
        dsimp only
        rw [hverify]
        cases right <;> rfl
      rw [hrun]
      cases right with
      | false => exact iff_of_false (fun h => by cases h) fun h => by cases h
      | true => exact iff_of_true rfl rfl

/-- A handle that leads to a DID may stand for it. -/
theorem resolved_alike {X : ReadLib L} (hdid : Text.startsWith did "did:" = true)
    (hrow : s.accounts.HasRow did handle a) (hactive : AccountStore.Account.isActive a = true)
    (hresolve : resolveRepoDid s.accounts handle = .ok did) :
    (∀ r collection rkey, Axum.getRecord X s.accounts r ⟨handle, collection, rkey⟩
      = Axum.getRecord X s.accounts r ⟨did, collection, rkey⟩)
    ∧ ∀ key endpoint r, Axum.describeRepo X key endpoint s.accounts r handle
      = Axum.describeRepo X key endpoint s.accounts r did := by
  have hself : resolveRepoDid s.accounts did = .ok did := by
    rw [resolveRepoDid, if_pos hdid]
  constructor
  · intro r collection rkey
    simp only [Axum.getRecord, hresolve, hself]
  · intro key endpoint r
    have hbind : ∀ f : String → Except XrpcError Axum.DescribeRepoOutput,
        ((Except.ok did : Except XrpcError String) >>= f) = f did := fun _ => rfl
    simp only [Axum.describeRepo, hresolve, hself, hbind, hrow.getHandleByDid hactive]

/-- Whoever registered a handle and is neither taken down nor deactivated
can use it everywhere just in case it was typed in lower case, and with
the password the account has: the registered one, as long as the operator
has not set another. -/
theorem registered_handle_answers_iff {X : ReadLib L} (laws : CredentialLaws state.server)
    {store : ServerStore} {as : List (ServerAct Keypair)} {P : ServerPool Keypair}
    (hrun : Steps.run (serverStep state) (Pool.init store) as = some P) {i : Nat}
    {input : CreateAccountInput} {rnd : Entropy Keypair} {resp : CreateAccountResponse}
    (htask : P.tasks[i]? = some (.createAccount input rnd, .ret (.account resp)))
    (hactive : ∀ b ∈ P.store.accounts.accounts, b.did = resp.did →
      AccountStore.Account.isActive b = true) :
    (∀ password, AnswersTo state X P.store input.handle password resp.did
      ↔ Text.toAsciiLowercase input.handle = input.handle
        ∧ HasPassword state.server P.store.accounts resp.did password)
    ∧ ∀ password, input.password = some password → ¬ PasswordReset resp.did P →
        HasPassword state.server P.store.accounts resp.did password := by
  obtain ⟨rows, hreg, hlog⟩ := registers_of_task hrun htask
  obtain ⟨registered, phc, hinput, hhash, hmem⟩ := hreg.row
  obtain ⟨o, r, hlogged, hins⟩ := hlog _ hmem
  obtain ⟨a, hrow, hphc⟩ := rowsKept_run hrun i o r _ _ _ hlogged hins
  have hact : AccountStore.Account.isActive a = true := hactive a hrow.mem hrow.did_eq
  have hbyHandle : P.store.accounts.getAccountByHandle (Text.toAsciiLowercase input.handle)
      = some (resp.did, a.passwordPhc) := by
    rw [AccountStore.getAccountByHandle, hrow.activeByHandle hact, ← hrow.did_eq]
    rfl
  have hauth : ∀ password,
      (state.authenticate input.handle password).alone quietServer P.store
        = some (.ok (.ok resp.did), P.store)
      ↔ state.server.verifyPassword password a.passwordPhc = .ok true := fun password =>
    alone_authenticate (by rw [normalizeUsername_of_valid hreg.handle]; exact hbyHandle)
  refine ⟨fun password => ⟨fun h => ⟨?_, ?_⟩, fun ⟨hlower, hpw⟩ => ?_⟩, ?_⟩
  · -- in any other spelling the exact match leads to nobody, or to another account
    by_contra hne
    have hresolve := h.resolves
    rw [resolveRepoDid, not_did_of_valid hreg.handle, AccountStore.getDidByHandle] at hresolve
    cases hfound : P.store.accounts.activeByHandle input.handle with
    | none =>
        rw [hfound] at hresolve
        cases hresolve
    | some b =>
        rw [hfound] at hresolve
        exact hrow.ne_of_activeByHandle (Ne.symm hne) hfound (Except.ok.inj hresolve)
  · exact ⟨a, hrow.mem, hrow.did_eq, (hauth password).mp h.authenticate⟩
  · have hverify := hrow.verifies hpw
    have hresolve : resolveRepoDid P.store.accounts input.handle = .ok resp.did := by
      rw [resolveRepoDid, not_did_of_valid hreg.handle, AccountStore.getDidByHandle, ← hlower,
        hrow.activeByHandle hact, ← hrow.did_eq]
      rfl
    have halike := resolved_alike (X := X) hreg.did (hlower ▸ hrow) hact hresolve
    exact {
      session := alone_createSession laws (hlower ▸ hbyHandle) hverify
      authenticate := (hauth password).mpr hverify
      resolves := hresolve
      getRecord := halike.1
      describeRepo := halike.2 }
  · intro password hpassword hreset
    obtain rfl := Option.some.inj (hinput.symm.trans hpassword)
    refine ⟨a, hrow.mem, hrow.did_eq, ?_⟩
    rw [hphc.resolve_right hreset]
    exact laws.verify _ _ _ hhash

end

/-! ### One letter in upper case -/

theorem sampleServer_laws : CredentialLaws sampleServer where
  verify salt password phc h := by
    obtain rfl := Except.ok.inj h
    refine congrArg Except.ok (List.isSuffixOf_iff_suffix.mpr ⟨salt.toList, ?_⟩)
    simp [String.toList_append, toString]
  access did now := ⟨_, rfl⟩
  refresh did now := ⟨_, rfl⟩

/-- A registration on an empty server. -/
def sampleNewcomer (name : String) : List (ServerAct Nat) :=
  .start (.createAccount (sampleCall name 1).1 (sampleCall name 1).2)
    :: List.replicate 6 (.step 0 .done)

def noMembers : ServerStore := ⟨⟨[], [], [], []⟩, OauthStore.empty⟩

/-- What the first task was asked, and the DID it answered with. -/
def registeredDid (P : ServerPool Nat) : Option (String × Option String × String) :=
  P.tasks[0]?.bind fun t =>
    match t.1, t.2 with
    | .createAccount input _, .ret (.account resp) => some (input.handle, input.password, resp.did)
    | _, _ => none

theorem task_of_registeredDid {P : ServerPool Nat} {handle did : String} {password : Option String}
    (h : registeredDid P = some (handle, password, did)) :
    ∃ input rnd resp, P.tasks[0]? = some (.createAccount input rnd, .ret (.account resp))
      ∧ input.handle = handle ∧ input.password = password ∧ resp.did = did := by
  obtain ⟨⟨q, p⟩, htask, h⟩ := Option.bind_eq_some_iff.mp h
  dsimp only at h
  split at h
  · rename_i input rnd resp
    obtain ⟨rfl, rfl, rfl⟩ : input.handle = handle ∧ input.password = password
        ∧ resp.did = did := by simpa using h
    exact ⟨input, rnd, resp, htask, rfl, rfl, rfl⟩
  · cases h

/-- Nobody is hidden, and the operator has reset no password of the
account. -/
def undisturbed (did : String) (P : ServerPool Nat) : Bool :=
  P.store.accounts.accounts.all AccountStore.Account.isActive
    && P.log.all fun e => !resetsPassword did e.op e.ans

theorem active_of_undisturbed {did : String} {P : ServerPool Nat} (h : undisturbed did P = true) :
    (∀ b ∈ P.store.accounts.accounts, b.did = did → AccountStore.Account.isActive b = true)
    ∧ ¬ PasswordReset did P := by
  obtain ⟨hactive, hlog⟩ := Bool.and_eq_true .. |>.mp h
  refine ⟨fun b hb _ => List.all_eq_true.mp hactive b hb, ?_⟩
  rintro ⟨i, o, r, hlogged, hreset⟩
  have := List.all_eq_true.mp hlog _ hlogged
  rw [hreset] at this
  cases this

def newcomerDid : String := "did:plc:at://alice.pds.test"

/-- Where a handle leads: `createSession`, the login page and the `repo`
parameter. -/
def leadsTo (handle : String) (P : ServerPool Nat) : List (Option String) :=
  [((sampleApp.createSession handle "correct horse" 0).alone quietServer P.store).bind fun r =>
      r.1.toOption.map SessionResponse.did,
    ((sampleApp.authenticate handle "correct horse").alone quietServer P.store).bind fun r =>
      r.1.toOption.bind Except.toOption,
    (resolveRepoDid P.store.accounts handle).toOption]

/-- Registered in lower case, the handle answers. -/
theorem lowercase_newcomer_answers : ∃ P input rnd resp,
    Steps.run (serverStep sampleApp) (Pool.init noMembers) (sampleNewcomer "alice") = some P
    ∧ P.tasks[0]? = some (.createAccount input rnd, .ret (.account resp))
    ∧ input.handle = "alice.pds.test"
    ∧ AnswersTo sampleApp sampleReads P.store input.handle "correct horse" resp.did := by
  have hview : (Steps.run (serverStep sampleApp) (Pool.init noMembers)
      (sampleNewcomer "alice")).map (fun P => (registeredDid P, undisturbed newcomerDid P))
      = some (some ("alice.pds.test", some "correct horse", newcomerDid), true) := by
    decide +kernel
  obtain ⟨P, hrun, hP⟩ := Option.map_eq_some_iff.mp hview
  obtain ⟨hdid, hquiet⟩ := Prod.mk.injEq .. |>.mp hP
  obtain ⟨input, rnd, resp, htask, hhandle, hpassword, hresp⟩ := task_of_registeredDid hdid
  obtain ⟨hactive, hreset⟩ := active_of_undisturbed hquiet
  have hiff := registered_handle_answers_iff (X := sampleReads) sampleServer_laws hrun htask
    (hresp ▸ hactive)
  refine ⟨P, input, rnd, resp, hrun, htask, hhandle, (hiff.1 "correct horse").mpr ⟨?_, ?_⟩⟩
  · rw [hhandle]
    decide +kernel
  · exact hiff.2 "correct horse" hpassword (hresp ▸ hreset)

/-- Registered as `Alice.pds.test`, it works on the login page only. -/
theorem uppercase_newcomer_refused :
    (¬ ∀ (state : AppState Nat) (X : ReadLib sampleRepo) (as : List (ServerAct Nat))
      (P : ServerPool Nat) (i : Nat) (input : CreateAccountInput) (rnd : Entropy Nat)
      (resp : CreateAccountResponse) (password : String), CredentialLaws state.server →
      Steps.run (serverStep state) (Pool.init noMembers) as = some P →
      P.tasks[i]? = some (.createAccount input rnd, .ret (.account resp)) →
      (∀ b ∈ P.store.accounts.accounts, b.did = resp.did →
        AccountStore.Account.isActive b = true) →
      input.password = some password → ¬ PasswordReset resp.did P →
      AnswersTo state X P.store input.handle password resp.did)
    ∧ (Steps.run (serverStep sampleApp) (Pool.init noMembers) (sampleNewcomer "Alice")).map
        (fun P => (registeredDid P, leadsTo "Alice.pds.test" P, leadsTo "alice.pds.test" P))
      = some (some ("Alice.pds.test", some "correct horse", newcomerDid),
          [none, some newcomerDid, none],
          [some newcomerDid, some newcomerDid, some newcomerDid]) := by
  refine ⟨fun h => ?_, by decide +kernel⟩
  have hview : (Steps.run (serverStep sampleApp) (Pool.init noMembers)
      (sampleNewcomer "Alice")).map (fun P => (registeredDid P, undisturbed newcomerDid P,
        (resolveRepoDid P.store.accounts "Alice.pds.test").toOption))
      = some (some ("Alice.pds.test", some "correct horse", newcomerDid), true, none) := by
    decide +kernel
  obtain ⟨P, hrun, hP⟩ := Option.map_eq_some_iff.mp hview
  obtain ⟨hdid, hP⟩ := Prod.mk.injEq .. |>.mp hP
  obtain ⟨hquiet, hlost⟩ := Prod.mk.injEq .. |>.mp hP
  obtain ⟨input, rnd, resp, htask, hhandle, hpassword, hresp⟩ := task_of_registeredDid hdid
  obtain ⟨hactive, hreset⟩ := active_of_undisturbed hquiet
  have hanswers := h sampleApp sampleReads _ P 0 input rnd resp "correct horse" sampleServer_laws
    hrun htask (hresp ▸ hactive) hpassword (hresp ▸ hreset)
  have hresolves := hanswers.resolves
  rw [hhandle] at hresolves
  rw [hresolves] at hlost
  cases hlost

end Stelyph
