import Stelyph.Lib.Expand
import Stelyph.Lib.LastWrite
import Stelyph.Lib.Memo
import Stelyph.WorkerBlobs

/-!
# Blobs are served as they were stored

Between the two writes of an upload, and between the calls of a read,
anything else may happen. Still a row never points at a missing object, or
at one with another content: the row is inserted behind its object, and
objects stay. What is served has the CID that was asked for and was
uploaded for the account, and a stored blob is missed only if a wipe of the
account was called since (`blobs_served`).
-/

namespace Stelyph

namespace Worker

section

variable {L : RepoLib} {Keypair : Type} {lib : FrontLib Keypair} {cfg : TenantConfig L}
  {slib : SigninLib}

/-! ## The blobs and the log -/

abbrev BlobWorld (L : RepoLib) := World (blobSig L) (Deployment L)

def Inserts (host did cid : String) (e : BlobEvent L) : Prop :=
  ∃ i row, e = ⟨i, .tenant (.insertBlobRef host did cid row), .ok ()⟩

/-- A wipe of the object was called. One that failed counts as well: its
caller, and the log, cannot tell whether it failed before its effect or
after it. -/
def Wipes (host : String) (e : BlobEvent L) : Prop := e.op = .tenant (.front (.wipe host))

/-- No row is there: a wipe was called after any that was inserted. -/
abbrev Gone (host did cid : String) : List (BlobEvent L) → Prop :=
  ClearedSince (Inserts host did cid) (Wipes host)

structure BlobInv (w : BlobWorld L) : Prop where
  objects : ∀ key bytes, w.store.bucket.get key = some bytes →
    ∃ e ∈ w.log, e.op = .tenant (.putObject key bytes)
  rows : ∀ host did cid row, (w.store.refs host).get (did, cid) = some row →
    ∃ e ∈ w.log, e.op = .tenant (.insertBlobRef host did cid row)
  noRow : ∀ host did cid, (w.store.refs host).get (did, cid) = none → Gone host did cid w.log
  put : ∀ i key bytes, ⟨i, .tenant (.putObject key bytes), .ok ()⟩ ∈ w.log →
    w.store.bucket.contains key = true
  /-- The object comes first. -/
  inserts : ∀ e ∈ w.log, ∀ host did cid row, e.op = .tenant (.insertBlobRef host did cid row) →
    ∃ i bytes, ⟨i, .tenant (.putObject s!"{did}/{cid}" bytes), .ok ()⟩ ∈ w.log
  selected : ∀ i host did cid row, ⟨i, .selectBlobRef host did cid, .ok (some row)⟩ ∈ w.log →
    ∃ e ∈ w.log, e.op = .tenant (.insertBlobRef host did cid row)
  missed : ∀ i host did cid l l', w.log = l ++ ⟨i, .selectBlobRef host did cid, .ok none⟩ :: l' →
    Gone host did cid l
  fetched : ∀ i key bytes, ⟨i, .getObject key, .ok (some bytes)⟩ ∈ w.log →
    ∃ e ∈ w.log, e.op = .tenant (.putObject key bytes)

theorem blobInv_empty (registry : Registry) : BlobInv ⟨Deployment.empty L registry, []⟩ where
  objects _ _ h := nomatch h
  rows _ _ _ _ h := nomatch h
  noRow _ _ _ _ := clearedSince_nil
  put _ _ _ h := nomatch h
  inserts _ h := nomatch h
  selected _ _ _ _ _ h := nomatch h
  missed _ _ _ _ l _ h := by cases l <;> cases h
  fetched _ _ _ h := nomatch h

theorem bucket_contains {D D' : Deployment L} {e : BlobEvent L} (h : BlobStep D D' e)
    {key : String} (hkey : D.bucket.contains key = true) : D'.bucket.contains key = true := by
  rcases h.bucket with hsame | ⟨key', bytes, -, hput⟩
  · rw [hsame]
    exact hkey
  · rw [hput, Table.contains]
    by_cases heq : key = key'
    · rw [heq, Table.get_insert_self]
      rfl
    · rw [Table.get_insert_of_ne heq]
      exact hkey

/-- The row of a blob that is stored for sure is inserted behind its object. -/
theorem BlobInv.after {w : BlobWorld L} (hinv : BlobInv w) {i : Nat} {o : BlobOp L} {r : o.Ret}
    {D' : Deployment L} (h : BlobStep w.store D' ⟨i, o, r⟩)
    (hbehind : ∀ host did cid row, o = .tenant (.insertBlobRef host did cid row) →
      ∃ j bytes, ⟨j, .tenant (.putObject s!"{did}/{cid}" bytes), .ok ()⟩ ∈ w.log) :
    BlobInv (w.after i o r D') where
  objects key bytes hget := by
    have hold : w.store.bucket.get key = some bytes → ∃ e ∈ (w.after i o r D').log,
        e.op = .tenant (.putObject key bytes) := fun hget => by
      obtain ⟨e, he, hop⟩ := hinv.objects key bytes hget
      exact ⟨e, List.mem_append_left _ he, hop⟩
    rcases h.bucket with hsame | ⟨key', bytes', hop, hput⟩
    · exact hold (hsame ▸ hget)
    · rw [World.after_store, hput] at hget
      rcases Table.get_insert_eq_some.mp hget with ⟨rfl, rfl⟩ | ⟨-, hget⟩
      · exact ⟨_, List.mem_append_right _ List.mem_cons_self, hop⟩
      · exact hold hget
  rows host did cid row hget := by
    rcases h.row host did cid row hget with hget | hop
    · obtain ⟨e, he, hop⟩ := hinv.rows host did cid row hget
      exact ⟨e, List.mem_append_left _ he, hop⟩
    · exact ⟨_, List.mem_append_right _ List.mem_cons_self, hop⟩
  noRow host did cid hget := by
    have hset : ¬ Inserts host did cid (⟨i, o, r⟩ : BlobEvent L) := by
      rintro ⟨j, row, he⟩
      rw [World.after_store, h.inserted j host did cid row he] at hget
      cases hget
    rcases h.noRow host did cid hget with hget | hop
    · exact (hinv.noRow host did cid hget).snoc hset
    · exact clearedSince_of_clears w.log hop hset
  put j key bytes he := by
    rcases List.mem_append.mp he with he | he
    · exact bucket_contains h (hinv.put j key bytes he)
    · exact h.put j key bytes (List.mem_singleton.mp he).symm
  inserts e he host did cid row hop := by
    rcases List.mem_append.mp he with he | he
    · obtain ⟨j, bytes, hput⟩ := hinv.inserts e he host did cid row hop
      exact ⟨j, bytes, List.mem_append_left _ hput⟩
    · obtain rfl := List.mem_singleton.mp he
      obtain ⟨j, bytes, hput⟩ := hbehind host did cid row hop
      exact ⟨j, bytes, List.mem_append_left _ hput⟩
  selected j host did cid row he := by
    rcases List.mem_append.mp he with he | he
    · obtain ⟨e, he, hop⟩ := hinv.selected j host did cid row he
      exact ⟨e, List.mem_append_left _ he, hop⟩
    · have hget := h.selected j host did cid _ (List.mem_singleton.mp he).symm
      obtain ⟨e, he, hop⟩ := hinv.rows host did cid row hget
      exact ⟨e, List.mem_append_left _ he, hop⟩
  missed j host did cid l l' hlog := by
    rcases snoc_eq_append_cons hlog with ⟨-, he, rfl⟩ | ⟨l'', -, hlog⟩
    · exact hinv.noRow host did cid (h.selected j host did cid none he.symm)
    · exact hinv.missed j host did cid l l'' hlog
  fetched j key bytes he := by
    rcases List.mem_append.mp he with he | he
    · obtain ⟨e, he, hop⟩ := hinv.fetched j key bytes he
      exact ⟨e, List.mem_append_left _ he, hop⟩
    · have hget := h.fetched j key _ (List.mem_singleton.mp he).symm
      obtain ⟨e, he, hop⟩ := hinv.objects key bytes hget
      exact ⟨e, List.mem_append_left _ he, hop⟩

/-! ## What a request does -/

abbrev BlobExec (lib : FrontLib Keypair) (cfg : TenantConfig L) (slib : SigninLib) (_ : Nat)
    (w : BlobWorld L) (o : (blobSig L).Op) (r : (blobSig L).Ret o) (D' : Deployment L) : Prop :=
  ∃ c, BlobOp.exec lib cfg slib w.store o c = some (r, D')

abbrev BlobSafe (lib : FrontLib Keypair) (cfg : TenantConfig L) (slib : SigninLib) {α : Type}
    (i : Nat) (post : Except String α → BlobWorld L → Prop) (p : BlobProg L α) (w : BlobWorld L) :
    Prop :=
  Safe (.growing BlobInv) (BlobExec lib cfg slib) i post p w

/-- Neither an object nor a row is written. -/
def BlobOp.Plain : BlobOp L → Prop
  | .tenant (.putObject _ _) | .tenant (.insertBlobRef _ _ _ _) => False
  | _ => True

theorem safe_plain {α : Type} {p : BlobProg L α} {i : Nat} {w : BlobWorld L}
    (hp : p.Each BlobOp.Plain) :
    BlobSafe lib cfg slib i (fun x _ => ∀ a, x = .ok a → p.Returns a) p w := by
  refine Safe.each_growing (fun w o r s ho hinv hE => ?_) hp
  obtain ⟨c, hc⟩ := hE
  refine hinv.after (blobStep_exec _ hc) fun host did cid row h => ?_
  rw [h] at ho
  exact ho.elim

/-- The task has inserted the row of a blob. -/
def StoredBy (i : Nat) (cid mimeType : String) (size : Nat) (w : BlobWorld L) : Prop :=
  ∃ host did, ⟨i, .tenant (.insertBlobRef host did cid ⟨mimeType, size⟩), .ok ()⟩ ∈ w.log

/-- A reply that a blob is stored is given for a row. -/
def UploadPost (i : Nat) (x : Except String (TenantReply L)) (w : BlobWorld L) : Prop :=
  ∀ cid mimeType size, x = .ok (.blob cid mimeType size) → StoredBy i cid mimeType size w

theorem safe_uploadBlob {i : Nat} {w : BlobWorld L} (host : String) (bearer : Option String)
    (mimeType : String) (bytes : Bytes) :
    BlobSafe lib cfg slib i (UploadPost i)
      (liftTenant (uploadBlob cfg host bearer mimeType bytes)) w := by
  unfold uploadBlob
  split
  · exact fun _ _ _ _ _ _ h => nomatch h
  rename_i did hdid
  split_ifs
  · exact fun _ _ _ _ _ _ h => nomatch h
  · exact fun _ _ _ _ _ _ h => nomatch h
  refine Safe.op_growing fun w₁ _ hinv₁ r s hE => ?_
  obtain ⟨c, hc⟩ := hE
  refine ⟨hinv₁.after (blobStep_exec i hc) (fun _ _ _ _ ho => nomatch ho), ?_⟩
  rcases r with e | u
  · exact fun _ _ _ _ _ _ h => nomatch h
  refine Safe.op_growing fun w₂ hr₂ hinv₂ r' s' hE' => ?_
  obtain ⟨c', hc'⟩ := hE'
  refine ⟨hinv₂.after (blobStep_exec i hc') fun host' did' cid' row' ho => ?_, ?_⟩
  · injection ho with ho
    injection ho with hhost hdid' hcid hrow
    subst hdid' hcid
    exact ⟨i, bytes, hr₂ _ (World.mem_after_log.mpr (Or.inr rfl))⟩
  · rcases r' with e | u
    · exact fun _ _ _ _ _ _ h => nomatch h
    · intro w₃ hr₃ _ cid' mime size hblob
      cases hblob
      exact ⟨host, did, hr₃ _ (World.mem_after_log.mpr (Or.inr rfl))⟩

/-- A request that is no upload. -/
theorem safe_other {p : TenantProg L (TenantReply L)} {i : Nat} {w : BlobWorld L}
    (hp : p.Each fun o => BlobOp.Plain (.tenant o))
    (hnever : ∀ cid mime size, ¬ p.Returns (.blob cid mime size)) :
    BlobSafe lib cfg slib i (UploadPost i)
      (liftTenant p) w := by
  refine Safe.mono (fun x u _ h cid mime size hblob => ?_) (safe_plain (Prog.Each.hoist hp))
  exact absurd (Prog.returns_of_hoist (h _ hblob)) (hnever cid mime size)

theorem each_targetHost (host : String) (bearer : Option String) (call : TenantCall) :
    (targetHost cfg host bearer call).Each fun o => BlobOp.Plain (.tenant o) := by
  unfold targetHost
  split_ifs
  · split
    · trivial
    · refine Prog.Each.bind ?_ fun _ => trivial
      unfold sessionTarget
      dsimp only
      split_ifs
      · refine ⟨trivial, fun r => ?_⟩
        rcases r with e | _ | label <;> trivial
      · trivial
      · trivial
  · trivial

theorem each_tenantRoute (host : String) (bearer : Option String) {call : TenantCall}
    (hcall : ∀ contentType bytes, call ≠ .uploadBlob contentType bytes) :
    (tenantRoute cfg host bearer call).Each (fun o => BlobOp.Plain (.tenant o))
      ∧ ∀ cid mime size, ¬ (tenantRoute cfg host bearer call).Returns (.blob cid mime size) := by
  cases call with
  | uploadBlob contentType bytes => exact absurd rfl (hcall contentType bytes)
  | putPreferences body =>
      rw [tenantRoute, putPreferences]
      cases actingDid cfg bearer with
      | none => exact ⟨trivial, fun _ _ _ h => by cases h⟩
      | some did =>
        refine ⟨⟨trivial, fun r => ?_⟩, ?_⟩
        · rcases r with e | u <;> trivial
        · rintro cid mime size ⟨e | u, h⟩
          · exact h
          · cases h
  | write body call fates =>
      refine ⟨⟨trivial, fun r => trivial⟩, ?_⟩
      rintro cid mime size ⟨r, h⟩
      cases h
  | signin request rnd =>
      refine ⟨⟨trivial, fun r => trivial⟩, ?_⟩
      rintro cid mime size ⟨r, h⟩
      cases h

/-- Refused at the front, or routed. -/
def SentOn (cfg : TenantConfig L) (bearer : Option String) (call : TenantCall)
    (p : TenantProg L (TenantReply L)) : Prop :=
  (∃ r, p = .ret r ∧ ∀ cid mimeType size, r ≠ .blob cid mimeType size)
    ∨ (∃ e, p = .fail e)
    ∨ ∃ host, p = (targetHost cfg host bearer call).bind fun target =>
        tenantRoute cfg target bearer call

theorem sentOn_dispatch (hostHeader : String) (bearer : Option String) (call : TenantCall) :
    SentOn cfg bearer call (dispatch cfg hostHeader bearer call) := by
  unfold SentOn dispatch
  by_cases hempty : (Text.toAsciiLowercase (Text.upTo hostHeader ':')).isEmpty = true
  · simp only [if_pos hempty]
    exact Or.inl ⟨_, rfl, fun _ _ _ h => nomatch h⟩
  simp only [if_neg hempty]
  cases call with
  | uploadBlob contentType bytes =>
      by_cases hlen : bytes.length > maxBlobBytes
      · simp only [if_pos hlen]
        exact Or.inr (Or.inl ⟨_, rfl⟩)
      · simp only [if_neg hlen]
        exact Or.inr (Or.inr ⟨_, rfl⟩)
  | signin request rnd =>
      cases request with
      | deleteAccount => exact Or.inl ⟨_, rfl, fun _ _ _ h => nomatch h⟩
      | _ => exact Or.inr (Or.inr ⟨_, rfl⟩)
  | _ => exact Or.inr (Or.inr ⟨_, rfl⟩)

theorem safe_sentOn {i : Nat} {w : BlobWorld L} (hinv : BlobInv w) {bearer : Option String}
    {call : TenantCall} {p : TenantProg L (TenantReply L)} (hp : SentOn cfg bearer call p) :
    BlobSafe lib cfg slib i (UploadPost i) (liftTenant p) w := by
  rcases hp with ⟨r, rfl, hblob⟩ | ⟨e, rfl⟩ | ⟨host, rfl⟩
  · exact fun _ _ _ cid mime size h => absurd (Except.ok.inj h) (hblob cid mime size)
  · exact fun _ _ _ _ _ _ h => nomatch h
  by_cases hupload : ∃ contentType bytes, call = .uploadBlob contentType bytes
  · obtain ⟨contentType, bytes, rfl⟩ := hupload
    rw [liftTenant, Prog.hoist_bind]
    refine Safe.bind (Safe.mono (fun x u _ _ => ?_)
      (safe_plain (Prog.Each.hoist (each_targetHost host bearer _)))) hinv
    rcases x with e | target
    · exact fun _ _ _ h => nomatch h
    · exact safe_uploadBlob target bearer _ bytes
  · have hother : ∀ contentType bytes, call ≠ .uploadBlob contentType bytes :=
      fun contentType bytes h => hupload ⟨contentType, bytes, h⟩
    refine safe_other ((each_targetHost host bearer call).bind fun target =>
      (each_tenantRoute target bearer hother).1) fun cid mime size h => ?_
    obtain ⟨target, -, h⟩ := Prog.returns_bind.mp h
    exact (each_tenantRoute target bearer hother).2 cid mime size h

theorem safe_tenantHandle {i : Nat} {w : BlobWorld L} (hinv : BlobInv w)
    (q : TenantRequest Keypair) :
    BlobSafe lib cfg slib i (UploadPost i) (liftTenant (tenantHandle lib cfg q)) w := by
  cases q with
  | account hostHeader bearer call =>
      rw [tenantHandle]
      have hsent : SentOn cfg bearer call _ := sentOn_dispatch hostHeader bearer call
      generalize dispatch cfg hostHeader bearer call = p at hsent ⊢
      exact safe_sentOn hinv hsent
  | front q =>
      rw [tenantHandle, frontRequest]
      refine safe_other ?_ fun cid mime size h => ?_
      · exact Prog.Each.bind (Prog.Each.hoist (Prog.each_of_forall (fun _ => trivial) _))
          fun _ => trivial
      · obtain ⟨r, -, h⟩ := Prog.returns_bind.mp h
        cases h

/-! ## What a read is answered -/

/-- The blob that is asked for, by the row and the object that were found. -/
def FoundBy (i : Nat) (cid : Option String) (mimeType : String) (bytes : Bytes) (w : BlobWorld L) :
    Prop :=
  ∃ host did c row, cid = some c ∧ ⟨i, .listAccounts host, .ok (some did)⟩ ∈ w.log
    ∧ ⟨i, .selectBlobRef host did c, .ok (some row)⟩ ∈ w.log ∧ row.mimeType = mimeType
    ∧ ⟨i, .getObject s!"{did}/{c}", .ok (some bytes)⟩ ∈ w.log

/-- The account has no row for it. -/
def MissedBy (i : Nat) (cid : Option String) (w : BlobWorld L) : Prop :=
  ∃ host did c, cid = some c ∧ ⟨i, .listAccounts host, .ok (some did)⟩ ∈ w.log
    ∧ ⟨i, .selectBlobRef host did c, .ok none⟩ ∈ w.log

def ReadPost (i : Nat) (cid : Option String) (x : Except String (BlobReply L)) (w : BlobWorld L) :
    Prop :=
  (∀ mimeType bytes, x = .ok (.bytes mimeType bytes) → FoundBy i cid mimeType bytes w)
    ∧ ∀ msg, x = .ok (.error 404 "BlobNotFound" msg) → MissedBy i cid w

theorem safe_storedBlob {i : Nat} {w : BlobWorld L} {host did : String} (cid : String)
    (haccount : ⟨i, .listAccounts host, .ok (some did)⟩ ∈ w.log) :
    BlobSafe lib cfg slib i (fun x u => (∀ mimeType bytes, x = .ok (some (mimeType, bytes)) →
        FoundBy i (some cid) mimeType bytes u) ∧ (x = .ok none → MissedBy i (some cid) u))
      (storedBlob host did cid) w := by
  refine Safe.op_growing fun w₁ hr₁ hinv₁ r s hE => ?_
  obtain ⟨c, hc⟩ := hE
  have hinv := hinv₁.after (blobStep_exec i hc) (fun _ _ _ _ ho => by cases ho)
  have haccount₁ : ⟨i, .listAccounts host, .ok (some did)⟩
      ∈ (w₁.after i (.selectBlobRef host did cid) r s).log :=
    World.mem_after_log.mpr (Or.inl (hr₁ _ haccount))
  refine ⟨hinv, ?_⟩
  rcases r with e | _ | row
  · exact fun _ _ _ => ⟨fun _ _ h => (by cases h), fun h => by cases h⟩
  · intro u hu _
    refine ⟨fun _ _ h => (by cases h), fun _ => ⟨host, did, cid, rfl, hu _ haccount₁, hu _ ?_⟩⟩
    exact World.mem_after_log.mpr (Or.inr rfl)
  refine Safe.op_growing fun w₂ hr₂ hinv₂ r' s' hE' => ?_
  obtain ⟨c', hc'⟩ := hE'
  refine ⟨hinv₂.after (blobStep_exec i hc') (fun _ _ _ _ ho => by cases ho), ?_⟩
  have hselected := hr₂ _ (World.mem_after_log.mpr (Or.inr rfl))
  rcases r' with e | _ | bytes
  · exact fun _ _ _ => ⟨fun _ _ h => (by cases h), fun h => by cases h⟩
  · -- the row was inserted behind its object, and objects stay
    obtain ⟨e, he, hop⟩ := hinv₂.selected i host did cid row hselected
    obtain ⟨j, bytes, hput⟩ := hinv₂.inserts e he host did cid row hop
    have hthere := hinv₂.put j _ bytes hput
    rw [Table.contains, (blobStep_exec i hc').fetched i _ none rfl] at hthere
    cases hthere
  · intro u hu _
    refine ⟨fun mimeType bytes' h => ?_, fun h => by cases h⟩
    obtain ⟨rfl, rfl⟩ := Prod.mk.injEq .. |>.mp (Option.some.inj (Except.ok.inj h))
    have hearlier : ∀ e ∈ w₂.log, e ∈ u.log := fun e he =>
      hu e (World.mem_after_log.mpr (Or.inl he))
    refine ⟨host, did, cid, row, rfl, hearlier _ (hr₂ _ haccount₁), hearlier _ hselected, rfl, ?_⟩
    exact hu _ (World.mem_after_log.mpr (Or.inr rfl))

theorem each_soleAccount (host : String) :
    (soleAccount host : BlobProg L (Option String)).Each BlobOp.Plain := by
  refine ⟨trivial, fun r => ?_⟩
  rcases r with e | did <;> trivial

theorem each_readTarget (query : Option String) :
    (readTarget cfg query).Each BlobOp.Plain := by
  unfold readTarget
  split
  · trivial
  · split_ifs
    · refine ⟨trivial, fun r => ?_⟩
      rcases r with e | _ | label <;> trivial
    · trivial

theorem FoundBy.mono {i : Nat} {cid : Option String} {mimeType : String} {bytes : Bytes}
    {w u : BlobWorld L} (h : FoundBy i cid mimeType bytes w) (hlog : ∀ e ∈ w.log, e ∈ u.log) :
    FoundBy i cid mimeType bytes u := by
  obtain ⟨host, did, c, row, hcid, haccount, hselected, hmime, hfetched⟩ := h
  exact ⟨host, did, c, row, hcid, hlog _ haccount, hlog _ hselected, hmime, hlog _ hfetched⟩

theorem MissedBy.mono {i : Nat} {cid : Option String} {w u : BlobWorld L} (h : MissedBy i cid w)
    (hlog : ∀ e ∈ w.log, e ∈ u.log) : MissedBy i cid u := by
  obtain ⟨host, did, c, hcid, haccount, hselected⟩ := h
  exact ⟨host, did, c, hcid, hlog _ haccount, hlog _ hselected⟩

theorem safe_getBlob {i : Nat} {w : BlobWorld L} (host : String) (cid : Option String) :
    BlobSafe lib cfg slib i (ReadPost i cid) (getBlob host cid) w := by
  cases cid with
  | none => exact fun _ _ _ => ⟨fun _ _ h => (nomatch h), fun _ h => by simp at h⟩
  | some cid =>
      refine Safe.op_growing fun w₁ _ hinv₁ r s hE => ?_
      obtain ⟨c, hc⟩ := hE
      have hinv := hinv₁.after (blobStep_exec i hc) (fun _ _ _ _ ho => nomatch ho)
      refine ⟨hinv, ?_⟩
      rcases r with e | _ | did
      · exact fun _ _ _ => ⟨fun _ _ h => (nomatch h), fun _ h => nomatch h⟩
      · exact fun _ _ _ => ⟨fun _ _ h => (nomatch h), fun _ h => by simp at h⟩
      change BlobSafe lib cfg slib i _ ((storedBlob host did cid).bind _) _
      refine Safe.bind (Safe.mono (fun x u _ h => ?_)
        (safe_storedBlob cid (World.mem_after_log.mpr (Or.inr rfl)))) hinv
      rcases x with e | _ | ⟨mimeType, bytes⟩
      · exact ⟨fun _ _ h => (nomatch h), fun _ h => nomatch h⟩
      · exact fun u' hu' _ => ⟨fun _ _ h => (nomatch h), fun _ _ => (h.2 rfl).mono hu'⟩
      · refine fun u' hu' _ => ⟨fun mimeType' bytes' hx => ?_, fun _ h => nomatch h⟩
        injection hx with hx
        injection hx with hmime hbytes
        subst hmime hbytes
        exact (h.1 mimeType bytes rfl).mono hu'

theorem each_getBlob (host : String) (cid : Option String) :
    (getBlob host cid : BlobProg L (BlobReply L)).Each BlobOp.Plain := by
  cases cid with
  | none => trivial
  | some cid =>
      refine (each_soleAccount host).bind fun found => ?_
      cases found with
      | none => trivial
      | some did =>
          refine Prog.Each.bind ⟨trivial, fun r => ?_⟩ fun found => ?_
          · rcases r with e | _ | row
            · trivial
            · trivial
            · refine ⟨trivial, fun r => ?_⟩
              rcases r with e | _ | bytes <;> trivial
          · rcases found with _ | ⟨mimeType, bytes⟩ <;> trivial

theorem each_listBlobsAt (host : String) (limit : Option Nat) (cursor : Option String) :
    (listBlobsAt host limit cursor : BlobProg L (BlobReply L)).Each BlobOp.Plain := by
  refine (each_soleAccount host).bind fun found => ?_
  cases found with
  | none => trivial
  | some did =>
      refine ⟨trivial, fun r => ?_⟩
      rcases r with e | cids <;> trivial

/-- A listing gives neither. -/
theorem listBlobsAt_returns {host : String} {limit : Option Nat} {cursor : Option String}
    {r : BlobReply L} (h : (listBlobsAt host limit cursor : BlobProg L (BlobReply L)).Returns r) :
    (∃ cids next, r = .cids cids next) ∨ ∃ msg, r = .error 404 "RepoNotFound" msg := by
  obtain ⟨found, -, h⟩ := Prog.returns_bind.mp h
  cases found with
  | none => exact Or.inr ⟨_, h.symm⟩
  | some did =>
      obtain ⟨e | cids, h⟩ := h
      · exact h.elim
      · exact Or.inl ⟨_, _, h.symm⟩

theorem safe_blobRoute {i : Nat} {w : BlobWorld L} (host : String)
    (query : Option String) (method : BlobMethod) :
    BlobSafe lib cfg slib i (ReadPost i (query.bind fun q => objectParam q "cid"))
      (blobRoute host query method) w := by
  cases method with
  | getBlob => exact safe_getBlob host _
  | listBlobs =>
      refine Safe.mono (fun x u _ h => ?_) (safe_plain (each_listBlobsAt host _ _))
      refine ⟨fun mimeType bytes hx => ?_, fun msg hx => ?_⟩
      · rcases listBlobsAt_returns (h _ hx) with ⟨_, _, hr⟩ | ⟨_, hr⟩ <;> cases hr
      · rcases listBlobsAt_returns (h _ hx) with ⟨_, _, hr⟩ | ⟨_, hr⟩
        · cases hr
        · simp at hr

/-- What a completed request may say. -/
def BlobPost (q : BlobRequest Keypair) (i : Nat) (x : Except String (BlobReply L))
    (w : BlobWorld L) : Prop :=
  match q with
  | .tenant _ => ∀ cid mimeType size, x = .ok (.tenant (.blob cid mimeType size)) →
      StoredBy i cid mimeType size w
  | .read _ _ query => ReadPost i (query.bind fun q => objectParam q "cid") x w

theorem safe_readHandle {i : Nat} {w : BlobWorld L} (hinv : BlobInv w) (host : String)
    (method : BlobMethod) (query : Option String) :
    BlobSafe lib cfg slib i (ReadPost i (query.bind fun q => objectParam q "cid"))
      (readHandle cfg host method query) w := by
  unfold readHandle
  split_ifs
  · exact fun _ _ _ => ⟨fun _ _ h => (nomatch h), fun _ h => nomatch h⟩
  · refine Safe.bind (Safe.mono (fun x u hu _ => ?_) (safe_plain (each_readTarget query))) hinv
    rcases x with e | target
    · exact ⟨fun _ _ h => (nomatch h), fun _ h => nomatch h⟩
    · exact safe_blobRoute _ query method
  · exact safe_blobRoute host query method

theorem safe_blobHandle {i : Nat} {w : BlobWorld L} (hinv : BlobInv w)
    (q : BlobRequest Keypair) :
    BlobSafe lib cfg slib i (BlobPost q i) (blobHandle lib cfg q) w := by
  cases q with
  | read hostHeader method query =>
      rw [blobHandle]
      generalize Text.toAsciiLowercase (Text.upTo hostHeader ':') = host
      exact safe_readHandle hinv host method query
  | tenant q =>
      refine Safe.bind (Safe.mono (fun x u _ h => ?_) (safe_tenantHandle hinv q)) hinv
      rcases x with e | r
      · exact fun _ _ _ h => nomatch h
      · intro u' hu' _ cid mimeType size hx
        injection hx with hx
        injection hx with hx
        obtain ⟨host, did, he⟩ := h cid mimeType size (congrArg Except.ok hx)
        exact ⟨host, did, hu' _ he⟩

/-! ## Whose blobs they are -/

/-- The request uploads the bytes for the account. -/
def BlobRequest.Uploads (cfg : TenantConfig L) (q : BlobRequest Keypair) (did mimeType : String)
    (bytes : Bytes) : Prop :=
  ∃ hostHeader bearer contentType,
    q = .tenant (.account hostHeader bearer (.uploadBlob contentType bytes))
      ∧ actingDid cfg bearer = some did ∧ contentType.getD "application/octet-stream" = mimeType
      ∧ 0 < bytes.length ∧ bytes.length ≤ maxBlobBytes

/-- An object or a row is written by an upload, under its content's CID. -/
def BlobRequest.May (cfg : TenantConfig L) (q : BlobRequest Keypair) : BlobOp L → Prop
  | .tenant (.putObject key bytes) =>
      ∃ did mimeType, q.Uploads cfg did mimeType bytes ∧ key = s!"{did}/{cfg.blobCid bytes}"
  | .tenant (.insertBlobRef _ did cid row) =>
      ∃ bytes, q.Uploads cfg did row.mimeType bytes ∧ cid = cfg.blobCid bytes
  | _ => True

theorem BlobOp.Plain.may {o : BlobOp L} (ho : o.Plain) (q : BlobRequest Keypair) : q.May cfg o := by
  match o with
  | .tenant (.putObject _ _) => exact ho.elim
  | .tenant (.insertBlobRef _ _ _ _) => exact ho.elim
  | .tenant (.front _) => trivial
  | .tenant (.resolveDid _) => trivial
  | .tenant (.upsertPreferences _ _ _) => trivial
  | .tenant (.write _ _ _ _ _) => trivial
  | .tenant (.signin _ _ _) => trivial
  | .listAccounts _ => trivial
  | .selectBlobRef _ _ _ => trivial
  | .getObject _ => trivial
  | .selectCids _ _ _ _ => trivial

theorem may_uploadBlob (hostHeader host : String) (bearer contentType : Option String)
    (bytes : Bytes) :
    (liftTenant
      (uploadBlob cfg host bearer (contentType.getD "application/octet-stream") bytes)).Each
      ((BlobRequest.tenant (.account hostHeader bearer (.uploadBlob contentType bytes)) :
        BlobRequest Keypair).May cfg) := by
  unfold uploadBlob
  split
  · trivial
  rename_i did hdid
  split_ifs with hempty hlen
  · trivial
  · trivial
  have huploads : (BlobRequest.tenant (.account hostHeader bearer (.uploadBlob contentType bytes)) :
      BlobRequest Keypair).Uploads cfg did (contentType.getD "application/octet-stream") bytes := by
    refine ⟨hostHeader, bearer, contentType, rfl, hdid, rfl, ?_, Nat.le_of_not_lt hlen⟩
    exact List.length_pos_of_ne_nil fun h => hempty (by rw [h]; rfl)
  refine ⟨⟨did, _, huploads, rfl⟩, fun r => ?_⟩
  rcases r with e | u
  · trivial
  refine ⟨⟨bytes, huploads, rfl⟩, fun r => ?_⟩
  rcases r with e | u <;> trivial

theorem may_sentOn (hostHeader : String) {bearer : Option String} {call : TenantCall}
    {p : TenantProg L (TenantReply L)} (hp : SentOn cfg bearer call p) :
    (liftTenant p).Each
      ((BlobRequest.tenant (.account hostHeader bearer call) : BlobRequest Keypair).May cfg) := by
  rcases hp with ⟨r, rfl, -⟩ | ⟨e, rfl⟩ | ⟨host, rfl⟩
  · trivial
  · trivial
  rw [liftTenant, Prog.hoist_bind]
  refine Prog.Each.bind ((Prog.Each.hoist (each_targetHost host bearer call)).mono
    fun _ ho => ho.may _) fun target => ?_
  by_cases hupload : ∃ contentType bytes, call = .uploadBlob contentType bytes
  · obtain ⟨contentType, bytes, rfl⟩ := hupload
    exact may_uploadBlob hostHeader target bearer contentType bytes
  · refine (Prog.Each.hoist (each_tenantRoute target bearer ?_).1).mono fun _ ho => ho.may _
    exact fun contentType bytes h => hupload ⟨contentType, bytes, h⟩

theorem may_blobHandle (q : BlobRequest Keypair) : (blobHandle lib cfg q).Each (q.May cfg) := by
  cases q with
  | read hostHeader method query =>
      rw [blobHandle]
      generalize Text.toAsciiLowercase (Text.upTo hostHeader ':') = host
      have hroute : ∀ target, (blobRoute target query method : BlobProg L _).Each BlobOp.Plain := by
        intro target
        cases method with
        | listBlobs => exact each_listBlobsAt target _ _
        | getBlob => exact each_getBlob target _
      refine Prog.Each.mono (fun _ ho => BlobOp.Plain.may ho _) (P := BlobOp.Plain) ?_
      unfold readHandle
      split_ifs
      · trivial
      · exact (each_readTarget query).bind fun _ => hroute _
      · exact hroute host
  | tenant q =>
      refine Prog.Each.bind ?_ fun _ => trivial
      cases q with
      | front q =>
          rw [tenantHandle, frontRequest, liftTenant, Prog.hoist_bind]
          refine Prog.Each.bind (Prog.Each.hoist (Prog.Each.hoist (Prog.each_of_forall ?_ _)))
            fun _ => trivial
          exact fun _ => trivial
      | account hostHeader bearer call =>
          rw [tenantHandle]
          have hsent : SentOn cfg bearer call _ := sentOn_dispatch hostHeader bearer call
          generalize dispatch cfg hostHeader bearer call = p at hsent ⊢
          exact may_sentOn hostHeader hsent

/-! ## Every run -/

/-- The key of an object, where a CID has no slash. -/
theorem objectKey_inj {did other cid c : String} (h : '/' ∉ cid.toList) (hc : '/' ∉ c.toList)
    (heq : s!"{did}/{cid}" = s!"{other}/{c}") : did = other ∧ cid = c := by
  have hkey : ∀ d x : String, s!"{d}/{x}".toList.reverse
      = x.toList.reverse ++ '/' :: d.toList.reverse := fun d x => by
    have hsep : "/".toList = ['/'] := by decide
    simp only [toString, String.toList_append, hsep, List.reverse_append, List.append_assoc,
      List.reverse_cons, List.singleton_append]
  have hchars := congrArg (fun s : String => s.toList.reverse) heq
  simp only [hkey] at hchars
  have hreverse : cid.toList.reverse = c.toList.reverse := by
    rw [← Text.takeWhile_append_cons (mt List.mem_reverse.mp h), hchars,
      Text.takeWhile_append_cons (mt List.mem_reverse.mp hc)]
  obtain rfl : cid = c := String.toList_inj.mp (List.reverse_inj.mp hreverse)
  rw [List.append_cancel_left_eq] at hchars
  exact ⟨String.toList_inj.mp (List.reverse_inj.mp (List.cons.inj hchars).2), rfl⟩

/-- What the readers of blobs may rely on: bytes and type are those of
uploads for the account, and no blob is missing without a wipe. -/
structure BlobsServed (cfg : TenantConfig L) (P : BlobPool L Keypair) : Prop where
  /-- A row has its object. -/
  kept : ∀ host did cid row, (P.store.refs host).get (did, cid) = some row →
    ∃ bytes, P.store.bucket.get s!"{did}/{cid}" = some bytes ∧ cfg.blobCid bytes = cid
  /-- What is served was asked for, and was uploaded for the account. -/
  served : ∀ (i : Nat) hostHeader method query mimeType bytes,
    P.tasks[i]? = some (.read hostHeader method query, .ret (.bytes mimeType bytes)) →
    ∃ host did cid, (query.bind fun q => objectParam q "cid") = some cid
      ∧ cfg.blobCid bytes = cid ∧ ⟨i, .listAccounts host, .ok (some did)⟩ ∈ P.log
      ∧ (∃ (j : Nat) (q : BlobRequest Keypair) (p : BlobProg L (BlobReply L)) (m : String),
          P.tasks[j]? = some (q, p) ∧ q.Uploads cfg did m bytes)
      ∧ ∃ (j : Nat) (q : BlobRequest Keypair) (p : BlobProg L (BlobReply L)) (b : Bytes),
          P.tasks[j]? = some (q, p) ∧ q.Uploads cfg did mimeType b ∧ cfg.blobCid b = cid
  /-- An upload that is answered has its row. -/
  stored : ∀ (i : Nat) q cid mimeType size,
    P.tasks[i]? = some (.tenant q, .ret (.tenant (.blob cid mimeType size))) →
    ∃ host did bytes,
      ⟨i, .tenant (.insertBlobRef host did cid ⟨mimeType, size⟩), .ok ()⟩ ∈ P.log
        ∧ (BlobRequest.tenant q).Uploads cfg did mimeType bytes ∧ cfg.blobCid bytes = cid
  /-- What is missed was never stored, or a wipe was called since. -/
  missed : ∀ (i : Nat) hostHeader method query msg,
    P.tasks[i]? = some (.read hostHeader method query, .ret (.error 404 "BlobNotFound" msg)) →
    ∃ host did cid l l', (query.bind fun q => objectParam q "cid") = some cid
      ∧ P.log = l ++ ⟨i, .selectBlobRef host did cid, .ok none⟩ :: l' ∧ Gone host did cid l

variable {registry : Registry} {as : List (PoolAct (BlobRequest Keypair) Fate)}
  {P : BlobPool L Keypair}

theorem good_blobs
    (hrun : Steps.run (blobStep lib cfg slib) (Pool.init (Deployment.empty L registry)) as
      = some P) :
    Pool.Good (.growing BlobInv) (BlobExec lib cfg slib) BlobPost P := by
  refine Pool.good_run (fun q i w hinv _ => safe_blobHandle hinv q) (blobInv_empty registry) ?_ hrun
  exact Steps.along_of_forall fun P a => by
    cases a with
    | start q => trivial
    | step i c => exact fun _ _ _ _ _ _ h => ⟨c, h⟩

/-- An object that was put is one of an upload. -/
theorem uploads_of_put
    (hrun : Steps.run (blobStep lib cfg slib) (Pool.init (Deployment.empty L registry)) as
      = some P) {e : BlobEvent L} (he : e ∈ P.log) {key : String} {bytes : Bytes}
    (hop : e.op = .tenant (.putObject key bytes)) :
    ∃ (j : Nat) (q : BlobRequest Keypair) (p : BlobProg L (BlobReply L)) (did m : String),
      P.tasks[j]? = some (q, p) ∧ q.Uploads cfg did m bytes
        ∧ key = s!"{did}/{cfg.blobCid bytes}" := by
  obtain ⟨q, p, hq, hmay⟩ := (Pool.obeys_run may_blobHandle hrun).2 e he
  rw [hop] at hmay
  obtain ⟨did, m, huploads, hkey⟩ := hmay
  exact ⟨e.tid, q, p, did, m, hq, huploads, hkey⟩

/-- So is a row. -/
theorem uploads_of_insert
    (hrun : Steps.run (blobStep lib cfg slib) (Pool.init (Deployment.empty L registry)) as
      = some P) {e : BlobEvent L} (he : e ∈ P.log) {host did cid : String} {row : BlobRow}
    (hop : e.op = .tenant (.insertBlobRef host did cid row)) :
    ∃ (q : BlobRequest Keypair) (p : BlobProg L (BlobReply L)) (bytes : Bytes),
      P.tasks[e.tid]? = some (q, p) ∧ q.Uploads cfg did row.mimeType bytes
        ∧ cid = cfg.blobCid bytes := by
  obtain ⟨q, p, hq, hmay⟩ := (Pool.obeys_run may_blobHandle hrun).2 e he
  rw [hop] at hmay
  obtain ⟨bytes, huploads, hcid⟩ := hmay
  exact ⟨q, p, bytes, hq, huploads, hcid⟩

/-- **Blobs are served as they were stored**, in every run of the
deployment, whatever is interleaved and whichever calls fail, before their
effect or after it. -/
theorem blobs_served (hcid : ∀ bytes, '/' ∉ (cfg.blobCid bytes).toList)
    (hrun : Steps.run (blobStep lib cfg slib) (Pool.init (Deployment.empty L registry)) as
      = some P) : BlobsServed cfg P := by
  have hgood := good_blobs hrun
  have hinv : BlobInv P.toWorld := hgood.1
  have hnoslash : ∀ {e : BlobEvent L}, e ∈ P.log → ∀ {host did cid : String} {row : BlobRow},
      e.op = .tenant (.insertBlobRef host did cid row) → '/' ∉ cid.toList := by
    intro e he host did cid row hop
    obtain ⟨q, p, bytes, -, -, rfl⟩ := uploads_of_insert hrun he hop
    exact hcid bytes
  -- the object under a row's key has the row's CID
  have hcontent : ∀ {e : BlobEvent L}, e ∈ P.log → ∀ {did cid : String} {bytes : Bytes},
      e.op = .tenant (.putObject s!"{did}/{cid}" bytes) → '/' ∉ cid.toList →
      cfg.blobCid bytes = cid ∧ ∃ (j : Nat) (q : BlobRequest Keypair)
        (p : BlobProg L (BlobReply L)) (m : String),
        P.tasks[j]? = some (q, p) ∧ q.Uploads cfg did m bytes := by
    intro e he did cid bytes hop hslash
    obtain ⟨j, q, p, other, m, hq, huploads, hkey⟩ := uploads_of_put hrun he hop
    obtain ⟨rfl, rfl⟩ := objectKey_inj hslash (hcid bytes) hkey
    exact ⟨rfl, j, q, p, m, hq, huploads⟩
  refine ⟨fun host did cid row hrow => ?_, ?_, ?_, ?_⟩
  · obtain ⟨e, he, hop⟩ := hinv.rows host did cid row hrow
    obtain ⟨j, bytes₀, hput⟩ := hinv.inserts e he host did cid row hop
    obtain ⟨bytes, hbytes⟩ := Table.contains_iff.mp (hinv.put j _ bytes₀ hput)
    obtain ⟨e', he', hop'⟩ := hinv.objects _ bytes hbytes
    exact ⟨bytes, hbytes, (hcontent he' hop' (hnoslash he hop)).1⟩
  · intro i hostHeader method query mimeType bytes hi
    obtain ⟨host, did, cid, row, hasked, haccount, hselected, rfl, hfetched⟩ :=
      (hgood.post_ok hi).1 mimeType bytes rfl
    obtain ⟨e, he, hop⟩ := hinv.selected i host did cid row hselected
    obtain ⟨e', he', hop'⟩ := hinv.fetched i _ bytes hfetched
    obtain ⟨hbytes, hup⟩ := hcontent he' hop' (hnoslash he hop)
    obtain ⟨q, p, b, hq, huploads, hb⟩ := uploads_of_insert hrun he hop
    exact ⟨host, did, cid, hasked, hbytes, haccount, hup, _, q, p, b, hq, huploads, hb.symm⟩
  · intro i q cid mimeType size hi
    obtain ⟨host, did, he⟩ := hgood.post_ok hi cid mimeType size rfl
    obtain ⟨q', p, bytes, hq', huploads, hb⟩ := uploads_of_insert hrun he rfl
    obtain ⟨rfl, -⟩ := Prod.mk.injEq .. |>.mp (Option.some.inj (hq'.symm.trans hi))
    exact ⟨host, did, bytes, he, huploads, hb.symm⟩
  · intro i hostHeader method query msg hi
    obtain ⟨host, did, cid, hasked, -, hselected⟩ := (hgood.post_ok hi).2 msg rfl
    obtain ⟨l, l', hlog⟩ := List.append_of_mem hselected
    exact ⟨host, did, cid, l, l', hasked, hlog, hinv.missed i host did cid l l' hlog⟩

end

/-! ## A picture -/

/-- A signup, an upload on the account's host, and a read of it on the
shared host. -/
def uploadAndRead : List (PoolAct (BlobRequest Nat) Fate) :=
  .start (.tenant (.front (sampleSignup "alice" 1))) :: List.replicate 12 (.step 0 .done)
    ++ [.start (.tenant (.account "alice.pds.test" (some ("access:" ++ sampleDid "alice" ++ ":0"))
        (.uploadBlob (some "image/png") [1, 2, 3]))), .step 1 .done, .step 1 .done,
      .start (.read "pds.test" .getBlob (some "did=alice.pds.test&cid=bafkrei")),
      .step 2 .done, .step 2 .done, .step 2 .done]

def servedBytes (P : BlobPool sampleRepo Nat) (i : Nat) : Option (String × Bytes) :=
  P.tasks[i]?.bind fun t => match t.2 with
    | .ret (.bytes mimeType bytes) => some (mimeType, bytes)
    | _ => none

theorem picture_served : ∃ P,
    Steps.run (blobStep sampleFrontLib sampleTenants sampleSignin)
      (Pool.init (Deployment.empty sampleRepo ⟨.empty, .empty⟩)) uploadAndRead = some P
    ∧ servedBytes P 2 = some ("image/png", [1, 2, 3]) ∧ BlobsServed sampleTenants P := by
  have hend : (Steps.run (blobStep sampleFrontLib sampleTenants sampleSignin)
      (Pool.init (Deployment.empty sampleRepo ⟨.empty, .empty⟩)) uploadAndRead).bind
      (servedBytes · 2) = some ("image/png", [1, 2, 3]) := by decide +kernel
  obtain ⟨P, hrun, hP⟩ := Option.bind_eq_some_iff.mp hend
  exact ⟨P, hrun, hP, blobs_served (fun _ => (by decide : '/' ∉ "bafkrei".toList)) hrun⟩

end Worker

end Stelyph
