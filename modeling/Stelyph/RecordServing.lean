import Stelyph.RepoClosed
import Stelyph.XrpcHandlers

/-!
# The store calls of the record handlers

The record handlers are written over the calls they make: look a record
up, load the signing key, `apply_one`. Here `apply_one` is taken apart
into the writer's own store calls (`expand`), so that a handler stops
wherever the source has an await on the store.

A lookup stays one operation. It reads the root once, and everything it
reads after that are blocks under that root, which never change.
-/

namespace Stelyph

section

variable {L : RepoLib} {ε : Type}

inductive RecordOp (L : RepoLib) where
  | writer (o : WriterOp L)
  | loadSigningKey (did : String)
  | lookupRecordCid (did key : String)
  /-- A call that no record handler makes. -/
  | other (o : XrpcOp L)

/-- A lookup fails in its server's way. -/
abbrev RecordOp.Ret (ε : Type) : RecordOp L → Type
  | .writer o => o.Ret
  | .loadSigningKey _ => Except String L.Key
  | .lookupRecordCid _ _ => Except ε (Option L.Cid)
  | .other o => o.Ret

abbrev recordSig (L : RepoLib) (ε : Type) : Sig := ⟨RecordOp L, RecordOp.Ret ε⟩

abbrev RecordProg (L : RepoLib) := Prog (recordSig L XrpcError) XrpcError

/-- The key store, what a lookup answers, and what it answers when one of
its reads fails. -/
structure RecordEnv (L : RepoLib) (ε : Type) where
  key : String → Except String L.Key
  lookup : RepoStore L → String → String → Except ε (Option L.Cid)
  lookupFault : String → Nat → ε

/-- One operation of an endpoint on the store, with its outcome. What is
not a call of the writer is answered by the environment. -/
def RecordOp.exec (env : RecordEnv L ε) (i : Nat) (s : RepoStore L) :
    (o : RecordOp L) → WriterFate → Option (o.Ret ε × RepoStore L)
  | .writer o, c => o.exec i s c
  | .loadSigningKey did, .done => some (env.key did, s)
  | .loadSigningKey _, .fault msg _ => some (.error msg, s)
  | .lookupRecordCid did key, .done => some (env.lookup s did key, s)
  | .lookupRecordCid _ _, .fault msg part => some (.error (env.lookupFault msg part), s)
  | .other _, _ => none

/-- The writer's program in the place of a handler's call. -/
def liftWriter {ε' α : Type} : Prog (writerSig L) ε' α → Prog (recordSig L ε) ε' α
  | .ret a => .ret a
  | .fail e => .fail e
  | .op o k => .op (.writer o) fun r => liftWriter (k r)

/-- A handler with its calls taken apart; `draws n` is what the `n`-th
write reads from the clock. -/
def expand {α : Type} (draws : Nat → WriteDraw) : Nat → XrpcProg L α → RecordProg L α
  | _, .ret a => .ret a
  | _, .fail e => .fail e
  | n, .op (.applyOne w op) k =>
      (liftWriter (applyOne w op (draws n))).attempt.bind fun r => expand draws (n + 1) (k r)
  | n, .op (.loadSigningKey did) k => .op (.loadSigningKey did) fun r => expand draws n (k r)
  | n, .op (.lookupRecordCid did key) k =>
      .op (.lookupRecordCid did key) fun r => expand draws n (k r)
  | n, .op (.oauth o) k => .op (.other (.oauth o)) fun r => expand draws n (k r)
  | n, .op (.putBlob did cid mimeType size bytes) k =>
      .op (.other (.putBlob did cid mimeType size bytes)) fun r => expand draws n (k r)
  | n, .op (.resolveService did fragment) k =>
      .op (.other (.resolveService did fragment)) fun r => expand draws n (k r)
  | n, .op (.mintServiceAuthJwt key iss aud lxm) k =>
      .op (.other (.mintServiceAuthJwt key iss aud lxm)) fun r => expand draws n (k r)
  | n, .op (.proxyRequest q) k => .op (.other (.proxyRequest q)) fun r => expand draws n (k r)

/-! ## Lookups -/

/-- `Tree::get` on the tree at a root. -/
abbrev TreeGet (L : RepoLib) :=
  (L.Cid → Option L.Block) → L.Cid → String → Except String (Option L.Cid)

/-- What the code relies on in `get`: it answers what the tree holds. -/
def TreeGetLaws (view : TreeView L) (treeGet : TreeGet L) : Prop :=
  ∀ f root m key, view f root = some m → treeGet f root key = .ok (m key)

/-- `Repository::open` at the stored root, and a key of its tree; the
texts are of the library's errors. -/
def treeLookup (treeGet : TreeGet L) (openErr getErr : String → ε) (s : RepoStore L)
    (did key : String) : Except ε (Option L.Cid) :=
  match s.roots.get did with
  | none => .ok none
  | some root =>
      match s.blocks.get root with
      | none => .error (openErr StorageError.blockNotFound.display)
      | some block =>
          match L.decodeCommit block with
          | .error e => .error (openErr e)
          | .ok commit => (treeGet s.blocks.get commit.data key).mapError getErr

/-- The axum server's `lookup_record_cid`, with the texts of its errors. -/
def axumEnv (key : String → Except String L.Key) (treeGet : TreeGet L) :
    RecordEnv L XrpcError where
  key := key
  lookup := treeLookup treeGet (fun e => .internal s!"failed to open repo: {e}")
    fun e => .internal s!"MST get error: {e}"
  lookupFault msg
    | 0 => .ofStorage (.backend msg)
    | 1 => .internal s!"failed to open repo: {msg}"
    | _ => .internal s!"MST get error: {msg}"

/-- The embedded server's, which leaves the library's text out. -/
def embeddedEnv (key : String → Except String L.Key) (treeGet : TreeGet L) :
    RecordEnv L XrpcError where
  key := key
  lookup := treeLookup treeGet (fun _ => .internal "failed to open repo")
    fun _ => .internal "MST get error"
  lookupFault _
    | 0 => .internal "store error"
    | 1 => .internal "failed to open repo"
    | _ => .internal "MST get error"

theorem treeLookup_eq {view : TreeView L} {treeGet : TreeGet L} (hG : TreeGetLaws view treeGet)
    {s : RepoStore L} {did : String} {m : RecordMap L} (h : mapOf view s did = some m)
    (openErr getErr : String → ε) (key : String) :
    treeLookup treeGet openErr getErr s did key = .ok (m key) := by
  rw [mapOf] at h
  rw [treeLookup]
  split
  · rename_i hroot
    rw [hroot] at h
    obtain rfl := Option.some.inj h
    rfl
  · rename_i root hroot
    rw [hroot] at h
    obtain ⟨cm, hcm, hview⟩ := Option.bind_eq_some_iff.mp h
    obtain ⟨block, hblock, hdec⟩ := Option.bind_eq_some_iff.mp hcm
    cases hd : L.decodeCommit block with
    | error e =>
        rw [hd] at hdec
        cases hdec
    | ok commit =>
        rw [hd] at hdec
        obtain rfl := Option.some.inj hdec
        simp only [hblock, hd, hG _ _ _ key hview]
        rfl

/-! ## Running a lifted program -/

/-- The writer's program comes out inside a handler as it does alone. -/
theorem against_liftWriter {env : RecordEnv L ε} {ε' α β : Type}
    {f : Except RepoError α → Prog (recordSig L ε) ε' β} {x : Except RepoError α}
    {t : RepoStore L} {cs' : List WriterFate} :
    ∀ {p : RepoProg L α} {s : RepoStore L} {cs : List WriterFate},
      p.against writerExec s cs = some (x, t) →
      ((liftWriter p).attempt.bind f).against (RecordOp.exec env 0) s (cs ++ cs')
        = (f x).against (RecordOp.exec env 0) t cs'
  | .ret _, s, cs, h => by
      cases cs with
      | nil =>
          obtain ⟨rfl, rfl⟩ := Prod.mk.injEq .. |>.mp (Option.some.inj h)
          rfl
      | cons c cs => cases h
  | .fail _, s, cs, h => by
      cases cs with
      | nil =>
          obtain ⟨rfl, rfl⟩ := Prod.mk.injEq .. |>.mp (Option.some.inj h)
          rfl
      | cons c cs => cases h
  | .op o k, s, cs, h => by
      cases cs with
      | nil => cases h
      | cons c cs =>
          obtain ⟨⟨r, u⟩, hexec, hrest⟩ := Option.bind_eq_some_iff.mp h
          have hexec' : RecordOp.exec env 0 s (.writer o) c = some (r, u) := hexec
          simp only [liftWriter, Prog.attempt, Prog.op_bind, List.cons_append, Prog.against,
            hexec', Option.bind_some]
          exact against_liftWriter hrest

/-- Nobody else is there, and no store call fails. -/
def quietExec (env : RecordEnv L ε) (s : RepoStore L) (o : RecordOp L) :
    Option (o.Ret ε × RepoStore L) :=
  RecordOp.exec env 0 s o .done

theorem alone_liftWriter {env : RecordEnv L ε} {ε' α β : Type}
    {f : Except RepoError α → Prog (recordSig L ε) ε' β} {x : Except RepoError α}
    {t : RepoStore L} :
    ∀ {p : RepoProg L α} {s : RepoStore L}, p.alone soloExec s = some (x, t) →
      ((liftWriter p).attempt.bind f).alone (S := recordSig L ε) (quietExec env) s
        = (f x).alone (S := recordSig L ε) (quietExec env) t
  | .ret _, _, h => by
      obtain ⟨rfl, rfl⟩ := Prod.mk.injEq .. |>.mp (Option.some.inj h)
      rfl
  | .fail _, _, h => by
      obtain ⟨rfl, rfl⟩ := Prod.mk.injEq .. |>.mp (Option.some.inj h)
      rfl
  | .op o k, s, h => by
      obtain ⟨⟨r, u⟩, hexec, hrest⟩ := Option.bind_eq_some_iff.mp h
      have hexec' : quietExec env s (.writer o) = some (r, u) := hexec
      exact (Prog.alone_op hexec').trans (alone_liftWriter hrest)

abbrev RecordYields {ε' α : Type} (env : RecordEnv L ε) (p : Prog (recordSig L ε) ε' α)
    (s : RepoStore L) (post : Except ε' α → RepoStore L → Prop) : Prop :=
  Prog.Yields (S := recordSig L ε) (RecordOp.exec env 0) p s post

/-- An operation that reads. -/
def RecordOp.Reading : RecordOp L → Prop
  | .loadSigningKey _ | .lookupRecordCid _ _ => True
  | _ => False

theorem RecordOp.Reading.kept {env : RecordEnv L ε} {o : RecordOp L} (ho : o.Reading) {i : Nat}
    {s t : RepoStore L} {c : WriterFate} {r : o.Ret ε}
    (h : RecordOp.exec env i s o c = some (r, t)) : t = s := by
  cases o with
  | writer | other => exact ho.elim
  | loadSigningKey | lookupRecordCid =>
      cases c with
      | done | fault => exact (Prod.mk.injEq .. |>.mp (Option.some.inj h)).2.symm

/-- A program of reads leaves the store alone. -/
theorem yields_reading {env : RecordEnv L ε} {ε' α : Type} {p : Prog (recordSig L ε) ε' α}
    (hp : p.Each RecordOp.Reading) (s : RepoStore L) : RecordYields env p s fun _ t => t = s :=
  hp.yields (R := fun s t => t = s) (fun _ => rfl) (fun _ _ _ h h' => h'.trans h)
    fun _ _ _ _ _ ho h => ho.kept h

/-- A handler that only reads at first goes on where it started. -/
theorem yields_front {env : RecordEnv L ε} {ε' α β : Type} {p : Prog (recordSig L ε) ε' α}
    {f : α → Prog (recordSig L ε) ε' β} {s : RepoStore L}
    {post : Except ε' β → RepoStore L → Prop} (hp : p.Each RecordOp.Reading)
    (hok : ∀ a, p.Returns a → RecordYields env (f a) s post) (herr : ∀ e, post (.error e) s) :
    RecordYields env (p.bind f) s post := by
  refine Prog.Yields.bind ?_ ?_ ((yields_reading hp s).and Prog.yields_returns)
  · rintro a t ⟨rfl, hret⟩
    exact hok a (hret a rfl)
  · rintro e t ⟨rfl, -⟩
    exact herr e

/-- What holds of the writer's program however its calls come out, holds
of it inside a handler. -/
theorem yields_liftWriter {env : RecordEnv L ε} {ε' α β : Type}
    {mid : Except RepoError α → RepoStore L → Prop}
    {f : Except RepoError α → Prog (recordSig L ε) ε' β}
    {post : Except ε' β → RepoStore L → Prop} (hf : ∀ x t, mid x t → RecordYields env (f x) t post) :
    ∀ {p : RepoProg L α} {s : RepoStore L}, RepoYields p s mid →
      RecordYields env ((liftWriter p).attempt.bind f) s post
  | .ret _, s, h => hf _ s h
  | .fail _, s, h => hf _ s h
  | .op _ _, _, h => fun c r t hexec => yields_liftWriter hf (h c r t hexec)

end

def sampleTreeGet : TreeGet sampleRepo := fun f root key =>
  match f root with
  | none => .error "CidNotFound"
  | some node => .ok (SampleBlock.lookup key node)

theorem sampleTreeGet_laws : TreeGetLaws sampleView sampleTreeGet := by
  intro f root m key h
  obtain ⟨node, hnode, rfl⟩ := Option.map_eq_some_iff.mp h
  rw [sampleTreeGet, hnode]

end Stelyph
