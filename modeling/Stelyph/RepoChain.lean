import Stelyph.RepoBlocks

/-!
# Commit chains

The commits of a repository, read two ways. `PrevChain` follows `prev`
from a commit to the end, through the blocks alone. `History` reads the
event rows in the order they were written, and says how each commit
hangs on the one before it. The two agree (`History.chain`), and a chain
never meets itself.
-/

namespace Stelyph

/-! ## Chains -/

section

variable {L : RepoLib}

/-- `l` is what one gets by following `prev` from `c` to its end. -/
inductive PrevChain (f : L.Cid → Option L.Block) : L.Cid → List L.Cid → Prop where
  | stop {c : L.Cid} {cm : SignedCommit L.Cid} (hc : commitAt f c = some cm)
      (hprev : cm.prev = none) : PrevChain f c [c]
  | step {c p : L.Cid} {cm : SignedCommit L.Cid} {l : List L.Cid}
      (hc : commitAt f c = some cm) (hprev : cm.prev = some p) (hl : PrevChain f p l) :
      PrevChain f c (c :: l)

theorem PrevChain.unique {f : L.Cid → Option L.Block} {c : L.Cid} {l l' : List L.Cid}
    (h : PrevChain f c l) (h' : PrevChain f c l') : l = l' := by
  induction h generalizing l' with
  | stop hc hprev =>
      cases h' with
      | stop => rfl
      | step hc' hprev' _ =>
          obtain rfl := Option.some.inj (hc.symm.trans hc')
          rw [hprev] at hprev'
          cases hprev'
  | step hc hprev _ ih =>
      cases h' with
      | stop hc' hprev' =>
          obtain rfl := Option.some.inj (hc.symm.trans hc')
          rw [hprev] at hprev'
          cases hprev'
      | step hc' hprev' hl' =>
          obtain rfl := Option.some.inj (hc.symm.trans hc')
          rw [hprev] at hprev'
          obtain rfl := Option.some.inj hprev'
          rw [ih hl']

theorem PrevChain.mono {f g : L.Cid → Option L.Block} (hle : BlocksLe f g) {c : L.Cid}
    {l : List L.Cid} (h : PrevChain f c l) : PrevChain g c l := by
  induction h with
  | stop hc hprev => exact .stop (commitAt_mono hle hc) hprev
  | step hc hprev _ ih => exact .step (commitAt_mono hle hc) hprev ih

theorem PrevChain.head {f : L.Cid → Option L.Block} {c : L.Cid} {l : List L.Cid}
    (h : PrevChain f c l) : ∃ tail, l = c :: tail := by
  cases h with
  | stop => exact ⟨[], rfl⟩
  | step => exact ⟨_, rfl⟩

/-- The predecessor of a commit in a chain comes after it. -/
theorem PrevChain.prev_mem_tail {f : L.Cid → Option L.Block} {c x q : L.Cid}
    {l : List L.Cid} {cm : SignedCommit L.Cid} (h : PrevChain f c l) (hx : x ∈ l)
    (hcm : commitAt f x = some cm) (hq : cm.prev = some q) : q ∈ l.tail := by
  induction h with
  | stop hc hprev =>
      obtain rfl := List.mem_singleton.mp hx
      obtain rfl := Option.some.inj (hc.symm.trans hcm)
      rw [hprev] at hq
      cases hq
  | step hc hprev hl ih =>
      rcases List.mem_cons.mp hx with rfl | hx
      · obtain rfl := Option.some.inj (hc.symm.trans hcm)
        rw [hprev] at hq
        obtain rfl := Option.some.inj hq
        obtain ⟨tail, rfl⟩ := hl.head
        exact List.mem_cons_self
      · exact List.mem_of_mem_tail (ih hx)

/-- A commit that points to the head of a chain is not in it. -/
theorem PrevChain.not_mem {f : L.Cid → Option L.Block} {c p : L.Cid} {l : List L.Cid}
    {cm : SignedCommit L.Cid} (h : PrevChain f p l) (hl : l.Nodup)
    (hcm : commitAt f c = some cm) (hprev : cm.prev = some p) : c ∉ l := by
  intro hc
  have hp := h.prev_mem_tail hc hcm hprev
  obtain ⟨tail, rfl⟩ := h.head
  exact (List.nodup_cons.mp hl).1 hp

/-- A chain from any of its commits on. -/
theorem PrevChain.from_mem {f : L.Cid → Option L.Block} {c x : L.Cid} {l pre post : List L.Cid}
    (h : PrevChain f c l) (hl : l = pre ++ x :: post) : PrevChain f x (x :: post) := by
  induction h generalizing pre with
  | stop hc hprev =>
      rcases pre with _ | ⟨y, pre⟩
      · obtain ⟨rfl, rfl⟩ := List.cons.inj hl
        exact .stop hc hprev
      · have hlen := congrArg List.length hl
        simp at hlen
  | step hc hprev hrest ih =>
      rcases pre with _ | ⟨y, pre⟩
      · obtain ⟨rfl, rfl⟩ := List.cons.inj hl
        exact .step hc hprev hrest
      · exact ih (List.cons.inj hl).2

/-! ## Histories -/

/-- The commit an event row announces. -/
def announced (row : SeqRow L.Event) : Option L.Cid :=
  (L.decodeBody row.event).toOption.map fun b => b.commit

/-- How the event rows of a repository and its root hang together. The
first commit chains from one that was never a root and says nothing of
it; every later one chains from the root before it, and names its rev. -/
inductive History (f : L.Cid → Option L.Block) : List (SeqRow L.Event) → Option L.Cid → Prop where
  | empty : History f [] none
  | first {row : SeqRow L.Event} {body : CommitBody L.Cid L.Car} {c g : SignedCommit L.Cid}
      {p : L.Cid} (hbody : L.decodeBody row.event = .ok body)
      (hc : commitAt f body.commit = some c) (hrev : body.rev = c.rev)
      (hprev : c.prev = some p) (hg : commitAt f p = some g) (hend : g.prev = none)
      (hsince : body.since = none) : History f [row] (some body.commit)
  | next {rows : List (SeqRow L.Event)} {row : SeqRow L.Event} {p : L.Cid}
      {body : CommitBody L.Cid L.Car} {c g : SignedCommit L.Cid}
      (hrows : History f rows (some p)) (hbody : L.decodeBody row.event = .ok body)
      (hc : commitAt f body.commit = some c) (hrev : body.rev = c.rev)
      (hprev : c.prev = some p) (hg : commitAt f p = some g)
      (hsince : body.since = some g.rev) : History f (rows ++ [row]) (some body.commit)

theorem History.mono {f g : L.Cid → Option L.Block} (hle : BlocksLe f g)
    {rows : List (SeqRow L.Event)} {root : Option L.Cid} (h : History f rows root) :
    History g rows root := by
  induction h with
  | empty => exact .empty
  | first hbody hc hrev hprev hg hend hsince =>
      exact .first hbody (commitAt_mono hle hc) hrev hprev (commitAt_mono hle hg) hend hsince
  | next _ hbody hc hrev hprev hg hsince ih =>
      exact .next ih hbody (commitAt_mono hle hc) hrev hprev (commitAt_mono hle hg) hsince

theorem History.rows_of_none {f : L.Cid → Option L.Block} {rows : List (SeqRow L.Event)}
    (h : History f rows none) : rows = [] := by
  cases h
  rfl

theorem History.rows_ne_nil {f : L.Cid → Option L.Block} {rows : List (SeqRow L.Event)}
    {root : L.Cid} (h : History f rows (some root)) : rows ≠ [] := by
  generalize hroot : some root = r at h
  cases h with
  | empty => cases hroot
  | first => exact List.cons_ne_nil _ _
  | next => exact List.append_ne_nil_of_right_ne_nil _ (List.cons_ne_nil _ _)

/-- The chain from the root is the announced commits, newest first, and
the commit the repository was created with at its end. -/
theorem History.chain {f : L.Cid → Option L.Block} {rows : List (SeqRow L.Event)}
    {root : L.Cid} (h : History f rows (some root)) :
    ∃ (commits : List L.Cid) (genesis : L.Cid), PrevChain f root (commits.reverse ++ [genesis])
      ∧ (commits.reverse ++ [genesis]).Nodup ∧ rows.map announced = commits.map some := by
  generalize hroot : some root = r at h
  induction h generalizing root with
  | empty => cases hroot
  | first hbody hc hrev hprev hg hend hsince =>
      rename_i row body c g p
      obtain rfl := Option.some.inj hroot
      have hstop := PrevChain.stop hg hend
      refine ⟨[body.commit], p, .step hc hprev hstop, ?_, ?_⟩
      · exact List.nodup_cons.mpr
          ⟨hstop.not_mem (List.nodup_singleton _) hc hprev, List.nodup_singleton _⟩
      · simp only [List.map_cons, List.map_nil, announced, hbody]
        rfl
  | next _ hbody hc hrev hprev hg hsince ih =>
      rename_i rows row p body c g _
      obtain rfl := Option.some.inj hroot
      obtain ⟨commits, genesis, hchain, hnodup, hmap⟩ := ih rfl
      refine ⟨commits ++ [body.commit], genesis, ?_, ?_, ?_⟩
      · rw [List.reverse_append]
        exact .step hc hprev hchain
      · rw [List.reverse_append]
        exact List.nodup_cons.mpr ⟨hchain.not_mem hnodup hc hprev, hnodup⟩
      · rw [List.map_append, List.map_append, hmap]
        simp only [List.map_cons, List.map_nil, announced, hbody]
        rfl

/-- What an event says of the commit before its own. -/
theorem History.since {f : L.Cid → Option L.Block} {rows : List (SeqRow L.Event)}
    {root : Option L.Cid} (h : History f rows root) {k : Nat} {row : SeqRow L.Event}
    (hk : rows[k]? = some row) :
    ∃ body c p g, L.decodeBody row.event = .ok body ∧ commitAt f body.commit = some c
      ∧ body.rev = c.rev ∧ c.prev = some p ∧ commitAt f p = some g
      ∧ body.since = if k = 0 then none else some g.rev := by
  induction h with
  | empty => cases hk
  | first hbody hc hrev hprev hg hend hsince =>
      rcases k with _ | k
      · obtain rfl := Option.some.inj hk
        exact ⟨_, _, _, _, hbody, hc, hrev, hprev, hg, hsince⟩
      · cases hk
  | next hrows hbody hc hrev hprev hg hsince ih =>
      rename_i rows row' p body c g
      rcases Nat.lt_or_ge k rows.length with hlt | hge
      · rw [List.getElem?_append_left hlt] at hk
        exact ih hk
      · rw [List.getElem?_append_right hge] at hk
        have hlen : rows.length ≠ 0 := fun h0 => hrows.rows_ne_nil (List.length_eq_zero_iff.mp h0)
        have hk0 : k - rows.length = 0 := by
          by_contra hne
          rw [List.getElem?_singleton, if_neg hne] at hk
          cases hk
        rw [hk0] at hk
        obtain rfl := Option.some.inj hk
        refine ⟨_, _, _, _, hbody, hc, hrev, hprev, hg, ?_⟩
        rw [hsince, if_neg (by omega)]

end

end Stelyph
