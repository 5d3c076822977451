import Stelyph.RepoClosed

/-!
# Following the firehose

A follower has no blocks and an empty map to begin with, and takes the
events of one DID in the order of their seqs: it adds the blocks of the
CAR file and applies the listed operations to its map. After every event
it has all that the event's commit reaches, and the map of that commit.

An event only carries what is new. So what the follower has of the tree
before is what the call started from, and `Wrote` says that the new tree
has nothing else but what the event carries.
-/

namespace Stelyph

section

variable {L : RepoLib}

/-! ## The follower -/

/-- The roots and the blocks of a CAR file. -/
abbrev CarReader (L : RepoLib) := L.Car → Option (List L.Cid × List (L.Cid × L.Block))

/-- What the code relies on in the CAR format: what was written is read
back, in its order and under its one root. -/
def CarLaws (read : CarReader L) : Prop :=
  ∀ root blocks car, L.writeCar root blocks = .ok car → read car = some ([root], blocks)

/-- Who rebuilds a repository from its events: the blocks it was given,
and the map its ops amount to. -/
structure Follower (L : RepoLib) where
  blocks : Table L.Cid L.Block
  map : RecordMap L

def Follower.start (L : RepoLib) : Follower L := ⟨.empty, fun _ => none⟩

def addBlocks (t : Table L.Cid L.Block) (bs : List (L.Cid × L.Block)) : Table L.Cid L.Block :=
  bs.foldl (fun t b => t.insertOrIgnore b.1 b.2) t

/-- One event: the blocks of its CAR are added, and its ops are applied.
Nothing comes of one that cannot be read. -/
def Follower.receive (read : CarReader L) (fo : Follower L) (row : SeqRow L.Event) :
    Option (Follower L) := do
  let body ← (L.decodeBody row.event).toOption
  let (_, blocks) ← read body.blocks
  return ⟨addBlocks fo.blocks blocks, applyOps fo.map body.ops⟩

theorem receive_eq {read : CarReader L} (fo : Follower L) {row : SeqRow L.Event}
    {body : CommitBody L.Cid L.Car} {roots : List L.Cid} {blocks : List (L.Cid × L.Block)}
    (hdec : L.decodeBody row.event = .ok body) (hread : read body.blocks = some (roots, blocks)) :
    fo.receive read row = some ⟨addBlocks fo.blocks blocks, applyOps fo.map body.ops⟩ := by
  simp [Follower.receive, hdec, hread, Except.toOption]

theorem blocksLe_addBlocks (t : Table L.Cid L.Block) (bs : List (L.Cid × L.Block)) :
    BlocksLe t.get (addBlocks t bs).get := by
  induction bs generalizing t with
  | nil => exact BlocksLe.refl _
  | cons b bs ih => exact (blocksLe_insertOrIgnore t b.1 b.2).trans (ih _)

/-- Blocks of a table, added to some of its blocks. -/
theorem addBlocks_le {t : Table L.Cid L.Block} {g : L.Cid → Option L.Block}
    {bs : List (L.Cid × L.Block)} (ht : BlocksLe t.get g) (hbs : ∀ x ∈ bs, g x.1 = some x.2) :
    BlocksLe (addBlocks t bs).get g := by
  induction bs generalizing t with
  | nil => exact ht
  | cons b bs ih =>
      refine ih ?_ fun x hx => hbs x (List.mem_cons_of_mem b hx)
      intro c b' hb'
      rcases Table.get_insertOrIgnore_cases hb' with hold | ⟨rfl, rfl⟩
      · exact ht c b' hold
      · exact hbs b List.mem_cons_self

theorem contains_addBlocks {t : Table L.Cid L.Block} {bs : List (L.Cid × L.Block)}
    {x : L.Cid × L.Block} (hx : x ∈ bs) : (addBlocks t bs).contains x.1 = true := by
  induction bs generalizing t with
  | nil => cases hx
  | cons b bs ih =>
      rcases List.mem_cons.mp hx with rfl | hx
      · obtain ⟨b', hb'⟩ := Table.contains_iff.mp (Table.contains_insertOrIgnore_self t x.1 x.2)
        exact Table.contains_iff.mpr ⟨b', blocksLe_addBlocks _ bs _ _ hb'⟩
      · exact ih hx

theorem get_addBlocks {t : Table L.Cid L.Block} {g : L.Cid → Option L.Block}
    {bs : List (L.Cid × L.Block)} (ht : BlocksLe t.get g) (hbs : ∀ x ∈ bs, g x.1 = some x.2)
    {c : L.Cid} (hc : c ∈ bs.map Prod.fst) :
    ∃ b, g c = some b ∧ (addBlocks t bs).get c = some b := by
  obtain ⟨x, hx, rfl⟩ := List.mem_map.mp hc
  obtain ⟨b, hb⟩ := Table.contains_iff.mp (contains_addBlocks (t := t) hx)
  exact ⟨b, addBlocks_le ht hbs _ _ hb, hb⟩

/-! ## Being up to date -/

variable {view : TreeView L} {K : TreeLinks L} {read : CarReader L} {s t : RepoStore L}

/-- The follower has all that the commit reaches, as the store has it, and
the map of the commit. -/
structure UpTo (view : TreeView L) (K : TreeLinks L) (s : RepoStore L) (commit : L.Cid)
    (fo : Follower L) : Prop where
  tree : ∃ cm, commitAt s.blocks.get commit = some cm ∧ TreeAt view K s cm.data fo.map
  blocks : ∀ c, ReachedBy K s.blocks.get commit c →
    ∃ b, s.blocks.get c = some b ∧ fo.blocks.get c = some b

theorem ReachedBy.of_le {f g : L.Cid → Option L.Block} (hle : BlocksLe f g) {commit c : L.Cid}
    {cm : SignedCommit L.Cid} (hcm : commitAt f commit = some cm)
    (hclosed : TreeClosed K f cm.data) (h : ReachedBy K g commit c) : ReachedBy K f commit c := by
  rcases h with rfl | ⟨cm', hcm', hin⟩
  · exact Or.inl rfl
  · obtain rfl := Option.some.inj ((commitAt_mono hle hcm).symm.trans hcm')
    refine Or.inr ⟨cm, hcm, ?_⟩
    rcases hin with hnode | hrec
    · exact Or.inl (hnode.of_le hle hclosed)
    · exact Or.inr (hrec.of_le hle hclosed)

theorem UpTo.mono (hV : TreeLaws L view) {commit : L.Cid} {fo : Follower L}
    (h : UpTo view K s commit fo) (hle : BlocksLe s.blocks.get t.blocks.get) :
    UpTo view K t commit fo := by
  obtain ⟨cm, hcm, htree⟩ := h.tree
  refine ⟨⟨cm, commitAt_mono hle hcm, htree.mono hV hle⟩, fun c hc => ?_⟩
  obtain ⟨b, hb, hfo⟩ := h.blocks c (hc.of_le hle hcm htree.closed)
  exact ⟨b, hle c b hb, hfo⟩

/-- One event on: what the event does not carry, the follower has. -/
theorem UpTo.receive {w : RepoWriter L} {rnd : WriteDraw} {o : Opened L} {data : L.Cid}
    {blocks : List (L.Cid × L.Block)} {body : CommitBody L.Cid L.Car} {fo : Follower L}
    (hw : Wrote view K w rnd s t fo.map o data blocks body) (hK : LinkLaws K)
    (hfo : BlocksLe fo.blocks.get s.blocks.get)
    (hup : ∀ root, s.roots.get w.did = some root → UpTo view K s root fo) :
    UpTo view K t body.commit ⟨addBlocks fo.blocks blocks, applyOps fo.map body.ops⟩ := by
  obtain ⟨sig, hcommit⟩ := hw.commit
  have hle := hfo.trans hw.grown
  have hcarried : ∀ c ∈ blocks.map Prod.fst,
      ∃ b, t.blocks.get c = some b ∧ (addBlocks fo.blocks blocks).get c = some b :=
    fun c hc => get_addBlocks hle hw.stored hc
  have hkept : ∀ c, (∃ b, s.blocks.get c = some b ∧ fo.blocks.get c = some b) →
      ∃ b, t.blocks.get c = some b ∧ (addBlocks fo.blocks blocks).get c = some b := by
    rintro c ⟨b, hb, hfob⟩
    exact ⟨b, hw.grown c b hb, blocksLe_addBlocks _ blocks c b hfob⟩
  -- what was in the tree the call started from
  have hold : ∀ c, NodeIn K t.blocks.get o.data c ∨ RecordIn K t.blocks.get o.data c →
      ∃ b, t.blocks.get c = some b ∧ (addBlocks fo.blocks blocks).get c = some b := by
    intro c hc
    cases hw.starts with
    | stored cm hroot hcm hdata _ =>
        obtain ⟨cm', hcm', htree⟩ := (hup _ hroot).tree
        obtain rfl := Option.some.inj (hcm.symm.trans hcm')
        refine hkept c ((hup _ hroot).blocks c (ReachedBy.of_le hw.grown hcm htree.closed ?_))
        exact Or.inr ⟨cm, commitAt_mono hw.grown hcm, hdata ▸ hc⟩
    | created _ _ _ hget _ hcid hwritten =>
        rw [hcid] at hget
        have hnode : ∀ c, NodeIn K t.blocks.get o.data c → c = o.data := by
          intro c hc
          induction hc with
          | root => rfl
          | child _ hb hc ih =>
              rw [ih, hcid, hget] at hb
              obtain rfl := Option.some.inj hb
              rw [hK.empty_children] at hc
              cases hc
        rcases hc with hc | ⟨n, b, hn, hb, hr⟩
        · exact hnode c hc ▸ hcarried _ (hw.opened _ hwritten)
        · rw [hnode n hn, hcid, hget] at hb
          obtain rfl := Option.some.inj hb
          rw [hK.empty_leaves] at hr
          cases hr
  refine ⟨⟨_, hcommit, hw.tree⟩, fun c hc => ?_⟩
  rcases hc with rfl | ⟨cm, hcm, hin⟩
  · exact hcarried _ hw.self
  · obtain rfl := Option.some.inj (hcommit.symm.trans hcm)
    rcases hin with hnode | hrec
    · rcases hw.moved.nodes c hnode with h | h
      · exact hold c (Or.inl h)
      · exact hcarried c h
    · rcases hw.moved.records c hrec with h | h
      · exact hold c (Or.inr h)
      · exact hcarried c h

/-! ## Whole histories -/

/-- After the rows before it and this one, the follower is up to the
commit of this row, whose CAR file has that commit as its one root. -/
def RowReplayed (view : TreeView L) (K : TreeLinks L) (read : CarReader L) (s : RepoStore L)
    (pre : List (SeqRow L.Event)) (row : SeqRow L.Event) : Prop :=
  ∃ body carBlocks fo, L.decodeBody row.event = .ok body
    ∧ read body.blocks = some ([body.commit], carBlocks)
    ∧ Steps.run (Follower.receive read) (Follower.start L) (pre ++ [row]) = some fo
    ∧ UpTo view K s body.commit fo

/-- What holds of one repository and its follower between calls. -/
structure FollowInv (view : TreeView L) (K : TreeLinks L) (read : CarReader L)
    (s : RepoStore L) (did : String) (fo : Follower L) : Prop where
  run : Steps.run (Follower.receive read) (Follower.start L) (s.rowsOf did) = some fo
  blocks : BlocksLe fo.blocks.get s.blocks.get
  unrooted : s.roots.get did = none → fo.map = fun _ => none
  rooted : ∀ root, s.roots.get did = some root → UpTo view K s root fo
  rows : ∀ pre row post, s.rowsOf did = pre ++ row :: post →
    RowReplayed view K read s pre row

theorem RowReplayed.mono (hV : TreeLaws L view) {pre : List (SeqRow L.Event)}
    {row : SeqRow L.Event} (h : RowReplayed view K read s pre row)
    (hle : BlocksLe s.blocks.get t.blocks.get) : RowReplayed view K read t pre row := by
  obtain ⟨body, carBlocks, fo, hdec, hread, hrun, hup⟩ := h
  exact ⟨body, carBlocks, fo, hdec, hread, hrun, hup.mono hV hle⟩

/-- A repository that a call did not touch. -/
theorem FollowInv.mono (hV : TreeLaws L view) {did : String} {fo : Follower L}
    (h : FollowInv view K read s did fo) (hle : BlocksLe s.blocks.get t.blocks.get)
    (hroot : t.roots.get did = s.roots.get did) (hrows : t.rowsOf did = s.rowsOf did) :
    FollowInv view K read t did fo where
  run := hrows ▸ h.run
  blocks := h.blocks.trans hle
  unrooted hnone := h.unrooted (hroot ▸ hnone)
  rooted root hsome := (h.rooted root (hroot ▸ hsome)).mono hV hle
  rows pre row post heq := (h.rows pre row post (hrows ▸ heq)).mono hV hle

theorem FollowInv.standing {did : String} {fo : Follower L}
    (h : FollowInv view K read s did fo) : Standing view K s did fo.map := by
  unfold Standing
  split
  · rename_i hnone
    exact h.unrooted hnone
  · rename_i root hsome
    exact (h.rooted root hsome).tree

variable {w : RepoWriter L} {rnd : WriteDraw} {o : Opened L} {data : L.Cid}
  {blocks : List (L.Cid × L.Block)} {body : CommitBody L.Cid L.Car} {m : RecordMap L}

theorem FollowInv.wrote (hV : TreeLaws L view) (hK : LinkLaws K) (hR : CarLaws read)
    {fo : Follower L} (h : FollowInv view K read s w.did fo)
    (hw : Wrote view K w rnd s t fo.map o data blocks body) :
    FollowInv view K read t w.did ⟨addBlocks fo.blocks blocks, applyOps fo.map body.ops⟩ := by
  obtain ⟨row, hdec, hrows⟩ := hw.rowsOf_self
  have hread := hR _ _ _ hw.car
  have hstep := receive_eq fo hdec hread
  have hrun : Steps.run (Follower.receive read) (Follower.start L) (s.rowsOf w.did ++ [row])
      = some ⟨addBlocks fo.blocks blocks, applyOps fo.map body.ops⟩ := by
    refine Steps.run_append_eq_some.mpr ⟨fo, h.run, ?_⟩
    exact Steps.run_cons_eq_some.mpr ⟨_, hstep, rfl⟩
  have hup := UpTo.receive hw hK h.blocks h.rooted
  have hroot : t.roots.get w.did = some body.commit := by
    rw [hw.roots, Table.get_insert_self]
  refine ⟨hrows ▸ hrun, addBlocks_le (h.blocks.trans hw.grown) hw.stored, ?_, ?_, ?_⟩
  · intro hnone
    cases hroot.symm.trans hnone
  · intro root hsome
    obtain rfl := Option.some.inj (hroot.symm.trans hsome)
    exact hup
  · intro pre row' post heq
    rw [hrows] at heq
    -- the new row is the last, and the others were there before
    rcases List.eq_nil_or_concat post with rfl | ⟨post', last, rfl⟩
    · obtain ⟨rfl, hlast⟩ := List.append_inj' heq rfl
      obtain rfl := List.head_eq_of_cons_eq hlast
      exact ⟨_, blocks, _, hdec, hread, hrun, hup⟩
    · rw [List.concat_eq_append, ← List.cons_append, ← List.append_assoc] at heq
      obtain ⟨hold, -⟩ := List.append_inj' heq rfl
      exact (h.rows pre row' post' hold).mono hV hw.grown

structure FollowedAll (view : TreeView L) (K : TreeLinks L) (read : CarReader L)
    (s : RepoStore L) : Prop where
  addressed : WellAddressed s.blocks
  followed : ∀ did, ∃ fo, FollowInv view K read s did fo
  ordered : s.rows.Pairwise fun a b => a.seq < b.seq
  last : ∀ row ∈ s.rows, row.seq ≤ s.lastSeq

theorem followedAll_empty : FollowedAll view K read (RepoStore.empty L) := by
  refine ⟨wellAddressed_empty, fun did => ⟨Follower.start L, rfl, ?_, fun _ => rfl, ?_, ?_⟩,
    List.Pairwise.nil, fun _ h => by cases h⟩
  · intro c b hb
    cases hb
  · intro root hroot
    cases hroot
  · intro pre row post heq
    cases pre <;> cases heq

theorem FollowedAll.wrote (hV : TreeLaws L view) (hK : LinkLaws K) (hR : CarLaws read)
    (h : FollowedAll view K read s) {fo : Follower L} (hfo : FollowInv view K read s w.did fo)
    (hw : Wrote view K w rnd s t fo.map o data blocks body) : FollowedAll view K read t := by
  obtain ⟨event, -, hrows⟩ := hw.row
  refine ⟨hw.addressed, fun did => ?_, ?_, ?_⟩
  · by_cases hdid : did = w.did
    · rw [hdid]
      exact ⟨_, hfo.wrote hV hK hR hw⟩
    · obtain ⟨fo', hfo'⟩ := h.followed did
      exact ⟨fo', hfo'.mono hV hw.grown (by rw [hw.roots, Table.get_insert_of_ne hdid])
        (hw.rowsOf_of_ne hdid)⟩
  · rw [hrows, List.pairwise_append]
    refine ⟨h.ordered, List.pairwise_singleton _ _, fun a ha b hb => ?_⟩
    rw [List.mem_singleton.mp hb]
    exact Nat.lt_succ_of_le (h.last a ha)
  · intro row hrow
    rw [hrows] at hrow
    rw [hw.lastSeq]
    rcases List.mem_append.mp hrow with hold | hnew
    · exact Nat.le_succ_of_le (h.last row hold)
    · rw [List.mem_singleton.mp hnew]

theorem followedAll_step (hL : RepoLaws L) (hV : TreeLaws L view) (hK : LinkLaws K)
    (hR : CarLaws read) {c : ServedCall L} (hs : FollowedAll view K read s)
    (h : callStep s c = some t) : FollowedAll view K read t := by
  obtain ⟨⟨x, t'⟩, hrun, rfl⟩ := Option.map_eq_some_iff.mp h
  obtain ⟨fo, hfo⟩ := hs.followed c.request.writer.did
  have hend := (yields_handler hL hV hK hs.addressed c.request hfo.standing).of_against hrun
  cases x with
  | error e =>
      have hu : Unmoved s t' := hend
      refine ⟨hu.addressed hs.addressed, fun did => ?_, hu.rows ▸ hs.ordered, ?_⟩
      · obtain ⟨fo', hfo'⟩ := hs.followed did
        exact ⟨fo', hfo'.mono hV hu.blocks (by rw [hu.roots])
          (by rw [RepoStore.rowsOf, hu.rows, RepoStore.rowsOf])⟩
      · rw [hu.rows, hu.lastSeq]
        exact hs.last
  | ok a =>
      obtain ⟨o, data, blocks, body, hwrote⟩ := hend
      exact hs.wrote hV hK hR hfo hwrote

/-- Whatever calls were made, on this DID and on others: its rows are in
the order of their seqs, and a follower that has taken any number of them
has all that the last one's commit reaches, and its map. -/
theorem replay_rebuilds (hL : RepoLaws L) (hV : TreeLaws L view) (hK : LinkLaws K)
    (hR : CarLaws read) (cs : List (ServedCall L)) (s : RepoStore L)
    (hrun : Steps.run callStep (RepoStore.empty L) cs = some s) (did : String) :
    (s.rowsOf did).Pairwise (fun a b => a.seq < b.seq)
    ∧ ∀ pre row post, s.rowsOf did = pre ++ row :: post →
      ∃ body carBlocks fo cm, L.decodeBody row.event = .ok body
        ∧ read body.blocks = some ([body.commit], carBlocks)
        ∧ Steps.run (Follower.receive read) (Follower.start L) (pre ++ [row]) = some fo
        ∧ commitAt s.blocks.get body.commit = some cm
        ∧ view s.blocks.get cm.data = some fo.map
        ∧ ∀ c, ReachedBy K s.blocks.get body.commit c →
          ∃ b, s.blocks.get c = some b ∧ fo.blocks.get c = some b := by
  have hinv : FollowedAll view K read s :=
    Steps.run_inv (fun _ _ _ hs h => followedAll_step hL hV hK hR hs h) followedAll_empty hrun
  refine ⟨hinv.ordered.filter _, fun pre row post heq => ?_⟩
  obtain ⟨fo, hfo⟩ := hinv.followed did
  obtain ⟨body, carBlocks, fo', hdec, hread, hfollow, hup⟩ := hfo.rows pre row post heq
  obtain ⟨cm, hcm, htree⟩ := hup.tree
  exact ⟨body, carBlocks, fo', cm, hdec, hread, hfollow, hcm, htree.map, hup.blocks⟩

end

def sampleReader : CarReader sampleRepo := fun car => some ([car.1], car.2)

theorem sampleReader_laws : CarLaws sampleReader := by
  intro root blocks car h
  obtain rfl := Except.ok.inj h
  rfl

/-- A first write, a failing one, a batch and the end of a record. -/
def sampleReplay : List (ServedCall sampleRepo) :=
  [⟨⟨sampleWriter, .applyOne (.create "app.bsky.feed.post/1" (7 : Nat)), sampleDraw⟩,
      List.replicate 16 .done⟩,
    ⟨⟨sampleWriter, .applyOne (.delete "app.bsky.feed.post/2"), sampleDraw⟩,
      List.replicate 5 .done⟩,
    ⟨⟨sampleWriter, .applyMany [.create "app.bsky.feed.post/2" (8 : Nat),
        .update "app.bsky.feed.post/1" (8 : Nat)], sampleDraw⟩, List.replicate 15 .done⟩,
    ⟨⟨sampleWriter, .applyOneParts (.delete "app.bsky.feed.post/1"), sampleDraw⟩,
      List.replicate 11 .done⟩]

theorem sampleReplay_rebuilt : ∃ s pre row body fo cm,
    Steps.run callStep (RepoStore.empty sampleRepo) sampleReplay = some s
    ∧ s.rowsOf "did:plc:alice" = pre ++ [row] ∧ pre.length = 2
    ∧ sampleRepo.decodeBody row.event = .ok body
    ∧ Steps.run (Follower.receive sampleReader) (Follower.start sampleRepo) (pre ++ [row]) = some fo
    ∧ commitAt s.blocks.get body.commit = some cm
    ∧ sampleView s.blocks.get cm.data = some fo.map := by
  have hrun : ((Steps.run callStep (RepoStore.empty sampleRepo) sampleReplay).map fun s =>
      (s.rowsOf "did:plc:alice").length) = some 3 := by decide
  obtain ⟨s, hs, hlen⟩ := Option.map_eq_some_iff.mp hrun
  have hne : s.rowsOf "did:plc:alice" ≠ [] := by
    intro h
    rw [h] at hlen
    cases hlen
  have hsplit := (List.dropLast_append_getLast hne).symm
  obtain ⟨-, hrows⟩ := replay_rebuilds sampleRepo_laws sampleRepo_treeLaws sampleRepo_linkLaws
    sampleReader_laws sampleReplay s hs "did:plc:alice"
  obtain ⟨body, _, fo, cm, hdec, -, hfollow, hcm, hview, -⟩ := hrows _ _ _ hsplit
  exact ⟨s, _, _, body, fo, cm, hs, hsplit, by rw [List.length_dropLast, hlen], hdec, hfollow, hcm,
    hview⟩

end Stelyph
