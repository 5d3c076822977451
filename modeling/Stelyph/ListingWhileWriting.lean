import Mathlib.Data.Set.Finite.Lattice
import Mathlib.Data.Set.Finite.List
import Stelyph.Lib.Walk
import Stelyph.ListingPages

/-!
# Listings read while they change

`listRecords` cuts each page from the repository as it is when the page is
asked for, and the cursor is a key. Between two pages any calls may write.
A reader who follows the cursors comes to an end all the same, is given no
key twice and none out of order, only records that were there, and every
key that was there all the time.
-/

namespace Stelyph

section

variable {L : RepoLib} {view : TreeView L} {K : TreeLinks L} {cfg : XrpcConfig L} {X : ReadLib L}

/-- The keys of a collection. -/
def InCollection (collection key : String) : Prop := ∃ rest, key = s!"{collection}/" ++ rest

/-- What a reader is given whose `n`-th page is cut while the records are
those of `m n`, shown as `entry n` shows them. -/
def WalksRecords {ρ : Type} (key : ρ → String) (entry : Nat → String × L.Cid → ρ)
    (m : Nat → RecordMap L) (collection : String)
    (fetch : Nat → Option String → Option (List ρ × Option String)) : Prop :=
  ∃ requests all, (∀ fuel, requests ≤ fuel → Paging.through fetch fuel 0 none = some all)
    ∧ (all.Pairwise fun a b => key a < key b)
    ∧ (∀ e ∈ all, ∃ n name cid, InCollection collection name ∧ m n name = some cid
        ∧ e = entry n (name, cid))
    ∧ ∀ name, InCollection collection name → (∀ n, (m n name).isSome = true) →
        ∃ e ∈ all, key e = name

theorem walksRecords_of_pages {ρ : Type} {key : ρ → String} {entry : Nat → String × L.Cid → ρ}
    {m : Nat → RecordMap L} {collection : String} {es : Nat → List (String × L.Cid)}
    {fetch : Nat → Option String → Option (List ρ × Option String)} {limit : Nat → Nat}
    (hes : ∀ n, Listed (m n) collection (es n)) (hkey : ∀ n e, key (entry n e) = e.1)
    (hfetch : ∀ n cursor, fetch n cursor
      = some (Paging.page key (limit n) cursor ((es n).map (entry n))))
    (hlimit : ∀ n, 0 < limit n) (hkeys : ∃ names : Finset String, ∀ n, ∀ e ∈ es n, e.1 ∈ names) :
    WalksRecords key entry m collection fetch := by
  have hsorted : ∀ n, ((es n).map (entry n)).Pairwise fun a b => key a < key b := fun n => by
    rw [List.pairwise_map]
    refine (hes n).sorted.imp fun {a b} hlt => ?_
    rwa [hkey, hkey]
  have hfinite : ∃ names : Finset String, ∀ n, ∀ e ∈ (es n).map (entry n), key e ∈ names := by
    obtain ⟨names, hnames⟩ := hkeys
    refine ⟨names, fun n e he => ?_⟩
    obtain ⟨e', he', rfl⟩ := List.mem_map.mp he
    rw [hkey]
    exact hnames n e' he'
  obtain ⟨requests, all, hwalked, hall⟩ := Paging.walk hfetch hlimit hsorted hfinite
  refine ⟨requests, all, hall, hwalked.ordered, fun e he => ?_, fun name hname hthere => ?_⟩
  · obtain ⟨n, -, hn⟩ := hwalked.seen e he
    obtain ⟨e', he', rfl⟩ := List.mem_map.mp hn
    obtain ⟨hname, hm⟩ := ((hes n).mem e'.1 e'.2).mp he'
    exact ⟨n, e'.1, e'.2, hname, hm, rfl⟩
  · refine hwalked.kept name (fun c hc => nomatch hc) fun n _ => ?_
    obtain ⟨cid, hcid⟩ := Option.isSome_iff_exists.mp (hthere n)
    refine ⟨entry n (name, cid), List.mem_map_of_mem ?_, hkey n _⟩
    exact ((hes n).mem name cid).mpr ⟨hname, hcid⟩

/-! ## A reader beside the writers of a run -/

/-- Readings of one repository along a run: the `n`-th page is cut when so
many of the calls were served. -/
structure ReadAlong (cs : List (ServedCall L)) (did : String) (times : Nat → Nat)
    (s : Nat → RepoStore L) : Prop where
  run : ∀ n, Steps.run callStep (RepoStore.empty L) (cs.take (times n)) = some (s n)
  root : ∀ n, ∃ root, (s n).roots.get did = some root

variable {cs : List (ServedCall L)} {did : String} {times : Nat → Nat} {s : Nat → RepoStore L}

/-- A run passes through finitely many states. -/
theorem ReadAlong.states (h : ReadAlong cs did times s) :
    ∃ states : List (RepoStore L), ∀ n, s n ∈ states := by
  refine ⟨(List.range (cs.length + 1)).filterMap fun k =>
    Steps.run callStep (RepoStore.empty L) (cs.take k), fun n => ?_⟩
  refine List.mem_filterMap.mpr ⟨min (times n) cs.length, List.mem_range.mpr ?_, ?_⟩
  · exact Nat.lt_succ_of_le (Nat.min_le_right _ _)
  · rw [← h.run n]
    congr 1
    rcases Nat.le_total (times n) cs.length with hle | hle
    · rw [Nat.min_eq_left hle]
    · rw [Nat.min_eq_right hle, List.take_of_length_le (Nat.le_refl _), List.take_of_length_le hle]

/-- So there are finitely many keys. -/
theorem ReadAlong.names (h : ReadAlong cs did times s) {m : Nat → RecordMap L}
    (hm : ∀ n, mapOf view (s n) did = some (m n)) {collection : String}
    {es : Nat → List (String × L.Cid)} (hes : ∀ n, Listed (m n) collection (es n)) :
    ∃ names : Finset String, ∀ n, ∀ e ∈ es n, e.1 ∈ names := by
  obtain ⟨states, hstates⟩ := h.states
  have hlisted : ∀ t : RepoStore L, ∃ names : Finset String,
      ∀ n, s n = t → ∀ e ∈ es n, e.1 ∈ names := by
    intro t
    by_cases ht : ∃ n, s n = t
    · obtain ⟨n, rfl⟩ := ht
      refine ⟨((es n).map Prod.fst).toFinset, fun n' hn' e he => ?_⟩
      have hmap : m n' = m n := Option.some.inj ((hm n').symm.trans (hn' ▸ hm n))
      have hsame : es n' = es n := (hmap ▸ hes n').unique (hes n)
      exact List.mem_toFinset.mpr (List.mem_map_of_mem (hsame ▸ he))
    · exact ⟨∅, fun n hn => absurd ⟨n, hn⟩ ht⟩
  choose names hnames using hlisted
  have hfinite : {name | ∃ t ∈ states, name ∈ names t}.Finite := by
    refine (Set.Finite.biUnion states.finite_toSet fun t _ => (names t).finite_toSet).subset ?_
    rintro name ⟨t, ht, hname⟩
    exact Set.mem_biUnion ht hname
  refine ⟨hfinite.toFinset, fun n e he => ?_⟩
  exact hfinite.mem_toFinset.mpr ⟨s n, hstates n, hnames (s n) n rfl e he⟩

/-- **Listing beside writes.** Whatever calls come between the pages, a
reader of any of the three methods comes to the end, is given no key twice
and none out of order, only records that were there when their page was
cut, and every key that was there all the time. -/
theorem listing_while_writing (hL : RepoLaws L) (hV : TreeLaws L view) (hK : LinkLaws K)
    (hX : ReadLaws view cfg X) (hcs : ∀ c ∈ cs, c.OfHandler cfg)
    (h : ReadAlong cs did times s) (collection : String) :
    ∃ m : Nat → RecordMap L, (∀ n, mapOf view (s n) did = some (m n))
      ∧ (∀ limits, WalksRecords Core.RecordEntry.key (fun n => coreEntry X (s n)) m collection
          fun n => Core.fetch X (s n) did collection limits n)
      ∧ (∀ limits, WalksRecords (keyOf did) (fun n => entryOf X (s n) did) m collection
          fun n => Axum.fetch X (s n) did collection limits n)
      ∧ ∀ limits, WalksRecords (keyOf did) (fun n => entryOf X (s n) did) m collection
          fun n => Embedded.fetch X (s n) did collection limits n := by
  have hreadable : ∀ n, ∃ m, ReadableRepo view X (s n) did m := fun n => by
    obtain ⟨root, hroot⟩ := h.root n
    exact readableRepo_of_run hL hV hK hX (fun c hc => hcs c (List.mem_of_mem_take hc)) (h.run n)
      hroot
  choose m hm using hreadable
  choose es hes haxum using fun n =>
    axum_listRecords_eq hX (hm n).root.choose_spec (hm n).map (hm n).legible collection
  have hcore : ∀ n limit cursor,
      (Core.listRecords X (s n) did collection limit cursor).map (fun o => (o.records, o.cursor))
        = .ok (Paging.page Core.RecordEntry.key (max 1 (min limit 100)) cursor
            ((es n).map (coreEntry X (s n)))) := fun n => by
    obtain ⟨es', hes', hpages⟩ := core_listRecords_eq hX (hm n).root.choose_spec (hm n).map
      (hm n).legible collection
    rwa [hes'.unique (hes n)] at hpages
  have hembedded : ∀ n limit cursor,
      (Embedded.listRecords X (s n) ⟨some did, some collection, limit, cursor⟩).map
          (fun o => (o.records, o.cursor))
        = .ok (Paging.page (keyOf did) (pageLimit (limit.bind Text.parseU64)) cursor
            ((es n).map (entryOf X (s n) did))) := fun n => by
    obtain ⟨es', hes', hpages⟩ := embedded_listRecords_eq hX (hm n).root.choose_spec (hm n).map
      (hm n).legible collection
    rwa [hes'.unique (hes n)] at hpages
  have hnames := h.names (fun n => (hm n).map) hes
  refine ⟨m, fun n => (hm n).map, fun limits => ?_, fun limits => ?_, fun limits => ?_⟩
  · refine walksRecords_of_pages hes (fun _ _ => rfl) (fun n cursor => ?_)
      (fun n => by omega : ∀ n, 0 < max 1 (min (limits n) 100)) hnames
    rw [Core.fetch, hcore]
    rfl
  · refine walksRecords_of_pages hes (fun _ e => keyOf_entryOf did e) (fun n cursor => ?_)
      (fun n => pageLimit_pos (limits n)) hnames
    rw [Axum.fetch, haxum]
    rfl
  · refine walksRecords_of_pages hes (fun _ e => keyOf_entryOf did e) (fun n cursor => ?_)
      (fun n => pageLimit_pos ((limits n).bind Text.parseU64)) hnames
    rw [Embedded.fetch, hembedded]
    rfl

end

/-- Two calls, and a reader who is given a first page between them. -/
theorem sample_listing_while_writing :
    ∃ s, ReadAlong sampleCalls "did:plc:alice" (fun n => n + 1) s
      ∧ ∃ m : Nat → RecordMap sampleRepo,
        (∀ n, mapOf sampleView (s n) "did:plc:alice" = some (m n))
        ∧ (∀ limits, WalksRecords Core.RecordEntry.key (fun n => coreEntry sampleReads (s n)) m
            "app.bsky.feed.post"
            fun n => Core.fetch sampleReads (s n) "did:plc:alice" "app.bsky.feed.post" limits n)
        ∧ (∀ limits, WalksRecords (keyOf "did:plc:alice")
            (fun n => entryOf sampleReads (s n) "did:plc:alice") m "app.bsky.feed.post"
            fun n => Axum.fetch sampleReads (s n) "did:plc:alice" "app.bsky.feed.post" limits n)
        ∧ ∀ limits, WalksRecords (keyOf "did:plc:alice")
            (fun n => entryOf sampleReads (s n) "did:plc:alice") m "app.bsky.feed.post"
            fun n => Embedded.fetch sampleReads (s n) "did:plc:alice" "app.bsky.feed.post" limits n
    := by
  have hrun : ∀ k, k = 1 ∨ k = 2 →
      ((Steps.run callStep (RepoStore.empty sampleRepo) (sampleCalls.take k)).map fun s =>
        (s.roots.get "did:plc:alice").isSome) = some true := by
    rintro k (rfl | rfl) <;> decide +kernel
  obtain ⟨s₁, hs₁, hroot₁⟩ := Option.map_eq_some_iff.mp (hrun 1 (Or.inl rfl))
  obtain ⟨s₂, hs₂, hroot₂⟩ := Option.map_eq_some_iff.mp (hrun 2 (Or.inr rfl))
  have halong : ReadAlong sampleCalls "did:plc:alice" (fun n => n + 1)
      fun n => if n = 0 then s₁ else s₂ := by
    refine ⟨fun n => ?_, fun n => ?_⟩
    · cases n with
      | zero => exact hs₁
      | succ n =>
          have htake : sampleCalls.take (n + 1 + 1) = sampleCalls.take 2 := by
            rw [List.take_of_length_le (by simp [sampleCalls]), List.take_of_length_le (by decide)]
          rw [htake]
          exact hs₂
    · cases n with
      | zero => exact Option.isSome_iff_exists.mp hroot₁
      | succ n => exact Option.isSome_iff_exists.mp hroot₂
  exact ⟨_, halong, listing_while_writing sampleRepo_laws sampleRepo_treeLaws
    sampleRepo_linkLaws sampleReads_laws sampleCalls_ofHandler halong _⟩

end Stelyph
