import Mathlib.Data.Set.Function
import PeerCache.Proofs.Cache.SampleContents
import PeerCache.Proofs.Shuffle

/-!
# `PeerCache.Proofs.Cache.SampleUniform`: a sample favours nobody

The loop that draws a sample reads its source through the draws of a partial shuffle and
nothing else (`Coherent.exists_shuffled`). So the question whether every selection of
records is equally likely is one about draw vectors: `Coherent.existsUnique_firstDrawn`
says that every sequence of different records comes first in the order after exactly one
of them.

The loop stops when it has enough. A loop that wants as many peers as it has places left
never stops early, which is how its first steps are singled out here. When no record is
terrible, a whole sample takes as many steps as it wants peers (`Coherent.sampleFrom_places`).

`Reachable.sample_uniform` puts this together.
-/

set_option autoImplicit false

namespace PeerCache

/-- The vectors of `k` draws, each below the number of places that are left for it. -/
def drawVectors (size k : Nat) : Set (List Nat) :=
  {draws | draws.length = k ∧ ∀ n d, draws[n]? = some d → d < size - n}

theorem mem_drawVectors {size k : Nat} {draws : List Nat} :
    draws ∈ drawVectors size k ↔ draws.length = k ∧ Shuffle.InRange size 0 draws := by
  simp [drawVectors, Shuffle.inRange_iff]

namespace Cache

variable {c d : Cache} {now : Timestamp} {n k wanted : Nat} {draws : List Nat} {id : RecordId}
  {r : Record}

/-- The sequences of `k` different records, by their numbers. -/
def selections (c : Cache) (k : Nat) : Set (List RecordId) :=
  {ids | ids.length = k ∧ ids.Nodup ∧ ∀ id ∈ ids, ∃ r : Record, c.records[id]? = some r}

/-- What comes first in the order after the steps that the draws lead through. -/
def firstDrawn (c : Cache) (now : Timestamp) (draws : List Nat) : List RecordId :=
  match sampleFrom now draws.length 0 draws.length [] c (⟨draws⟩ : Dictated) with
  | .ok ((_, d), _) => d.order.toList.take draws.length
  | .error _ => []

/-! ### The loop and its draws -/

section

variable {σ : Type} [RandomSource σ] {s s' : σ}

/-- A step that draws `k` exchanges the place with the one `k` places ahead. -/
theorem run_shuffleStep (hdraw : RandomSource.below s (c.size - n) = (k, s'))
    (hswap : c.swapOrder n (n + k) = .ok d) : c.shuffleStep n s = .ok (d, s') := by
  have hrun : (Draw.below (c.size - n) : Draw σ Nat) s = .ok (k, s') := congrArg Except.ok hdraw
  rw [shuffleStep, Draw.run_bind hrun]
  exact Draw.run_lift hswap s'

/-- A round of the loop, after its step of the shuffle. -/
theorem run_sampleFrom_succ (hstep : c.shuffleStep n s = .ok (d, s'))
    (hid : d.order[n]? = some id) (hr : d.records[id]? = some r) (places : Nat)
    (found : List Announcement) :
    sampleFrom now (places + 1) n (wanted + 1) found c s
      = if r.isTerrible now then sampleFrom now places (n + 1) (wanted + 1) found d s'
        else sampleFrom now places (n + 1) wanted (r.peer :: found) d s' := by
  rw [sampleFrom, Draw.run_bind hstep, hid]
  dsimp only
  rw [hr]
  dsimp only
  split <;> rfl

end

/-- What the next rounds are to find does not depend on the source. -/
theorem exists_round (c : Cache) (now : Timestamp) (hid : d.order[n]? = some id)
    (hr : d.records[id]? = some r) (places wanted : Nat) (found : List Announcement) :
    ∃ (wanted' : Nat) (kept : List Announcement), wanted ≤ wanted' ∧
      ∀ {σ : Type} [RandomSource σ] {s s' : σ}, c.shuffleStep n s = .ok (d, s') →
        sampleFrom now (places + 1) n (wanted + 1) found c s
          = sampleFrom now places (n + 1) wanted' kept d s' := by
  by_cases hterrible : r.isTerrible now = true
  · refine ⟨wanted + 1, found, Nat.le_succ _, fun hstep => ?_⟩
    rw [run_sampleFrom_succ hstep hid hr, if_pos hterrible]
  · refine ⟨wanted, r.peer :: found, le_rfl, fun hstep => ?_⟩
    rw [run_sampleFrom_succ hstep hid hr, if_neg hterrible]

/-- A loop that does not stop early makes the exchanges that its draws say, whatever source
they come from. -/
theorem Coherent.exists_shuffled (h : Coherent ∅ ∅ c) (now : Timestamp)
    (hin : Shuffle.InRange c.size n draws) (hwanted : draws.length ≤ wanted)
    (found : List Announcement) :
    ∃ (found' : List Announcement) (d : Cache),
      (∀ {σ : Type} [RandomSource σ] {s s' : σ}, Shuffle.Delivers c.size n s draws s' →
        Cache.sampleFrom now draws.length n wanted found c s = .ok ((found', d), s')) ∧
      Coherent ∅ ∅ d ∧ Reordered c d ∧
      ∀ m : Nat, d.order[m]? = c.order[Shuffle.exchanges n draws m]? := by
  induction draws generalizing c n wanted found with
  | nil =>
      refine ⟨found.reverse, c, fun {σ _ s s'} hdelivers => ?_, h, .refl c, fun m => rfl⟩
      cases hdelivers with
      | nil =>
          rw [List.length_nil, Cache.sampleFrom]
          rfl
  | cons k draws ih =>
      obtain ⟨hk, hin⟩ := hin
      obtain ⟨wanted, rfl⟩ : ∃ w, wanted = w + 1 := ⟨wanted - 1, by simp at hwanted; omega⟩
      have hplace : n + k < c.order.size := Nat.add_lt_of_lt_sub' hk
      obtain ⟨d, hswap, hd⟩ := h.exists_swapped (i := n) (by omega) hplace
      have hsize : d.size = c.size := hd.size
      obtain ⟨id, r, hid, hr⟩ := hd.coherent.exists_record (n := n) (by rw [hd.size]; omega)
      obtain ⟨wanted', kept, hle, hround⟩ := exists_round c now hid hr draws.length wanted found
      rw [← hsize] at hin
      obtain ⟨found', e, hruns, he, hreordered, horder⟩ :=
        ih hd.coherent hin (show draws.length ≤ wanted' by simp at hwanted; omega) kept
      refine ⟨found', e, fun {σ _ s s'} hdelivers => ?_, he, hd.reordered.trans hreordered,
        fun m => ?_⟩
      · cases hdelivers with
        | cons hdraw hrest =>
            rw [← hsize] at hrest
            exact (hround (run_shuffleStep hdraw hswap)).trans (hruns hrest)
      · rw [horder, hd.order, Shuffle.exchanges, Equiv.Perm.mul_apply]

/-- When no record is terrible, the loop ends as soon as it has made as many steps as it
wants peers. -/
theorem Coherent.sampleFrom_places {σ : Type} [RandomSource σ] (h : Coherent ∅ ∅ c)
    (hhealthy : Every (fun r => r.isTerrible now = false) c) {places : Nat}
    (hwanted : wanted ≤ places) (hn : n + places ≤ c.order.size) (found : List Announcement)
    (s : σ) :
    Cache.sampleFrom now places n wanted found c s
      = Cache.sampleFrom now wanted n wanted found c s := by
  induction wanted generalizing c n places found s with
  | zero => cases places <;> rfl
  | succ wanted ih =>
      obtain ⟨places, rfl⟩ : ∃ p, places = p + 1 := ⟨places - 1, by omega⟩
      obtain ⟨d, s', hstep, k, hd⟩ := h.shuffleStep (n := n) (by omega) s
      obtain ⟨id, r, hid, hr⟩ := hd.coherent.exists_record (n := n) (by rw [hd.size]; omega)
      have hhealthy' : Every (fun r => r.isTerrible now = false) d :=
        hd.reordered.descends.every (fun r r' hsame hr => hsame.isTerrible.trans hr) hhealthy
      have hfit : ¬ r.isTerrible now = true := by simp [hhealthy' id r hr]
      rw [run_sampleFrom_succ hstep hid hr, run_sampleFrom_succ hstep hid hr, if_neg hfit,
        if_neg hfit]
      exact ih hd.coherent hhealthy' (by omega) (by rw [hd.size]; omega) _ s'

/-! ### What comes first in the order -/

/-- In a list without repetition, the entries at some places are given by the places. -/
theorem map_getElem?_eq_iff {α : Type} [DecidableEq α] {l : List α} (hl : l.Nodup) {as : List α}
    (has : ∀ a ∈ as, a ∈ l) {places : List Nat} :
    places.map (l[·]?) = as.map some ↔ places = as.map l.idxOf := by
  induction as generalizing places with
  | nil => simp
  | cons a as ih =>
      obtain ⟨ha, has⟩ := List.forall_mem_cons.mp has
      cases places with
      | nil => simp
      | cons p places =>
          have hplace : l[p]? = some a ↔ p = l.idxOf a := by
            constructor
            · intro hp
              obtain ⟨hlt, rfl⟩ := List.getElem?_eq_some_iff.mp hp
              exact (hl.idxOf_getElem p hlt).symm
            · rintro rfl
              exact List.getElem?_idxOf ha
          simp [hplace, ih has]

/-- The steps of the shuffle never fail. What comes first in the order after them stood at
the places that the shuffle takes. -/
theorem Coherent.firstDrawn_spec (h : Coherent ∅ ∅ c) (now : Timestamp)
    (hin : Shuffle.InRange c.size 0 draws) :
    ∃ (found : List Announcement) (d : Cache),
      Cache.sampleFrom now draws.length 0 draws.length [] c (⟨draws⟩ : Dictated)
        = .ok ((found, d), ⟨[]⟩) ∧
      Coherent ∅ ∅ d ∧ Reordered c d ∧
      c.firstDrawn now draws = d.order.toList.take draws.length ∧
      (Shuffle.taken 0 draws).map (c.order.toList[·]?) = (c.firstDrawn now draws).map some := by
  obtain ⟨found, d, hruns, hd, hreordered, horder⟩ := h.exists_shuffled now hin le_rfl []
  have hrun := hruns (Dictated.delivers hin)
  have hfirst : c.firstDrawn now draws = d.order.toList.take draws.length := by
    rw [firstDrawn, hrun]
  refine ⟨found, d, hrun, hd, hreordered, hfirst, ?_⟩
  have hlength : draws.length ≤ d.order.toList.length := by
    rw [(hreordered.perm_order h hd).length_eq, Array.length_toList]
    exact (Nat.zero_add _).symm.trans_le (hin.length_le (Nat.zero_le _))
  rw [hfirst, Shuffle.taken, List.map_map, ← List.range_eq_range']
  refine List.ext_getElem (by simpa using hlength) fun i hi hi' => ?_
  have hget := horder i
  rw [← Array.getElem?_toList, ← Array.getElem?_toList] at hget
  simp only [List.getElem_map, List.getElem_range, Function.comp_apply, List.getElem_take]
  rw [← hget]
  exact List.getElem?_eq_getElem _

theorem Coherent.firstDrawn_mem (h : Coherent ∅ ∅ c) (hdraws : draws ∈ drawVectors c.size k) :
    c.firstDrawn now draws ∈ c.selections k := by
  obtain ⟨rfl, hin⟩ := mem_drawVectors.mp hdraws
  obtain ⟨found, d, -, hd, hreordered, hfirst, htaken⟩ := h.firstDrawn_spec now hin
  refine ⟨?_, ?_, fun id hid => ?_⟩
  · rw [← List.length_map some, ← htaken, List.length_map, Shuffle.length_taken]
  · rw [hfirst]
    exact hd.sound.nodup_order.sublist (List.take_sublist _ _)
  · rw [hfirst] at hid
    rw [← h.sound.mem_order, ← (hreordered.perm_order h hd).mem_iff]
    exact List.mem_of_mem_take hid

/-- Every sequence of different records comes first in the order after exactly one draw
vector. -/
theorem Coherent.existsUnique_firstDrawn (h : Coherent ∅ ∅ c) (now : Timestamp)
    {ids : List RecordId} (hids : ids ∈ c.selections k) :
    ∃! draws, draws ∈ drawVectors c.size k ∧ c.firstDrawn now draws = ids := by
  obtain ⟨hlength, hnodup, hstored⟩ := hids
  have hmem : ∀ id ∈ ids, id ∈ c.order.toList := fun id hid =>
    h.sound.mem_order.mpr (hstored id hid)
  -- A sequence of records is one of places.
  have htaken : ∀ draws, Shuffle.InRange c.size 0 draws →
      (c.firstDrawn now draws = ids ↔ Shuffle.taken 0 draws = ids.map c.order.toList.idxOf) := by
    intro draws hin
    obtain ⟨found, d, -, -, -, -, htaken⟩ := h.firstDrawn_spec now hin
    rw [← map_getElem?_eq_iff h.sound.nodup_order hmem, htaken,
      (List.map_injective_iff.mpr (Option.some_injective _)).eq_iff]
  have hplaces : (ids.map c.order.toList.idxOf).Nodup :=
    hnodup.map_on fun id hid id' hid' heq => (List.idxOf_inj (hmem id hid)).mp heq
  have hrange : ∀ p ∈ ids.map c.order.toList.idxOf, 0 ≤ p ∧ p < c.size := by
    intro p hp
    obtain ⟨id, hid, rfl⟩ := List.mem_map.mp hp
    have hlt := List.idxOf_lt_length_of_mem (hmem id hid)
    rw [Array.length_toList] at hlt
    exact ⟨Nat.zero_le _, hlt⟩
  obtain ⟨draws, ⟨hin, heq⟩, hunique⟩ := Shuffle.existsUnique_draws hplaces hrange
  have hk : draws.length = k := by
    rw [← Shuffle.length_taken (n := 0), heq, List.length_map, hlength]
  refine ⟨draws, ⟨mem_drawVectors.mpr ⟨hk, hin⟩, (htaken draws hin).mpr heq⟩, ?_⟩
  intro draws' hdraws'
  obtain ⟨hvector, hfirst⟩ := hdraws'
  have hin' := (mem_drawVectors.mp hvector).2
  exact hunique draws' ⟨hin', (htaken draws' hin').mp hfirst⟩

/-! ### Whole samples -/

/-- The peers are those of the records with these numbers, in the same order. -/
def PeersOf (c : Cache) (ids : List RecordId) (peers : List Announcement) : Prop :=
  List.Forall₂ (fun id a => ∃ r : Record, c.records[id]? = some r ∧ r.peer = a) ids peers

/-- Different records have different peers. -/
theorem Indexed.peersOf_unique (h : Indexed c) {ids ids' : List RecordId}
    {peers : List Announcement} (hids : c.PeersOf ids peers) (hids' : c.PeersOf ids' peers) :
    ids = ids' := by
  induction hids generalizing ids' with
  | nil =>
      cases hids'
      rfl
  | cons hpeer hrest ih =>
      cases hids' with
      | cons hpeer' hrest' =>
          obtain ⟨r, hr, ha⟩ := hpeer
          obtain ⟨r', hr', ha'⟩ := hpeer'
          have hip : r.ip = r'.ip := congrArg Announcement.ip (ha.trans ha'.symm)
          rw [h.id_unique hr hr' hip, ih hrest']

/-- When no record is terrible, a sample holds the peers of the records that come first in
the order. -/
theorem Coherent.run_sample (h : Coherent ∅ ∅ c)
    (hhealthy : Every (fun r => r.isTerrible now = false) c)
    (hdraws : draws ∈ drawVectors c.size c.sampleSize) :
    ∃ (peers : List Announcement) (d : Cache),
      c.sample now (⟨draws⟩ : Dictated) = .ok ((peers, d), ⟨[]⟩) ∧
      c.PeersOf (c.firstDrawn now draws) peers := by
  obtain ⟨hlength, hin⟩ := mem_drawVectors.mp hdraws
  obtain ⟨found, d, hrun, hd, hreordered, hfirst, -⟩ := h.firstDrawn_spec now hin
  have hle : c.sampleSize ≤ c.size := by
    rw [← hlength]
    exact (Nat.zero_add _).symm.trans_le (hin.length_le (Nat.zero_le _))
  have hsample : c.sample now (⟨draws⟩ : Dictated) = .ok ((found, d), ⟨[]⟩) := by
    rw [hlength, ← h.sampleFrom_places hhealthy hle (Nat.zero_add _).le] at hrun
    rw [Cache.sample, Draw.run_bind hrun]
    dsimp only
    rw [Draw.run_bind (Draw.run_lift hd.audited _)]
    rfl
  refine ⟨found, d, hsample, ?_⟩
  have hsampled := (h.sampled now).of_run hsample
  have hshared : ∀ id ∈ d.order.toList, (c.shared? now id).isSome := by
    intro id hid
    rw [(hreordered.perm_order h hd).mem_iff, h.sound.mem_order] at hid
    obtain ⟨r, hr⟩ := hid
    simp [shared?, hr, hhealthy id r hr]
  obtain ⟨m, hfound⟩ := hsampled.peers_eq
  rw [List.drop_zero] at hfound
  have hpeers := forall₂_filterMap (c.shared? now) (d.order.toList.take m)
  rw [← hfound, List.filter_eq_self.mpr fun id hid => hshared id (List.mem_of_mem_take hid)]
    at hpeers
  -- Nothing is left out, so the length tells how far the loop has gone.
  have htake : d.order.toList.take m = d.order.toList.take draws.length := by
    have hcount := hsampled.length_eq
    rw [List.drop_zero, List.countP_eq_length.mpr hshared, ← hlength, ← hpeers.length_eq,
      List.length_take] at hcount
    exact List.take_eq_take_iff.mpr hcount
  rw [hfirst, ← htake]
  refine hpeers.imp fun id a ha => ?_
  obtain ⟨r, hr, -, hpeer⟩ := shared?_eq_some_iff.mp ha
  exact ⟨r, hr, hpeer⟩

/-! ### Reachable caches -/

variable {allowed : Operation → Prop}

/-- A sample favours nobody. Let the loop make its first `k` steps, with `k` at most the
number of records. Every draw vector leads through them, and what comes first in the order
is then a sequence of `k` different records. Each such sequence comes from exactly one draw
vector. Any source leads where one of the draw vectors does. So, when no record is terrible,
every selection of as many records as a sample may hold is drawn by exactly one vector. -/
theorem Reachable.sample_uniform (h : Reachable allowed c) (now : Timestamp) :
    (∀ k ≤ c.size,
      (∀ draws ∈ drawVectors c.size k, ∃ (found : List Announcement) (d : Cache),
        sampleFrom now k 0 k [] c (⟨draws⟩ : Dictated) = .ok ((found, d), ⟨[]⟩) ∧
          c.firstDrawn now draws = d.order.toList.take k) ∧
      Set.BijOn (c.firstDrawn now) (drawVectors c.size k) (c.selections k) ∧
      ∀ (σ : Type) [RandomSource σ] (s : σ), ∃ draws ∈ drawVectors c.size k,
        ∃ (found : List Announcement) (d : Cache) (s' : σ),
          sampleFrom now k 0 k [] c s = .ok ((found, d), s') ∧
          sampleFrom now k 0 k [] c (⟨draws⟩ : Dictated) = .ok ((found, d), ⟨[]⟩)) ∧
    (Every (fun r => r.isTerrible now = false) c →
      ∀ ids ∈ c.selections (min (23 * c.size / 100) 2500),
        ∃! draws, draws ∈ drawVectors c.size (min (23 * c.size / 100) 2500) ∧
          ∃ (peers : List Announcement) (d : Cache),
            c.sample now (⟨draws⟩ : Dictated) = .ok ((peers, d), ⟨[]⟩) ∧ c.PeersOf ids peers) := by
  have hc := h.coherent
  refine ⟨fun k hk => ⟨fun draws hdraws => ?_, ⟨?_, ?_, ?_⟩, fun σ _ s => ?_⟩,
    fun hhealthy ids hids => ?_⟩
  · obtain ⟨rfl, hin⟩ := mem_drawVectors.mp hdraws
    obtain ⟨found, d, hrun, -, -, hfirst, -⟩ := hc.firstDrawn_spec now hin
    exact ⟨found, d, hrun, hfirst⟩
  · intro draws hdraws
    exact hc.firstDrawn_mem hdraws
  · intro draws hdraws draws' hdraws' heq
    exact (hc.existsUnique_firstDrawn now (hc.firstDrawn_mem hdraws')).unique ⟨hdraws, heq⟩
      ⟨hdraws', rfl⟩
  · intro ids hids
    obtain ⟨draws, hdraws, -⟩ := hc.existsUnique_firstDrawn now hids
    exact ⟨draws, hdraws⟩
  · obtain ⟨draws, s', rfl, hin, hdelivers⟩ :=
      Shuffle.exists_delivers (show 0 + k ≤ c.size by omega) s
    obtain ⟨found, d, hruns, -⟩ := hc.exists_shuffled now hin le_rfl []
    exact ⟨draws, mem_drawVectors.mpr ⟨rfl, hin⟩, found, d, s', hruns hdelivers,
      hruns (Dictated.delivers hin)⟩
  · obtain ⟨draws, ⟨hdraws, rfl⟩, hunique⟩ := hc.existsUnique_firstDrawn now hids
    obtain ⟨peers, d, hrun, hpeers⟩ := hc.run_sample hhealthy hdraws
    refine ⟨draws, ⟨hdraws, peers, d, hrun, hpeers⟩, fun draws' hdraws' => ?_⟩
    obtain ⟨hvector, peers', d', hrun', hpeers'⟩ := hdraws'
    obtain ⟨peers'', d'', hrun'', hpeers''⟩ := hc.run_sample hhealthy hvector
    rw [hrun'] at hrun''
    cases hrun''
    exact hunique draws' ⟨hvector, hc.peersOf_unique hpeers'' hpeers'⟩

/-- For instance, a sample from ten peers that are all fit to be passed on holds two, and
every two peers, in each order, come from one draw vector. -/
theorem sample_uniform_tenPeers : ∃ c : Cache,
    (Operation.load .ascending (StoredCache.spread default StoredRecord.tenPeers).toBytes).perform
      Rat (ofKey .standard default) (⟨[], 0⟩ : SplitMix) = .ok (c, ⟨[], 0⟩) ∧
    c.size = 10 ∧
    Set.BijOn (c.firstDrawn (.ofSecs 1700000000)) (drawVectors 10 2) (c.selections 2) ∧
    ∀ ids ∈ c.selections 2, ∃! draws, draws ∈ drawVectors 10 2 ∧
      ∃ (peers : List Announcement) (d : Cache),
        c.sample (.ofSecs 1700000000) (⟨draws⟩ : Dictated) = .ok ((peers, d), ⟨[]⟩) ∧
          c.PeersOf ids peers := by
  obtain ⟨c, hrun, hc, hsize, hhealthy⟩ := exists_load_tenPeers
  obtain ⟨hsteps, hsamples⟩ := hc.sample_uniform (.ofSecs 1700000000)
  rw [hsize] at hsteps hsamples
  exact ⟨c, hrun, hsize, (hsteps 2 (by decide)).2.1, hsamples hhealthy⟩

end Cache

end PeerCache
