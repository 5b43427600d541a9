import PeerCache.Cache.Sample
import PeerCache.Proofs.Cache.Audit
import PeerCache.Proofs.Cache.Bookkeeping

/-!
# `PeerCache.Proofs.Cache.Sample`: picking peers at random

Picking never leaves the tables: a blind try draws a bucket and a position below
the dimensions, and a draw from the listing stays below its length. So a search comes
back empty only from an empty table.

Sampling exchanges places of the order. The loop runs as many times as there are
records, so the place that it has come to is always in the order. It leaves the places
that it has passed alone, so what it has found can be read off the order that it ends
with (`Coherent.sampleFrom`): the peers that can be passed on, from some stretch of the
order, and as many as were wanted or as there are.
-/

set_option autoImplicit false

namespace PeerCache

variable {σ : Type} [RandomSource σ]

namespace SlotTable

variable {rows cols : Nat} {α : Type}

/-- An entry of the table was found, or there is none to be found. -/
def Found (t : SlotTable rows cols α) : Option α → Prop
  | some a => ∃ b p, t.get b p = some a
  | none => ∀ b p, t.get b p = none

/-- A search finds something when there is something to be found. -/
theorem Found.exists_entry {t : SlotTable rows cols α} {found : Option α} (h : t.Found found)
    (hsome : ∃ a b p, t.get b p = some a) : ∃ a, found = some a ∧ ∃ b p, t.get b p = some a := by
  cases found with
  | some a => exact ⟨a, rfl, h⟩
  | none =>
      obtain ⟨a, b, p, hget⟩ := hsome
      rw [h b p] at hget
      cases hget

theorem ensures_drawOccupied (t : SlotTable rows cols α) :
    (t.drawOccupied : Draw σ (Option α)).Ensures t.Found := by
  unfold drawOccupied
  dsimp only
  by_cases hempty : t.occupied = []
  · rw [if_pos (List.isEmpty_iff.mpr hempty)]
    refine .pure fun b p => ?_
    cases hget : t.get b p with
    | none => rfl
    | some a =>
        have hmem := mem_occupied.mpr hget
        rw [hempty] at hmem
        cases hmem
  · rw [if_neg (by simpa using hempty)]
    refine .bind (Draw.ensures_below (List.length_pos_iff.mpr hempty)) fun n hn => .pure ?_
    rw [List.getElem?_eq_getElem hn]
    exact ⟨_, _, mem_occupied.mp (List.getElem_mem hn)⟩

/-- Looking for a random entry never leaves the table, and finds one if there is any. The
draw from the listing makes up for blind tries that all miss. -/
theorem ensures_randomEntry (hrows : 0 < rows) (hcols : 0 < cols) (t : SlotTable rows cols α)
    (tries : Nat) : (t.randomEntry tries : Draw σ (Option α)).Ensures t.Found := by
  induction tries with
  | zero => exact t.ensures_drawOccupied
  | succ tries ih =>
      refine .bind (Draw.ensures_below hrows) fun b hb => ?_
      refine .bind (Draw.ensures_below hcols) fun p hp => ?_
      rw [index?, dif_pos hb, dif_pos hp]
      dsimp only
      cases hget : t.get ⟨b, hb⟩ ⟨p, hp⟩ with
      | some a => exact .pure ⟨_, _, hget⟩
      | none => exact ih

end SlotTable

namespace Cache

variable {c : Cache} {w : Type} [Weight w]

/-! ### Picking one peer -/

/-- A pick from a table never fails. A peer that is picked belongs to a record that is not
terrible. -/
theorem ensures_chooseFrom {rows cols : Nat} (hrows : 0 < rows) (hcols : 0 < cols) (c : Cache)
    (table : SlotTable rows cols RecordId) (now : Timestamp) (rounds : Nat) (factor : w) :
    (chooseFrom w c table now rounds factor : Draw σ (Option Announcement)).Ensures fun found =>
      ∀ a, found = some a → ∃ (id : RecordId) (r : Record),
        c.records[id]? = some r ∧ r.isTerrible now = false ∧ r.peer = a := by
  -- The rounds only differ in the factor, which has no bearing on what is found.
  induction rounds generalizing factor with
  | zero => exact .pure nofun
  | succ rounds ih =>
      refine .bind (table.ensures_randomEntry hrows hcols blindTries) fun entry _ => ?_
      cases hr : entry.bind fun id => c.records[id]? with
      | none => exact .pure nofun
      | some r =>
          dsimp only
          split
          · exact ih _
          · next hhealthy =>
            refine .bind (Draw.ensures_below (by decide)) fun draw _ => ?_
            split
            · refine .pure fun a ha => ?_
              cases ha
              obtain ⟨id, -, hid⟩ := Option.bind_eq_some_iff.mp hr
              exact ⟨id, r, hid, by simpa using hhealthy, rfl⟩
            · exact ih _

theorem ensures_chooseTried (c : Cache) : (c.chooseTried : Draw σ Bool).Ensures fun _ => True := by
  unfold chooseTried
  split
  · exact .pure trivial
  · split
    · exact .pure trivial
    · exact Draw.ensures_coin

/-- Picking a peer to dial never fails. A peer that is picked belongs to a record that is
not terrible. -/
theorem ensures_choose (w : Type) [Weight w] (c : Cache) (now : Timestamp) :
    (c.choose w now : Draw σ (Option Announcement)).Ensures fun found =>
      ∀ a, found = some a → ∃ (id : RecordId) (r : Record),
        c.records[id]? = some r ∧ r.isTerrible now = false ∧ r.peer = a := by
  unfold choose
  split
  · exact .pure nofun
  · refine .bind c.ensures_chooseTried fun tried _ => ?_
    split
    · exact ensures_chooseFrom (by decide) (by decide) c c.triedTable now _ _
    · exact ensures_chooseFrom (by decide) (by decide) c c.newTable now _ _

/-! ### Sampling -/

/-- Only the sampling order changes. A record may get another place in it. -/
structure Reordered (c d : Cache) : Prop where
  rest : d = { c with records := d.records, order := d.order }
  record : ∀ id : RecordId, d.records[id]?.map Record.unranked = c.records[id]?.map Record.unranked

namespace Reordered

variable {d e : Cache}

theorem refl (c : Cache) : Reordered c c where
  rest := rfl
  record _ := rfl

theorem trans (h : Reordered c d) (h' : Reordered d e) : Reordered c e where
  rest := by
    rw [h'.rest, h.rest]
  record id := (h'.record id).trans (h.record id)

theorem policy (h : Reordered c d) : d.policy = c.policy := by
  rw [h.rest]

theorem descends (h : Reordered c d) : Descends c d := by
  intro id s hs
  have hid := h.record id
  rw [hs, eq_comm, Option.map_some, Option.map_eq_some_iff] at hid
  obtain ⟨r, hr, hsame⟩ := hid
  exact ⟨r, hr, .of_unranked hsame.symm⟩

end Reordered

/-- The peer that a sample passes on for a number: that of the record, unless the record
is terrible. -/
def shared? (c : Cache) (now : Timestamp) (id : RecordId) : Option Announcement :=
  (c.records[id]?.filter fun r => !r.isTerrible now).map Record.peer

theorem shared?_eq_some_iff {now : Timestamp} {id : RecordId} {a : Announcement} :
    c.shared? now id = some a ↔
      ∃ r : Record, c.records[id]? = some r ∧ r.isTerrible now = false ∧ r.peer = a := by
  simp [shared?, Option.filter_eq_some_iff, and_assoc]

theorem shared?_of_terrible {now : Timestamp} {id : RecordId} {r : Record}
    (hr : c.records[id]? = some r) (hterrible : r.isTerrible now = true) :
    c.shared? now id = none := by
  simp [shared?, hr, hterrible]

/-- The order has no part in what is passed on. -/
theorem Reordered.shared?_eq {d : Cache} (h : Reordered c d) (now : Timestamp) :
    d.shared? now = c.shared? now := by
  funext id
  have hunranked : ∀ r : Option Record, ((r.map Record.unranked).filter
      fun r => !r.isTerrible now).map Record.peer
        = (r.filter fun r => !r.isTerrible now).map Record.peer := by
    intro r
    rw [Option.filter_map, Option.map_map]
    rfl
  rw [shared?, shared?, ← hunranked, h.record, hunranked]

/-- Two places of the order were exchanged. -/
structure Swapped (i k : Nat) (c d : Cache) : Prop where
  coherent : Coherent ∅ ∅ d
  reordered : Reordered c d
  size : d.order.size = c.order.size
  order : ∀ m : Nat, d.order[m]? = c.order[Equiv.swap i k m]?

theorem Coherent.exists_swapped (h : Coherent ∅ ∅ c) {i k : Nat} (hi : i < c.order.size)
    (hk : k < c.order.size) : ∃ d : Cache, c.swapOrder i k = .ok d ∧ Swapped i k c d := by
  obtain ⟨records, order, hswap, hsize, horder, hrecords, hd⟩ := h.swapOrder hi hk
  refine ⟨_, hswap, hd, ⟨rfl, fun id => ?_⟩, hsize, horder⟩
  show records[id]?.map Record.unranked = _
  rw [hrecords, Option.map_map, Record.unranked_comp_moved]

/-- The places before both are left alone. -/
theorem Swapped.getElem?_order_of_lt {d : Cache} {i k m : Nat} (h : Swapped i (i + k) c d)
    (hm : m < i) : d.order[m]? = c.order[m]? := by
  rw [h.order, Equiv.swap_apply_of_ne_of_ne (by omega) (by omega)]

/-- A step of the shuffle exchanges a place with itself or a later one. -/
theorem Coherent.shuffleStep (h : Coherent ∅ ∅ c) {n : Nat} (hn : n < c.order.size) :
    (c.shuffleStep n : Draw σ Cache).Ensures fun d => ∃ k, Swapped n (n + k) c d := by
  refine .bind (Draw.ensures_below (Nat.sub_pos_of_lt hn)) fun k hk => ?_
  obtain ⟨d, hswap, hd⟩ := h.exists_swapped hn (Nat.add_lt_of_lt_sub' hk)
  exact .lift hswap ⟨k, hd⟩

/-- What the sampling loop has made of `c` when it goes on from place `n` to the end, with
`wanted` peers to find. The peers come from a stretch of the order that it leaves. -/
structure Sampled (now : Timestamp) (n wanted : Nat) (c : Cache) (peers : List Announcement)
    (d : Cache) : Prop where
  coherent : Coherent ∅ ∅ d
  reordered : Reordered c d
  kept : ∀ m < n, d.order[m]? = c.order[m]?
  peers_eq : ∃ m, peers = ((d.order.toList.drop n).take m).filterMap (c.shared? now)
  length_eq : peers.length
    = min wanted ((d.order.toList.drop n).countP fun id => (c.shared? now id).isSome)

namespace Sampled

variable {d e : Cache} {now : Timestamp} {n k wanted : Nat} {id : RecordId}
  {peers : List Announcement}

/-- The loop has come to its end. -/
theorem stop (h : Coherent ∅ ∅ c) (hstop : n = c.order.size ∨ wanted = 0) :
    Sampled now n wanted c [] c where
  coherent := h
  reordered := .refl c
  kept _ _ := rfl
  peers_eq := ⟨0, rfl⟩
  length_eq := by
    rcases hstop with rfl | rfl
    · rw [List.drop_of_length_le Array.length_toList.le]
      simp
    · simp

/-- The later rounds leave the record that a round has drawn in its place. -/
theorem drop_order (h : Sampled now (n + 1) wanted d peers e) (hid : d.order[n]? = some id) :
    e.order.toList.drop n = id :: e.order.toList.drop (n + 1) := by
  have hget : e.order.toList[n]? = some id := by
    rw [Array.getElem?_toList, h.kept n (Nat.lt_succ_self n), hid]
  obtain ⟨hn, rfl⟩ := List.getElem?_eq_some_iff.mp hget
  exact List.drop_eq_getElem_cons hn

/-- The places before the round are left alone. -/
theorem kept_of_swapped (hswap : Swapped n (n + k) c d)
    (h : Sampled now (n + 1) wanted d peers e) : ∀ m < n, e.order[m]? = c.order[m]? := by
  intro m hm
  rw [h.kept m (by omega), hswap.getElem?_order_of_lt hm]

/-- A round has drawn a record that is passed on. -/
theorem found (hswap : Swapped n (n + k) c d) (hid : d.order[n]? = some id) {a : Announcement}
    (ha : d.shared? now id = some a) (h : Sampled now (n + 1) wanted d peers e) :
    Sampled now n (wanted + 1) c (a :: peers) e where
  coherent := h.coherent
  reordered := hswap.reordered.trans h.reordered
  kept := kept_of_swapped hswap h
  peers_eq := by
    obtain ⟨m, hpeers⟩ := h.peers_eq
    refine ⟨m + 1, ?_⟩
    rw [h.drop_order hid, List.take_succ_cons, ← hswap.reordered.shared?_eq,
      List.filterMap_cons_some ha, ← hpeers]
  length_eq := by
    rw [h.drop_order hid, ← hswap.reordered.shared?_eq, List.countP_cons_of_pos (by simp [ha]),
      List.length_cons, h.length_eq, Nat.add_min_add_right]

/-- A round has drawn a record that is left out. -/
theorem passed (hswap : Swapped n (n + k) c d) (hid : d.order[n]? = some id)
    (hnone : d.shared? now id = none) (h : Sampled now (n + 1) wanted d peers e) :
    Sampled now n wanted c peers e where
  coherent := h.coherent
  reordered := hswap.reordered.trans h.reordered
  kept := kept_of_swapped hswap h
  peers_eq := by
    obtain ⟨m, hpeers⟩ := h.peers_eq
    refine ⟨m + 1, ?_⟩
    rw [h.drop_order hid, List.take_succ_cons, ← hswap.reordered.shared?_eq,
      List.filterMap_cons_none hnone, ← hpeers]
  length_eq := by
    rw [h.drop_order hid, ← hswap.reordered.shared?_eq, List.countP_cons_of_neg (by simp [hnone]),
      h.length_eq]

end Sampled

/-- The place of the order that a round looks at holds the number of a record. -/
theorem Coherent.exists_record (h : Coherent ∅ ∅ c) {n : Nat} (hn : n < c.order.size) :
    ∃ (id : RecordId) (r : Record), c.order[n]? = some id ∧ c.records[id]? = some r := by
  have hget : c.order[n]? = some c.order[n] := Array.getElem?_eq_getElem hn
  obtain ⟨r, hr, -⟩ := (h.order_iff n _).mp hget
  exact ⟨_, r, hget, hr⟩

/-- Sampling goes on as long as there are places left in the order. -/
theorem Coherent.sampleFrom (h : Coherent ∅ ∅ c) (now : Timestamp) (places n wanted : Nat)
    (found : List Announcement) (hn : n + places = c.order.size) :
    (sampleFrom now places n wanted found c : Draw σ (List Announcement × Cache)).Ensures fun x =>
      ∃ peers, x.1 = found.reverse ++ peers ∧ Sampled now n wanted c peers x.2 := by
  -- Each round uses up one of the places that are left, and the order keeps its size.
  induction places generalizing c n wanted found with
  | zero =>
      unfold Cache.sampleFrom
      exact .pure ⟨[], by simp, .stop h (Or.inl hn)⟩
  | succ places ih =>
      cases wanted with
      | zero => exact .pure ⟨[], by simp, .stop h (Or.inr rfl)⟩
      | succ wanted =>
          refine .bind (h.shuffleStep (by omega)) fun d hd => ?_
          obtain ⟨k, hswap⟩ := hd
          have hsize := hswap.size
          obtain ⟨id, r, hid, hr⟩ := hswap.coherent.exists_record (n := n) (by omega)
          rw [hid]
          dsimp only
          rw [hr]
          dsimp only
          have hnext : n + 1 + places = d.order.size := by omega
          by_cases hterrible : r.isTerrible now = true
          · rw [if_pos hterrible]
            refine (ih hswap.coherent (n + 1) (wanted + 1) found hnext).mono fun x hx => ?_
            obtain ⟨peers, hpeers, hsampled⟩ := hx
            exact ⟨peers, hpeers, hsampled.passed hswap hid (shared?_of_terrible hr hterrible)⟩
          · rw [if_neg hterrible]
            refine (ih hswap.coherent (n + 1) wanted (r.peer :: found) hnext).mono fun x hx => ?_
            obtain ⟨peers, hpeers, hsampled⟩ := hx
            have hshared : d.shared? now id = some r.peer :=
              shared?_eq_some_iff.mpr ⟨r, hr, by simpa using hterrible, rfl⟩
            exact ⟨r.peer :: peers, by simpa using hpeers, hsampled.found hswap hid hshared⟩

/-- A sample goes through the order from its first place on, and stops when it has
enough. -/
theorem Coherent.sampled (h : Coherent ∅ ∅ c) (now : Timestamp) :
    (c.sample now : Draw σ (List Announcement × Cache)).Ensures fun x =>
      Sampled now 0 c.sampleSize c x.1 x.2 := by
  refine .bind (h.sampleFrom now c.size 0 c.sampleSize [] (Nat.zero_add _)) fun x hx => ?_
  obtain ⟨peers, hpeers, hsampled⟩ := hx
  refine .bind hsampled.coherent.ensures_audited fun d hd => ?_
  subst hd
  rw [List.reverse_nil, List.nil_append] at hpeers
  subst hpeers
  exact .pure hsampled

/-- Drawing a sample never fails and keeps the invariant. Only the sampling order
changes. -/
theorem Coherent.sample (h : Coherent ∅ ∅ c) (now : Timestamp) :
    (c.sample now : Draw σ (List Announcement × Cache)).Ensures fun x =>
      Coherent ∅ ∅ x.2 ∧ Reordered c x.2 :=
  (h.sampled now).mono fun _ hx => ⟨hx.coherent, hx.reordered⟩

/-- The peers of a sample belong to records that are not terrible. -/
theorem Coherent.sample_peers (h : Coherent ∅ ∅ c) (now : Timestamp) :
    (c.sample now : Draw σ (List Announcement × Cache)).Ensures fun x =>
      ∀ a ∈ x.1, ∃ (id : RecordId) (r : Record),
        c.records[id]? = some r ∧ r.isTerrible now = false ∧ r.peer = a := by
  refine (h.sampled now).mono fun x hx a ha => ?_
  obtain ⟨m, hpeers⟩ := hx.peers_eq
  rw [hpeers, List.mem_filterMap] at ha
  obtain ⟨id, -, ha⟩ := ha
  exact ⟨id, shared?_eq_some_iff.mp ha⟩

end Cache

end PeerCache
