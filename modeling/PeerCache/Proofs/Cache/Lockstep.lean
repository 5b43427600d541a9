import PeerCache.Proofs.Cache.Renaming
import PeerCache.Proofs.Cache.Sample
import PeerCache.Proofs.Cache.Dial
import PeerCache.Proofs.Cache.Learn

/-!
# `PeerCache.Proofs.Cache.Lockstep`: operations on two caches side by side

Let a permutation of the numbers rename one cache to another. Then every operation
does the same on both. It takes the same branches, draws the same numbers, gives the
same answer, and leaves two caches that a permutation renames again.

The permutation stays the same, except where a record is added. The two caches may
give it numbers that do not correspond. Both numbers were free before, so one
transposition puts this right (`Renames.created`).

The steps come first, each for the result that its specification describes
(`Cleared`, `Offered`, `Promoted`). The operations follow, put together from the
steps by the rules of `Draw.Agrees`.
-/

set_option autoImplicit false

namespace PeerCache

namespace SlotTable

variable {rows cols : Nat} {α β : Type} {t : SlotTable rows cols α} {u : SlotTable rows cols β}
  {f : α → β}

/-- The listing of a table whose entries were mapped. -/
theorem occupied_map (h : ∀ b p, u.get b p = (t.get b p).map f) :
    u.occupied = t.occupied.map fun x => (x.1, x.2.1, f x.2.2) := by
  rw [occupied_eq, occupied_eq, List.map_flatMap]
  congr 1
  funext b
  rw [List.map_filterMap]
  congr 1
  funext p
  rw [h, Option.map_map, Option.map_map]
  rfl

variable {σ : Type} [RandomSource σ]

/-- The same slot is drawn from both tables. -/
theorem agrees_drawOccupied (h : ∀ b p, u.get b p = (t.get b p).map f) :
    (t.drawOccupied : Draw σ (Option α)).Agrees (u.drawOccupied : Draw σ (Option β))
      fun x y => y = x.map f := by
  unfold drawOccupied
  dsimp only
  rw [occupied_map h, List.isEmpty_map, List.length_map]
  by_cases hempty : t.occupied.isEmpty = true
  · rw [if_pos hempty, if_pos hempty]
    exact .pure rfl
  · rw [if_neg hempty, if_neg hempty]
    have hpos : 0 < t.occupied.length := by
      simpa [List.length_pos_iff, List.isEmpty_iff] using hempty
    refine .bind (Draw.ensures_below hpos).agrees fun n m hnm => ?_
    obtain ⟨rfl, -⟩ := hnm
    refine .pure ?_
    rw [List.getElem?_map, Option.map_map, Option.map_map]
    rfl

/-- The blind search takes as many tries in both tables. -/
theorem agrees_randomEntry (hrows : 0 < rows) (hcols : 0 < cols)
    (h : ∀ b p, u.get b p = (t.get b p).map f) (tries : Nat) :
    (t.randomEntry tries : Draw σ (Option α)).Agrees (u.randomEntry tries : Draw σ (Option β))
      fun x y => y = x.map f := by
  induction tries with
  | zero => exact agrees_drawOccupied h
  | succ tries ih =>
      refine .bind (Draw.ensures_below hrows).agrees fun b b' hb => ?_
      obtain ⟨rfl, hb⟩ := hb
      refine .bind (Draw.ensures_below hcols).agrees fun p p' hp => ?_
      obtain ⟨rfl, hp⟩ := hp
      rw [index?, dif_pos hb, dif_pos hp]
      dsimp only
      rw [h]
      cases t.get ⟨b, hb⟩ ⟨p, hp⟩ with
      | some a => exact .pure rfl
      | none => exact ih

end SlotTable

namespace Cache

variable {c d c' d' : Cache} {id j : RecordId} {r s : Record} {π : Equiv.Perm RecordId}
  {b : Fin newBucketCount} {p : Fin bucketSize}

/-! ### Steps on both caches -/

namespace Renames

/-- A change of corresponding records that comes to the same. -/
theorem modifyRecord (h : Renames π c d) {f g : Record → Record}
    (hfg : ∀ r s, c.records[id]? = some r → d.records[π id]? = some s →
      s.unranked = r.unranked → (g s).unranked = (f r).unranked) :
    Renames π (c.modifyRecord id f) (d.modifyRecord (π id) g) where
  key := h.key
  record j := by
    by_cases hj : j = id
    · subst hj
      rw [getElem?_modifyRecord_self, getElem?_modifyRecord_self]
      cases hr : c.records[j]? with
      | none =>
          rw [h.getElem?_eq_none_iff.mpr hr]
          rfl
      | some r =>
          obtain ⟨s, hs, hsame⟩ := h.exists_record hr
          rw [hs]
          exact congrArg some (hfg r s hr hs hsame)
    · rw [getElem?_modifyRecord_of_ne _ _ _ hj,
        getElem?_modifyRecord_of_ne _ _ _ (π.injective.ne hj)]
      exact h.record j
  newSlots := h.newSlots
  triedSlots := h.triedSlots

/-- Slots that are given new content on both sides, and records that stay. -/
theorem putNew (h : Renames π c d) (b : Fin newBucketCount) (p : Fin bucketSize) (id : RecordId) :
    Renames π (c.putNew b p id) (d.putNew b p (π id)) where
  key := h.key
  record := h.record
  newSlots j := by
    show (d.newTable.update b p (some (π id))).held (π j) = (c.newTable.update b p (some id)).held j
    rw [SlotTable.held_update, SlotTable.held_update, h.newSlots]
    simp
  triedSlots := h.triedSlots

theorem addReference (h : Renames π c d) (b : Fin newBucketCount) (p : Fin bucketSize)
    (id : RecordId) : Renames π (c.addReference b p id) (d.addReference b p (π id)) :=
  (h.putNew b p id).modifyRecord fun _ _ _ _ hsame =>
    Record.congr_unranked hsame (fun r => { r with refs := r.refs + 1, orderIndex := 0 })
      fun _ => rfl

/-- Corresponding records are removed. -/
theorem removed (h : Renames π c d) (hc : Removed id c c') (hd : Removed (π id) d d') :
    Renames π c' d' where
  key := by rw [hd.key, h.key, hc.key]
  record j := by
    by_cases hj : j = id
    · rw [hj, hc.gone, hd.gone]
    · rw [hc.unranked_others hj, hd.unranked_others (π.injective.ne hj), h.record]
  newSlots j := by rw [hd.newTable, hc.newTable, h.newSlots]
  triedSlots j := by rw [hd.triedTable, hc.triedTable, h.triedSlots]

/-- One slot is freed on both sides. -/
theorem cleared (h : Renames π c d) (hplaced : Placed c) (hc : Cleared b p c c')
    (hd : Cleared b p d d') : Renames π c' d' where
  key := by rw [hd.key, h.key, hc.key]
  record j := by
    have hget := h.get_newTable b p
    by_cases hj : c.newTable.get b p = some j
    · obtain ⟨r, hr, -⟩ := hplaced.new_slot b p j hj
      obtain ⟨s, hs, hsame⟩ := h.exists_record hr
      rw [hj] at hget
      have hrefs : s.refs = r.refs := Record.congr_unranked hsame Record.refs fun _ => rfl
      rw [hc.holder j r hj hr, hd.holder (π j) s hget hs, hrefs]
      by_cases hlast : r.refs = 1
      · rw [if_pos hlast, if_pos hlast]
      · rw [if_neg hlast, if_neg hlast]
        exact congrArg some (Record.congr_unranked hsame
          (fun x => { x with refs := r.refs - 1, orderIndex := 0 }) fun _ => rfl)
    · have hj' : d.newTable.get b p ≠ some (π j) := by
        rw [hget]
        simpa using hj
      rw [hc.unranked_others hj, hd.unranked_others hj', h.record]
  newSlots j := by
    rw [hd.newTable, hc.newTable, SlotTable.held_update, SlotTable.held_update, if_neg nofun,
      if_neg nofun, h.newSlots]
  triedSlots j := by rw [hd.triedTable, hc.triedTable, h.triedSlots]

/-- Two numbers without records may be exchanged. -/
theorem swap_free (hd : Placed d) {x y : RecordId} (hx : d.records[x]? = none)
    (hy : d.records[y]? = none) : Renames (Equiv.swap x y) d d := by
  -- What holds alike of the two numbers is not changed by exchanging them.
  have halike : ∀ {α : Type} (f : RecordId → α), f x = f y → ∀ j, f (Equiv.swap x y j) = f j := by
    intro α f hxy j
    rw [Equiv.swap_apply_def]
    by_cases hjx : j = x
    · rw [if_pos hjx, hjx, hxy]
    · by_cases hjy : j = y
      · rw [if_neg hjx, if_pos hjy, hjy, hxy]
      · rw [if_neg hjx, if_neg hjy]
  have hnew : ∀ j, d.records[j]? = none → d.newTable.held j = ∅ := fun j hj =>
    SlotTable.held_eq_empty_iff.mpr (hd.get_ne_of_none hj).1
  have htried : ∀ j, d.records[j]? = none → d.triedTable.held j = ∅ := fun j hj =>
    SlotTable.held_eq_empty_iff.mpr (hd.get_ne_of_none hj).2
  exact ⟨rfl, halike (fun j => d.records[j]?.map Record.unranked) (by rw [hx, hy]),
    halike d.newTable.held (by rw [hnew x hx, hnew y hy]),
    halike d.triedTable.held (by rw [htried x hx, htried y hy])⟩

/-- A record for the same announcement is added on both sides. Some permutation leads
from the one to the other. -/
theorem created (h : Renames π c d) (hc : Coherent ∅ ∅ c) (hd : Coherent ∅ ∅ d) (a : Announcement)
    (source : Ip) (penalty : Nat) : ∃ ρ : Equiv.Perm RecordId, ρ ⟨c.nextId⟩ = ⟨d.nextId⟩ ∧
      Renames ρ (c.created a source penalty) (d.created a source penalty) := by
  have hfree : d.records[π ⟨c.nextId⟩]? = none := h.getElem?_eq_none_iff.mpr hc.getElem?_nextId
  have hρ := h.trans (swap_free hd.toPlaced hfree hd.getElem?_nextId)
  have hnext : (π.trans (Equiv.swap (π ⟨c.nextId⟩) ⟨d.nextId⟩)) ⟨c.nextId⟩ = ⟨d.nextId⟩ := by
    rw [Equiv.trans_apply, Equiv.swap_apply_left]
  generalize π.trans (Equiv.swap (π ⟨c.nextId⟩) ⟨d.nextId⟩) = ρ at hρ hnext
  refine ⟨ρ, hnext, hρ.key, fun j => ?_, hρ.newSlots, hρ.triedSlots⟩
  rw [records_created, records_created]
  by_cases hj : j = ⟨c.nextId⟩
  · subst hj
    rw [if_pos hnext, if_pos rfl]
    rfl
  · have hne : ρ j ≠ ⟨d.nextId⟩ := by
      rw [← hnext]
      exact ρ.injective.ne hj
    rw [if_neg hj, if_neg hne]
    exact hρ.record j

theorem givesWay (h : Renames π c d) (holder : RecordId) (refs : Nat) (now : Timestamp) :
    d.givesWay (π holder) refs now = c.givesWay holder refs now := by
  unfold Cache.givesWay
  cases hr : c.records[holder]? with
  | none => rw [h.getElem?_eq_none_iff.mpr hr]
  | some r =>
      obtain ⟨s, hs, hsame⟩ := h.exists_record hr
      rw [hs]
      exact Record.congr_unranked hsame
        (fun r => r.isTerrible now || (1 < r.refs && refs == 0)) fun _ => rfl

/-- An offer of the same slot ends in the same way. -/
theorem offered (h : Renames π c d) (hplaced : Placed c) (hrefs : s.refs = r.refs)
    {created : Bool} {now : Timestamp} {counts counts' : Bool}
    (hc : Offered c id r b p created now counts c')
    (hd : Offered d (π id) s b p created now counts' d') : counts' = counts ∧ Renames π c' d' := by
  have hget := h.get_newTable b p
  cases hholder : c.newTable.get b p with
  | none =>
      rw [hholder] at hget
      obtain ⟨rfl, rfl⟩ := hc.of_free hholder
      obtain ⟨rfl, rfl⟩ := hd.of_free hget
      exact ⟨rfl, h.addReference b p id⟩
  | some holder =>
      rw [hholder] at hget
      by_cases hself : holder = id
      · subst hself
        obtain ⟨rfl, rfl⟩ := hc.of_held hholder
        obtain ⟨rfl, rfl⟩ := hd.of_held hget
        exact ⟨rfl, h⟩
      · have hother : π holder ≠ π id := π.injective.ne hself
        have hsame := h.givesWay holder s.refs now
        rw [hrefs] at hsame
        by_cases hway : c.givesWay holder r.refs now = true
        · rw [hway, ← hrefs] at hsame
          obtain ⟨rfl, m, hm, rfl⟩ := hc.of_givesWay hholder hself hway
          obtain ⟨rfl, m', hm', rfl⟩ := hd.of_givesWay hget hother hsame
          exact ⟨rfl, (h.cleared hplaced hm hm').addReference b p id⟩
        · rw [Bool.not_eq_true] at hway
          rw [hway, ← hrefs] at hsame
          obtain ⟨rfl, hdropped, hrefused⟩ := hc.of_stays hholder hself hway
          obtain ⟨rfl, hdropped', hrefused'⟩ := hd.of_stays hget hother hsame
          rw [hrefs] at hdropped' hrefused'
          by_cases hzero : r.refs = 0
          · exact ⟨rfl, h.removed (hdropped hzero) (hdropped' hzero)⟩
          · rw [hrefused hzero, hrefused' hzero]
            exact ⟨rfl, h⟩

/-- What both sides keep still corresponds. -/
theorem keeps (h : Renames π c d) (hc : Keeps c c' j) (hd : Keeps d d' (π j)) :
    d'.records[π j]?.map Record.unranked = c'.records[j]?.map Record.unranked ∧
      d'.newTable.held (π j) = c'.newTable.held j :=
  ⟨by rw [hd.record, hc.record, h.record], by rw [hd.newSlots, hc.newSlots, h.newSlots]⟩

/-- The evicted records correspond, and so do all others but the promoted ones. -/
theorem evicted (h : Renames π c d) (hplaced : Placed c) {other : RecordId}
    (hsame : s.unranked = r.unranked) (hc : Evicted id other r c c')
    (hd : Evicted (π id) (π other) s d d') (hj : j ≠ id) :
    d'.records[π j]?.map Record.unranked = c'.records[j]?.map Record.unranked ∧
      d'.newTable.held (π j) = c'.newTable.held j := by
  have hprimary : d.primarySlot s.endpoint s.source = c.primarySlot r.endpoint r.source := by
    rw [h.primarySlot]
    exact Record.congr_unranked hsame (fun r => c.primarySlot r.endpoint r.source) fun _ => rfl
  by_cases hother : j = other
  · subst hother
    rw [hc.record, hd.record, hc.newSlots, hd.newSlots, hprimary]
    exact ⟨congrArg some (Record.congr_unranked hsame
      (fun r => { r with inTried := false, refs := 1, orderIndex := 0 }) fun _ => rfl), rfl⟩
  · by_cases hmem : c.primarySlot r.endpoint r.source ∈ c.newTable.held j
    · -- The record loses the slot, and is removed if it had no other.
      obtain ⟨t, ht, -⟩ := hplaced.new_slot _ _ j (SlotTable.mem_held.mp hmem)
      obtain ⟨t', ht', htt⟩ := h.exists_record ht
      have hmem' : d.primarySlot s.endpoint s.source ∈ d.newTable.held (π j) := by
        rw [hprimary, h.newSlots]
        exact hmem
      obtain ⟨-, hslots, hrecord⟩ := hc.holder j t hj hmem ht
      obtain ⟨-, hslots', hrecord'⟩ := hd.holder (π j) t' (π.injective.ne hj) hmem' ht'
      rw [hslots, hslots', hrecord, hrecord', hprimary, h.newSlots]
      refine ⟨?_, rfl⟩
      exact Record.congr_unranked htt (fun t => if t.refs = 1 then none
        else some { t with refs := t.refs - 1, orderIndex := 0 }) fun _ => rfl
    · have hmem' : d.primarySlot s.endpoint s.source ∉ d.newTable.held (π j) := by
        rw [hprimary, h.newSlots]
        exact hmem
      exact h.keeps (hc.others j hj hother hmem)
        (hd.others (π j) (π.injective.ne hj) (π.injective.ne hother) hmem')

/-- Corresponding records are promoted, and corresponding ones are evicted. -/
theorem promoted (h : Renames π c d) (hplaced : Placed c) (hsame : s.unranked = r.unranked)
    {evicted evicted' : Option Endpoint} (hc : Promoted id r evicted c c')
    (hd : Promoted (π id) s evicted' d d') : evicted' = evicted ∧ Renames π c' d' := by
  have hslot : d.triedSlot s.endpoint = c.triedSlot r.endpoint := by
    rw [h.triedSlot]
    exact Record.congr_unranked hsame (fun r => c.triedSlot r.endpoint) fun _ => rfl
  have hget := h.get_triedTable (c.triedSlot r.endpoint).1 (c.triedSlot r.endpoint).2
  -- First the evicted record and the other ones, by what holds the slot.
  have hrest : evicted' = evicted ∧ ∀ j, j ≠ id →
      d'.records[π j]?.map Record.unranked = c'.records[j]?.map Record.unranked ∧
        d'.newTable.held (π j) = c'.newTable.held j := by
    cases hholder : c.triedTable.get (c.triedSlot r.endpoint).1 (c.triedSlot r.endpoint).2 with
    | none =>
        rw [hholder] at hget
        obtain ⟨rfl, hkept⟩ := hc.vacant hholder
        obtain ⟨rfl, hkept'⟩ := hd.vacant (by rw [hslot]; exact hget)
        exact ⟨rfl, fun j hj => h.keeps (hkept j hj) (hkept' (π j) (π.injective.ne hj))⟩
    | some other =>
        rw [hholder] at hget
        obtain ⟨t, ht, rfl, hevicted⟩ := hc.taken other hholder
        obtain ⟨t', ht', rfl, hevicted'⟩ := hd.taken (π other) (by rw [hslot]; exact hget)
        obtain ⟨u, hu, htt⟩ := h.exists_record ht
        rw [ht'] at hu
        cases hu
        exact ⟨congrArg some (Record.congr_unranked htt Record.endpoint fun _ => rfl),
          fun j hj => h.evicted hplaced htt hevicted hevicted' hj⟩
  have hself : d'.records[π id]?.map Record.unranked = c'.records[id]?.map Record.unranked := by
    rw [hc.record, hd.record]
    exact congrArg some (Record.congr_unranked hsame
      (fun r => { r with inTried := true, refs := 0, orderIndex := 0 }) fun _ => rfl)
  refine ⟨hrest.1, by rw [hd.key, h.key, hc.key], fun j => ?_, fun j => ?_, fun j => ?_⟩
  · by_cases hj : j = id
    · rw [hj, hself]
    · exact (hrest.2 j hj).1
  · by_cases hj : j = id
    · rw [hj, hc.newSlots, hd.newSlots]
    · exact (hrest.2 j hj).2
  · rw [hc.triedTable, hd.triedTable, hslot, SlotTable.held_update, SlotTable.held_update,
      h.triedSlots]
    simp

/-! ### What is read of both caches -/

theorem stats (h : Renames π c d) (hc : Coherent ∅ ∅ c) (hd : Coherent ∅ ∅ d) :
    d.stats = c.stats := by
  obtain ⟨hnewCount, htriedCount⟩ := h.counts hc hd
  rw [Cache.stats, Cache.stats, hnewCount, htriedCount, SlotTable.size_eq, SlotTable.size_eq,
    SlotTable.size_eq, SlotTable.size_eq, SlotTable.occupied_map h.get_newTable,
    SlotTable.occupied_map h.get_triedTable, List.length_map, List.length_map]

/-- The same record is found, but for its place in the sampling order. -/
theorem find? (h : Renames π c d) (hc : Indexed c) (hd : Indexed d) (e : Endpoint) :
    (d.find? e).map Record.unranked = (c.find? e).map Record.unranked := by
  rcases h.lookup hc hd e with ⟨hnone, hnone'⟩ | ⟨id, r, s, hfound, hfound', hsame⟩
  · rw [Cache.find?, Cache.find?, hnone, hnone']
  · rw [Cache.find?, Cache.find?, hfound, hfound']
    exact congrArg some hsame

theorem contains (h : Renames π c d) (hc : Indexed c) (hd : Indexed d) (e : Endpoint) :
    d.contains e = c.contains e := by
  rcases h.lookup hc hd e with ⟨hnone, hnone'⟩ | ⟨id, r, s, hfound, hfound', -⟩
  · rw [Cache.contains, Cache.contains, hnone, hnone']
  · rw [Cache.contains, Cache.contains, hfound, hfound']
    rfl

theorem isEmpty (h : Renames π c d) (hc : Indexed c) (hd : Indexed d) :
    d.isEmpty = c.isEmpty := by
  rw [Bool.eq_iff_iff, hd.isEmpty_iff, hc.isEmpty_iff]
  constructor
  · intro hnone id
    exact h.getElem?_eq_none_iff.mp (hnone (π id))
  · intro hnone id
    rw [← π.apply_symm_apply id]
    exact h.getElem?_eq_none_iff.mpr (hnone (π.symm id))

end Renames

/-! ### The operations on both caches -/

section Operations

variable {σ : Type} [RandomSource σ]

namespace Renames

/-- Recording that an endpoint was reached. -/
theorem confirm (h : Renames π c d) (hc : Coherent ∅ ∅ c) (hd : Coherent ∅ ∅ d) (e : Endpoint)
    (now : Timestamp) :
    (c.confirm e now : Draw σ (Confirmation × Cache)).Agrees (d.confirm e now) fun x y =>
      y.1 = x.1 ∧ Renames π x.2 y.2 := by
  intro source
  rcases h.lookup hc.toIndexed hd.toIndexed e with
    ⟨hnone, hnone'⟩ | ⟨id, r, s, hfound, hfound', hsame⟩
  · exact ⟨_, _, source, hc.confirm_unknown hnone now source, hd.confirm_unknown hnone' now source,
      rfl, h⟩
  · have hreached : (s.reached now).unranked = (r.reached now).unranked :=
      Record.congr_unranked hsame (fun r => (r.reached now).unranked) fun _ => rfl
    have hm : Renames π (c.modifyRecord id fun r => r.reached now)
        (d.modifyRecord (π id) fun r => r.reached now) := by
      refine h.modifyRecord fun r s _ _ hrs => ?_
      exact Record.congr_unranked hrs (fun r => (r.reached now).unranked) fun _ => rfl
    have hkind : s.inTried = r.inTried := Record.congr_unranked hsame Record.inTried fun _ => rfl
    cases htried : r.inTried with
    | true =>
        exact ⟨_, _, source, hc.confirm_tried hfound htried now source,
          hd.confirm_tried hfound' (hkind.trans htried) now source, rfl, hm⟩
    | false =>
        obtain ⟨evicted, c', hrun, -, -, hpromoted⟩ := hc.confirm_new hfound htried now source
        obtain ⟨evicted', d', hrun', -, -, hpromoted'⟩ :=
          hd.confirm_new hfound' (hkind.trans htried) now source
        obtain ⟨rfl, hfinal⟩ :=
          hm.promoted (hc.reached id now).toPlaced hreached hpromoted hpromoted'
        exact ⟨_, _, _, hrun, hrun', rfl, hfinal⟩

/-- Recording an attempt. -/
theorem noteAttempt (h : Renames π c d) (hc : Coherent ∅ ∅ c) (hd : Coherent ∅ ∅ d) (e : Endpoint)
    (now : Timestamp) : ∃ c' d' : Cache, c.noteAttempt e now = .ok c' ∧
      d.noteAttempt e now = .ok d' ∧ Renames π c' d' := by
  rcases h.lookup hc.toIndexed hd.toIndexed e with
    ⟨hnone, hnone'⟩ | ⟨id, r, s, hfound, hfound', -⟩
  · exact ⟨c, d, (hc.note_unknown hnone now).1, (hd.note_unknown hnone' now).1, h⟩
  · refine ⟨_, _, (hc.noteAttempt_known hfound now).1, (hd.noteAttempt_known hfound' now).1, ?_⟩
    refine h.modifyRecord fun r s _ _ hrs => ?_
    exact Record.congr_unranked hrs (fun r => (r.attempted now).unranked) fun _ => rfl

/-- Recording a live session. -/
theorem noteAlive (h : Renames π c d) (hc : Coherent ∅ ∅ c) (hd : Coherent ∅ ∅ d) (e : Endpoint)
    (now : Timestamp) : ∃ c' d' : Cache, c.noteAlive e now = .ok c' ∧
      d.noteAlive e now = .ok d' ∧ Renames π c' d' := by
  rcases h.lookup hc.toIndexed hd.toIndexed e with
    ⟨hnone, hnone'⟩ | ⟨id, r, s, hfound, hfound', hsame⟩
  · exact ⟨c, d, (hc.note_unknown hnone now).2, (hd.note_unknown hnone' now).2, h⟩
  · obtain ⟨c', hrun, -, hc'⟩ := hc.noteAlive_known hfound now
    obtain ⟨d', hrun', -, hd'⟩ := hd.noteAlive_known hfound' now
    refine ⟨c', d', hrun, hrun', ?_⟩
    have hseen : s.peer.seen = r.peer.seen :=
      Record.congr_unranked hsame (fun r => r.peer.seen) fun _ => rfl
    rw [hc', hd', hseen]
    by_cases hback : aliveStep < now.since r.peer.seen
    · rw [if_pos hback, if_pos hback]
      refine h.modifyRecord fun r s _ _ hrs => ?_
      exact Record.congr_unranked hrs (fun r => (r.alive now).unranked) fun _ => rfl
    · rw [if_neg hback, if_neg hback]
      exact h

/-- Merging an announcement into corresponding records, with the draw that decides on
a further slot. -/
theorem refresh (h : Renames π c d) (hr : c.records[id]? = some r)
    (hs : d.records[π id]? = some s) (a : Announcement) (penalty : Nat) (now : Timestamp) :
    (c.refresh id a.canonical penalty now : Draw σ (Bool × Cache)).Agrees
      (d.refresh (π id) a.canonical penalty now) fun x y => y.1 = x.1 ∧ Renames π x.2 y.2 := by
  have hsame : s.unranked = r.unranked := by
    have hid := h.record id
    rw [hr, hs] at hid
    exact Option.some.inj hid
  have hmerge : (s.merge a.canonical penalty now).unranked
      = (r.merge a.canonical penalty now).unranked :=
    Record.congr_unranked hsame (fun r => (r.merge a.canonical penalty now).unranked) fun _ => rfl
  have hm : Renames π (c.merged id r a penalty now) (d.merged (π id) s a penalty now) :=
    h.modifyRecord fun _ _ _ _ _ => hmerge
  have hnews : (s.merge a.canonical penalty now).isNews a.canonical.seen
      = (r.merge a.canonical penalty now).isNews a.canonical.seen :=
    Record.congr_unranked hmerge (fun r => r.isNews a.canonical.seen) fun _ => rfl
  have hroom : (s.merge a.canonical penalty now).hasRoom
      = (r.merge a.canonical penalty now).hasRoom :=
    Record.congr_unranked hmerge Record.hasRoom fun _ => rfl
  have hrefs : (s.merge a.canonical penalty now).refs = (r.merge a.canonical penalty now).refs :=
    Record.congr_unranked hmerge Record.refs fun _ => rfl
  unfold Cache.refresh
  rw [hr, hs]
  dsimp only
  rw [hnews, hroom, hrefs]
  by_cases hstop : (!(r.merge a.canonical penalty now).isNews a.canonical.seen ||
      !(r.merge a.canonical penalty now).hasRoom) = true
  · rw [if_pos hstop, if_pos hstop]
    exact .pure ⟨rfl, hm⟩
  · rw [if_neg hstop, if_neg hstop]
    by_cases hfirst : (r.merge a.canonical penalty now).refs = 0
    · rw [if_pos hfirst, if_pos hfirst]
      exact .pure ⟨rfl, hm⟩
    · rw [if_neg hfirst, if_neg hfirst]
      have hpos : 0 < 1 <<< (r.merge a.canonical penalty now).refs := by
        rw [Nat.one_shiftLeft]
        exact Nat.two_pow_pos _
      refine .bind (Draw.ensures_below hpos).agrees fun n m hnm => ?_
      obtain ⟨rfl, -⟩ := hnm
      exact .pure ⟨rfl, hm⟩

/-- Offering corresponding records a slot. -/
theorem offerSlot (h : Renames π c d) (hc : Coherent {id} ∅ c) (hd : Coherent {π id} ∅ d)
    (hr : c.records[id]? = some r) (hnew : r.inTried = false) (hroom : r.refs < maxReferences)
    (source : Ip) (created : Bool) (now : Timestamp) : ∃ (counts : Bool) (c' d' : Cache),
      c.offerSlot id source created now = .ok (counts, c') ∧
        d.offerSlot (π id) source created now = .ok (counts, d') ∧ Renames π c' d' := by
  obtain ⟨s, hs, hsame⟩ := h.exists_record hr
  have hrefs : s.refs = r.refs := Record.congr_unranked hsame Record.refs fun _ => rfl
  have hkind : s.inTried = r.inTried := Record.congr_unranked hsame Record.inTried fun _ => rfl
  have hendpoint : s.endpoint = r.endpoint :=
    Record.congr_unranked hsame Record.endpoint fun _ => rfl
  obtain ⟨b, p, hslot⟩ : ∃ b p, c.primarySlot r.endpoint source = (b, p) := ⟨_, _, rfl⟩
  have hslot' : d.primarySlot s.endpoint source = (b, p) := by
    rw [h.primarySlot, hendpoint, hslot]
  obtain ⟨counts, c', hrun, -, -, hoffered⟩ := hc.offerSlot hr hnew hroom source hslot created now
  obtain ⟨counts', d', hrun', -, -, hoffered'⟩ :=
    hd.offerSlot hs (hkind.trans hnew) (hrefs ▸ hroom) source hslot' created now
  obtain ⟨rfl, hfinal⟩ := h.offered hc.toPlaced hrefs hoffered hoffered'
  exact ⟨counts', c', d', hrun, hrun', hfinal⟩

/-- Taking in an announcement. -/
theorem learnUnaudited (h : Renames π c d) (hc : Coherent ∅ ∅ c) (hd : Coherent ∅ ∅ d)
    (hpolicy : d.policy = c.policy) (a : Announcement) (source : Ip) (penalty : Nat)
    (now : Timestamp) :
    (c.learnUnaudited a source penalty now : Draw σ (Bool × Cache)).Agrees
      (d.learnUnaudited a source penalty now) fun x y =>
        y.1 = x.1 ∧ ∃ ρ : Equiv.Perm RecordId, Renames ρ x.2 y.2 := by
  unfold Cache.learnUnaudited
  dsimp only
  rw [hpolicy, h.addresses hc.toIndexed hd.toIndexed]
  by_cases hstop : (!c.policy.allowUnroutable && !a.canonical.ip.isRoutable) = true
  · rw [if_pos hstop, if_pos hstop]
    exact .pure ⟨rfl, π, h⟩
  · rw [if_neg hstop, if_neg hstop]
    cases hknown : c.addresses[a.canonical.ip]? with
    | some id =>
        obtain ⟨r, hr, -⟩ := (hc.addresses_iff _ id).mp hknown
        obtain ⟨s, hs, -⟩ := h.exists_record hr
        refine .bind ((h.refresh hr hs a penalty now).and_ensures
          (ensures_refresh hr a penalty now) (ensures_refresh hs a penalty now)) fun x y hxy => ?_
        obtain ⟨wanted, m⟩ := x
        obtain ⟨wanted', m'⟩ := y
        obtain ⟨⟨rfl, hm⟩, ⟨rfl, hroom⟩, rfl, -⟩ := hxy
        cases wanted' with
        | false => exact .pure ⟨rfl, π, hm⟩
        | true =>
            obtain ⟨hnew, hrefs⟩ := hroom rfl
            have hloose : Coherent {id} ∅ (c.merged id r a penalty now) :=
              (hc.merged hr a penalty now).mono fun _ _ _ _ _ hj => hj.elim
            have hloose' : Coherent {π id} ∅ (d.merged (π id) s a penalty now) :=
              (hd.merged hs a penalty now).mono fun _ _ _ _ _ hj => hj.elim
            obtain ⟨counts, c', d', hrun, hrun', hfinal⟩ := hm.offerSlot hloose hloose'
              (getElem?_merged_self hr a penalty now) hnew hrefs source.canonical false now
            exact .lift hrun hrun' ⟨rfl, π, hfinal⟩
    | none =>
        have hknown' : d.addresses[a.canonical.ip]? = none := by
          rw [h.addresses hc.toIndexed hd.toIndexed, hknown]
          rfl
        obtain ⟨hm, hr, -⟩ := hc.created a source penalty hknown
        obtain ⟨hm', -, -⟩ := hd.created a source penalty hknown'
        -- From here on another permutation leads from the one cache to the other.
        obtain ⟨ρ, hnext, hρ⟩ := h.created hc hd a source penalty
        rw [← hnext] at hm'
        obtain ⟨counts, c', d', hrun, hrun', hfinal⟩ := hρ.offerSlot hm hm' hr rfl
          (show 0 < maxReferences by decide) source.canonical true now
        rw [hnext] at hrun'
        exact .lift hrun hrun' ⟨rfl, ρ, hfinal⟩

theorem learn (h : Renames π c d) (hc : Coherent ∅ ∅ c) (hd : Coherent ∅ ∅ d)
    (hpolicy : d.policy = c.policy) (a : Announcement) (source : Ip) (penalty : Nat)
    (now : Timestamp) :
    (c.learn a source penalty now : Draw σ (Bool × Cache)).Agrees
      (d.learn a source penalty now) fun x y =>
        y.1 = x.1 ∧ ∃ ρ : Equiv.Perm RecordId, Renames ρ x.2 y.2 := by
  refine .bind ((h.learnUnaudited hc hd hpolicy a source penalty now).and_ensures
    (hc.learnUnaudited a source penalty now) (hd.learnUnaudited a source penalty now))
    fun x y hxy => ?_
  obtain ⟨hsame, ⟨hx, -⟩, hy, -⟩ := hxy
  -- The closing audit passes on both sides and changes nothing.
  have haudits : (liftM x.2.audited : Draw σ Cache).Agrees (liftM y.2.audited : Draw σ Cache)
      fun m m' => m = x.2 ∧ m' = y.2 := .lift hx.audited hy.audited ⟨rfl, rfl⟩
  refine .bind haudits fun m m' hmm => ?_
  obtain ⟨rfl, rfl⟩ := hmm
  exact .pure hsame

/-- Picking a peer from corresponding tables. -/
theorem chooseFrom {w : Type} [Weight w] (h : Renames π c d) {rows cols : Nat}
    {t u : SlotTable rows cols RecordId} (hget : ∀ b p, u.get b p = (t.get b p).map π)
    (hrows : 0 < rows) (hcols : 0 < cols) (now : Timestamp) (rounds : Nat) (factor : w) :
    (Cache.chooseFrom w c t now rounds factor : Draw σ (Option Announcement)).Agrees
      (Cache.chooseFrom w d u now rounds factor) fun x y => y = x := by
  induction rounds generalizing factor with
  | zero => exact .pure rfl
  | succ rounds ih =>
      refine .bind (SlotTable.agrees_randomEntry hrows hcols hget blindTries) fun x y hxy => ?_
      subst hxy
      cases x with
      | none => exact .pure rfl
      | some id =>
          dsimp only [Option.map_some, Option.bind_some]
          cases hr : c.records[id]? with
          | none =>
              rw [h.getElem?_eq_none_iff.mpr hr]
              exact .pure rfl
          | some r =>
              obtain ⟨s, hs, hsame⟩ := h.exists_record hr
              have hterrible : s.isTerrible now = r.isTerrible now :=
                Record.congr_unranked hsame (fun r => r.isTerrible now) fun _ => rfl
              have hchance : (s.chance now : w) = r.chance now :=
                Record.congr_unranked hsame (fun r => r.chance now) fun _ => rfl
              have hpeer : s.peer = r.peer := Record.congr_unranked hsame Record.peer fun _ => rfl
              rw [hs]
              dsimp only
              rw [hterrible, hchance, hpeer]
              by_cases hskip : r.isTerrible now = true
              · rw [if_pos hskip, if_pos hskip]
                exact ih _
              · rw [if_neg hskip, if_neg hskip]
                refine .bind (Draw.ensures_below (by decide)).agrees fun n m hnm => ?_
                obtain ⟨rfl, -⟩ := hnm
                by_cases haccept :
                    ((n : w) < factor * r.chance now * (acceptanceScale : w))
                · rw [if_pos haccept, if_pos haccept]
                  exact .pure rfl
                · rw [if_neg haccept, if_neg haccept]
                  exact ih _

theorem chooseTried (h : Renames π c d) (hc : Coherent ∅ ∅ c) (hd : Coherent ∅ ∅ d) :
    (d.chooseTried : Draw σ Bool) = c.chooseTried := by
  obtain ⟨hnewCount, htriedCount⟩ := h.counts hc hd
  rw [Cache.chooseTried, Cache.chooseTried, hnewCount, htriedCount]

/-- Picking a peer to dial. -/
theorem choose (w : Type) [Weight w] (h : Renames π c d) (hc : Coherent ∅ ∅ c)
    (hd : Coherent ∅ ∅ d) (now : Timestamp) :
    (c.choose w now : Draw σ (Option Announcement)).Agrees (d.choose w now) fun x y => y = x := by
  unfold Cache.choose
  rw [h.isEmpty hc.toIndexed hd.toIndexed, h.chooseTried hc hd]
  by_cases hempty : c.isEmpty = true
  · rw [if_pos hempty, if_pos hempty]
    exact .pure rfl
  · rw [if_neg hempty, if_neg hempty]
    refine .bind c.ensures_chooseTried.agrees fun tried tried' htried => ?_
    obtain ⟨rfl, -⟩ := htried
    cases tried with
    | true => exact h.chooseFrom h.get_triedTable (by decide) (by decide) now _ _
    | false => exact h.chooseFrom h.get_newTable (by decide) (by decide) now _ _

end Renames

end Operations

end Cache

end PeerCache
