import Mathlib.Data.Fintype.Prod
import Mathlib.Data.Finset.Card
import Mathlib.Data.List.FinRange
import PeerCache.SlotTable

/-!
# `PeerCache.Proofs.SlotTable`: the slots that an entry holds

`SlotTable.held` is the set of slots that hold a given entry. The structural
rules of a cache speak of tables through this set, and an update changes it by
one slot at most.

* `SlotTable.held_update`: what an update does to the slots of an entry.
* `SlotTable.mem_occupied`, `SlotTable.nodup_occupied`: the listing names every
  occupied slot once, so counting in the listing counts slots.
* `SlotTable.pairwise_occupied`: it names them bucket by bucket, and by position within
  one, since the cells stand in that order.
* `SlotTable.bucket_eq_filter`: the listing of a bucket is its part of the whole listing.
* `SlotTable.length_occupied_update`: what an update does to the number of occupied slots.
-/

set_option autoImplicit false

namespace PeerCache

namespace SlotTable

variable {rows cols : Nat} {α : Type}

/-- Freeing a free slot changes nothing. -/
theorem update_none_of_get {t : SlotTable rows cols α} {b : Fin rows} {p : Fin cols}
    (hfree : t.get b p = none) : t.update b p none = t := by
  ext1 b' p'
  rw [get_update]
  split
  · next hbp => rw [← hbp.1, ← hbp.2, hfree]
  · rfl

/-- Of two updates of one slot the later one counts. -/
@[simp] theorem update_update (t : SlotTable rows cols α) (b : Fin rows) (p : Fin cols)
    (first second : Option α) : (t.update b p first).update b p second = t.update b p second := by
  ext1 b' p'
  rw [get_update, get_update, get_update]
  split <;> rfl

section

variable [DecidableEq α]

/-- The slots that hold an entry. -/
@[irreducible] def held (t : SlotTable rows cols α) (a : α) : Finset (Fin rows × Fin cols) :=
  Finset.univ.filter fun s => t.get s.1 s.2 = some a

@[simp] theorem mem_held {t : SlotTable rows cols α} {a : α} {b : Fin rows} {p : Fin cols} :
    (b, p) ∈ t.held a ↔ t.get b p = some a := by
  simp [held]

@[simp] theorem held_empty (fits : rows * cols < UInt64.size) (a : α) :
    (empty fits : SlotTable rows cols α).held a = ∅ := by
  ext ⟨b, p⟩
  simp

/-- An entry that is put into a slot gains it. Every other entry loses the slot,
if it held it. -/
theorem held_update (t : SlotTable rows cols α) (b : Fin rows) (p : Fin cols)
    (content : Option α) (a : α) :
    (t.update b p content).held a
      = if content = some a then insert (b, p) (t.held a) else (t.held a).erase (b, p) := by
  ext ⟨b', p'⟩
  rw [mem_held, get_update]
  by_cases hs : b = b' ∧ p = p'
  · obtain ⟨rfl, rfl⟩ := hs
    by_cases ha : content = some a <;> simp [ha]
  · have hs' : ¬ (b' = b ∧ p' = p) := fun h => hs ⟨h.1.symm, h.2.symm⟩
    by_cases ha : content = some a <;> simp [ha, hs, hs']

/-- An entry that does not hold the slot, before or after, keeps its slots. -/
theorem held_update_of_ne {t : SlotTable rows cols α} {b : Fin rows} {p : Fin cols}
    {content : Option α} {a : α} (hbefore : t.get b p ≠ some a) (hafter : content ≠ some a) :
    (t.update b p content).held a = t.held a := by
  rw [held_update, if_neg hafter, Finset.erase_eq_of_notMem]
  simpa using hbefore

/-- The entries of a table that no slot holds have no slots. -/
theorem held_eq_empty_iff {t : SlotTable rows cols α} {a : α} :
    t.held a = ∅ ↔ ∀ b p, t.get b p ≠ some a := by
  simp [Finset.eq_empty_iff_forall_notMem]

/-- There are no more entries with slots than slots. -/
theorem card_le_of_held {t : SlotTable rows cols α} {entries : Finset α}
    (hheld : ∀ a ∈ entries, t.held a ≠ ∅) : entries.card ≤ rows * cols := by
  -- Each entry is the content of one of its slots.
  have hsub : entries.map ⟨some, Option.some_injective α⟩ ⊆
      (Finset.univ : Finset (Fin rows × Fin cols)).image fun s => t.get s.1 s.2 := by
    intro content hmem
    obtain ⟨a, ha, rfl⟩ := Finset.mem_map.mp hmem
    obtain ⟨s, hs⟩ := Finset.nonempty_iff_ne_empty.mpr (hheld a ha)
    exact Finset.mem_image.mpr ⟨s, Finset.mem_univ s, mem_held.mp hs⟩
  calc
    entries.card = (entries.map ⟨some, Option.some_injective α⟩).card := (Finset.card_map _).symm
    _ ≤ _ := Finset.card_le_card hsub
    _ ≤ (Finset.univ : Finset (Fin rows × Fin cols)).card := Finset.card_image_le
    _ = rows * cols := by simp

end

/-! ### The listing of occupied slots -/

@[simp] theorem mem_bucket {t : SlotTable rows cols α} {b : Fin rows} {p : Fin cols} {a : α} :
    (p, a) ∈ t.bucket b ↔ t.get b p = some a := by
  simp [bucket_eq]

@[simp] theorem mem_occupied {t : SlotTable rows cols α} {b : Fin rows} {p : Fin cols} {a : α} :
    (b, p, a) ∈ t.occupied ↔ t.get b p = some a := by
  simp [occupied_eq]

/-- A slot comes before another in the listings, which go bucket by bucket. -/
def Before (s s' : Fin rows × Fin cols) : Prop := s.1 < s'.1 ∨ s.1 = s'.1 ∧ s.2 < s'.2

theorem Before.ne {s s' : Fin rows × Fin cols} (h : Before s s') : s ≠ s' := by
  rintro rfl
  rcases h with hlt | ⟨-, hlt⟩
  · exact Fin.lt_irrefl s.1 hlt
  · exact Fin.lt_irrefl s.2 hlt

/-- The cells stand in the order of their slots. -/
theorem before_of_lt {i j : Fin (rows * cols)} (h : i < j) :
    Before (bucketOf i, positionOf i) (bucketOf j, positionOf j) := by
  have hle : i.val / cols ≤ j.val / cols := Nat.div_le_div_right (Nat.le_of_lt h)
  rcases Nat.lt_or_eq_of_le hle with hlt | heq
  · exact Or.inl hlt
  · -- Within a bucket the remainders differ as the cells do.
    have hi := Nat.div_add_mod i.val cols
    have hj := Nat.div_add_mod j.val cols
    rw [heq] at hi
    have hval : i.val < j.val := h
    exact Or.inr ⟨Fin.ext heq, show i.val % cols < j.val % cols by omega⟩

/-- A listing is in the order of the places that it is taken from. -/
theorem pairwise_listing {β : Type} {n : Nat} {content : Fin n → Option β} {R : β → β → Prop}
    (h : ∀ i j : Fin n, i < j → ∀ x y : β, content i = some x → content j = some y → R x y) :
    (listing n content).Pairwise R := by
  rw [listing_eq, List.pairwise_filterMap]
  refine (List.pairwise_lt_finRange n).imp ?_
  intro i j hlt x hx y hy
  exact h i j hlt x y hx hy

theorem pairwise_occupied (t : SlotTable rows cols α) :
    t.occupied.Pairwise fun x y => Before (x.1, x.2.1) (y.1, y.2.1) := by
  apply pairwise_listing
  intro i j hlt x y hx hy
  obtain ⟨a, -, rfl⟩ := Option.map_eq_some_iff.mp hx
  obtain ⟨a', -, rfl⟩ := Option.map_eq_some_iff.mp hy
  exact before_of_lt hlt

theorem pairwise_bucket (t : SlotTable rows cols α) (b : Fin rows) :
    (t.bucket b).Pairwise fun x y => x.1 < y.1 := by
  apply pairwise_listing
  intro p p' hlt x y hx hy
  obtain ⟨a, -, rfl⟩ := Option.map_eq_some_iff.mp hx
  obtain ⟨a', -, rfl⟩ := Option.map_eq_some_iff.mp hy
  exact hlt

/-- The listing names no slot twice. -/
theorem nodup_slots (t : SlotTable rows cols α) :
    (t.occupied.map fun x => (x.1, x.2.1)).Nodup :=
  List.pairwise_map.mpr (t.pairwise_occupied.imp Before.ne)

theorem nodup_occupied (t : SlotTable rows cols α) : t.occupied.Nodup := t.nodup_slots.of_map _

/-- The positions in the listing of a bucket differ. -/
theorem nodup_bucket (t : SlotTable rows cols α) (b : Fin rows) :
    ((t.bucket b).map Prod.fst).Nodup :=
  List.pairwise_map.mpr ((t.pairwise_bucket b).imp Fin.ne_of_lt)

/-- A bucket has no more entries than slots. -/
theorem length_bucket_le (t : SlotTable rows cols α) (b : Fin rows) :
    (t.bucket b).length ≤ cols := by
  rw [bucket_eq]
  exact (List.length_filterMap_le _ _).trans (List.length_finRange).le

/-- The listing of a bucket is its part of the whole listing. -/
theorem bucket_eq_filter (t : SlotTable rows cols α) (b : Fin rows) :
    t.bucket b = (t.occupied.filter fun x => x.1 = b).map Prod.snd := by
  have hordered : ((t.occupied.filter fun x => x.1 = b).map Prod.snd).Pairwise
      fun x y => x.1 < y.1 := by
    rw [List.pairwise_map]
    refine (t.pairwise_occupied.filter _).imp_of_mem fun {x y} hx hy hbefore => ?_
    have hxb : x.1 = b := by simpa using (List.mem_filter.mp hx).2
    have hyb : y.1 = b := by simpa using (List.mem_filter.mp hy).2
    rcases hbefore with hlt | ⟨-, hlt⟩
    · exact absurd hlt (by rw [hxb, hyb]; exact Nat.lt_irrefl _)
    · exact hlt
  -- Both lists are in order, so it is enough that they have the same members.
  have hirrefl : Std.Irrefl fun x y : Fin cols × α => x.1 < y.1 := ⟨fun x => Fin.lt_irrefl x.1⟩
  have hantisymm : Std.Antisymm fun x y : Fin cols × α => x.1 < y.1 :=
    ⟨fun x y hlt hlt' => absurd hlt' (Fin.lt_asymm hlt)⟩
  refine (t.pairwise_bucket b).eq_of_mem_iff hordered fun x => ?_
  obtain ⟨p, a⟩ := x
  simp

/-- An entry occurs in the listing once for each slot it holds. -/
theorem count_occupied [DecidableEq α] (t : SlotTable rows cols α) (a : α) :
    (t.occupied.map fun x => x.2.2).count a = (t.held a).card := by
  have hnodup : (t.occupied.filter fun x => x.2.2 == a).Nodup := t.nodup_occupied.filter _
  rw [List.count_eq_countP, List.countP_map, List.countP_eq_length_filter]
  -- The listed slots of the entry, without the entry, are the slots that it holds.
  have hmap : (t.occupied.filter fun x => x.2.2 == a).toFinset.image
      (fun s => (s.1, s.2.1)) = t.held a := by
    ext ⟨b, p⟩
    simp
  rw [← hmap, Finset.card_image_of_injOn, List.toFinset_card_of_nodup hnodup]
  · rfl
  · rintro ⟨b, p, x⟩ hx ⟨b', p', x'⟩ hx' he
    simp only [List.coe_toFinset, List.mem_filter, beq_iff_eq, Set.mem_ofPred_eq] at hx hx'
    obtain ⟨-, rfl⟩ := hx
    obtain ⟨-, rfl⟩ := hx'
    cases he
    rfl

/-! ### The number of occupied slots -/

/-- The slots that are not free. -/
def filled (t : SlotTable rows cols α) : Finset (Fin rows × Fin cols) :=
  Finset.univ.filter fun s => (t.get s.1 s.2).isSome

@[simp] theorem mem_filled {t : SlotTable rows cols α} {b : Fin rows} {p : Fin cols} :
    (b, p) ∈ t.filled ↔ (t.get b p).isSome = true := by
  simp [filled]

theorem length_occupied (t : SlotTable rows cols α) : t.occupied.length = t.filled.card := by
  have hset : (t.occupied.map fun x => (x.1, x.2.1)).toFinset = t.filled := by
    ext ⟨b, p⟩
    simp [Option.isSome_iff_exists]
  rw [← hset, List.toFinset_card_of_nodup t.nodup_slots, List.length_map]

/-- An entry that is put into a slot makes one more of them occupied, unless it replaces
another. -/
theorem length_occupied_update (t : SlotTable rows cols α) (b : Fin rows) (p : Fin cols) (a : α) :
    (t.update b p (some a)).occupied.length + (if (t.get b p).isSome then 1 else 0)
      = t.occupied.length + 1 := by
  have hfilled : (t.update b p (some a)).filled = insert (b, p) t.filled := by
    ext ⟨b', p'⟩
    rw [mem_filled, get_update, Finset.mem_insert, mem_filled]
    by_cases hslot : b = b' ∧ p = p'
    · simp [hslot]
    · have hne : ¬ (b', p') = (b, p) := fun he =>
        hslot ⟨(Prod.mk.inj he).1.symm, (Prod.mk.inj he).2.symm⟩
      rw [if_neg hslot, or_iff_right hne]
  rw [length_occupied, length_occupied, hfilled]
  by_cases hget : (t.get b p).isSome = true
  · rw [if_pos hget, Finset.insert_eq_of_mem (mem_filled.mpr hget)]
  · rw [if_neg hget, Finset.card_insert_of_notMem fun hmem => hget (mem_filled.mp hmem)]

theorem isEmpty_iff_size (t : SlotTable rows cols α) : t.isEmpty = true ↔ t.size = 0 := by
  rw [isEmpty_iff, size_eq, List.length_eq_zero_iff, List.eq_nil_iff_forall_not_mem]
  constructor
  · rintro hfree ⟨b, p, a⟩ hlisted
    rw [mem_occupied, hfree] at hlisted
    cases hlisted
  · intro hnone b p
    cases hget : t.get b p with
    | none => rfl
    | some a => exact absurd (mem_occupied.mpr hget) (hnone _)

end SlotTable

end PeerCache
