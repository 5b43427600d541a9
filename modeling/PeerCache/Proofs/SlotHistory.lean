import PeerCache.Proofs.SlotTable

/-!
# `PeerCache.Proofs.SlotHistory`: a table holds what was last left in each slot

Seen from outside, a table is a map from slots to entries. `SlotTable.Shows` says that a table
and a map agree in everything that can be asked of the table: the content of a slot, the
answers of `set` and `take`, the listings, and the counts.

The map of a table that has been changed from the empty one is told by the changes alone. Each
slot holds what the last change that concerns it left there (`lastLeft`), and a `clear`
concerns every slot.

* `SlotTable.shows_get`: what can be asked of a table is answered from the content of its
  slots.
* `SlotTable.Change.get_apply`: one change. The other slots keep their content, since no two
  slots share a cell.
* `SlotTable.after_shows`: any number of changes, for dimensions whose cells can be numbered.
* `SlotTable.slots_share_cell_of_wrap`: beyond that bound two slots have one cell.
-/

set_option autoImplicit false

namespace PeerCache

namespace SlotTable

variable {rows cols : Nat} {α : Type}

/-! ### What a table shows -/

/-- The table answers every question as the map does. -/
structure Shows (t : SlotTable rows cols α) (content : Fin rows → Fin cols → Option α) :
    Prop where
  get : ∀ b p, t.get b p = content b p
  /-- What is replaced is returned. -/
  set : ∀ b p entry, (t.set b p entry).1 = content b p
  /-- What is removed is returned. -/
  take : ∀ b p, (t.take b p).1 = content b p
  occupied : ∀ b p a, (b, p, a) ∈ t.occupied ↔ content b p = some a
  /-- The listing names no slot twice. -/
  nodup : (t.occupied.map fun x => (x.1, x.2.1)).Nodup
  /-- It goes bucket by bucket, and by position within a bucket. -/
  ordered : t.occupied.Pairwise fun x y => Before (x.1, x.2.1) (y.1, y.2.1)
  size : t.size = t.occupied.length
  isEmpty : t.isEmpty = true ↔ t.size = 0
  bucket : ∀ b, t.bucket b = (t.occupied.filter fun x => x.1 = b).map Prod.snd
  bucketOrdered : ∀ b, (t.bucket b).Pairwise fun x y => x.1 < y.1

/-- A table shows the content of its slots. -/
theorem shows_get (t : SlotTable rows cols α) : t.Shows t.get where
  get _ _ := rfl
  set _ _ _ := rfl
  take _ _ := rfl
  occupied _ _ _ := mem_occupied
  nodup := t.nodup_slots
  ordered := t.pairwise_occupied
  size := t.size_eq
  isEmpty := t.isEmpty_iff_size
  bucket := t.bucket_eq_filter
  bucketOrdered := t.pairwise_bucket

/-! ### Changes -/

/-- A change of a table. -/
inductive Change (rows cols : Nat) (α : Type) where
  | set (b : Fin rows) (p : Fin cols) (entry : α)
  | take (b : Fin rows) (p : Fin cols)
  | clear

namespace Change

/-- The table after the change. -/
def apply (t : SlotTable rows cols α) : Change rows cols α → SlotTable rows cols α
  | .set b p entry => (t.set b p entry).2
  | .take b p => (t.take b p).2
  | .clear => t.clear

/-- What the change leaves in a slot, if it concerns the slot. -/
def leaves? (b : Fin rows) (p : Fin cols) : Change rows cols α → Option (Option α)
  | .set b' p' entry => if b' = b ∧ p' = p then some (some entry) else none
  | .take b' p' => if b' = b ∧ p' = p then some none else none
  | .clear => some none

/-- A slot that a change does not concern keeps its content. -/
theorem get_apply (change : Change rows cols α) (t : SlotTable rows cols α) (b : Fin rows)
    (p : Fin cols) : (change.apply t).get b p = (change.leaves? b p).getD (t.get b p) := by
  cases change with
  | set b' p' entry =>
      rw [apply, get_set, leaves?]
      split <;> rfl
  | take b' p' =>
      rw [apply, get_take, leaves?]
      split <;> rfl
  | clear => exact get_clear t b p

end Change

/-- The table after changes of the empty one. -/
def after (fits : rows * cols < UInt64.size) (changes : List (Change rows cols α)) :
    SlotTable rows cols α :=
  changes.foldl Change.apply (empty fits)

/-- What the last change that concerns a slot left there. A slot that no change concerns is
free. -/
def lastLeft (changes : List (Change rows cols α)) (b : Fin rows) (p : Fin cols) : Option α :=
  (changes.filterMap (Change.leaves? b p)).getLast?.join

theorem lastLeft_concat (changes : List (Change rows cols α)) (change : Change rows cols α)
    (b : Fin rows) (p : Fin cols) :
    lastLeft (changes ++ [change]) b p = (change.leaves? b p).getD (lastLeft changes b p) := by
  rw [lastLeft, List.filterMap_append]
  cases h : change.leaves? b p <;> simp [h, lastLeft]

theorem get_after (fits : rows * cols < UInt64.size) (changes : List (Change rows cols α))
    (b : Fin rows) (p : Fin cols) : (after fits changes).get b p = lastLeft changes b p := by
  induction changes using List.reverseRecOn with
  | nil => exact get_empty b p
  | append_singleton changes change ih =>
      rw [lastLeft_concat, ← ih, ← Change.get_apply, after, List.foldl_concat, after]

/-- A new table is empty. -/
theorem eq_empty_of_new? {start : SlotTable rows cols α} (fits : rows * cols < UInt64.size)
    (hnew : new? rows cols = some start) : start = empty fits := by
  rw [new?, dif_pos fits] at hnew
  split at hnew
  · exact (Option.some.inj hnew).symm
  · cases hnew

/-- A table is the map that its history describes. Whatever its dimensions are, as long as
its cells can be numbered in machine words, and whatever changes were made to the empty
table, which is what a new table is, a slot holds what the last change that concerns it left
there. This is what `set` and `take` return, what the listing names, slot by slot in order
and each slot once, and what the counts count. A further change leaves its mark on the slots
that it concerns, and every other slot keeps its content. -/
theorem after_shows (fits : rows * cols < UInt64.size) (changes : List (Change rows cols α)) :
    (∀ start : SlotTable rows cols α, new? rows cols = some start → start = empty fits) ∧
    (after fits changes).Shows (lastLeft changes) ∧
    ∀ (change : Change rows cols α) (b : Fin rows) (p : Fin cols),
      (change.apply (after fits changes)).get b p
        = (change.leaves? b p).getD ((after fits changes).get b p) := by
  have hget : (after fits changes).get = lastLeft changes := funext₂ (get_after fits changes)
  refine ⟨fun start hnew => eq_empty_of_new? fits hnew, ?_, ?_⟩
  · rw [← hget]
    exact shows_get (after fits changes)
  · intro change b p
    exact change.get_apply (after fits changes) b p

/-- For instance, a new table of two buckets. One entry is replaced, another one is removed,
and the third is listed last. -/
theorem shows_two_buckets :
    let changes : List (Change 2 3 Nat) :=
      [.set 1 2 6, .set 0 2 7, .set 1 0 8, .set 0 2 9, .take 1 0]
    2 * 3 < UInt64.size ∧ ∃ start : SlotTable 2 3 Nat, new? 2 3 = some start ∧
      (changes.foldl Change.apply start).Shows (lastLeft changes) ∧
      (changes.foldl Change.apply start).occupied = [(0, 2, 9), (1, 2, 6)] := by
  intro changes
  have fits : 2 * 3 < UInt64.size := by decide
  have hshows := (after_shows fits changes).2.1
  exact ⟨fits, empty (by decide), by decide, hshows, by decide⟩

/-- With `2 ^ 62 + 1` buckets of four slots the cells cannot be counted, and there is no
table. The count wraps to four, and so do the numbers: the first slots of the first bucket
and of the last one have the same cell. There an entry that was put into one slot is the
content of the other slot, where no change has left anything. -/
theorem slots_share_cell_of_wrap :
    let rows := 2 ^ 62 + 1
    let last : Fin rows := ⟨2 ^ 62, Nat.lt_succ_self _⟩
    let cells : Vector (Option Nat) (cellCount (.ofNat rows) 4).toNat := Vector.replicate _ none
    UInt64.size ≤ rows * 4 ∧ (new? rows 4 : Option (SlotTable rows 4 Nat)) = none ∧
    cellCount (.ofNat rows) 4 = 4 ∧
    lastLeft [Change.set (0 : Fin rows) (0 : Fin 4) 7] last 0 = none ∧
    (cells.setIfInBounds (cellNumber 4 0 0).toNat (some 7))[(cellNumber 4 (.ofNat last) 0).toNat]?
      = some (some 7) := by
  decide

end SlotTable

end PeerCache
