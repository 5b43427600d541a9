/-!
# `PeerCache.SlotTable`: buckets of slots

A table has `rows` buckets with `cols` slots each. A slot is free or holds one
entry. The dimensions are part of the type, and slots are addressed by bounded
indices, so no access can miss. The slots stand in one row of cells, bucket after
bucket.

Cells are counted and numbered in machine words, whose arithmetic wraps. A table
carries the proof that its cells are few enough for that. Then no number wraps
(`toNat_cellNumber`), and no two slots share a cell.

Listings go bucket by bucket, and by position within a bucket.

* `SlotTable.cell_inj`: no two slots share a cell.
* `SlotTable.get_set`, `SlotTable.get_take`: an update changes one slot only.
* `SlotTable.occupied_eq`: the listing, as a filtered list of all slots.
* `SlotTable.size_eq`: the number of occupied slots is the length of the listing.
-/

set_option autoImplicit false

namespace PeerCache

/-- Buckets of slots that are free or hold an entry. -/
structure SlotTable (rows cols : Nat) (α : Type) where
  cells : Vector (Option α) (rows * cols)
  /-- The cells can be numbered. -/
  fits : rows * cols < UInt64.size
deriving DecidableEq

namespace SlotTable

variable {rows cols : Nat} {α : Type}

/-! ### Slots and cells -/

/-- The number of cells, as a machine word. -/
def cellCount (rows cols : UInt64) : UInt64 := rows * cols

/-- The number of the cell of a slot, as a machine word. -/
def cellNumber (cols bucket position : UInt64) : UInt64 := bucket * cols + position

theorem cell_lt (b : Fin rows) (p : Fin cols) : b.val * cols + p.val < rows * cols :=
  calc
    b.val * cols + p.val < b.val * cols + cols := Nat.add_lt_add_left p.isLt _
    _ = (b.val + 1) * cols := (Nat.succ_mul b.val cols).symm
    _ ≤ rows * cols := Nat.mul_le_mul_right cols b.isLt

/-- Cells that fit are counted right. -/
theorem toNat_cellCount (fits : rows * cols < UInt64.size) :
    (cellCount (.ofNat rows) (.ofNat cols)).toNat = rows * cols := by
  rw [cellCount, ← UInt64.ofNat_mul]
  exact UInt64.toNat_ofNat_of_lt' fits

/-- Cells that fit are numbered right. -/
theorem toNat_cellNumber (fits : rows * cols < UInt64.size) (b : Fin rows) (p : Fin cols) :
    (cellNumber (.ofNat cols) (.ofNat b) (.ofNat p)).toNat = b * cols + p := by
  rw [cellNumber, ← UInt64.ofNat_mul, ← UInt64.ofNat_add]
  exact UInt64.toNat_ofNat_of_lt' (Nat.lt_trans (cell_lt b p) fits)

/-- The cell of a slot. -/
def cell (fits : rows * cols < UInt64.size) (b : Fin rows) (p : Fin cols) : Fin (rows * cols) :=
  ⟨(cellNumber (.ofNat cols) (.ofNat b) (.ofNat p)).toNat,
    toNat_cellNumber fits b p ▸ cell_lt b p⟩

/-- The bucket that a cell belongs to. -/
def bucketOf (i : Fin (rows * cols)) : Fin rows :=
  ⟨i / cols, Nat.div_lt_of_lt_mul (Nat.mul_comm rows cols ▸ i.isLt)⟩

/-- The position of a cell within its bucket. -/
def positionOf (i : Fin (rows * cols)) : Fin cols :=
  ⟨i % cols, Nat.mod_lt _ (Nat.pos_of_lt_mul_left i.isLt)⟩

variable {fits : rows * cols < UInt64.size}

@[simp] theorem val_cell (b : Fin rows) (p : Fin cols) :
    (cell fits b p).val = b * cols + p :=
  toNat_cellNumber fits b p

@[simp] theorem bucketOf_cell (b : Fin rows) (p : Fin cols) : bucketOf (cell fits b p) = b := by
  apply Fin.ext
  show (cell fits b p).val / cols = b.val
  rw [val_cell, Nat.mul_comm, Nat.mul_add_div p.pos, Nat.div_eq_of_lt p.isLt, Nat.add_zero]

@[simp] theorem positionOf_cell (b : Fin rows) (p : Fin cols) :
    positionOf (cell fits b p) = p := by
  apply Fin.ext
  show (cell fits b p).val % cols = p.val
  rw [val_cell, Nat.mul_comm, Nat.mul_add_mod, Nat.mod_eq_of_lt p.isLt]

@[simp] theorem cell_of (i : Fin (rows * cols)) :
    cell fits (bucketOf i) (positionOf i) = i := by
  apply Fin.ext
  rw [val_cell]
  show i.val / cols * cols + i.val % cols = i.val
  rw [Nat.mul_comm]
  exact Nat.div_add_mod i.val cols

/-- No two slots share a cell. -/
theorem cell_inj {b b' : Fin rows} {p p' : Fin cols} :
    cell fits b p = cell fits b' p' ↔ b = b' ∧ p = p' := by
  constructor
  · intro h
    have hbucket := congrArg bucketOf h
    have hposition := congrArg positionOf h
    rw [bucketOf_cell, bucketOf_cell] at hbucket
    rw [positionOf_cell, positionOf_cell] at hposition
    exact ⟨hbucket, hposition⟩
  · rintro ⟨rfl, rfl⟩
    rfl

/-! ### Access -/

/-- The table whose slots are all free. -/
def empty (fits : rows * cols < UInt64.size) : SlotTable rows cols α where
  cells := (Vector.replicate (cellCount (.ofNat rows) (.ofNat cols)).toNat none).cast
    (toNat_cellCount fits)
  fits := fits

/-- The number of cells that a table can be laid out with. A cell takes sixteen bytes, and
a table less than `2 ^ 63`. -/
def maxCells : Nat := 0x7fffffffffffffff / 16

/-- A new table, if its cells can be counted and laid out. -/
def new? (rows cols : Nat) : Option (SlotTable rows cols α) :=
  if fits : rows * cols < UInt64.size then
    if rows * cols ≤ maxCells then some (empty fits) else none
  else none

/-- The entry of a slot. -/
def get (t : SlotTable rows cols α) (b : Fin rows) (p : Fin cols) : Option α :=
  t.cells[cell t.fits b p]

/-- The table with one slot given new content. -/
def update (t : SlotTable rows cols α) (b : Fin rows) (p : Fin cols) (content : Option α) :
    SlotTable rows cols α :=
  { t with cells := t.cells.set (cell t.fits b p) content }

/-- Puts an entry into a slot. Returns what the slot held before. -/
def set (t : SlotTable rows cols α) (b : Fin rows) (p : Fin cols) (entry : α) :
    Option α × SlotTable rows cols α :=
  (t.get b p, t.update b p (some entry))

/-- Frees a slot. Returns what it held. -/
def take (t : SlotTable rows cols α) (b : Fin rows) (p : Fin cols) :
    Option α × SlotTable rows cols α :=
  (t.get b p, t.update b p none)

/-- Frees every slot. -/
def clear (t : SlotTable rows cols α) : SlotTable rows cols α :=
  { t with cells := t.cells.map fun _ => none }

/-- What is found in `n` places, in order. -/
@[inline] def listing {β : Type} (n : Nat) (content : Fin n → Option β) : List β :=
  Fin.foldr n (fun i rest =>
    match content i with
    | some x => x :: rest
    | none => rest) []

/-- The occupied slots of one bucket, by position. -/
def bucket (t : SlotTable rows cols α) (b : Fin rows) : List (Fin cols × α) :=
  listing cols fun p => (t.get b p).map fun a => (p, a)

/-- All occupied slots, bucket by bucket. -/
def occupied (t : SlotTable rows cols α) : List (Fin rows × Fin cols × α) :=
  listing (rows * cols) fun i => t.cells[i].map fun a => (bucketOf i, positionOf i, a)

/-- The number of occupied slots. -/
def size (t : SlotTable rows cols α) : Nat := t.cells.countP Option.isSome

/-- Whether every slot is free. -/
def isEmpty (t : SlotTable rows cols α) : Bool := t.cells.all Option.isNone

/-- The slot numbered `b` and `p`, if the dimensions allow it. -/
def index? (rows cols b p : Nat) : Option (Fin rows × Fin cols) :=
  if hb : b < rows then
    if hp : p < cols then some (⟨b, hb⟩, ⟨p, hp⟩) else none
  else none

/-- The occupied slots of the bucket numbered `b`, if its cells lie within the
table. Buckets without slots lie in every table. -/
def bucket? (t : SlotTable rows cols α) (b : Nat) : Option (List (Fin cols × α)) :=
  if h : b < rows then some (t.bucket ⟨b, h⟩)
  else if cols = 0 then some []
  else none

/-- Every cell belongs to a slot. -/
theorem getElem_cells (t : SlotTable rows cols α) (i : Fin (rows * cols)) :
    t.cells[i] = t.get (bucketOf i) (positionOf i) := by
  simp [get]

@[ext] theorem ext {t u : SlotTable rows cols α} (h : ∀ b p, t.get b p = u.get b p) : t = u := by
  obtain ⟨t, _⟩ := t
  obtain ⟨u, _⟩ := u
  congr
  apply Vector.ext
  intro i hi
  have hcell := h (bucketOf ⟨i, hi⟩) (positionOf ⟨i, hi⟩)
  rwa [← getElem_cells, ← getElem_cells] at hcell

@[simp] theorem get_empty (b : Fin rows) (p : Fin cols) :
    (empty fits : SlotTable rows cols α).get b p = none := by
  simp [get, empty]

@[simp] theorem get_clear (t : SlotTable rows cols α) (b : Fin rows) (p : Fin cols) :
    t.clear.get b p = none := by
  simp [get, clear]

theorem isEmpty_iff {t : SlotTable rows cols α} :
    t.isEmpty = true ↔ ∀ (b : Fin rows) (p : Fin cols), t.get b p = none := by
  simp only [isEmpty, Vector.all_eq_true, Option.isNone_iff_eq_none]
  constructor
  · intro h b p
    exact h (cell t.fits b p) (cell t.fits b p).isLt
  · intro h i hi
    exact (getElem_cells t ⟨i, hi⟩).trans (h _ _)

theorem get_update (t : SlotTable rows cols α) (b b' : Fin rows) (p p' : Fin cols)
    (content : Option α) :
    (t.update b p content).get b' p' = if b = b' ∧ p = p' then content else t.get b' p' := by
  simp only [get, update, Fin.getElem_fin, Vector.getElem_set, Fin.val_inj, cell_inj]

theorem get_set (t : SlotTable rows cols α) (b b' : Fin rows) (p p' : Fin cols) (entry : α) :
    (t.set b p entry).2.get b' p' = if b = b' ∧ p = p' then some entry else t.get b' p' :=
  get_update t b b' p p' (some entry)

theorem get_take (t : SlotTable rows cols α) (b b' : Fin rows) (p p' : Fin cols) :
    (t.take b p).2.get b' p' = if b = b' ∧ p = p' then none else t.get b' p' :=
  get_update t b b' p p' none

/-! ### Listings -/

theorem listing_eq {β : Type} (n : Nat) (content : Fin n → Option β) :
    listing n content = (List.finRange n).filterMap content := by
  rw [listing, Fin.foldr_eq_finRange_foldr]
  induction List.finRange n with
  | nil => rfl
  | cons i is ih =>
      rw [List.foldr_cons, ih, List.filterMap_cons]
      cases content i <;> rfl

/-- Numbering the cells goes through the buckets one after the other. -/
theorem range_mul (rows cols : Nat) :
    List.range (rows * cols)
      = (List.range rows).flatMap fun b => (List.range cols).map (b * cols + ·) := by
  induction rows with
  | zero => simp
  | succ rows ih =>
      rw [Nat.succ_mul, List.range_add, List.range_succ, List.flatMap_append, ih,
        List.flatMap_singleton]

theorem map_val_finRange (n : Nat) : (List.finRange n).map Fin.val = List.range n := by
  apply List.ext_getElem <;> simp

/-- The cells in order are the slots of the first bucket, those of the second, and so on. -/
theorem finRange_mul (fits : rows * cols < UInt64.size) :
    List.finRange (rows * cols)
      = (List.finRange rows).flatMap fun b => (List.finRange cols).map (cell fits b) := by
  apply (List.map_inj_right fun _ _ => Fin.ext).mp
  rw [map_val_finRange, range_mul, List.map_flatMap, ← map_val_finRange rows, List.flatMap_map]
  congr 1
  funext b
  rw [← map_val_finRange cols, List.map_map, List.map_map]
  congr 1
  funext p
  exact (val_cell b p).symm

theorem bucket_eq (t : SlotTable rows cols α) (b : Fin rows) :
    t.bucket b = (List.finRange cols).filterMap fun p => (t.get b p).map (Prod.mk p) :=
  listing_eq cols _

theorem occupied_eq (t : SlotTable rows cols α) :
    t.occupied = (List.finRange rows).flatMap fun b =>
      (List.finRange cols).filterMap fun p => (t.get b p).map fun a => (b, p, a) := by
  rw [occupied, listing_eq, finRange_mul t.fits, List.filterMap_flatMap]
  congr 1
  funext b
  rw [List.filterMap_map]
  congr 1
  funext p
  show (t.get b p).map
    (fun a => (bucketOf (cell t.fits b p), positionOf (cell t.fits b p), a)) = _
  rw [bucketOf_cell, positionOf_cell]

/-- Counting the occupied slots counts the listing. -/
theorem size_eq (t : SlotTable rows cols α) : t.size = t.occupied.length := by
  have hcells : t.cells.toList = (List.finRange (rows * cols)).map fun i => t.cells[i] := by
    apply List.ext_getElem <;> simp
  rw [size, ← Vector.countP_toList, hcells, List.countP_map, occupied, listing_eq,
    List.length_filterMap_eq_countP]
  congr 1
  funext i
  exact Option.isSome_map.symm

end SlotTable

end PeerCache
