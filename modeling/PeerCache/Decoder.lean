import PeerCache.Error

/-!
# `PeerCache.Decoder`: reading stored bytes from the front

A decoder takes the bytes that are left and returns a value with the bytes that
are left then. It fails when the bytes run out, or for a reason of its own.
-/

set_option autoImplicit false

namespace PeerCache

/-- A reader of stored bytes. -/
abbrev Decoder (α : Type) := StateT Bytes (Except StorageError) α

namespace Decoder

/-- Splits off the first `n` bytes. -/
def split? : (n : Nat) → Bytes → Option (Bytes × Bytes)
  | 0, rest => some ([], rest)
  | _ + 1, [] => none
  | n + 1, b :: rest => (split? n rest).map fun (taken, rest) => (b :: taken, rest)

/-- The next `n` bytes. -/
def take (n : Nat) : Decoder Bytes := fun bytes =>
  match split? n bytes with
  | some taken => .ok taken
  | none => .error (.ofDecodeFailure .endOfInput)

/-- The number in the next `n` bytes, lowest first. -/
def little (n : Nat) : Decoder Nat := return Bytes.ofLittle (← take n)

/-- A value that a check of its own may refuse. -/
def ofExcept {α : Type} (result : Except StorageError α) : Decoder α := StateT.lift result

/-- Reads `n` values one after the other, each handed to `step` as soon as it is read. -/
def fold {α β : Type} (item : Decoder α) (step : β → α → Except StorageError β) :
    (n : Nat) → β → Decoder β
  | 0, acc => pure acc
  | n + 1, acc => do
    let a ← item
    let acc ← ofExcept (step acc a)
    fold item step n acc

theorem split?_append (taken rest : Bytes) :
    split? taken.length (taken ++ rest) = some (taken, rest) := by
  induction taken with
  | nil => rfl
  | cons b taken ih => simp [split?, ih]

theorem eq_append_of_split? {n : Nat} {bytes taken rest : Bytes}
    (h : split? n bytes = some (taken, rest)) : bytes = taken ++ rest ∧ taken.length = n := by
  induction n generalizing bytes taken with
  | zero => cases h; exact ⟨rfl, rfl⟩
  | succ n ih =>
      cases bytes with
      | nil => cases h
      | cons b bytes =>
          simp only [split?, Option.map_eq_some_iff, Prod.mk.injEq] at h
          obtain ⟨⟨taken', rest'⟩, h', rfl, rfl⟩ := h
          obtain ⟨rfl, rfl⟩ := ih h'
          exact ⟨rfl, rfl⟩

end Decoder

end PeerCache
