/-!
# `PeerCache.Timestamp`: points in time, in whole seconds

Gossip carries times that a stranger has chosen. Every timestamp is therefore
held below the end of the year 9999, and the bound is part of the type, so age
arithmetic never has to ask whether a claimed time is absurdly large. Second
zero stands for "unknown" or "never".

Subtraction and age stop at zero. Addition stops at the bound.
-/

set_option autoImplicit false

namespace PeerCache

/-- The last second of the year 9999. -/
def latestSecond : Nat := 253402300799

/-- Seconds since the epoch, never beyond the year 9999. -/
structure Timestamp where
  secs : Nat
  secs_le : secs ≤ latestSecond
deriving DecidableEq

namespace Timestamp

@[ext] theorem ext {a b : Timestamp} (h : a.secs = b.secs) : a = b := by
  cases a; cases b; cases h; rfl

/-- The time `secs`, or the latest one when `secs` lies beyond it. -/
def ofSecs (secs : Nat) : Timestamp := ⟨min secs latestSecond, Nat.min_le_right _ _⟩

/-- The unknown time. -/
def zero : Timestamp := ⟨0, Nat.zero_le _⟩

/-- True of the unknown time only. -/
def isZero (t : Timestamp) : Bool := t.secs == 0

instance : Inhabited Timestamp := ⟨zero⟩

instance : LE Timestamp := ⟨fun a b => a.secs ≤ b.secs⟩

instance : LT Timestamp := ⟨fun a b => a.secs < b.secs⟩

instance (a b : Timestamp) : Decidable (a ≤ b) := inferInstanceAs (Decidable (a.secs ≤ b.secs))

instance (a b : Timestamp) : Decidable (a < b) := inferInstanceAs (Decidable (a.secs < b.secs))

/-- `secs` seconds later, stopping at the latest time. -/
def later (t : Timestamp) (secs : Nat) : Timestamp := ofSecs (t.secs + secs)

/-- `secs` seconds earlier, stopping at second zero. -/
def earlier (t : Timestamp) (secs : Nat) : Timestamp :=
  ⟨t.secs - secs, Nat.le_trans (Nat.sub_le _ _) t.secs_le⟩

/-- Seconds from `past` to `t`, zero when `past` is the later one. -/
def since (t past : Timestamp) : Nat := t.secs - past.secs

@[simp] theorem secs_ofSecs (n : Nat) : (ofSecs n).secs = min n latestSecond := rfl

@[simp] theorem secs_zero : zero.secs = 0 := rfl

@[simp] theorem secs_later (t : Timestamp) (n : Nat) :
    (t.later n).secs = min (t.secs + n) latestSecond := rfl

@[simp] theorem secs_earlier (t : Timestamp) (n : Nat) : (t.earlier n).secs = t.secs - n := rfl

@[simp] theorem ofSecs_secs (t : Timestamp) : ofSecs t.secs = t :=
  ext (Nat.min_eq_left t.secs_le)

theorem le_def (a b : Timestamp) : a ≤ b ↔ a.secs ≤ b.secs := Iff.rfl

theorem lt_def (a b : Timestamp) : a < b ↔ a.secs < b.secs := Iff.rfl

theorem isZero_iff (t : Timestamp) : t.isZero = true ↔ t.secs = 0 := by simp [isZero]

end Timestamp

end PeerCache
