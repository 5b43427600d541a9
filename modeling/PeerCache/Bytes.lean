/-!
# `PeerCache.Bytes`: numbers as bytes

Two orders of bytes are in use. Stored numbers are little endian and of fixed
width. Addresses are big endian, as they are on the wire.

* `Bytes.ofLittle_little`: reading the little-endian form gives the number back,
  reduced to the width.
-/

set_option autoImplicit false

namespace PeerCache

/-- A string of bytes. -/
abbrev Bytes := List UInt8

namespace Bytes

/-- The `width` lowest base-256 digits of `n`, lowest first. -/
def little : (width : Nat) → (n : Nat) → Bytes
  | 0, _ => []
  | width + 1, n => UInt8.ofNat n :: little width (n / 256)

/-- The number whose base-256 digits, lowest first, are the given bytes. -/
def ofLittle : Bytes → Nat
  | [] => 0
  | b :: rest => b.toNat + 256 * ofLittle rest

/-- The number of byte strings of a width. -/
def span : (width : Nat) → Nat
  | 0 => 1
  | width + 1 => 256 * span width

/-- The two bytes of a word, highest first. -/
def big16 (w : UInt16) : Bytes := [UInt8.ofNat (w.toNat / 256), w.toUInt8]

/-- The word with the given high and low bytes. -/
def ofBig16 (high low : UInt8) : UInt16 := UInt16.ofNat (256 * high.toNat + low.toNat)

@[simp] theorem length_little (width n : Nat) : (little width n).length = width := by
  induction width generalizing n with
  | zero => rfl
  | succ width ih => simp [little, ih]

theorem ofLittle_lt (bytes : Bytes) : ofLittle bytes < span bytes.length := by
  induction bytes with
  | nil => simp [ofLittle, span]
  | cons b rest ih =>
      have hb : b.toNat < 256 := b.toNat_lt
      simp only [ofLittle, List.length_cons, span]
      omega

theorem ofLittle_little (width n : Nat) : ofLittle (little width n) = n % span width := by
  induction width generalizing n with
  | zero => simp [little, ofLittle, span, Nat.mod_one]
  | succ width ih =>
      rw [little, ofLittle, ih, span, Nat.mod_mul]
      simp

theorem little_ofLittle (bytes : Bytes) : little bytes.length (ofLittle bytes) = bytes := by
  induction bytes with
  | nil => rfl
  | cons b rest ih =>
      have hb : b.toNat < 256 := b.toNat_lt
      have hq : (b.toNat + 256 * ofLittle rest) / 256 = ofLittle rest := by omega
      have hr : UInt8.ofNat (b.toNat + 256 * ofLittle rest) = b := by
        apply UInt8.toNat.inj
        rw [UInt8.toNat_ofNat']
        omega
      rw [List.length_cons, little, ofLittle, hq, hr, ih]

@[simp] theorem length_big16 (w : UInt16) : (big16 w).length = 2 := rfl

theorem ofBig16_big16 (w : UInt16) :
    ofBig16 (UInt8.ofNat (w.toNat / 256)) w.toUInt8 = w := by
  have hw : w.toNat < 65536 := w.toNat_lt
  apply UInt16.toNat.inj
  simp only [ofBig16, UInt16.toNat_ofNat', UInt8.toNat_ofNat', UInt16.toNat_toUInt8]
  omega

theorem big16_ofBig16 (high low : UInt8) : big16 (ofBig16 high low) = [high, low] := by
  have hhigh : high.toNat < 256 := high.toNat_lt
  have hlow : low.toNat < 256 := low.toNat_lt
  simp only [big16, List.cons.injEq, and_true]
  constructor <;> apply UInt8.toNat.inj <;>
    simp only [ofBig16, UInt16.toNat_ofNat', UInt8.toNat_ofNat', UInt16.toNat_toUInt8] <;>
    omega

end Bytes

end PeerCache
