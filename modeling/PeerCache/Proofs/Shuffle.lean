import Mathlib.Algebra.Group.End
import Mathlib.Data.List.Nodup
import Mathlib.Logic.Equiv.Basic
import PeerCache.Random.Source

/-!
# `PeerCache.Proofs.Shuffle`: a partial shuffle and its draws

A partial shuffle goes through the places of an order. At place `n` it draws a number
below the number of places from there on, and exchanges place `n` with the one so far
ahead. `exchanges` is what such steps make of the places together, and `taken` lists the
old places of what then stands in the places that were gone through.

`existsUnique_draws`: every sequence of different places is taken by exactly one sequence
of draws. The first draw is settled by the first place. The exchange that it makes is
undone on the other places, which leaves a sequence for the shorter shuffle from the next
place on.

`Delivers` says which numbers a source gives to such draws. A source of given numbers,
`Dictated`, delivers any numbers in range.
-/

set_option autoImplicit false

namespace PeerCache

namespace Shuffle

variable {size n k m : Nat} {draws : List Nat}

/-- Each draw stays below the number of places that are left when it is made. -/
def InRange (size : Nat) : (n : Nat) → (draws : List Nat) → Prop
  | _, [] => True
  | n, k :: draws => k < size - n ∧ InRange size (n + 1) draws

/-- There are no more draws than places. -/
theorem InRange.length_le (h : InRange size n draws) (hn : n ≤ size) :
    n + draws.length ≤ size := by
  induction draws generalizing n with
  | nil => exact hn
  | cons k draws ih =>
      have hlt := h.1
      have hle := ih h.2 (by omega)
      rw [List.length_cons]
      omega

/-- What the exchanges make of the places, from place `n` on. -/
def exchanges : (n : Nat) → (draws : List Nat) → Equiv.Perm Nat
  | _, [] => 1
  | n, k :: draws => Equiv.swap n (n + k) * exchanges (n + 1) draws

/-- The places that what is shuffled to place `n` and the next ones comes from. -/
def taken (n : Nat) (draws : List Nat) : List Nat :=
  (List.range' n draws.length).map (exchanges n draws)

theorem inRange_iff :
    InRange size n draws ↔ ∀ i k, draws[i]? = some k → k < size - (n + i) := by
  induction draws generalizing n with
  | nil => simp [InRange]
  | cons k draws ih =>
      rw [InRange, ih]
      constructor
      · intro h i
        cases i with
        | zero => simpa using h.1
        | succ i =>
            intro j hj
            have hlt := h.2 i j (by simpa using hj)
            omega
      · intro h
        refine ⟨by simpa using h 0 k rfl, fun i j hj => ?_⟩
        have hlt := h (i + 1) j (by simpa using hj)
        omega

/-- The places that were gone through before stay as they are. -/
theorem exchanges_of_lt (hm : m < n) : exchanges n draws m = m := by
  induction draws generalizing n with
  | nil => rfl
  | cons k draws ih =>
      rw [exchanges, Equiv.Perm.mul_apply, ih (by omega)]
      exact Equiv.swap_apply_of_ne_of_ne (by omega) (by omega)

theorem taken_cons :
    taken n (k :: draws) = (n + k) :: (taken (n + 1) draws).map (Equiv.swap n (n + k)) := by
  have hfirst : exchanges n (k :: draws) n = n + k := by
    rw [exchanges, Equiv.Perm.mul_apply, exchanges_of_lt (Nat.lt_succ_self n),
      Equiv.swap_apply_left]
  rw [taken, List.length_cons, List.range'_succ, List.map_cons, hfirst, taken, List.map_map]
  rfl

theorem length_taken : (taken n draws).length = draws.length := by
  simp [taken]

/-- An exchange that is made twice is undone. -/
theorem map_swap_eq_iff {i j : Nat} {l l' : List Nat} :
    l.map (Equiv.swap i j) = l' ↔ l = l'.map (Equiv.swap i j) := by
  constructor
  · rintro rfl
    simp [Function.comp_def]
  · rintro rfl
    simp [Function.comp_def]

/-- Different places from place `n` on are taken by exactly one sequence of draws. -/
theorem existsUnique_draws {places : List Nat} (hnodup : places.Nodup)
    (hrange : ∀ p ∈ places, n ≤ p ∧ p < size) :
    ∃! draws, InRange size n draws ∧ taken n draws = places := by
  -- The first place settles the first draw, and the exchange is undone on the others.
  induction hlength : places.length generalizing n places with
  | zero =>
      obtain rfl := List.length_eq_zero_iff.mp hlength
      refine ⟨[], ⟨trivial, rfl⟩, fun draws hdraws => ?_⟩
      rw [← List.length_eq_zero_iff, ← length_taken (n := n), hdraws.2, List.length_nil]
  | succ length ih =>
      obtain ⟨p, rest, rfl⟩ := List.exists_cons_of_length_eq_add_one hlength
      obtain ⟨hp, hrest⟩ := List.nodup_cons.mp hnodup
      obtain ⟨k, rfl⟩ : ∃ k, p = n + k :=
        ⟨p - n, by have := (hrange p List.mem_cons_self).1; omega⟩
      have hk : k < size - n := by
        have := (hrange (n + k) List.mem_cons_self).2
        omega
      have hundone : ∀ q ∈ rest.map (Equiv.swap n (n + k)), n + 1 ≤ q ∧ q < size := by
        intro q hq
        obtain ⟨q', hq', rfl⟩ := List.mem_map.mp hq
        have hne : q' ≠ n + k := fun heq => hp (heq ▸ hq')
        have hq'' := hrange q' (List.mem_cons_of_mem _ hq')
        by_cases hqn : q' = n
        · subst hqn
          rw [Equiv.swap_apply_left]
          omega
        · rw [Equiv.swap_apply_of_ne_of_ne hqn hne]
          omega
      obtain ⟨draws, ⟨hin, htaken⟩, hunique⟩ :=
        ih (List.Nodup.map (Equiv.swap n (n + k)).injective hrest) hundone (by simpa using hlength)
      refine ⟨k :: draws, ⟨⟨hk, hin⟩, ?_⟩, fun draws' hdraws' => ?_⟩
      · rw [taken_cons, map_swap_eq_iff.mpr htaken]
      · cases draws' with
        | nil => exact absurd hdraws'.2 (by simp [taken])
        | cons k' draws' =>
            obtain ⟨⟨-, hin'⟩, htaken'⟩ := hdraws'
            rw [taken_cons] at htaken'
            obtain ⟨hfirst, hothers⟩ := List.cons_eq_cons.mp htaken'
            have hk' : k' = k := by omega
            subst hk'
            rw [hunique draws' ⟨hin', map_swap_eq_iff.mp hothers⟩]

/-! ### Sources -/

/-- The source gives these numbers to the draws of a shuffle from place `n` on. -/
inductive Delivers {σ : Type} [RandomSource σ] (size : Nat) :
    (n : Nat) → (s : σ) → (draws : List Nat) → (s' : σ) → Prop where
  | nil {n : Nat} {s : σ} : Delivers size n s [] s
  | cons {n k : Nat} {s s₁ s' : σ} {draws : List Nat}
      (hdraw : RandomSource.below s (size - n) = (k, s₁))
      (hrest : Delivers size (n + 1) s₁ draws s') : Delivers size n s (k :: draws) s'

/-- Every source delivers some numbers, and they are in range. -/
theorem exists_delivers {σ : Type} [RandomSource σ] {rounds : Nat} (hn : n + rounds ≤ size)
    (s : σ) : ∃ draws s', draws.length = rounds ∧ InRange size n draws ∧
      Delivers size n s draws s' := by
  induction rounds generalizing n s with
  | zero => exact ⟨[], s, rfl, trivial, .nil⟩
  | succ rounds ih =>
      obtain ⟨k, s₁, hdraw⟩ : ∃ k s₁, RandomSource.below s (size - n) = (k, s₁) := ⟨_, _, rfl⟩
      have hk : k < size - n := by
        have hlt := RandomSource.below_lt s (size - n) (by omega)
        rwa [hdraw] at hlt
      obtain ⟨draws, s', hlength, hin, hrest⟩ := ih (n := n + 1) (by omega) s₁
      exact ⟨k :: draws, s', congrArg (· + 1) hlength, ⟨hk, hin⟩, .cons hdraw hrest⟩

end Shuffle

/-- A source that gives the numbers of a list, and zeros where one does not fit or none is
left. -/
structure Dictated where
  numbers : List Nat

namespace Dictated

instance : RandomSource Dictated where
  word s := (0, s)
  below s bound :=
    match s.numbers with
    | [] => (0, s)
    | k :: numbers => (if k < bound then k else 0, ⟨numbers⟩)
  bytes s n := (List.replicate n 0, s)
  below_lt s bound h := by
    cases s.numbers with
    | nil => exact h
    | cons k numbers =>
        by_cases hk : k < bound
        · simp [hk]
        · simpa [hk] using h
  length_bytes _ _ := List.length_replicate

/-- Numbers in range are delivered as they are. -/
theorem delivers {size n : Nat} {draws : List Nat} (h : Shuffle.InRange size n draws) :
    Shuffle.Delivers size n (⟨draws⟩ : Dictated) draws ⟨[]⟩ := by
  induction draws generalizing n with
  | nil => exact .nil
  | cons k draws ih =>
      have hdraw : RandomSource.below (⟨k :: draws⟩ : Dictated) (size - n) = (k, ⟨draws⟩) := by
        show ((if k < size - n then k else 0), (⟨draws⟩ : Dictated)) = _
        rw [if_pos h.1]
      exact .cons hdraw (ih h.2)

end Dictated

end PeerCache
