import Mathlib.Algebra.Order.Field.Rat
import Mathlib.Tactic.GCongr
import Mathlib.Tactic.NormNum
import Mathlib.Tactic.Ring
import PeerCache.Proofs.Cache.Choice
import PeerCache.Proofs.Cache.History

/-!
# `PeerCache.Proofs.Cache.Patience`: a healthy record is accepted in the end

Acceptance is read with exact fractions here. However often a record has failed and
however lately it was tried, its chance does not fall below `Record.leastChance`. Every
round that refuses raises the factor by a fifth, a round that met a terrible record as
well (`RefusesAll.factor_eq`).

After 44 refusals the factor makes up for the least chance (`one_le_grown`). From then on
the draw cannot be lost, since it stays below the scale that it is compared on. So a round
that comes after 44 others refuses terrible records only, and `Reachable.choose_patience`
says what that means for a pick: one that gives up has met a terrible record in each of
these rounds, and a table without terrible records gives a peer by the 45th round.
-/

set_option autoImplicit false

namespace PeerCache

/-- Repeated squaring computes the power. -/
theorem Weight.timesPow_eq (result base : Rat) (n : Nat) :
    Weight.timesPow result base n = result * base ^ n := by
  induction n using Nat.strong_induction_on generalizing result base with
  | _ n ih =>
      unfold Weight.timesPow
      by_cases hn : n = 0
      · simp [hn]
      · rw [if_neg hn, ih (n / 2) (by omega)]
        have hsplit : base ^ n = base ^ (n % 2) * (base * base) ^ (n / 2) := by
          rw [← pow_two, ← pow_mul, ← pow_add, Nat.mod_add_div]
        rw [hsplit, ← mul_assoc]
        rcases Nat.mod_two_eq_zero_or_one n with heven | hodd
        · rw [if_neg (by omega), heven, pow_zero, mul_one]
        · rw [if_pos hodd, hodd, pow_one]

namespace Record

/-- The chance of a record that was tried just now and has failed often. -/
def leastChance : Rat := 0.01 * 0.66 ^ 8

/-- No record has a smaller chance. -/
theorem leastChance_le_chance (r : Record) (now : Timestamp) : leastChance ≤ r.chance now := by
  have hrecent : (0.01 : Rat) ≤ if r.isRecentlyTried now then 0.01 else 1.0 := by
    split <;> norm_num
  have hfailures : (0.66 : Rat) ^ 8 ≤ 0.66 ^ min r.attempts.toNat 8 :=
    pow_le_pow_of_le_one (by norm_num) (by norm_num) (Nat.min_le_right _ _)
  calc
    leastChance
      ≤ (if r.isRecentlyTried now then 0.01 else 1.0) * 0.66 ^ min r.attempts.toNat 8 := by
      rw [leastChance]
      gcongr
    _ = (if r.isRecentlyTried now then 0.01 else 1.0) *
        Weight.timesPow 1.0 0.66 (min r.attempts.toNat 8) := by
      rw [Weight.timesPow_eq]
      norm_num
    _ = r.chance now := rfl

/-- The factor of 44 refusals makes up for the least chance. -/
theorem one_le_grown {n : Nat} (hn : 44 ≤ n) : 1 ≤ (1.2 : Rat) ^ n * leastChance := by
  have hgrown : (1.2 : Rat) ^ 44 ≤ 1.2 ^ n := pow_le_pow_right₀ (by norm_num) hn
  have hleast : 0 ≤ leastChance := by
    rw [leastChance]
    norm_num
  calc
    (1 : Rat) ≤ 1.2 ^ 44 * leastChance := by
      rw [leastChance]
      norm_num
    _ ≤ 1.2 ^ n * leastChance := by gcongr

/-- One refusal less does not do. -/
example : (1.2 : Rat) ^ 43 * leastChance < 1 := by decide +kernel

/-- After as many refusals every draw is won, against any record. -/
theorem wins_of_grown {n draw : Nat} (hn : 44 ≤ n) (hdraw : draw < acceptanceScale) (r : Record)
    (now : Timestamp) : (draw : Rat) < 1.2 ^ n * r.chance now * (acceptanceScale : Rat) := by
  have hgrown : (0 : Rat) ≤ 1.2 ^ n := by positivity
  have hscale : (0 : Rat) ≤ (acceptanceScale : Rat) := Nat.cast_nonneg _
  have hcertain : 1 ≤ (1.2 : Rat) ^ n * r.chance now :=
    (one_le_grown hn).trans (mul_le_mul_of_nonneg_left (r.leastChance_le_chance now) hgrown)
  calc
    (draw : Rat) < (acceptanceScale : Rat) := by exact_mod_cast hdraw
    _ = 1 * (acceptanceScale : Rat) := (one_mul _).symm
    _ ≤ 1.2 ^ n * r.chance now * (acceptanceScale : Rat) :=
      mul_le_mul_of_nonneg_right hcertain hscale

end Record

namespace Cache

variable {c : Cache} {now : Timestamp} {tried : Bool} {σ : Type} [RandomSource σ] {s s₁ s' : σ}

/-! ### Rounds that refuse -/

/-- Refusals before a given one are refusals in a row as well. -/
theorem RefusesAll.exists_round {w : Type} [Weight w] {rounds n : Nat} {factor factor' : w}
    (h : c.RefusesAll w tried now rounds factor s factor' s') (hn : n < rounds) :
    ∃ (factor₁ : w) (s₁ s₂ : σ), c.RefusesAll w tried now n factor s factor₁ s₁ ∧
      c.Refuses w tried now factor₁ s₁ s₂ := by
  induction h generalizing n with
  | start => exact absurd hn (Nat.not_lt_zero n)
  | round hfirst hrest ih =>
      cases n with
      | zero => exact ⟨_, _, _, .start, hfirst⟩
      | succ n =>
          obtain ⟨factor₁, s₁, s₂, hbefore, hlast⟩ := ih (Nat.lt_of_succ_lt_succ hn)
          exact ⟨factor₁, s₁, s₂, .round hfirst hbefore, hlast⟩

variable {n m : Nat} {factor factor' : Rat}

/-- Each refusal raises the factor by a fifth. -/
theorem RefusesAll.factor_eq (h : c.RefusesAll Rat tried now n factor s factor' s') :
    factor' = factor * 1.2 ^ n := by
  induction h with
  | start => rw [pow_zero, mul_one]
  | round hfirst hrest ih =>
      rw [ih, pow_succ']
      exact mul_assoc _ _ _

/-- After 44 refusals every draw is won. -/
theorem RefusesAll.wins (h : c.RefusesAll Rat tried now n 1.0 s factor s₁) (hn : 44 ≤ n)
    (r : Record) {draw : Nat} (hdraw : draw < acceptanceScale) :
    (draw : Rat) < factor * r.chance now * (acceptanceScale : Rat) := by
  have hfactor : factor = 1.2 ^ n := by
    rw [h.factor_eq]
    norm_num
  rw [hfactor]
  exact r.wins_of_grown hn hdraw now

/-- After 44 refusals a round accepts the record that it finds, unless it is terrible. -/
theorem RefusesAll.accepts (h : c.RefusesAll Rat tried now n 1.0 s factor s₁) (hn : 44 ≤ n)
    {r : Record} {s₂ : σ} (hfinds : c.Finds tried s₁ r s₂) (hhealthy : r.isTerrible now = false) :
    ∃ s₃, c.Accepts Rat tried now factor s₁ r.peer s₃ := by
  have hdraw := RandomSource.below_lt s₂ acceptanceScale (by decide)
  exact ⟨_, .won hfinds hhealthy rfl (h.wins hn r hdraw)⟩

/-- A refusal that comes after 44 others is that of a terrible record. -/
theorem RefusesAll.terrible (h : c.RefusesAll Rat tried now n 1.0 s factor' s') (hm : 44 ≤ m)
    (hlt : m < n) : ∃ (factor : Rat) (s₁ s₂ : σ) (r : Record),
      c.RefusesAll Rat tried now m 1.0 s factor s₁ ∧ c.Finds tried s₁ r s₂ ∧
        r.isTerrible now = true := by
  obtain ⟨factor, s₁, s₂, hbefore, hrefuses⟩ := h.exists_round hlt
  cases hrefuses with
  | terrible hfinds hterrible => exact ⟨factor, s₁, s₂, _, hbefore, hfinds, hterrible⟩
  | @outdrawn r s₃ draw hfinds hhealthy hdraw hlost =>
      have hbelow := RandomSource.below_lt s₃ acceptanceScale (by decide)
      rw [hdraw] at hbelow
      exact absurd (hbefore.wins hm r hbelow) hlost

/-- Where every record of the table is healthy, no more than 44 rounds in a row refuse. -/
theorem RefusesAll.le_of_healthy (h : c.RefusesAll Rat tried now n 1.0 s factor' s')
    (hhealthy : ∀ (id : RecordId) (r : Record), c.records[id]? = some r →
      c.HoldsSlot tried id → r.isTerrible now = false) : n ≤ 44 := by
  by_contra hmore
  obtain ⟨factor, s₁, s₂, r, -, hfinds, hterrible⟩ := h.terrible le_rfl (not_le.mp hmore)
  obtain ⟨id, -, hr, hholds⟩ := hfinds
  rw [hhealthy id r hr hholds] at hterrible
  cases hterrible

/-! ### Reachable caches -/

/-- A pick from a cache that is not empty settles on a table and goes through its rounds. -/
theorem Coherent.exists_picks (h : Coherent ∅ ∅ c) (hne : c.isEmpty = false) (w : Type) [Weight w]
    (now : Timestamp) (s : σ) :
    ∃ (tried : Bool) (s₁ : σ) (pick : Option Announcement) (s' : σ),
      c.choose w now s = .ok (pick, s') ∧ c.Settles s tried s₁ ∧
        c.Picks w tried now chooseRounds 1.0 s₁ pick s' := by
  obtain ⟨tried, s₁, hrun, hsettles⟩ := h.settles hne s
  have hfinds := h.ensures_search (σ := σ) hsettles.exists_holdsSlot
  refine ⟨tried, s₁, ?_⟩
  -- The two tables differ in their dimensions only.
  have hpicks : ∃ (pick : Option Announcement) (s' : σ),
      c.choose w now s = .ok (pick, s') ∧ c.Picks w tried now chooseRounds 1.0 s₁ pick s' := by
    rw [choose, if_neg (by simp [hne]), Draw.run_bind hrun]
    cases tried with
    | true => exact picks_chooseFrom rfl hfinds chooseRounds 1.0 s₁
    | false => exact picks_chooseFrom rfl hfinds chooseRounds 1.0 s₁
  obtain ⟨pick, s', hchoose, hpick⟩ := hpicks
  exact ⟨pick, s', hchoose, hsettles, hpick⟩

variable {allowed : Operation → Prop}

/-- Giving up never costs a healthy record. In a pick from a cache that is not empty, let
`n` rounds have refused, and `n` be 44 or more. Then the next round wins its draw against
any record, whatever is drawn, so it accepts the record that it finds unless that is
terrible. So a pick comes to nothing only when each of the rounds from the 45th to the 256th
finds a terrible record. When no record of the table is terrible, the pick is made by the
45th round. -/
theorem Reachable.choose_patience (h : Reachable allowed c) (hne : c.isEmpty = false)
    (now : Timestamp) (s : σ) :
    ∃ (tried : Bool) (s₁ : σ) (pick : Option Announcement) (s' : σ),
      c.choose Rat now s = .ok (pick, s') ∧ c.Settles s tried s₁ ∧
      c.Picks Rat tried now 256 1.0 s₁ pick s' ∧
      (∀ (n : Nat) (factor : Rat) (s₂ : σ), 44 ≤ n →
        c.RefusesAll Rat tried now n 1.0 s₁ factor s₂ →
        (∀ (r : Record) (draw : Nat), draw < acceptanceScale →
          (draw : Rat) < factor * r.chance now * (acceptanceScale : Rat)) ∧
        ∀ (r : Record) (s₃ : σ), c.Finds tried s₂ r s₃ → r.isTerrible now = false →
          ∃ s₄, c.Accepts Rat tried now factor s₂ r.peer s₄) ∧
      (pick = none → ∀ n, 44 ≤ n → n < 256 → ∃ (factor : Rat) (s₂ s₃ : σ) (r : Record),
        c.RefusesAll Rat tried now n 1.0 s₁ factor s₂ ∧ c.Finds tried s₂ r s₃ ∧
          r.isTerrible now = true) ∧
      ((∀ (id : RecordId) (r : Record), c.records[id]? = some r → c.HoldsSlot tried id →
        r.isTerrible now = false) →
        ∃ a, pick = some a ∧ c.Picks Rat tried now 45 1.0 s₁ (some a) s') := by
  obtain ⟨tried, s₁, pick, s', hchoose, hsettles, hpick⟩ := h.coherent.exists_picks hne Rat now s
  refine ⟨tried, s₁, pick, s', hchoose, hsettles, hpick, fun n factor s₂ hn hrefused => ?_,
    fun hnone n hn hlt => ?_, fun hhealthy => ?_⟩
  · exact ⟨fun r draw hdraw => hrefused.wins hn r hdraw,
      fun r s₃ hfinds hfit => hrefused.accepts hn hfinds hfit⟩
  · cases hpick with
    | gaveUp hrefused => exact hrefused.terrible hn hlt
    | picked => cases hnone
  · cases hpick with
    | gaveUp hrefused => exact absurd (hrefused.le_of_healthy hhealthy) (by decide)
    | @picked n factor s₂ _ a hn hrefused haccepts =>
        have hle := hrefused.le_of_healthy hhealthy
        exact ⟨a, rfl, .picked (Nat.lt_succ_of_le hle) hrefused haccepts⟩

/-- For instance, a cache that has learnt of one peer, which was seen just now, gives it out
within 45 rounds. -/
theorem patience_after_learn : ∃ (c : Cache) (s : SplitMix),
    (Operation.learn (.ofEndpoint (.ofIp (.v4 ⟨8, 8, 8, 8⟩) 8333) (.ofSecs 1700000000))
      (.v4 ⟨9, 9, 9, 9⟩) 0 (.ofSecs 1700000000)).perform Rat (ofKey .standard default) ⟨[], 0⟩
        = .ok (c, s) ∧
    c.isEmpty = false ∧
    ∃ (tried : Bool) (s₁ : SplitMix) (a : Announcement) (s' : SplitMix),
      c.choose Rat (.ofSecs 1700000000) s = .ok (some a, s') ∧
      c.Picks Rat tried (.ofSecs 1700000000) 45 1.0 s₁ (some a) s' := by
  have hempty : Reachable (fun _ => True) (ofKey .standard default) := .ofKey .standard default
  obtain ⟨c, s, hrun, hc, hr⟩ :=
    hempty.exists_learn_first Rat (.ofEndpoint (.ofIp (.v4 ⟨8, 8, 8, 8⟩) 8333) (.ofSecs 1700000000))
      (.v4 ⟨9, 9, 9, 9⟩) 0 (.ofSecs 1700000000) trivial (by decide) (⟨[], 0⟩ : SplitMix)
  have hne : c.isEmpty = false := by
    rw [Bool.eq_false_iff, ne_eq, hc.coherent.isEmpty_iff]
    intro hnone
    rw [hnone] at hr
    cases hr
  have hhealthy : ∀ (id : RecordId) (r : Record), c.records[id]? = some r →
      r.isTerrible (.ofSecs 1700000000) = false := by
    intro id r hr
    have horigin := (Operation.ensures_origin (σ := SplitMix) (w := Rat) hempty.coherent
      (.learn _ _ _ _) trivial).of_run hrun
    cases horigin id r hr with
    | kept hold => simp [ofKey] at hold
    | added hop hnone hsame =>
        cases hop
        exact hsame.isTerrible.trans (by decide)
  obtain ⟨tried, s₁, pick, s', hchoose, -, -, -, -, hpicked⟩ :=
    hc.choose_patience hne (.ofSecs 1700000000) s
  obtain ⟨a, rfl, hpick⟩ := hpicked fun id r hr _ => hhealthy id r hr
  exact ⟨c, s, hrun, hne, tried, s₁, a, s', hchoose, hpick⟩

end Cache

end PeerCache
