import Mathlib.Algebra.BigOperators.Ring.Finset
import Mathlib.Data.Fintype.BigOperators
import Mathlib.Data.Fintype.Fin
import Mathlib.Data.Set.Card
import Mathlib.Tactic.Ring
import PeerCache.Cache.Sample
import PeerCache.Proofs.Draw
import PeerCache.Proofs.Shuffle
import PeerCache.Proofs.SlotTable

/-!
# `PeerCache.Proofs.Search`: a random search favours no slot

A search for a random entry draws a slot for each blind try and, when all of them have
missed, a place in the listing. `SlotTable.Draws` are these draws, laid out in full, also
where the search ends early and leaves some of them unused.

How many draws lead to an entry is counted by recursion on the tries (`card_leading_succ`). A
first slot that is taken settles the search, whatever comes after it. A free one leaves the
count to the other tries. Where these favour no slot, the two parts together favour none
either: the entry gains in proportion to the slots it holds, once from the slots that hit
and once from those that miss. The listing, which comes last, names every occupied slot once
(`card_listed`).

`SlotTable.randomEntry_uniform` says this of the runs themselves. A source answers a search
with draws of this kind, and `Dictated` gives any of them.
-/

set_option autoImplicit false

namespace PeerCache

/-! ### What a source answers -/

/-- The numbers that a source gives when it is asked for one below each bound in turn. -/
def RandomSource.answers {σ : Type} [RandomSource σ] : (bounds : List Nat) → (s : σ) → List Nat
  | [], _ => []
  | bound :: bounds, s =>
    let (k, s) := RandomSource.below s bound
    k :: RandomSource.answers bounds s

/-- Each answer is below its bound. -/
theorem RandomSource.forall₂_answers {σ : Type} [RandomSource σ] {bounds : List Nat}
    (hpos : ∀ bound ∈ bounds, 0 < bound) (s : σ) :
    List.Forall₂ (· < ·) (RandomSource.answers bounds s) bounds := by
  induction bounds generalizing s with
  | nil => exact .nil
  | cons bound bounds ih =>
      exact .cons (RandomSource.below_lt s bound (hpos bound List.mem_cons_self))
        (ih (fun b hb => hpos b (List.mem_cons_of_mem _ hb)) _)

/-- Given numbers are the answers where they fit the bounds. -/
theorem Dictated.answers_eq {numbers bounds : List Nat}
    (h : List.Forall₂ (· < ·) numbers bounds) :
    RandomSource.answers bounds (⟨numbers⟩ : Dictated) = numbers := by
  induction h with
  | nil => rfl
  | @cons k bound numbers bounds hk _ ih =>
      have hbelow : RandomSource.below (⟨k :: numbers⟩ : Dictated) bound = (k, ⟨numbers⟩) := by
        show ((if k < bound then k else 0), (⟨numbers⟩ : Dictated)) = _
        rw [if_pos hk]
      rw [RandomSource.answers, hbelow]
      exact congrArg (k :: ·) ih

namespace SlotTable

variable {rows cols : Nat} {α : Type} {σ : Type} [RandomSource σ]

/-! ### The draws of a search -/

/-- The draws of a search: a slot for each blind try, and a place in the listing. -/
abbrev Draws (t : SlotTable rows cols α) (tries : Nat) : Type :=
  (Fin tries → Fin rows × Fin cols) × Fin t.occupied.length

variable {t : SlotTable rows cols α} {tries : Nat}

/-- The bounds that a search draws below when every blind try misses. -/
def bounds (t : SlotTable rows cols α) : (tries : Nat) → List Nat
  | 0 => [t.occupied.length]
  | tries + 1 => rows :: cols :: t.bounds tries

/-- The draws in the order in which a search asks for them. -/
def Draws.numbers (draws : t.Draws tries) : List Nat :=
  ((List.ofFn draws.1).flatMap fun slot => [slot.1.val, slot.2.val]) ++ [draws.2.val]

/-- What a search finds that is given these draws: the entry of the first slot that is
taken, or else the one at the place in the listing. -/
def Draws.found : {tries : Nat} → (draws : t.Draws tries) → α
  | 0, draws => (t.occupied.get draws.2).2.2
  | _ + 1, draws =>
    (t.get (draws.1 0).1 (draws.1 0).2).getD (Draws.found (Fin.tail draws.1, draws.2))

/-- The draws with a slot for one more try in front. -/
def Draws.cons (slot : Fin rows × Fin cols) (draws : t.Draws tries) : t.Draws (tries + 1) :=
  (Fin.cons slot draws.1, draws.2)

/-- Draws with one more try are a slot and the draws that come after it. -/
def Draws.consEquiv (t : SlotTable rows cols α) (tries : Nat) :
    (Fin rows × Fin cols) × t.Draws tries ≃ t.Draws (tries + 1) where
  toFun x := x.2.cons x.1
  invFun draws := (draws.1 0, Fin.tail draws.1, draws.2)
  left_inv x := by simp [Draws.cons]
  right_inv draws := Prod.ext (Fin.cons_self_tail draws.1) rfl

theorem Draws.exists_cons (draws : t.Draws (tries + 1)) :
    ∃ (slot : Fin rows × Fin cols) (rest : t.Draws tries), rest.cons slot = draws := by
  obtain ⟨x, hx⟩ := (Draws.consEquiv t tries).surjective draws
  exact ⟨x.1, x.2, hx⟩

theorem Draws.numbers_cons (slot : Fin rows × Fin cols) (draws : t.Draws tries) :
    (draws.cons slot).numbers = slot.1.val :: slot.2.val :: draws.numbers := by
  simp [Draws.numbers, Draws.cons, List.ofFn_succ]

theorem Draws.found_cons (slot : Fin rows × Fin cols) (draws : t.Draws tries) :
    (draws.cons slot).found = (t.get slot.1 slot.2).getD draws.found := by
  simp [Draws.found, Draws.cons]

/-- Draws stay below their bounds. -/
theorem Draws.forall₂_numbers (draws : t.Draws tries) :
    List.Forall₂ (· < ·) draws.numbers (t.bounds tries) := by
  induction tries with
  | zero => exact .cons draws.2.isLt .nil
  | succ tries ih =>
      obtain ⟨slot, rest, rfl⟩ := draws.exists_cons
      rw [Draws.numbers_cons]
      exact .cons slot.1.isLt (.cons slot.2.isLt (ih rest))

/-- Numbers that stay below the bounds are draws. -/
theorem exists_draws {numbers : List Nat}
    (h : List.Forall₂ (· < ·) numbers (t.bounds tries)) :
    ∃ draws : t.Draws tries, draws.numbers = numbers := by
  induction tries generalizing numbers with
  | zero =>
      obtain ⟨n, rest, hn, hrest, rfl⟩ := List.forall₂_cons_right_iff.mp h
      obtain rfl := List.forall₂_nil_right_iff.mp hrest
      exact ⟨(Fin.elim0, ⟨n, hn⟩), rfl⟩
  | succ tries ih =>
      obtain ⟨b, rest, hb, hrest, rfl⟩ := List.forall₂_cons_right_iff.mp h
      obtain ⟨p, numbers, hp, hnumbers, rfl⟩ := List.forall₂_cons_right_iff.mp hrest
      obtain ⟨draws, rfl⟩ := ih hnumbers
      exact ⟨draws.cons (⟨b, hb⟩, ⟨p, hp⟩), Draws.numbers_cons _ draws⟩

/-- A source that answers with some draws leads a search to what they lead to. -/
theorem run_randomEntry {draws : t.Draws tries} {s : σ}
    (hanswers : RandomSource.answers (t.bounds tries) s = draws.numbers) :
    ∃ s', t.randomEntry tries s = .ok (some draws.found, s') := by
  induction tries generalizing s with
  | zero =>
      -- The listing has the place that is drawn, so it is not empty.
      have hdraw : (Draw.below t.occupied.length : Draw σ Nat) s
          = .ok (draws.2.val, (RandomSource.below s t.occupied.length).2) :=
        congrArg (fun n => Except.ok (n, _)) (List.cons.inj hanswers).1
      have hne : ¬ t.occupied.isEmpty = true := by
        rw [List.isEmpty_iff]
        exact List.ne_nil_of_length_pos (Fin.pos draws.2)
      rw [randomEntry, drawOccupied]
      dsimp only
      rw [if_neg hne, Draw.run_bind hdraw, List.getElem?_eq_getElem draws.2.isLt]
      exact ⟨_, rfl⟩
  | succ tries ih =>
      obtain ⟨slot, draws, rfl⟩ := draws.exists_cons
      rw [Draws.numbers_cons] at hanswers
      obtain ⟨hb, hanswers⟩ := List.cons.inj hanswers
      obtain ⟨hp, hanswers⟩ := List.cons.inj hanswers
      have hdrawb : (Draw.below rows : Draw σ Nat) s
          = .ok (slot.1.val, (RandomSource.below s rows).2) :=
        congrArg (fun b => Except.ok (b, _)) hb
      have hdrawp : (Draw.below cols : Draw σ Nat) (RandomSource.below s rows).2
          = .ok (slot.2.val, (RandomSource.below (RandomSource.below s rows).2 cols).2) :=
        congrArg (fun p => Except.ok (p, _)) hp
      -- What is drawn names a slot, so the search does not stop with a fault.
      rw [randomEntry, Draw.run_bind hdrawb, Draw.run_bind hdrawp, index?, dif_pos slot.1.isLt,
        dif_pos slot.2.isLt, Draws.found_cons]
      dsimp only
      cases t.get slot.1 slot.2 with
      | some a => exact ⟨_, rfl⟩
      | none => exact ih hanswers

/-! ### Counting draws -/

/-- A sum over the draws with one more try goes over the first slot and the other draws. -/
theorem sum_draws_succ (t : SlotTable rows cols α) (tries : Nat) (f : t.Draws (tries + 1) → Nat) :
    ∑ draws, f draws = ∑ slot, ∑ draws : t.Draws tries, f (draws.cons slot) := by
  rw [← (Draws.consEquiv t tries).sum_comp f, Fintype.sum_prod_type]
  rfl

section

variable [DecidableEq α]

/-- In the listing an entry has as many places as it holds slots. -/
theorem card_listed (t : SlotTable rows cols α) (a : α) :
    (Finset.univ.filter fun n : Fin t.occupied.length => (t.occupied.get n).2.2 = a).card
      = (t.held a).card := by
  have hplaces := Fin.card_filter_univ_eq_vector_get_eq_count a
    (⟨t.occupied.map fun x => x.2.2, List.length_map _⟩ : List.Vector α t.occupied.length)
  rw [← t.count_occupied a]
  simpa [List.Vector.get] using hplaces

/-- The draws that lead a search to an entry. -/
def leading (t : SlotTable rows cols α) (tries : Nat) (a : α) : Finset (t.Draws tries) :=
  Finset.univ.filter fun draws => draws.found = a

/-- The draws that lead to an entry, once the first slot is given. -/
theorem card_leading_from (t : SlotTable rows cols α) (tries : Nat) (a : α)
    (slot : Fin rows × Fin cols) :
    (Finset.univ.filter fun draws : t.Draws tries =>
        (t.get slot.1 slot.2).getD draws.found = a).card
      = (if t.get slot.1 slot.2 = some a then Fintype.card (t.Draws tries) else 0)
        + if t.get slot.1 slot.2 = none then (t.leading tries a).card else 0 := by
  cases t.get slot.1 slot.2 with
  | none => simp [leading]
  | some a' => by_cases ha : a' = a <;> simp [ha]

/-- A slot that holds the entry settles a search, and a free one leaves it to the other
tries. -/
theorem card_leading_succ (t : SlotTable rows cols α) (tries : Nat) (a : α) :
    (t.leading (tries + 1) a).card
      = (t.held a).card * Fintype.card (t.Draws tries)
        + (t.filledᶜ).card * (t.leading tries a).card := by
  have hheld : (Finset.univ.filter fun slot : Fin rows × Fin cols =>
      t.get slot.1 slot.2 = some a) = t.held a := by
    ext ⟨b, p⟩
    simp
  have hfree : (Finset.univ.filter fun slot : Fin rows × Fin cols =>
      t.get slot.1 slot.2 = none) = t.filledᶜ := by
    ext ⟨b, p⟩
    simp
  calc
    (t.leading (tries + 1) a).card
      = ∑ slot, ∑ draws : t.Draws tries, if (draws.cons slot).found = a then 1 else 0 := by
        rw [leading, Finset.card_filter, sum_draws_succ]
    _ = ∑ slot : Fin rows × Fin cols,
          ((if t.get slot.1 slot.2 = some a then Fintype.card (t.Draws tries) else 0)
            + if t.get slot.1 slot.2 = none then (t.leading tries a).card else 0) := by
        refine Finset.sum_congr rfl fun slot _ => ?_
        rw [← card_leading_from, Finset.card_filter]
        simp only [Draws.found_cons]
    _ = _ := by
        rw [Finset.sum_add_distrib, Finset.sum_ite, Finset.sum_ite, hheld, hfree]
        simp

/-- Of all draws, each slot of an entry accounts for as many as the blind tries can make. -/
theorem card_leading (t : SlotTable rows cols α) (tries : Nat) (a : α) :
    (t.leading tries a).card = (rows * cols) ^ tries * (t.held a).card := by
  induction tries with
  | zero =>
      -- Without a try all that is drawn is a place in the listing.
      rw [pow_zero, one_mul, ← t.card_listed a, leading, Finset.card_filter, Finset.card_filter,
        Fintype.sum_prod_type, Fintype.sum_unique]
      rfl
  | succ tries ih =>
      -- With the listing as long as there are taken slots, the free ones make up for the rest.
      have hslots : (t.filledᶜ).card + t.occupied.length = rows * cols := by
        rw [length_occupied, Finset.card_compl_add_card]
        simp
      have hdraws : Fintype.card (t.Draws tries) = (rows * cols) ^ tries * t.occupied.length := by
        simp
      calc
        (t.leading (tries + 1) a).card
          = (t.held a).card * ((rows * cols) ^ tries * t.occupied.length)
            + (t.filledᶜ).card * ((rows * cols) ^ tries * (t.held a).card) := by
            rw [card_leading_succ, ih, hdraws]
        _ = (rows * cols) ^ tries * ((t.filledᶜ).card + t.occupied.length) * (t.held a).card := by
            ring
        _ = (rows * cols) ^ (tries + 1) * (t.held a).card := by
            rw [hslots, pow_succ]

end

/-! ### Every search -/

/-- A table that is not empty has a taken slot. -/
theorem isEmpty_eq_false_iff :
    t.isEmpty = false ↔ ∃ (b : Fin rows) (p : Fin cols) (a : α), t.get b p = some a := by
  rw [← Bool.not_eq_true, isEmpty_iff]
  simp [Option.ne_none_iff_exists']

/-- A table that is not empty leaves room for each draw of a search. -/
theorem bounds_pos (hne : t.isEmpty = false) : ∀ bound ∈ t.bounds tries, 0 < bound := by
  obtain ⟨b, p, a, hget⟩ := isEmpty_eq_false_iff.mp hne
  induction tries with
  | zero =>
      have hlisted := List.length_pos_of_mem (mem_occupied.mpr hget)
      simpa [bounds] using hlisted
  | succ tries ih => simpa [bounds, b.pos, p.pos] using ih

/-- Given draws lead a search to what they are said to lead to. -/
theorem Draws.run (draws : t.Draws tries) :
    ∃ s', t.randomEntry tries (⟨draws.numbers⟩ : Dictated) = .ok (some draws.found, s') :=
  run_randomEntry (Dictated.answers_eq draws.forall₂_numbers)

/-- A search favours no slot. Consider the full draws of a search in a table that is not
empty: a slot for each blind try, and a place in the listing. Whatever they are, the search
finds an entry, and the draws that lead to a given entry are `(rows * cols) ^ tries` for each
slot that it holds. Every source answers with one of these draws, and leads the search where
they do. The program makes 1024 blind tries. -/
theorem randomEntry_uniform [DecidableEq α] (t : SlotTable rows cols α) (hne : t.isEmpty = false)
    (tries : Nat) :
    (∀ draws : t.Draws tries, ∃ (a : α) (s' : Dictated),
      t.randomEntry tries (⟨draws.numbers⟩ : Dictated) = .ok (some a, s')) ∧
    (∀ a : α, {draws : t.Draws tries | ∃ s' : Dictated,
        t.randomEntry tries (⟨draws.numbers⟩ : Dictated) = .ok (some a, s')}.ncard
      = (rows * cols) ^ tries * (t.held a).card) ∧
    ∀ (σ : Type) [RandomSource σ] (s : σ), ∃ draws : t.Draws tries,
      RandomSource.answers (t.bounds tries) s = draws.numbers ∧
      ∃ (a : α) (s₁ : σ) (s₂ : Dictated), t.randomEntry tries s = .ok (some a, s₁) ∧
        t.randomEntry tries (⟨draws.numbers⟩ : Dictated) = .ok (some a, s₂) := by
  refine ⟨fun draws => ⟨draws.found, draws.run⟩, fun a => ?_, fun σ _ s => ?_⟩
  · have hset : {draws : t.Draws tries | ∃ s' : Dictated,
        t.randomEntry tries (⟨draws.numbers⟩ : Dictated) = .ok (some a, s')}
        = t.leading tries a := by
      ext draws
      obtain ⟨s₁, hrun⟩ := draws.run
      rw [Set.mem_ofPred_eq, leading, Finset.mem_coe, Finset.mem_filter_univ, hrun]
      constructor
      · rintro ⟨s', heq⟩
        cases heq
        rfl
      · rintro rfl
        exact ⟨s₁, rfl⟩
    rw [hset, Set.ncard_coe_finset, card_leading]
  · obtain ⟨draws, hdraws⟩ := exists_draws (RandomSource.forall₂_answers (bounds_pos hne) s)
    obtain ⟨s₁, hrun⟩ := run_randomEntry hdraws.symm
    obtain ⟨s₂, hrun'⟩ := draws.run
    exact ⟨draws, hdraws.symm, draws.found, s₁, s₂, hrun, hrun'⟩

/-- For instance, a table of two slots by two in which one entry holds two slots and another
holds one. The first is found by twice as many draws. -/
theorem randomEntry_uniform_two_of_three :
    let t := (((empty (by decide) : SlotTable 2 2 Nat).update 0 0 (some 7)).update 0 1
      (some 7)).update 1 1 (some 8)
    t.isEmpty = false ∧
    {draws : t.Draws blindTries | ∃ s' : Dictated,
        t.randomEntry blindTries (⟨draws.numbers⟩ : Dictated) = .ok (some 7, s')}.ncard
      = 2 * {draws : t.Draws blindTries | ∃ s' : Dictated,
        t.randomEntry blindTries (⟨draws.numbers⟩ : Dictated) = .ok (some 8, s')}.ncard := by
  intro t
  have hne : t.isEmpty = false := isEmpty_eq_false_iff.mpr ⟨1, 1, 8, by simp [t, get_update]⟩
  have hcounts := (t.randomEntry_uniform hne blindTries).2.1
  have hseven : (t.held 7).card = 2 := by simp [t, held_update]
  have height : (t.held 8).card = 1 := by simp [t, held_update]
  refine ⟨hne, ?_⟩
  rw [hcounts 7, hcounts 8, hseven, height]
  ring

end SlotTable

end PeerCache
