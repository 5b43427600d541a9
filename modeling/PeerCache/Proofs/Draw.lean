import PeerCache.Cache.Basic

/-!
# `PeerCache.Proofs.Draw`: steps that never fail

`Draw.Ensures` says of a step that draws from a random source that it returns a
result whatever the source yields, and that the result has a property. No fault
is possible then. The rules below follow the way in which such steps are built.

The property holds of every result that some source could lead to, so it says
nothing about how likely a result is.

`Draw.Agrees` compares two steps that draw from equal sources. Both return a result,
they use the source up alike, and the results are related.
-/

set_option autoImplicit false

namespace PeerCache

namespace Draw

variable {σ α β : Type} {Q : α → Prop} {R : β → Prop}

/-- The second of two steps goes on where the first has ended. -/
theorem run_bind {d : Draw σ α} {f : α → Draw σ β} {a : α} {s s' : σ} (hrun : d s = .ok (a, s')) :
    (d >>= f) s = f a s' := by
  show (d s >>= fun x => f x.1 x.2) = _
  rw [hrun]
  rfl

/-- A step that does not draw leaves the source alone. -/
theorem run_lift {x : Checked α} {a : α} (hx : x = .ok a) (s : σ) :
    (liftM x : Draw σ α) s = .ok (a, s) := by
  subst hx
  rfl

/-- A function of the result leaves the source as the step does. -/
theorem run_map {d : Draw σ α} {a : α} {s s' : σ} (f : α → β) (hrun : d s = .ok (a, s')) :
    (f <$> d) s = .ok (f a, s') := by
  show (d s >>= fun x => .ok (f x.1, x.2)) = _
  rw [hrun]
  rfl

/-- Both of two steps in a row have succeeded when the whole has. -/
theorem exists_of_run_bind {d : Draw σ α} {f : α → Draw σ β} {b : β} {s s' : σ}
    (hrun : (d >>= f) s = .ok (b, s')) :
    ∃ (a : α) (s₁ : σ), d s = .ok (a, s₁) ∧ f a s₁ = .ok (b, s') := by
  change (d s >>= fun x => f x.1 x.2) = _ at hrun
  cases hd : d s with
  | error e =>
      rw [hd] at hrun
      cases hrun
  | ok x =>
      rw [hd] at hrun
      exact ⟨x.1, x.2, rfl, hrun⟩

theorem of_run_lift {x : Checked α} {a : α} {s s' : σ}
    (hrun : (liftM x : Draw σ α) s = .ok (a, s')) : x = .ok a := by
  cases x with
  | error e => cases hrun
  | ok a' =>
      cases hrun
      rfl

/-- The step returns a result whatever the source yields, and the result has the
property. -/
def Ensures (d : Draw σ α) (Q : α → Prop) : Prop :=
  ∀ s : σ, ∃ (a : α) (s' : σ), d s = .ok (a, s') ∧ Q a

theorem Ensures.pure {a : α} (ha : Q a) : (Pure.pure a : Draw σ α).Ensures Q :=
  fun s => ⟨a, s, rfl, ha⟩

/-- Two steps in a row. The second one starts from a result of the first. -/
theorem Ensures.bind {d : Draw σ α} {f : α → Draw σ β} (hd : d.Ensures Q)
    (hf : ∀ a, Q a → (f a).Ensures R) : (d >>= f).Ensures R := by
  intro s
  obtain ⟨a, s', hrun, ha⟩ := hd s
  obtain ⟨b, s'', hrun', hb⟩ := hf a ha s'
  exact ⟨b, s'', (run_bind hrun).trans hrun', hb⟩

theorem Ensures.mono {d : Draw σ α} {Q' : α → Prop} (hd : d.Ensures Q) (hQ : ∀ a, Q a → Q' a) :
    d.Ensures Q' := by
  intro s
  obtain ⟨a, s', hrun, ha⟩ := hd s
  exact ⟨a, s', hrun, hQ a ha⟩

/-- The result of a run has the property. -/
theorem Ensures.of_run {d : Draw σ α} {a : α} {s s' : σ} (hd : d.Ensures Q)
    (hrun : d s = .ok (a, s')) : Q a := by
  obtain ⟨b, s'', hrun', hb⟩ := hd s
  rw [hrun] at hrun'
  cases hrun'
  exact hb

theorem Ensures.map {d : Draw σ α} {f : α → β} (hd : d.Ensures Q) (hf : ∀ a, Q a → R (f a)) :
    (f <$> d).Ensures R := by
  intro s
  obtain ⟨a, s', hrun, ha⟩ := hd s
  exact ⟨f a, s', run_map f hrun, hf a ha⟩

/-- A step that does not draw, and does not fail. -/
theorem Ensures.lift {x : Checked α} {a : α} (hx : x = .ok a) (ha : Q a) :
    (liftM x : Draw σ α).Ensures Q := by
  subst hx
  exact fun s => ⟨a, s, rfl, ha⟩

/-! ### Two steps side by side -/

section

variable {β' γ : Type} {S : α → γ → Prop} {d : Draw σ α} {e : Draw σ γ}

/-- From equal sources both steps return a result and leave equal sources, and the
results are related. -/
def Agrees (d : Draw σ α) (e : Draw σ γ) (S : α → γ → Prop) : Prop :=
  ∀ s : σ, ∃ (a : α) (b : γ) (s' : σ), d s = .ok (a, s') ∧ e s = .ok (b, s') ∧ S a b

theorem Agrees.pure {a : α} {b : γ} (h : S a b) :
    (Pure.pure a : Draw σ α).Agrees (Pure.pure b : Draw σ γ) S :=
  fun s => ⟨a, b, s, rfl, rfl, h⟩

/-- Two steps in a row, on either side. -/
theorem Agrees.bind {T : β → β' → Prop} {f : α → Draw σ β} {g : γ → Draw σ β'}
    (h : d.Agrees e S) (hfg : ∀ a b, S a b → (f a).Agrees (g b) T) :
    (d >>= f).Agrees (e >>= g) T := by
  intro s
  obtain ⟨a, b, s', hd, he, hab⟩ := h s
  obtain ⟨a', b', s'', hd', he', hab'⟩ := hfg a b hab s'
  exact ⟨a', b', s'', (run_bind hd).trans hd', (run_bind he).trans he', hab'⟩

theorem Agrees.mono {T : α → γ → Prop} (h : d.Agrees e S) (hST : ∀ a b, S a b → T a b) :
    d.Agrees e T := by
  intro s
  obtain ⟨a, b, s', hd, he, hab⟩ := h s
  exact ⟨a, b, s', hd, he, hST a b hab⟩

theorem Agrees.map {T : β → β' → Prop} {f : α → β} {g : γ → β'} (h : d.Agrees e S)
    (hfg : ∀ a b, S a b → T (f a) (g b)) : (f <$> d).Agrees (g <$> e) T := by
  intro s
  obtain ⟨a, b, s', hd, he, hab⟩ := h s
  exact ⟨f a, g b, s', run_map f hd, run_map g he, hfg a b hab⟩

/-- A function of the result on one side only. -/
theorem Agrees.map_left {T : β → γ → Prop} {f : α → β} (h : d.Agrees e S)
    (hf : ∀ a b, S a b → T (f a) b) : (f <$> d).Agrees e T := by
  intro s
  obtain ⟨a, b, s', hd, he, hab⟩ := h s
  exact ⟨f a, b, s', run_map f hd, he, hf a b hab⟩

/-- Two steps that do not draw, and do not fail. -/
theorem Agrees.lift {x : Checked α} {y : Checked γ} {a : α} {b : γ} (hx : x = .ok a)
    (hy : y = .ok b) (h : S a b) : (liftM x : Draw σ α).Agrees (liftM y : Draw σ γ) S :=
  fun s => ⟨a, b, s, run_lift hx s, run_lift hy s, h⟩

/-- What is known of each step holds of the related results. -/
theorem Agrees.and_ensures {P : α → Prop} {Q : γ → Prop} (h : d.Agrees e S) (hd : d.Ensures P)
    (he : e.Ensures Q) : d.Agrees e fun a b => S a b ∧ P a ∧ Q b := by
  intro s
  obtain ⟨a, b, s', hrun, hrun', hab⟩ := h s
  exact ⟨a, b, s', hrun, hrun', hab, hd.of_run hrun, he.of_run hrun'⟩

/-- A step that never fails agrees with itself. -/
theorem Ensures.agrees {P : α → Prop} (h : d.Ensures P) : d.Agrees d fun a b => a = b ∧ P a := by
  intro s
  obtain ⟨a, s', hrun, ha⟩ := h s
  exact ⟨a, a, s', hrun, hrun, rfl, ha⟩

end

variable [RandomSource σ]

/-- A number drawn below a positive bound is below it. -/
theorem ensures_below {bound : Nat} (hbound : 0 < bound) :
    (below bound : Draw σ Nat).Ensures (· < bound) :=
  fun s => ⟨_, _, rfl, RandomSource.below_lt s bound hbound⟩

theorem ensures_coin : (coin : Draw σ Bool).Ensures fun _ => True :=
  fun _ => ⟨_, _, rfl, trivial⟩

theorem ensures_key : (key : Draw σ PlacementKey).Ensures fun _ => True :=
  fun _ => ⟨_, _, rfl, trivial⟩

end Draw

end PeerCache
