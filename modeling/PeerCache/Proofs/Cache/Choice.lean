import PeerCache.Proofs.Cache.Runs

/-!
# `PeerCache.Proofs.Cache.Choice`: how a peer is picked

A pick goes to one table and through up to 256 rounds. In each of them it searches the
table for a random entry, and takes or refuses the record of that entry. `Refuses` and
`Accepts` are the two ways in which a round may come out, and `Picks` is a whole pick: some
refusals and then an acceptance, or as many refusals as there are rounds.

There is no third way. A search of a table that is not empty finds an entry, though one
slot in thousands may hold it (`SlotTable.ensures_randomEntry`), and every entry is the
number of a record. The table is not empty because the counters say so, and they agree
with the slots (`Coherent.holdsSlot_iff`).

`Reachable.choose_outcome` states what this means for a pick.
-/

set_option autoImplicit false

namespace PeerCache

namespace Cache

variable {c : Cache} {now : Timestamp} {id : RecordId} {tried : Bool}

/-! ### The two tables -/

/-- The number stands in a slot of the new or of the tried table. -/
def HoldsSlot (c : Cache) : (tried : Bool) → RecordId → Prop
  | true, id => ∃ b p, c.triedTable.get b p = some id
  | false, id => ∃ b p, c.newTable.get b p = some id

/-- A record holds a slot of the table that it is in, and of no other one. -/
theorem Coherent.holdsSlot_iff (h : Coherent ∅ ∅ c) :
    c.HoldsSlot tried id ↔ ∃ r : Record, c.records[id]? = some r ∧ r.inTried = tried := by
  cases tried with
  | true =>
      constructor
      · intro hholds
        obtain ⟨b, p, hget⟩ := hholds
        obtain ⟨r, hr, htried, -⟩ := (h.tried_iff b p id).mp hget
        exact ⟨r, hr, htried⟩
      · intro hrecord
        obtain ⟨r, hr, htried⟩ := hrecord
        exact ⟨_, _, (h.tried_iff _ _ id).mpr ⟨r, hr, htried, rfl⟩⟩
  | false =>
      constructor
      · intro hholds
        obtain ⟨b, p, hget⟩ := hholds
        obtain ⟨r, hr, hnew, -⟩ := h.new_slot b p id hget
        exact ⟨r, hr, hnew⟩
      · intro hrecord
        obtain ⟨r, hr, hnew⟩ := hrecord
        by_contra hnone
        -- Without a slot the record would have no references.
        have hheld : c.newTable.held id = ∅ :=
          SlotTable.held_eq_empty_iff.mpr fun b p hget => hnone ⟨b, p, hget⟩
        have hrefs := (h.sound.new id r hr hnew).1.1
        rw [← h.card_held id r hr, hheld, Finset.card_empty] at hrefs
        omega

/-- The set of records in a table is empty when no slot is held. -/
theorem Coherent.idsIn_eq_empty_iff (h : Coherent ∅ ∅ c) :
    c.idsIn tried = ∅ ↔ ∀ id, ¬ c.HoldsSlot tried id := by
  simp only [h.holdsSlot_iff, Finset.eq_empty_iff_forall_notMem, mem_idsIn]

theorem Coherent.newCount_eq_zero_iff (h : Coherent ∅ ∅ c) :
    c.newCount = 0 ↔ ∀ id, ¬ c.HoldsSlot false id := by
  rw [h.newCount_eq, Finset.sdiff_empty, Finset.card_eq_zero, h.idsIn_eq_empty_iff]

theorem Coherent.triedCount_eq_zero_iff (h : Coherent ∅ ∅ c) :
    c.triedCount = 0 ↔ ∀ id, ¬ c.HoldsSlot true id := by
  rw [h.triedCount_eq, Finset.card_eq_zero, h.idsIn_eq_empty_iff]

variable {σ : Type} [RandomSource σ]

/-- The search that each round of a pick starts with. -/
def search (c : Cache) : (tried : Bool) → Draw σ (Option RecordId)
  | true => c.triedTable.randomEntry blindTries
  | false => c.newTable.randomEntry blindTries

/-- A search of a table with a record in it finds a record there. -/
theorem Coherent.ensures_search (h : Coherent ∅ ∅ c) (hsome : ∃ id, c.HoldsSlot tried id) :
    (c.search tried : Draw σ (Option RecordId)).Ensures fun entry => ∃ (id : RecordId) (r : Record),
      entry = some id ∧ c.records[id]? = some r ∧ c.HoldsSlot tried id := by
  have hfound : (c.search tried : Draw σ (Option RecordId)).Ensures fun entry =>
      ∃ id, entry = some id ∧ c.HoldsSlot tried id := by
    cases tried with
    | true =>
        exact (c.triedTable.ensures_randomEntry (by decide) (by decide) blindTries).mono
          fun entry hentry => hentry.exists_entry hsome
    | false =>
        exact (c.newTable.ensures_randomEntry (by decide) (by decide) blindTries).mono
          fun entry hentry => hentry.exists_entry hsome
  refine hfound.mono fun entry hentry => ?_
  obtain ⟨id, rfl, hholds⟩ := hentry
  obtain ⟨r, hr, -⟩ := h.holdsSlot_iff.mp hholds
  exact ⟨id, r, rfl, hr, hholds⟩

/-! ### The rounds -/

section

variable (w : Type) [Weight w] (c : Cache) (tried : Bool) (now : Timestamp)

/-- A round finds the record of a slot. -/
def Finds (s : σ) (r : Record) (s' : σ) : Prop :=
  ∃ id : RecordId, c.search tried s = .ok (some id, s') ∧ c.records[id]? = some r ∧
    c.HoldsSlot tried id

/-- A round refuses the record that it finds, which is terrible or has lost the draw. -/
inductive Refuses (factor : w) (s s' : σ) : Prop where
  | terrible {r : Record} (hfinds : c.Finds tried s r s') (hterrible : r.isTerrible now = true)
  | outdrawn {r : Record} {s₁ : σ} {draw : Nat} (hfinds : c.Finds tried s r s₁)
      (hhealthy : r.isTerrible now = false)
      (hdraw : RandomSource.below s₁ acceptanceScale = (draw, s'))
      (hlost : ¬ (draw : w) < factor * r.chance now * (acceptanceScale : w))

/-- A round accepts the record that it finds. -/
inductive Accepts (factor : w) (s : σ) : Announcement → σ → Prop where
  | won {r : Record} {s₁ s' : σ} {draw : Nat} (hfinds : c.Finds tried s r s₁)
      (hhealthy : r.isTerrible now = false)
      (hdraw : RandomSource.below s₁ acceptanceScale = (draw, s'))
      (hwon : (draw : w) < factor * r.chance now * (acceptanceScale : w)) :
      Accepts factor s r.peer s'

/-- So many rounds in a row refuse what they find. The factor grows with each. -/
inductive RefusesAll : (rounds : Nat) → (factor : w) → (s : σ) → (factor' : w) → (s' : σ) → Prop
    where
  | start {factor : w} {s : σ} : RefusesAll 0 factor s factor s
  | round {rounds : Nat} {factor factor' : w} {s s₁ s' : σ}
      (h : c.Refuses w tried now factor s s₁)
      (hrest : RefusesAll rounds (factor * 1.2) s₁ factor' s') :
      RefusesAll (rounds + 1) factor s factor' s'

/-- How a pick of so many rounds comes out. -/
inductive Picks (rounds : Nat) (factor : w) (s : σ) : Option Announcement → σ → Prop where
  | gaveUp {factor' : w} {s' : σ} (h : c.RefusesAll w tried now rounds factor s factor' s') :
      Picks rounds factor s none s'
  | picked {n : Nat} {factor' : w} {s₁ s' : σ} {a : Announcement} (hn : n < rounds)
      (h : c.RefusesAll w tried now n factor s factor' s₁)
      (ha : c.Accepts w tried now factor' s₁ a s') : Picks rounds factor s (some a) s'

end

variable {w : Type} [Weight w] {rounds : Nat} {factor factor' : w} {s s₁ s' : σ}
  {pick : Option Announcement} {a : Announcement}

/-- A round that refuses comes before the others. -/
theorem Picks.after_refusal (h : c.Refuses w tried now factor s s₁)
    (hpick : c.Picks w tried now rounds (factor * 1.2) s₁ pick s') :
    c.Picks w tried now (rounds + 1) factor s pick s' := by
  cases hpick with
  | gaveUp hrest => exact .gaveUp (.round h hrest)
  | picked hn hrest ha => exact .picked (Nat.succ_lt_succ hn) (.round h hrest) ha

/-- A pick from a table in which every search finds a record goes through its rounds. -/
theorem picks_chooseFrom {rows cols : Nat} {table : SlotTable rows cols RecordId}
    (hsearch : (c.search tried : Draw σ (Option RecordId)) = table.randomEntry blindTries)
    (hfinds : (c.search tried : Draw σ (Option RecordId)).Ensures fun entry =>
      ∃ (id : RecordId) (r : Record),
        entry = some id ∧ c.records[id]? = some r ∧ c.HoldsSlot tried id)
    (rounds : Nat) (factor : w) (s : σ) :
    ∃ (pick : Option Announcement) (s' : σ),
      chooseFrom w c table now rounds factor s = .ok (pick, s') ∧
        c.Picks w tried now rounds factor s pick s' := by
  induction rounds generalizing factor s with
  | zero => exact ⟨none, s, rfl, .gaveUp .start⟩
  | succ rounds ih =>
      obtain ⟨entry, s₁, hrun, id, r, rfl, hr, hholds⟩ := hfinds s
      have hfound : c.Finds tried s r s₁ := ⟨id, hrun, hr, hholds⟩
      rw [hsearch] at hrun
      rw [chooseFrom, Draw.run_bind hrun, Option.bind_some, hr]
      dsimp only
      by_cases hterrible : r.isTerrible now = true
      · rw [if_pos hterrible]
        obtain ⟨pick, s', hrun', hpick⟩ := ih (factor * 1.2) s₁
        exact ⟨pick, s', hrun', hpick.after_refusal (.terrible hfound hterrible)⟩
      · have hhealthy : r.isTerrible now = false := by simpa using hterrible
        obtain ⟨draw, s₂, hdraw⟩ : ∃ draw s₂, RandomSource.below s₁ acceptanceScale = (draw, s₂) :=
          ⟨_, _, rfl⟩
        have hrun' : (Draw.below acceptanceScale : Draw σ Nat) s₁ = .ok (draw, s₂) :=
          congrArg Except.ok hdraw
        rw [if_neg hterrible, Draw.run_bind hrun']
        by_cases hwon : (draw : w) < factor * r.chance now * (acceptanceScale : w)
        · rw [if_pos hwon]
          exact ⟨some r.peer, s₂, rfl,
            .picked (Nat.succ_pos rounds) .start (.won hfound hhealthy hdraw hwon)⟩
        · rw [if_neg hwon]
          obtain ⟨pick, s', hrun'', hpick⟩ := ih (factor * 1.2) s₂
          exact ⟨pick, s', hrun'', hpick.after_refusal (.outdrawn hfound hhealthy hdraw hwon)⟩

/-- What is picked is the peer of a healthy record in the table. -/
theorem Picks.exists_record (h : c.Picks w tried now rounds factor s (some a) s') :
    ∃ (id : RecordId) (r : Record), c.records[id]? = some r ∧ r.peer = a ∧
      r.isTerrible now = false ∧ c.HoldsSlot tried id := by
  cases h with
  | picked hn hrest ha =>
      cases ha with
      | won hfinds hhealthy hdraw hwon =>
          obtain ⟨id, -, hr, hholds⟩ := hfinds
          exact ⟨id, _, hr, rfl, hhealthy, hholds⟩

/-! ### The table -/

/-- How the table of a pick is settled. -/
inductive Settles (c : Cache) (s : σ) : (tried : Bool) → (s' : σ) → Prop where
  /-- The other table is empty. -/
  | only {tried : Bool} (hsome : ∃ id, c.HoldsSlot tried id)
      (hother : ∀ id, ¬ c.HoldsSlot (!tried) id) : Settles c s tried s
  /-- Neither table is empty, and a coin decides. -/
  | coin {tried : Bool} {s' : σ} (hboth : ∀ table, ∃ id, c.HoldsSlot table id)
      (hcoin : RandomSource.coin s = (tried, s')) : Settles c s tried s'

theorem Settles.exists_holdsSlot (h : c.Settles s tried s') : ∃ id, c.HoldsSlot tried id := by
  cases h with
  | only hsome hother => exact hsome
  | coin hboth hcoin => exact hboth tried

/-- A cache that is not empty has a record in one of its tables. -/
theorem Coherent.exists_holdsSlot (h : Coherent ∅ ∅ c) (hne : c.isEmpty = false) :
    ∃ (tried : Bool) (id : RecordId), c.HoldsSlot tried id := by
  by_contra hnone
  have hempty : c.isEmpty = true := by
    rw [h.isEmpty_iff]
    intro id
    cases hr : c.records[id]? with
    | none => rfl
    | some r => exact absurd ⟨r.inTried, id, h.holdsSlot_iff.mpr ⟨r, hr, rfl⟩⟩ hnone
  rw [hempty] at hne
  cases hne

/-- The counters tell which tables are empty. -/
theorem Coherent.settles (h : Coherent ∅ ∅ c) (hne : c.isEmpty = false) (s : σ) :
    ∃ (tried : Bool) (s' : σ), c.chooseTried s = .ok (tried, s') ∧ c.Settles s tried s' := by
  unfold chooseTried
  by_cases htried : c.triedCount = 0
  · have hempty := h.triedCount_eq_zero_iff.mp htried
    obtain ⟨table, id, hid⟩ := h.exists_holdsSlot hne
    have hsome : ∃ id, c.HoldsSlot false id := by
      cases table with
      | true => exact absurd hid (hempty id)
      | false => exact ⟨id, hid⟩
    rw [if_pos htried]
    exact ⟨false, s, rfl, .only hsome hempty⟩
  · have hsome : ∃ id, c.HoldsSlot true id := by
      by_contra hnone
      exact htried (h.triedCount_eq_zero_iff.mpr (not_exists.mp hnone))
    rw [if_neg htried]
    by_cases hnew : c.newCount = 0
    · rw [if_pos hnew]
      exact ⟨true, s, rfl, .only hsome (h.newCount_eq_zero_iff.mp hnew)⟩
    · rw [if_neg hnew]
      refine ⟨_, _, rfl, .coin (fun table => ?_) rfl⟩
      cases table with
      | true => exact hsome
      | false =>
          by_contra hnone
          exact hnew (h.newCount_eq_zero_iff.mpr (not_exists.mp hnone))

/-! ### Reachable caches -/

variable {allowed : Operation → Prop}

/-- A pick from an empty cache is none. From any other cache the pick goes to the table
that is not empty, or to the one that a coin decides on. Every search of that table finds
a record, so the pick comes out in one of two ways: 256 rounds refuse what they find, or an
earlier one accepts. What is picked is the peer of a record in that table that is not
terrible. If all of them are terrible, nothing is. -/
theorem Reachable.choose_outcome (h : Reachable allowed c) (w : Type) [Weight w] (now : Timestamp)
    (s : σ) :
    (c.isEmpty = true → c.choose w now s = .ok (none, s)) ∧
    (c.isEmpty = false → ∃ (tried : Bool) (s₁ : σ) (pick : Option Announcement) (s' : σ),
      c.choose w now s = .ok (pick, s') ∧ c.Settles s tried s₁ ∧
      (c.search tried : Draw σ (Option RecordId)).Ensures (fun entry =>
        ∃ (id : RecordId) (r : Record),
          entry = some id ∧ c.records[id]? = some r ∧ c.HoldsSlot tried id) ∧
      c.Picks w tried now 256 1.0 s₁ pick s' ∧
      (∀ a, pick = some a → ∃ (id : RecordId) (r : Record),
        c.records[id]? = some r ∧ r.peer = a ∧ r.isTerrible now = false ∧
          c.HoldsSlot tried id) ∧
      ((∀ (id : RecordId) (r : Record), c.records[id]? = some r → c.HoldsSlot tried id →
        r.isTerrible now = true) → pick = none)) := by
  have hc := h.coherent
  constructor
  · intro hempty
    rw [choose, if_pos hempty]
    rfl
  · intro hne
    obtain ⟨tried, s₁, hrun, hsettles⟩ := hc.settles hne s
    have hfinds := hc.ensures_search (σ := σ) hsettles.exists_holdsSlot
    -- The two tables differ in their dimensions only.
    obtain ⟨pick, s', hchoose, hpick⟩ : ∃ (pick : Option Announcement) (s' : σ),
        c.choose w now s = .ok (pick, s') ∧ c.Picks w tried now 256 1.0 s₁ pick s' := by
      rw [choose, if_neg (by simp [hne]), Draw.run_bind hrun]
      cases tried with
      | true => exact picks_chooseFrom rfl hfinds chooseRounds 1.0 s₁
      | false => exact picks_chooseFrom rfl hfinds chooseRounds 1.0 s₁
    have hhealthy : ∀ a, pick = some a → ∃ (id : RecordId) (r : Record),
        c.records[id]? = some r ∧ r.peer = a ∧ r.isTerrible now = false ∧
          c.HoldsSlot tried id := by
      rintro a rfl
      exact hpick.exists_record
    refine ⟨tried, s₁, pick, s', hchoose, hsettles, hfinds, hpick, hhealthy, fun hall => ?_⟩
    cases pick with
    | none => rfl
    | some a =>
        obtain ⟨id, r, hr, -, hfalse, hholds⟩ := hhealthy a rfl
        rw [hall id r hr hholds] at hfalse
        cases hfalse

/-- For instance, a pick from a cache that has learnt of one peer. -/
theorem choose_after_learn : ∃ (c : Cache) (s : SplitMix),
    (Operation.learn (.ofEndpoint (.ofIp (.v4 ⟨8, 8, 8, 8⟩) 8333) (.ofSecs 1700000000))
      (.v4 ⟨9, 9, 9, 9⟩) 0 (.ofSecs 1700000000)).perform Rat (ofKey .standard default) ⟨[], 0⟩
        = .ok (c, s) ∧
    c.isEmpty = false ∧
    ∃ (tried : Bool) (s₁ : SplitMix) (pick : Option Announcement) (s' : SplitMix),
      c.choose Rat (.ofSecs 1700000000) s = .ok (pick, s') ∧ c.Settles s tried s₁ ∧
      c.Picks Rat tried (.ofSecs 1700000000) 256 1.0 s₁ pick s' := by
  have hempty : Reachable (fun _ => True) (ofKey .standard default) := .ofKey .standard default
  obtain ⟨c, s, hrun, hc, hr⟩ :=
    hempty.exists_learn_first Rat (.ofEndpoint (.ofIp (.v4 ⟨8, 8, 8, 8⟩) 8333) (.ofSecs 1700000000))
      (.v4 ⟨9, 9, 9, 9⟩) 0 (.ofSecs 1700000000) trivial (by decide) (⟨[], 0⟩ : SplitMix)
  have hne : c.isEmpty = false := by
    rw [Bool.eq_false_iff, ne_eq, hc.coherent.isEmpty_iff]
    intro hnone
    rw [hnone] at hr
    cases hr
  obtain ⟨tried, s₁, pick, s', hchoose, hsettles, -, hpick, -⟩ :=
    (hc.choose_outcome Rat (.ofSecs 1700000000) s).2 hne
  exact ⟨c, s, hrun, hne, tried, s₁, pick, s', hchoose, hsettles, hpick⟩

end Cache

end PeerCache
