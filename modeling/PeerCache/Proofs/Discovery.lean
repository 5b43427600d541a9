import PeerCache.Discovery
import PeerCache.Proofs.Cache.Runs

/-!
# `PeerCache.Proofs.Discovery`: the bounds of a round of discovery

Dials run side by side, so a round is a system of steps. The loop makes dials or
collects an outcome, and in between any dial that waits may finish, with any outcome.
`Step` lists what can happen next and `Run` is a sequence of such steps. Between them
the clock may move and others may use the book.

* `Round.Valid` is what every step keeps: where the permits are, which endpoints are in
  flight, and that every dial is counted once.
* `Moment.rank` goes down with every step, so no run goes on for ever, and
  `Moment.Unstuck.exists_step` says that a round only stops where it has ended.
* `Run.exists_discover` places `Book.discover` among the runs. It is the one in which
  the dials finish in order whenever the loop has nothing else to do.
* `Book.discover_bounded` puts these together.

A dial may finish while the loop is making another one. The loop looks at the permits
once and at the outstanding dials before that, so this is the same as finishing right
after.
-/

set_option autoImplicit false

namespace PeerCache

open Cache (Coherent Reachable Operation ofKey)

variable {σ : Type} [RandomSource σ]

/-! ### What the book does -/

namespace Book

variable {b : Book}

theorem ensures_choose (b : Book) :
    (b.choose : Draw σ (Option Announcement × Book)).Ensures fun x => x.2.cache = b.cache :=
  .bind (Cache.ensures_choose Float b.cache b.now) fun _ _ => .pure rfl

theorem exists_noteAttempt (h : Coherent ∅ ∅ b.cache) (e : Endpoint) :
    ∃ d : Book, b.noteAttempt e = .ok d ∧ Coherent ∅ ∅ d.cache := by
  obtain ⟨c, hrun, hc, -⟩ := h.noteAttempt e b.now
  exact ⟨{ b with cache := c }, by rw [noteAttempt, noteAttemptAt, hrun]; rfl, hc⟩

theorem exists_noteAlive (h : Coherent ∅ ∅ b.cache) (e : Endpoint) :
    ∃ d : Book, b.noteAlive e = .ok d ∧ Coherent ∅ ∅ d.cache := by
  obtain ⟨c, hrun, hc, -⟩ := h.noteAlive e b.now
  exact ⟨{ b with cache := c }, by rw [noteAlive, noteAliveAt, hrun]; rfl, hc⟩

theorem ensures_confirm (h : Coherent ∅ ∅ b.cache) (e : Endpoint) :
    (b.confirm e : Draw σ Book).Ensures fun d => Coherent ∅ ∅ d.cache :=
  .bind (.bind (h.confirm e b.now) fun _ hx => .pure hx.1) fun _ hx => .pure hx

end Book

/-! ### One turn of the loop -/

namespace Round

variable {config : DiscoveryConfig} {target : Nat} {r r' : Round} {b : Book} {e : Endpoint}
  {outcome : DialOutcome}

/-- How an attempt to make one more dial ends: whether the dial was made, and the round
afterwards. -/
inductive Turn (config : DiscoveryConfig) (target : Nat) (r : Round) : Bool → Round → Prop
  /-- With what is outstanding the target may be reached. -/
  | aimed (h : target ≤ r.connected + r.outstanding) : Turn config target r false r
  /-- No attempt is left. -/
  | spent (h : config.maxAttempts ≤ r.attempted) : Turn config target r false r
  /-- No permit is left. -/
  | barred (h : r.permits = 0) : Turn config target r false r
  /-- The book has nothing to offer. -/
  | exhausted : Turn config target r false { r with exhausted := true }
  /-- The book offers an endpoint that is in flight already. -/
  | again {e : Endpoint} (h : e ∈ r.inFlight) : Turn config target r false r
  /-- The dial is made. -/
  | made {e : Endpoint} (haim : r.connected + r.outstanding < target)
      (hbudget : r.attempted < config.maxAttempts) (hpermit : r.permits ≠ 0)
      (hfresh : e ∉ r.inFlight) : Turn config target r true (r.addDial e)

theorem ensures_makeDial (h : Coherent ∅ ∅ b.cache) (r : Round) :
    (r.makeDial config target b : Draw σ (Bool × Round × Book)).Ensures fun x =>
      Turn config target r x.1 x.2.1 ∧ Coherent ∅ ∅ x.2.2.cache := by
  unfold makeDial
  -- The tests come in the order of the loop: target and attempts, permits, pick, in flight.
  split
  · next hstop =>
    rcases Bool.or_eq_true_iff.mp hstop with haim | hbudget
    · exact .pure ⟨.aimed (of_decide_eq_true haim), h⟩
    · exact .pure ⟨.spent (of_decide_eq_true hbudget), h⟩
  · next hgo =>
    have hboth : r.connected + r.outstanding < target ∧ r.attempted < config.maxAttempts := by
      simpa using hgo
    split
    · next hpermits => exact .pure ⟨.barred hpermits, h⟩
    · next hpermits =>
      refine .bind b.ensures_choose fun x hx => ?_
      obtain ⟨pick, d⟩ := x
      have hd : Coherent ∅ ∅ d.cache := hx ▸ h
      cases pick with
      | none => exact .pure ⟨.exhausted, hd⟩
      | some a =>
          dsimp only
          split
          · next hagain => exact .pure ⟨.again (List.contains_iff_mem.mp hagain), hd⟩
          · next hfresh =>
            obtain ⟨d', hnote, hd'⟩ := Book.exists_noteAttempt hd a.endpoint
            refine .bind (.lift hnote hd') fun d'' hd'' => .pure ⟨?_, hd''⟩
            exact .made hboth.1 hboth.2 hpermits fun hmem =>
              hfresh (List.contains_iff_mem.mpr hmem)

/-- The round after the outcome of a dial was collected. -/
inductive Counted (r : Round) (e : Endpoint) : DialOutcome → Round → Prop
  | connected :
      Counted r e .connected { r.take e .connected with connected := r.connected + 1 }
  | failed : Counted r e .failed { r.take e .failed with failed := r.failed + 1 }

theorem ensures_collect (h : Coherent ∅ ∅ b.cache) (r : Round) (e : Endpoint)
    (houtcome : outcome ≠ .broken) :
    (r.collect e outcome b : Draw σ (Except DiscoveryError Round × Book)).Ensures fun x =>
      ∃ r', x.1 = .ok r' ∧ Counted r e outcome r' ∧ Coherent ∅ ∅ x.2.cache := by
  cases outcome with
  | connected =>
      refine .bind (Book.ensures_confirm h e) fun d hd => ?_
      obtain ⟨d', halive, hd'⟩ := Book.exists_noteAlive hd e
      exact .bind (.lift halive hd') fun d'' hd'' => .pure ⟨_, rfl, .connected, hd''⟩
  | failed => exact .pure ⟨_, rfl, .failed, h⟩
  | broken => exact absurd rfl houtcome

/-- The number of outcomes that were collected. -/
def collected (r : Round) : Nat := r.connected + r.failed

theorem Turn.collected {made : Bool} (h : Turn config target r made r') :
    r'.collected = r.collected := by
  cases h with
  | aimed | spent | barred | exhausted | again | made => rfl

theorem Counted.collected (h : Counted r e outcome r') : r'.collected = r.collected + 1 := by
  cases h with
  | connected => exact Nat.add_right_comm r.connected 1 r.failed
  | failed => rfl

/-! ### What every step keeps -/

/-- The books of a round balance. -/
structure Valid (config : DiscoveryConfig) (target : Nat) (r : Round) : Prop where
  /-- Every permit is left or held by a dial that waits. -/
  permits : r.permits + r.waiting.length = config.maxInFlight
  /-- The endpoints in flight are those of the outstanding dials. -/
  inFlight : r.inFlight.Perm (r.waiting ++ r.done.map Prod.fst)
  nodup : r.inFlight.Nodup
  budget : r.attempted ≤ config.maxAttempts
  aim : r.connected + r.outstanding ≤ target
  /-- Every dial made is outstanding or was counted. -/
  counts : r.attempted = r.connected + r.failed + r.outstanding
  intact : ∀ x ∈ r.done, x.2 ≠ .broken

/-- Nothing more can be dialled, for want of attempts or of candidates. -/
def Spent (config : DiscoveryConfig) (r : Round) : Prop :=
  r.attempted = config.maxAttempts ∨ r.exhausted = true

theorem outstanding_addDial (r : Round) (e : Endpoint) :
    (r.addDial e).outstanding = r.outstanding + 1 := by
  simp only [outstanding, addDial, List.length_append, List.length_singleton]
  omega

theorem outstanding_finish (h : e ∈ r.waiting) (outcome : DialOutcome) :
    (r.finish e outcome).outstanding = r.outstanding := by
  have hpos := List.length_pos_of_mem h
  simp only [outstanding, finish, List.length_append, List.length_singleton,
    List.length_erase_of_mem h]
  omega

theorem outstanding_take (h : (e, outcome) ∈ r.done) :
    (r.take e outcome).outstanding + 1 = r.outstanding := by
  have hpos := List.length_pos_of_mem h
  simp only [outstanding, take, List.length_erase_of_mem h]
  omega

theorem valid_start (config : DiscoveryConfig) (target : Nat) :
    (start config.maxInFlight).Valid config target where
  permits := rfl
  inFlight := .nil
  nodup := .nil
  budget := Nat.zero_le _
  aim := Nat.zero_le _
  counts := rfl
  intact _ hx := absurd hx List.not_mem_nil

namespace Valid

theorem exhausted (h : r.Valid config target) :
    ({ r with exhausted := true } : Round).Valid config target :=
  ⟨h.permits, h.inFlight, h.nodup, h.budget, h.aim, h.counts, h.intact⟩

theorem addDial (h : r.Valid config target) (haim : r.connected + r.outstanding < target)
    (hbudget : r.attempted < config.maxAttempts) (hpermit : r.permits ≠ 0)
    (hfresh : e ∉ r.inFlight) : (r.addDial e).Valid config target where
  permits := by
    have hpermits := h.permits
    simp only [Round.addDial, List.length_append, List.length_singleton]
    omega
  inFlight := by
    have hmiddle : (r.waiting ++ e :: r.done.map Prod.fst).Perm
        (e :: (r.waiting ++ r.done.map Prod.fst)) := List.perm_middle
    simpa [Round.addDial] using (h.inFlight.cons e).trans hmiddle.symm
  nodup := List.nodup_cons.mpr ⟨hfresh, h.nodup⟩
  budget := hbudget
  aim := by
    rw [outstanding_addDial]
    exact haim
  counts := by
    rw [outstanding_addDial]
    show r.attempted + 1 = r.connected + r.failed + (r.outstanding + 1)
    rw [h.counts, Nat.add_assoc]
  intact := h.intact

theorem finish (h : r.Valid config target) (he : e ∈ r.waiting) (houtcome : outcome ≠ .broken) :
    (r.finish e outcome).Valid config target where
  permits := by
    have hpermits := h.permits
    have hpos := List.length_pos_of_mem he
    simp only [Round.finish, List.length_erase_of_mem he]
    omega
  inFlight := by
    -- The endpoint moves from the front of what waits to the end of what is done.
    have hfront : (r.waiting ++ r.done.map Prod.fst).Perm
        (e :: (r.waiting.erase e ++ r.done.map Prod.fst)) :=
      (List.perm_cons_erase he).append_right _
    have hback := List.perm_append_singleton e (r.waiting.erase e ++ r.done.map Prod.fst)
    simpa [Round.finish] using h.inFlight.trans (hfront.trans hback.symm)
  nodup := h.nodup
  budget := h.budget
  aim := by
    rw [outstanding_finish he]
    exact h.aim
  counts := by
    rw [outstanding_finish he]
    exact h.counts
  intact x hx := by
    rcases List.mem_append.mp hx with hx | hx
    · exact h.intact x hx
    · rw [List.mem_singleton.mp hx]
      exact houtcome

theorem inFlight_take (h : r.Valid config target) (hmem : (e, outcome) ∈ r.done) :
    (r.inFlight.erase e).Perm
      (r.waiting ++ (r.done.erase (e, outcome)).map Prod.fst) := by
  have hdone : (r.done.map Prod.fst).Perm (e :: (r.done.erase (e, outcome)).map Prod.fst) :=
    (List.perm_cons_erase hmem).map Prod.fst
  have hfront := (hdone.append_left r.waiting).trans List.perm_middle
  have herase := (h.inFlight.trans hfront).erase e
  rwa [List.erase_cons_head] at herase

theorem counted (h : r.Valid config target) (hmem : (e, outcome) ∈ r.done)
    (hcounted : Counted r e outcome r') : r'.Valid config target := by
  have hinFlight := h.inFlight_take hmem
  have hlength := outstanding_take hmem
  have hintact : ∀ x ∈ r.done.erase (e, outcome), x.2 ≠ .broken := fun x hx =>
    h.intact x (List.mem_of_mem_erase hx)
  have haim := h.aim
  have hcounts := h.counts
  cases hcounted with
  | connected =>
      refine ⟨h.permits, hinFlight, h.nodup.erase e, h.budget, ?_, ?_, hintact⟩
      · show r.connected + 1 + (r.take e .connected).outstanding ≤ target
        omega
      · show r.attempted = r.connected + 1 + r.failed + (r.take e .connected).outstanding
        omega
  | failed =>
      refine ⟨h.permits, hinFlight, h.nodup.erase e, h.budget, ?_, ?_, hintact⟩
      · show r.connected + (r.take e .failed).outstanding ≤ target
        omega
      · show r.attempted = r.connected + (r.failed + 1) + (r.take e .failed).outstanding
        omega

/-- A turn keeps the balance. If it makes no dial, then some dial is outstanding, the
target is reached, or nothing more can be dialled. -/
theorem turn {made : Bool} (h : r.Valid config target) (hturn : Turn config target r made r') :
    r'.Valid config target ∧
      (made = false → 0 < r'.outstanding ∨ target ≤ r'.connected ∨ r'.Spent config) := by
  cases hturn with
  | aimed haim =>
      refine ⟨h, fun _ => ?_⟩
      by_cases hnone : r.outstanding = 0
      · rw [hnone] at haim
        exact Or.inr (Or.inl haim)
      · exact Or.inl (Nat.pos_of_ne_zero hnone)
  | spent hspent => exact ⟨h, fun _ => Or.inr (Or.inr (Or.inl (h.budget.antisymm hspent)))⟩
  | barred hbarred =>
      -- All permits are held by dials that wait, and there is one at least.
      refine ⟨h, fun _ => Or.inl ?_⟩
      have hpermits := h.permits
      have hpos := config.maxInFlight_pos
      rw [outstanding]
      omega
  | exhausted => exact ⟨h.exhausted, fun _ => Or.inr (Or.inr (Or.inr rfl))⟩
  | again hmem =>
      refine ⟨h, fun _ => Or.inl ?_⟩
      have hpos := List.length_pos_of_mem (h.inFlight.mem_iff.mp hmem)
      simpa [outstanding] using hpos
  | made haim hbudget hpermit hfresh =>
      exact ⟨h.addDial haim hbudget hpermit hfresh, nofun⟩

end Valid

end Round

/-! ### Runs -/

/-- Where the loop of a round stands. -/
inductive Phase where
  /-- About to make another dial. -/
  | dialling
  /-- About to collect an outcome. -/
  | joining
  | ended
deriving DecidableEq

/-- A round at one moment, with the book it uses and the source it draws from. -/
structure Moment (σ : Type) where
  phase : Phase
  round : Round
  book : Book
  source : σ

namespace Moment

/-- A round that is about to make its first dial. -/
def start (config : DiscoveryConfig) (b : Book) (s : σ) : Moment σ :=
  ⟨.dialling, .start config.maxInFlight, b, s⟩

end Moment

/-- What can happen next in a round. -/
inductive Step (config : DiscoveryConfig) (target : Nat) : Moment σ → Moment σ → Prop
  /-- The loop makes a dial. -/
  | dial {r r' : Round} {b b' : Book} {s s' : σ}
      (hrun : r.makeDial config target b s = .ok ((true, r', b'), s')) :
      Step config target ⟨.dialling, r, b, s⟩ ⟨.dialling, r', b', s'⟩
  /-- The loop is stopped from making a dial, and turns to the outcomes. -/
  | stop {r r' : Round} {b b' : Book} {s s' : σ}
      (hrun : r.makeDial config target b s = .ok ((false, r', b'), s')) :
      Step config target ⟨.dialling, r, b, s⟩ ⟨.joining, r', b', s'⟩
  /-- A dial that waits finishes, with any outcome. -/
  | finish {phase : Phase} {r : Round} {b : Book} {s : σ} {e : Endpoint} {outcome : DialOutcome}
      (hphase : phase ≠ .ended) (he : e ∈ r.waiting) (houtcome : outcome ≠ .broken) :
      Step config target ⟨phase, r, b, s⟩ ⟨phase, r.finish e outcome, b, s⟩
  /-- The loop collects some outcome, and ends when the target is reached. -/
  | collect {r r' : Round} {b b' : Book} {s s' : σ} {e : Endpoint} {outcome : DialOutcome}
      (hmem : (e, outcome) ∈ r.done)
      (hrun : r.collect e outcome b s = .ok ((.ok r', b'), s')) :
      Step config target ⟨.joining, r, b, s⟩
        ⟨if target ≤ r'.connected then .ended else .dialling, r', b', s'⟩
  /-- Nothing is outstanding, and the loop ends. -/
  | dry {r : Round} {b : Book} {s : σ} (hdry : r.outstanding = 0) :
      Step config target ⟨.joining, r, b, s⟩ ⟨.ended, r, b, s⟩

/-- A round that has come from `start` to another moment by some number of steps.
Between the steps, others may do to the book what they like. -/
inductive Run (config : DiscoveryConfig) (target : Nat) (allowed : Operation → Prop)
    (start : Moment σ) : Nat → Moment σ → Prop
  | start : Run config target allowed start 0 start
  | step {n : Nat} {m m' : Moment σ} (h : Run config target allowed start n m)
      (hstep : Step config target m m') : Run config target allowed start (n + 1) m'
  | others {n : Nat} {phase : Phase} {r : Round} {b b' : Book} {s s' : σ}
      (h : Run config target allowed start n ⟨phase, r, b, s⟩)
      (hb : Reachable allowed b'.cache) : Run config target allowed start n ⟨phase, r, b', s'⟩

namespace Moment

variable {config : DiscoveryConfig} {target : Nat} {m m' : Moment σ}

/-- The books of the round balance, the cache follows its rules, and the loop has moved
on for a reason. -/
structure Valid (config : DiscoveryConfig) (target : Nat) (m : Moment σ) : Prop where
  round : m.round.Valid config target
  cache : Coherent ∅ ∅ m.book.cache
  joining : m.phase = .joining →
    0 < m.round.outstanding ∨ target ≤ m.round.connected ∨ m.round.Spent config
  ended : m.phase = .ended →
    m.round.outstanding = 0 ∧ (target ≤ m.round.connected ∨ m.round.Spent config)

/-- How much of the round is still to come. A dial that is made goes through three more
stages, so an attempt weighs more than what it turns into. -/
def rank (config : DiscoveryConfig) (m : Moment σ) : Nat :=
  4 * (config.maxAttempts - m.round.attempted) + 3 * m.round.waiting.length +
    2 * m.round.done.length +
    match m.phase with
    | .dialling => 2
    | .joining => 1
    | .ended => 0

omit [RandomSource σ] in
/-- A round begins in balance. -/
theorem valid_start (config : DiscoveryConfig) (target : Nat) {b : Book}
    (h : Coherent ∅ ∅ b.cache) (s : σ) : (start config b s).Valid config target :=
  ⟨Round.valid_start config target, h, nofun, nofun⟩

omit [RandomSource σ] in
theorem rank_start (config : DiscoveryConfig) (b : Book) (s : σ) :
    (start config b s).rank config = 4 * config.maxAttempts + 2 := rfl

/-- Every step keeps the balance. -/
theorem Valid.step (h : m.Valid config target) (hstep : Step config target m m') :
    m'.Valid config target := by
  cases hstep with
  | @dial r r' b b' s s' hrun =>
      obtain ⟨hturn, hcache⟩ := (Round.ensures_makeDial h.cache r).of_run hrun
      exact ⟨(h.round.turn hturn).1, hcache, nofun, nofun⟩
  | @stop r r' b b' s s' hrun =>
      obtain ⟨hturn, hcache⟩ := (Round.ensures_makeDial h.cache r).of_run hrun
      obtain ⟨hround, hreason⟩ := h.round.turn hturn
      exact ⟨hround, hcache, fun _ => hreason rfl, nofun⟩
  | finish hphase he houtcome =>
      refine ⟨h.round.finish he houtcome, h.cache, fun hjoining => ?_,
        fun hended => absurd hended hphase⟩
      show 0 < (Round.finish _ _ _).outstanding ∨ _
      rw [Round.outstanding_finish he]
      exact h.joining hjoining
  | @collect r r' b b' s s' e outcome hmem hrun =>
      obtain ⟨x, hx, hcounted, hcache⟩ :=
        (Round.ensures_collect h.cache r e (h.round.intact _ hmem)).of_run hrun
      obtain rfl : r' = x := Except.ok.inj hx
      have hround := h.round.counted hmem hcounted
      by_cases htarget : target ≤ r'.connected
      · -- The target leaves no room for an outstanding dial.
        have haim := hround.aim
        refine ⟨hround, hcache, fun hphase => ?_, fun _ => ⟨?_, Or.inl htarget⟩⟩
        · rw [if_pos htarget] at hphase
          cases hphase
        · show r'.outstanding = 0
          omega
      · refine ⟨hround, hcache, fun hphase => ?_, fun hphase => ?_⟩ <;>
        · rw [if_neg htarget] at hphase
          cases hphase
  | dry hdry =>
      refine ⟨h.round, h.cache, nofun, fun _ => ⟨hdry, ?_⟩⟩
      rcases h.joining rfl with hpos | hreason
      · exact absurd hdry hpos.ne'
      · exact hreason

/-- Every step brings the end nearer. -/
theorem Valid.rank_lt (h : m.Valid config target) (hstep : Step config target m m') :
    m'.rank config < m.rank config := by
  cases hstep with
  | @dial r r' b b' s s' hrun =>
      obtain ⟨hturn, -⟩ := (Round.ensures_makeDial h.cache r).of_run hrun
      cases hturn with
      | made haim hbudget =>
          -- An attempt that weighed four is now a dial that waits and weighs three.
          simp only [rank, List.length_append, List.length_singleton]
          omega
  | @stop r r' b b' s s' hrun =>
      obtain ⟨hturn, -⟩ := (Round.ensures_makeDial h.cache r).of_run hrun
      cases hturn with
      | aimed | spent | barred | exhausted | again => exact Nat.lt_succ_self _
  | @finish phase r b s e outcome hphase he houtcome =>
      -- A dial that waited becomes one that is done, which weighs one less.
      have hpos := List.length_pos_of_mem he
      simp only [rank, Round.finish, List.length_append, List.length_singleton,
        List.length_erase_of_mem he]
      omega
  | @collect r r' b b' s s' e outcome hmem hrun =>
      obtain ⟨x, hx, hcounted, -⟩ :=
        (Round.ensures_collect h.cache r e (h.round.intact _ hmem)).of_run hrun
      obtain rfl : r' = x := Except.ok.inj hx
      -- The outcome weighed two, and going back to dialling costs one.
      have hpos := List.length_pos_of_mem hmem
      have hlength := List.length_erase_of_mem hmem
      cases hcounted with
      | connected | failed =>
          split
          · simp only [rank, Round.take, hlength]
            omega
          · simp only [rank, Round.take, hlength]
            omega
  | dry => exact Nat.lt_succ_self _

/-- The loop can do what it is about to do, without a fault. -/
structure Unstuck (config : DiscoveryConfig) (target : Nat) (m : Moment σ) : Prop where
  dialling : m.phase = .dialling → ∃ (made : Bool) (r : Round) (b : Book) (s : σ),
    m.round.makeDial config target m.book m.source = .ok ((made, r, b), s)
  joining : m.phase = .joining → ∀ (e : Endpoint) (outcome : DialOutcome),
    (e, outcome) ∈ m.round.done → ∃ (r : Round) (b : Book) (s : σ),
      m.round.collect e outcome m.book m.source = .ok ((.ok r, b), s)

theorem Valid.unstuck (h : m.Valid config target) : m.Unstuck config target where
  dialling _ := by
    obtain ⟨⟨made, r, b⟩, s, hrun, -⟩ := Round.ensures_makeDial h.cache m.round m.source
    exact ⟨made, r, b, s, hrun⟩
  joining _ e outcome hmem := by
    obtain ⟨⟨result, b⟩, s, hrun, r, rfl, -⟩ :=
      Round.ensures_collect h.cache m.round e (h.round.intact _ hmem) m.source
    exact ⟨r, b, s, hrun⟩

/-- A round that has not ended can go on, or waits for a dial that may finish. -/
theorem Unstuck.exists_step (h : m.Unstuck config target) (hphase : m.phase ≠ .ended) :
    ∃ m' : Moment σ, Step config target m m' := by
  obtain ⟨phase, r, b, s⟩ := m
  cases phase with
  | dialling =>
      obtain ⟨made, r', b', s', hrun⟩ := h.dialling rfl
      cases made with
      | true => exact ⟨_, .dial hrun⟩
      | false => exact ⟨_, .stop hrun⟩
  | joining =>
      cases hdone : r.done with
      | cons x rest =>
          have hmem : (x.1, x.2) ∈ r.done := hdone ▸ List.mem_cons_self
          obtain ⟨r', b', s', hrun⟩ := h.joining rfl x.1 x.2 hmem
          exact ⟨_, .collect hmem hrun⟩
      | nil =>
          cases hwaiting : r.waiting with
          | cons e rest =>
              have hmem : e ∈ r.waiting := hwaiting ▸ List.mem_cons_self
              exact ⟨_, .finish hphase hmem (show DialOutcome.failed ≠ .broken from nofun)⟩
          | nil => exact ⟨_, .dry (by rw [Round.outstanding, hdone, hwaiting]; rfl)⟩
  | ended => exact absurd rfl hphase

/-- What a round never exceeds, and what it reports in the end. -/
structure Bounded (config : DiscoveryConfig) (target : Nat) (m : Moment σ) : Prop where
  running : m.round.waiting.length ≤ config.maxInFlight
  /-- No endpoint is dialled twice at a time. -/
  distinct : (m.round.waiting ++ m.round.done.map Prod.fst).Nodup
  attempted : m.round.attempted ≤ config.maxAttempts
  aim : m.round.connected + m.round.outstanding ≤ target
  ended : m.phase = .ended → m.round.outstanding = 0 ∧
    m.round.attempted = m.round.connected + m.round.failed ∧ m.round.connected ≤ target ∧
    (m.round.connected < target →
      m.round.attempted = config.maxAttempts ∨ m.round.exhausted = true)

omit [RandomSource σ] in
theorem Valid.bounded (h : m.Valid config target) : m.Bounded config target where
  running := h.round.permits ▸ Nat.le_add_left _ _
  distinct := h.round.inFlight.nodup_iff.mp h.round.nodup
  attempted := h.round.budget
  aim := h.round.aim
  ended hphase := by
    obtain ⟨hnone, hreason⟩ := h.ended hphase
    have haim := h.round.aim
    have hcounts := h.round.counts
    rw [hnone] at haim hcounts
    exact ⟨hnone, hcounts, haim, fun hshort => hreason.resolve_left (Nat.not_le.mpr hshort)⟩

end Moment

namespace Run

variable {config : DiscoveryConfig} {target : Nat} {allowed : Operation → Prop}
  {m₀ m : Moment σ} {n : Nat}

theorem valid (h : Run config target allowed m₀ n m) (h₀ : m₀.Valid config target) :
    m.Valid config target := by
  induction h with
  | start => exact h₀
  | step _ hstep ih => exact ih.step hstep
  | others _ hb ih => exact ⟨ih.round, hb.coherent, ih.joining, ih.ended⟩

/-- A run is no longer than the rank that it starts with. -/
theorem length_add_rank_le (h : Run config target allowed m₀ n m) (h₀ : m₀.Valid config target) :
    n + m.rank config ≤ m₀.rank config := by
  induction h with
  | start => rw [Nat.zero_add]
  | step hrun hstep ih =>
      have hlt := (hrun.valid h₀).rank_lt hstep
      omega
  | others _ _ ih => exact ih

/-! ### The round that runs by itself -/

variable {r : Round} {b : Book} {s : σ}

/-- Making dials until something stops the loop is a run. -/
theorem exists_fill (h₀ : m₀.Valid config target) {attempts : Nat}
    (hattempts : config.maxAttempts - r.attempted = attempts)
    (h : Run config target allowed m₀ n ⟨.dialling, r, b, s⟩) :
    ∃ (k : Nat) (r' : Round) (b' : Book) (s' : σ),
      Round.fill config target attempts r b s = .ok ((r', b'), s') ∧
        Run config target allowed m₀ k ⟨.joining, r', b', s'⟩ ∧ r'.collected = r.collected := by
  induction attempts generalizing n r b s with
  | zero =>
      -- The loop would be stopped for want of attempts.
      have hstop : r.makeDial config target b s = .ok ((false, r, b), s) := by
        have hspent : config.maxAttempts ≤ r.attempted := Nat.sub_eq_zero_iff_le.mp hattempts
        unfold Round.makeDial
        rw [if_pos (by simp [hspent])]
        rfl
      exact ⟨n + 1, r, b, s, rfl, h.step (.stop hstop), rfl⟩
  | succ attempts ih =>
      obtain ⟨⟨made, r', b'⟩, s', hrun, hturn, -⟩ :=
        Round.ensures_makeDial (h.valid h₀).cache r s
      rw [Round.fill, Draw.run_bind hrun]
      cases made with
      | false => exact ⟨n + 1, r', b', s', rfl, h.step (.stop hrun), hturn.collected⟩
      | true =>
          have hrest : config.maxAttempts - r'.attempted = attempts := by
            cases hturn with
            | made =>
                show config.maxAttempts - (r.attempted + 1) = attempts
                omega
          obtain ⟨k, r'', b'', s'', hfill, hfilled, hsame⟩ := ih hrest (h.step (.dial hrun))
          exact ⟨k, r'', b'', s'', hfill, hfilled, hsame.trans hturn.collected⟩

/-- So is letting all dials that wait finish in order. -/
theorem exists_runWaiting {phase : Phase} (hphase : phase ≠ .ended)
    {dial : Endpoint → DialOutcome} (hdial : ∀ e, dial e ≠ .broken)
    (h : Run config target allowed m₀ n ⟨phase, r, b, s⟩) :
    ∃ k : Nat, Run config target allowed m₀ k ⟨phase, r.runWaiting dial, b, s⟩ ∧
      (r.runWaiting dial).collected = r.collected ∧ (r.runWaiting dial).waiting = [] := by
  rw [Round.runWaiting]
  -- The fold goes over the dials that wait, which are fewer after each step.
  generalize hwaiting : r.waiting = waiting
  induction waiting generalizing n r with
  | nil => exact ⟨n, h, rfl, hwaiting⟩
  | cons e rest ih =>
      have hmem : e ∈ r.waiting := hwaiting ▸ List.mem_cons_self
      refine ih (h.step (.finish hphase hmem (hdial e))) ?_
      show r.waiting.erase e = rest
      rw [hwaiting, List.erase_cons_head]

/-- So they run where the loop would find no outcome. If it still finds none, then nothing
is outstanding. -/
theorem exists_runIdle {dial : Endpoint → DialOutcome} (hdial : ∀ e, dial e ≠ .broken)
    (h : Run config target allowed m₀ n ⟨.joining, r, b, s⟩) :
    ∃ k : Nat, Run config target allowed m₀ k ⟨.joining, r.runIdle dial, b, s⟩ ∧
      (r.runIdle dial).collected = r.collected ∧
      ((r.runIdle dial).done = [] → (r.runIdle dial).outstanding = 0) := by
  have hjoining : Phase.joining ≠ .ended := nofun
  by_cases hidle : r.done.isEmpty = true
  · obtain ⟨k, hrun, hcollected, hwaiting⟩ := exists_runWaiting hjoining hdial h
    rw [Round.runIdle, if_pos hidle]
    refine ⟨k, hrun, hcollected, fun hdone => ?_⟩
    rw [Round.outstanding, hwaiting, hdone]
    rfl
  · rw [Round.runIdle, if_neg hidle]
    refine ⟨n, h, rfl, fun hdone => ?_⟩
    rw [hdone] at hidle
    exact absurd rfl hidle

/-- Going on to the end is a run that ends, when there is fuel for every outcome that is
still to come. -/
theorem exists_go (h₀ : m₀.Valid config target) {dial : Endpoint → DialOutcome}
    (hdial : ∀ e, dial e ≠ .broken) {left : Nat}
    (hleft : config.maxAttempts < left + r.collected)
    (h : Run config target allowed m₀ n ⟨.dialling, r, b, s⟩) :
    ∃ (k : Nat) (r' : Round) (b' : Book) (s' : σ),
      Round.go config dial target left r b s = .ok ((.ok r', b'), s') ∧
        Run config target allowed m₀ k ⟨.ended, r', b', s'⟩ := by
  induction left generalizing n r b s with
  | zero =>
      -- More outcomes would have been collected than dials made.
      have hround := (h.valid h₀).round
      have hbudget : r.attempted ≤ config.maxAttempts := hround.budget
      have hcounts : r.attempted = r.collected + r.outstanding := hround.counts
      omega
  | succ left ih =>
      obtain ⟨k, r₁, b₁, s₁, hfill, hfilled, hsame⟩ := exists_fill h₀ rfl h
      obtain ⟨k', hready, hsame', hidle⟩ := exists_runIdle hdial hfilled
      rw [Round.go, Draw.run_bind hfill]
      dsimp only
      cases hdone : (r₁.runIdle dial).done with
      | nil => exact ⟨k' + 1, _, b₁, s₁, rfl, hready.step (.dry (hidle hdone))⟩
      | cons x rest =>
          have hmem : (x.1, x.2) ∈ (r₁.runIdle dial).done := hdone ▸ List.mem_cons_self
          have hvalid := hready.valid h₀
          obtain ⟨⟨result, b₂⟩, s₂, hcollect, r₂, rfl, hcounted, -⟩ :=
            Round.ensures_collect hvalid.cache _ x.1 (hvalid.round.intact _ hmem) s₁
          have hnext := hready.step (.collect hmem hcollect)
          dsimp only
          rw [Draw.run_bind hcollect]
          dsimp only
          by_cases htarget : target ≤ r₂.connected
          · rw [if_pos htarget] at hnext ⊢
            exact ⟨k' + 1, r₂, b₂, s₂, rfl, hnext⟩
          · rw [if_neg htarget] at hnext ⊢
            refine ih ?_ hnext
            rw [hcounted.collected, hsame', hsame]
            omega

/-- When no dial breaks down and the permits can be counted, a round of discovery
returns, and it is a run that has ended. -/
theorem exists_discover (config : DiscoveryConfig) (target : Nat)
    (hlimit : config.maxInFlight ≤ permitLimit) {dial : Endpoint → DialOutcome}
    (hdial : ∀ e, dial e ≠ .broken) (hb : Coherent ∅ ∅ b.cache) (s : σ) :
    ∃ (n : Nat) (r : Round) (b' : Book) (s' : σ),
      b.discover config dial target s = .ok ((.ok r, b'), s') ∧
        Run config target allowed (.start config b s) n ⟨.ended, r, b', s'⟩ := by
  have hstart := Moment.valid_start config target hb s
  unfold Book.discover
  rw [if_neg (Nat.not_lt.mpr hlimit)]
  exact exists_go hstart hdial (Nat.lt_succ_self _) .start

end Run

/-! ### The bounds -/

/-- Whatever is drawn, and in whatever order and with whatever outcomes the dials finish,
a round is `Bounded` at every moment, takes a bounded number of steps, and stops only
where it has ended. When the permits can be counted, discovery returns the report of
such a round. When they cannot, it stops before the first dial. -/
theorem Book.discover_bounded {allowed : Operation → Prop} {b : Book}
    (h : Reachable allowed b.cache) (config : DiscoveryConfig) (target : Nat) (s : σ) :
    (∀ (n : Nat) (m : Moment σ), Run config target allowed (.start config b s) n m →
      m.Bounded config target ∧ n ≤ 4 * config.maxAttempts + 2 ∧ m.Unstuck config target ∧
        (m.phase ≠ .ended → ∃ m' : Moment σ, Step config target m m')) ∧
    (config.maxInFlight ≤ permitLimit →
      ∀ dial : Endpoint → DialOutcome, (∀ e, dial e ≠ .broken) →
        ∃ (n : Nat) (r : Round) (b' : Book) (s' : σ),
          b.discover config dial target s = .ok ((.ok r, b'), s') ∧
            Run config target allowed (.start config b s) n ⟨.ended, r, b', s'⟩) ∧
    (permitLimit < config.maxInFlight → ∀ dial : Endpoint → DialOutcome,
      b.discover config dial target s = .error .permits) := by
  have hstart := Moment.valid_start config target h.coherent s
  refine ⟨fun n m hrun => ?_, fun hlimit dial hdial => ?_, fun hlimit dial => ?_⟩
  · have hvalid := hrun.valid hstart
    have hlength := hrun.length_add_rank_le hstart
    rw [Moment.rank_start] at hlength
    exact ⟨hvalid.bounded, (Nat.le_add_right _ _).trans hlength, hvalid.unstuck,
      hvalid.unstuck.exists_step⟩
  · exact Run.exists_discover config target hlimit hdial h.coherent s
  · unfold Book.discover
    rw [if_pos hlimit]
    rfl

/-- For instance, a round of one attempt on a book that has learnt of one peer. -/
theorem Book.discover_one_attempt : ∃ (c : Cache) (s : SplitMix),
    (Operation.learn (.ofEndpoint (.ofIp (.v4 ⟨8, 8, 8, 8⟩) 8333) (.ofSecs 1700000000))
      (.v4 ⟨9, 9, 9, 9⟩) 0 (.ofSecs 1700000000)).perform Rat (ofKey .standard default) ⟨[], 0⟩
        = .ok (c, s) ∧
    ∃ (r : Round) (b : Book) (s' : SplitMix),
      (Book.ofCache c ⟨1700000000⟩).discover ⟨1, Nat.one_pos, 1, 0⟩ (fun _ => .connected) 1 s
        = .ok ((.ok r, b), s') ∧
      r.outstanding = 0 ∧ r.attempted = r.connected + r.failed ∧ r.connected ≤ 1 ∧
      (r.connected < 1 → r.attempted = 1 ∨ r.exhausted = true) := by
  have hempty : Reachable (fun _ => True) (ofKey .standard default) := .ofKey .standard default
  obtain ⟨c, s, hrun, hc⟩ := hempty.exists_step Rat (.learn _ _ _ _) trivial (⟨[], 0⟩ : SplitMix)
  have hbook : Reachable (fun _ => True) (Book.ofCache c ⟨1700000000⟩).cache := hc
  obtain ⟨hbounded, hreturns, -⟩ :=
    Book.discover_bounded hbook ⟨1, Nat.one_pos, 1, 0⟩ 1 s
  obtain ⟨n, r, b, s', hdiscover, hended⟩ := hreturns (by decide) (fun _ => .connected) nofun
  exact ⟨c, s, hrun, r, b, s', hdiscover, (hbounded n _ hended).1.ended rfl⟩

/-- With more permits than can be counted, a round on an empty book does not return. -/
theorem Book.discover_too_many_permits :
    (Book.ofCache (ofKey .standard default) ⟨1700000000⟩).discover
      ⟨1 <<< 61, by decide, 64, 0⟩ (fun _ => .connected) 1 (⟨[], 0⟩ : SplitMix)
      = .error .permits := by
  unfold Book.discover
  rw [if_pos (by decide)]
  rfl

end PeerCache
