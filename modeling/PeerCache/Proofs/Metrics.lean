import Mathlib.Algebra.GroupWithZero.Nat
import PeerCache.Book
import PeerCache.Proofs.Cache.Numbers

/-!
# `PeerCache.Proofs.Metrics`: the counters agree with the cache

A book counts what the cache reports, and the cache keeps books of its own. `Tally`
relates the two by way of the operations that the cache has gone through. It holds of a
book that was just made, and every call keeps it (`Tally.perform`).

A counter has 64 bits, so a `Tally` says which number it is that a counter shows the
remainder of. With less than `2 ^ 64` operations there is no difference, and the counters
can be read as numbers (`Tally.balanced`).

Loading and clearing are left out. They replace the records, and the counters stay.
-/

set_option autoImplicit false

namespace PeerCache

namespace Cache

variable {σ α : Type} [RandomSource σ] {w : Type} [Weight w] {op : Operation} {c : Cache}
  {past : List (Cache × Operation)}

/-- Performs operations in order and writes them down in front of the past, each with the
cache that it met. -/
def follow (w : Type) [Weight w] : List Operation → List (Cache × Operation) → Cache →
    Draw σ (List (Cache × Operation) × Cache)
  | [], past, c => return (past, c)
  | op :: ops, past, c => do
    let d ← op.perform w c
    follow w ops ((c, op) :: past) d

theorem follow_append (ops ops' : List Operation) (past : List (Cache × Operation)) (c : Cache) :
    (follow w (ops ++ ops') past c : Draw σ (List (Cache × Operation) × Cache))
      = follow w ops past c >>= fun x => follow w ops' x.1 x.2 := by
  induction ops generalizing past c with
  | nil => simp only [List.nil_append, follow, pure_bind]
  | cons op ops ih => simp only [List.cons_append, follow, ih, bind_assoc]

/-- Every operation is written down. -/
theorem length_of_follow {ops : List Operation} {past' : List (Cache × Operation)} {d : Cache}
    {s s' : σ} (hrun : follow w ops past c s = .ok ((past', d), s')) :
    past'.length = ops.length + past.length := by
  induction ops generalizing past c s with
  | nil =>
      cases hrun
      simp
  | cons op ops ih =>
      rw [follow] at hrun
      obtain ⟨m, s₁, -, hrest⟩ := Draw.exists_of_run_bind hrun
      have hlength := ih hrest
      simp only [List.length_cons] at hlength ⊢
      omega

/-- To follow one operation is to perform it and to write it down. -/
theorem agrees_follow_singleton {step : Draw σ α}
    {S : α → List (Cache × Operation) × Cache → Prop}
    (h : step.Agrees (op.perform w c) fun a d => S a ((c, op) :: past, d)) :
    step.Agrees (follow w [op] past c) S := by
  intro s
  obtain ⟨a, d, s', hstep, hop, hS⟩ := h s
  have hfollow : follow w [op] past c s = .ok (((c, op) :: past, d), s') := by
    rw [follow, Draw.run_bind hop]
    rfl
  exact ⟨a, _, s', hstep, hfollow, hS⟩

end Cache

open Cache (Operation Change follow kept)

/-! ### What a count does -/

/-- The counters of announcements and of promotions have moved on by so much. The
counters of picks and loads may be anything. -/
structure Metrics.Counted (learned declined promotions evictions : Nat) (m m' : Metrics) :
    Prop where
  learned : m'.learned = m.learned + UInt64.ofNat learned
  declined : m'.declined = m.declined + UInt64.ofNat declined
  promotions : m'.promotions = m.promotions + UInt64.ofNat promotions
  evictions : m'.evictions = m.evictions + UInt64.ofNat evictions

namespace Metrics

theorem counted_refl (m : Metrics) : Counted 0 0 0 0 m m := by
  constructor <;> simp

theorem counted_countAdd (m : Metrics) (created : Bool) :
    Counted (if created then 1 else 0) (if created then 0 else 1) 0 0 m (m.countAdd created) := by
  cases created <;> constructor <;> simp [countAdd]

theorem counted_countChoice (m : Metrics) (hit : Bool) :
    Counted 0 0 0 0 m (m.countChoice hit) := by
  cases hit <;> constructor <;> simp [countChoice]

theorem counted_countConfirmation (m : Metrics) (outcome : Confirmation) :
    Counted 0 0 outcome.promotions outcome.evictions m (Book.countConfirmation m outcome) := by
  cases outcome with
  | promoted evicted =>
      cases evicted <;> constructor <;>
        simp [Book.countConfirmation, countPromotion, Confirmation.promotions,
          Confirmation.evictions]
  | _ => exact m.counted_refl

end Metrics

namespace Book

variable {σ : Type} [RandomSource σ] {b : Book} {n : Nat}
  {past : List (Cache × Operation)}

/-! ### Calls -/

/-- What a caller can ask of a book that keeps its records. Times need not come from the
clock of the book. -/
inductive Call where
  | learn (a : Announcement) (source : Ip) (penalty : Nat) (now : Timestamp)
  | learnMany (batch : List (Announcement × Ip)) (penalty : Nat) (now : Timestamp)
  | confirm (e : Endpoint) (now : Timestamp)
  | noteAttempt (e : Endpoint) (now : Timestamp)
  | noteAlive (e : Endpoint) (now : Timestamp)
  | choose (now : Timestamp)
  | sample (now : Timestamp)

/-- The book after a call. -/
def Call.perform : Call → Book → Draw σ Book
  | .learn a source penalty now, b => Prod.snd <$> b.learnAt a source penalty now
  | .learnMany batch penalty now, b => Prod.snd <$> learnManyAt penalty now batch 0 b
  | .confirm e now, b => Prod.snd <$> b.confirmAt e now
  | .noteAttempt e now, b => liftM (b.noteAttemptAt e now)
  | .noteAlive e now, b => liftM (b.noteAliveAt e now)
  | .choose now, b => Prod.snd <$> b.chooseAt now
  | .sample now, b => Prod.snd <$> b.sampleAt now

/-- The operations on the cache that a call stands for. A batch is as many operations as
it has addresses. -/
def Call.operations : Call → List Operation
  | .learn a source penalty now => [.learn a source penalty now]
  | .learnMany batch penalty now => batch.map fun x => .learn x.1 x.2 penalty now
  | .confirm e now => [.confirm e now]
  | .noteAttempt e now => [.noteAttempt e now]
  | .noteAlive e now => [.noteAlive e now]
  | .choose now => [.choose now]
  | .sample now => [.sample now]

/-- The number of addresses that a call submits. -/
def Call.submitted : Call → Nat
  | .learn .. => 1
  | .learnMany batch _ _ => batch.length
  | _ => 0

/-- The book after a sequence of calls. -/
def run (calls : List Call) (b : Book) : Draw σ Book :=
  calls.foldlM (fun b call => call.perform b) b

/-! ### The invariant -/

/-- Every counter shows the remainder of a number, and the numbers agree with the past of
the cache, in which so many addresses were submitted. -/
structure Tally (submitted : Nat) (past : List (Cache × Operation)) (b : Book) : Prop where
  census : Cache.Census past b.cache
  submitted_le : submitted ≤ past.length
  learned : b.metrics.learned = UInt64.ofNat (kept past b.cache).card
  declined : ∃ declined : Nat, b.metrics.declined = UInt64.ofNat declined ∧
    (kept past b.cache).card + declined = submitted
  tried : ∃ promotions evictions : Nat, b.metrics.promotions = UInt64.ofNat promotions ∧
    b.metrics.evictions = UInt64.ofNat evictions ∧
    b.cache.triedCount + evictions = promotions ∧ promotions ≤ past.length

theorem tally_ofCache (policy : Policy) (key : PlacementKey) (clock : Clock) :
    Tally 0 [] (ofCache (.ofKey policy key) clock) where
  census := Cache.census_ofKey policy key
  submitted_le := le_rfl
  learned := rfl
  declined := ⟨0, rfl, rfl⟩
  tried := ⟨0, 0, rfl, rfl, rfl, le_rfl⟩

/-- One operation. The counters move on by what it has added, declined, promoted and
evicted, which is at most one of each. -/
theorem Tally.step (h : Tally n past b) {op : Operation} {d : Cache} {m : Metrics}
    {fresh : Finset RecordId} {declined promotions evictions : Nat}
    (hchange : Change fresh promotions evictions b.cache d) (hadded : op.added b.cache d = fresh)
    (hcounted : b.metrics.Counted fresh.card declined promotions evictions m)
    (hone : fresh.card + declined ≤ 1) (hpromotions : promotions ≤ 1) :
    Tally (n + (fresh.card + declined)) ((b.cache, op) :: past)
      { b with cache := d, metrics := m } := by
  have hcard := h.census.card_kept_step hchange hadded
  have hle := h.submitted_le
  obtain ⟨k, hk, hsum⟩ := h.declined
  obtain ⟨p, e, hp, he, htried, hpast⟩ := h.tried
  have hmoved := hchange.triedCount
  refine ⟨h.census.step hchange hadded, ?_, ?_, ⟨k + declined, ?_, ?_⟩,
    ⟨p + promotions, e + evictions, ?_, ?_, ?_, ?_⟩⟩
  · rw [List.length_cons]
    omega
  · rw [hcounted.learned, h.learned, hcard, Nat.add_comm fresh.card, UInt64.ofNat_add]
  · rw [hcounted.declined, hk, UInt64.ofNat_add]
  · rw [hcard]
    omega
  · rw [hcounted.promotions, hp, UInt64.ofNat_add]
  · rw [hcounted.evictions, he, UInt64.ofNat_add]
  · show d.triedCount + (e + evictions) = p + promotions
    omega
  · rw [List.length_cons]
    omega

/-- An operation that submits no address and promotes nothing. -/
theorem Tally.quiet (h : Tally n past b) {op : Operation} {d : Cache} {m : Metrics}
    (hchange : Change ∅ 0 0 b.cache d) (hadded : op.added b.cache d = ∅)
    (hcounted : b.metrics.Counted 0 0 0 0 m) :
    Tally n ((b.cache, op) :: past) { b with cache := d, metrics := m } :=
  h.step hchange hadded hcounted (Nat.zero_le _) (Nat.zero_le _)

/-! ### One call -/

/-- An announcement adds one record or declines one address. -/
theorem Tally.learnAt (h : Tally n past b) (a : Announcement) (source : Ip) (penalty : Nat)
    (now : Timestamp) :
    (b.learnAt a source penalty now : Draw σ (Bool × Book)).Agrees
      ((Operation.learn a source penalty now).perform Float b.cache) fun x d =>
        d = x.2.cache ∧ Tally (n + 1) ((b.cache, .learn a source penalty now) :: past) x.2 := by
  have hlearn := (h.census.coherent.learn_change (σ := σ) a source penalty now).agrees
  refine hlearn.map (f := fun x => (x.1, { b with
    cache := x.2, metrics := b.metrics.countAdd x.1 })) (g := Prod.snd) ?_
  rintro x _ ⟨rfl, hchange⟩
  have hadded : (Operation.learn a source penalty now).added b.cache x.2 = _ := hchange.ids
  have hcounted := b.metrics.counted_countAdd x.1
  refine ⟨rfl, ?_⟩
  -- Either way one of the two counters moves on by one.
  cases hcreated : x.1 with
  | true | false =>
      rw [hcreated] at hchange hadded hcounted
      exact h.step hchange hadded hcounted le_rfl (Nat.zero_le _)

/-- A batch is its announcements one by one. -/
theorem Tally.learnManyAt (h : Tally n past b) (batch : List (Announcement × Ip)) (penalty : Nat)
    (now : Timestamp) (created : Nat) :
    (Book.learnManyAt penalty now batch created b : Draw σ (Nat × Book)).Agrees
      (follow Float (batch.map fun x => .learn x.1 x.2 penalty now) past b.cache) fun x y =>
        y.2 = x.2.cache ∧ Tally (n + batch.length) y.1 x.2 := by
  induction batch generalizing n past b created with
  | nil => exact .pure ⟨rfl, h⟩
  | cons address batch ih =>
      rw [List.map_cons, follow, Book.learnManyAt]
      refine (h.learnAt address.1 address.2 penalty now).bind ?_
      rintro x _ ⟨rfl, htally⟩
      refine (ih htally _).mono ?_
      intro x y hy
      rw [List.length_cons, Nat.add_comm batch.length, ← Nat.add_assoc]
      exact hy

theorem Tally.confirmAt (h : Tally n past b) (e : Endpoint) (now : Timestamp) :
    (b.confirmAt e now : Draw σ (Confirmation × Book)).Agrees
      ((Operation.confirm e now).perform Float b.cache) fun x d =>
        d = x.2.cache ∧ Tally n ((b.cache, .confirm e now) :: past) x.2 := by
  have hconfirm := (h.census.coherent.confirm_change (σ := σ) e now).agrees
  refine hconfirm.map (f := fun x => (x.1, { b with
    cache := x.2, metrics := countConfirmation b.metrics x.1 })) (g := Prod.snd) ?_
  rintro x _ ⟨rfl, hchange⟩
  have hcounted := b.metrics.counted_countConfirmation x.1
  have hone : x.1.promotions ≤ 1 := by
    cases x.1 <;> simp [Confirmation.promotions]
  exact ⟨rfl, h.step hchange rfl hcounted (Nat.zero_le _) hone⟩

omit [RandomSource σ] in
/-- A note about a peer, an attempt or a live session. -/
theorem Tally.noteAt (h : Tally n past b) {op : Operation} {noted : Checked Cache}
    (hnoted : ∃ d : Cache, noted = .ok d ∧ Change ∅ 0 0 b.cache d)
    (hadded : ∀ d : Cache, op.added b.cache d = ∅) :
    (liftM (do return { b with cache := ← noted } : Checked Book) : Draw σ Book).Agrees
      (liftM noted : Draw σ Cache) fun b' d =>
        d = b'.cache ∧ Tally n ((b.cache, op) :: past) b' := by
  obtain ⟨d, rfl, hchange⟩ := hnoted
  exact .lift rfl rfl ⟨rfl, h.quiet hchange (hadded d) b.metrics.counted_refl⟩

theorem Tally.chooseAt (h : Tally n past b) (now : Timestamp) :
    (b.chooseAt now : Draw σ (Option Announcement × Book)).Agrees
      ((Operation.choose now).perform Float b.cache) fun x d =>
        d = x.2.cache ∧ Tally n ((b.cache, .choose now) :: past) x.2 := by
  have hchoose := (Cache.ensures_choose (σ := σ) Float b.cache now).agrees
  have hsame : Change ∅ 0 0 b.cache b.cache :=
    .of_ids_subset h.census.coherent Finset.Subset.rfl rfl rfl
  refine hchoose.map (f := fun pick => (pick, { b with
    metrics := b.metrics.countChoice pick.isSome })) ?_
  intro pick _ _
  exact ⟨rfl, h.quiet hsame rfl (b.metrics.counted_countChoice pick.isSome)⟩

theorem Tally.sampleAt (h : Tally n past b) (now : Timestamp) :
    (b.sampleAt now : Draw σ (List Announcement × Book)).Agrees
      ((Operation.sample now).perform Float b.cache) fun x d =>
        d = x.2.cache ∧ Tally n ((b.cache, .sample now) :: past) x.2 := by
  have hsample := (h.census.coherent.sample_change (σ := σ) now).agrees
  refine hsample.map (f := fun x => (x.1, { b with cache := x.2 })) ?_
  rintro x _ ⟨rfl, hchange⟩
  exact ⟨rfl, h.quiet hchange rfl b.metrics.counted_refl⟩

/-- Every call keeps the tally, and leaves the cache that its operations lead to. -/
theorem Tally.perform (h : Tally n past b) (call : Call) :
    (call.perform b : Draw σ Book).Agrees (follow Float call.operations past b.cache)
      fun b' x => x.2 = b'.cache ∧ Tally (n + call.submitted) x.1 b' := by
  have hc := h.census.coherent
  cases call with
  | learn a source penalty now =>
      exact Cache.agrees_follow_singleton
        ((h.learnAt a source penalty now).map_left fun x d hx => hx)
  | learnMany batch penalty now =>
      exact (h.learnManyAt batch penalty now 0).map_left fun x y hx => hx
  | confirm e now =>
      exact Cache.agrees_follow_singleton ((h.confirmAt e now).map_left fun x d hx => hx)
  | noteAttempt e now =>
      exact Cache.agrees_follow_singleton (h.noteAt (hc.noteAttempt_change e now) fun _ => rfl)
  | noteAlive e now =>
      exact Cache.agrees_follow_singleton (h.noteAt (hc.noteAlive_change e now) fun _ => rfl)
  | choose now =>
      exact Cache.agrees_follow_singleton ((h.chooseAt now).map_left fun x d hx => hx)
  | sample now =>
      exact Cache.agrees_follow_singleton ((h.sampleAt now).map_left fun x d hx => hx)

/-! ### Runs -/

theorem Tally.run (h : Tally n past b) (calls : List Call) :
    (Book.run calls b : Draw σ Book).Agrees
      (follow Float (calls.flatMap Call.operations) past b.cache)
      fun b' x => x.2 = b'.cache ∧ Tally (n + (calls.map Call.submitted).sum) x.1 b' := by
  induction calls generalizing n past b with
  | nil => exact .pure ⟨rfl, h⟩
  | cons call calls ih =>
      rw [Book.run, List.foldlM_cons, List.flatMap_cons, Cache.follow_append]
      refine (h.perform call).bind ?_
      rintro b' x ⟨hcache, htally⟩
      rw [hcache, List.map_cons, List.sum_cons, ← Nat.add_assoc]
      exact ih htally

/-- The counters of a book agree with its cache and with the past of the cache, in which
so many addresses were submitted. -/
structure Balanced (submitted : Nat) (past : List (Cache × Operation)) (b : Book) : Prop where
  submitted : b.metrics.learned.toNat + b.metrics.declined.toNat = submitted
  /-- One address was accepted for each record that an announcement has added and left
  stored. -/
  learned : b.metrics.learned.toNat = (kept past b.cache).card
  evictions_le : b.metrics.evictions ≤ b.metrics.promotions
  triedCount : b.cache.triedCount = b.metrics.promotions.toNat - b.metrics.evictions.toNat
  size_le : b.cache.size ≤ b.metrics.learned.toNat
  /-- The two are equal as long as none of these records was removed. -/
  size_eq_iff : b.cache.size = b.metrics.learned.toNat ↔
    ∀ id ∈ kept past b.cache, id ∈ b.cache.records

/-- Counters that have not gone round show the numbers themselves. -/
theorem Tally.balanced (h : Tally n past b) (hlength : past.length < 2 ^ 64) :
    Balanced n past b := by
  have hle := h.submitted_le
  obtain ⟨k, hdeclined, hsum⟩ := h.declined
  obtain ⟨p, e, hpromotions, hevictions, htried, hp⟩ := h.tried
  have hshown : ∀ m ≤ past.length, (UInt64.ofNat m).toNat = m := fun m hm =>
    UInt64.toNat_ofNat_of_lt' (hm.trans_lt hlength)
  have hlearned : b.metrics.learned.toNat = (kept past b.cache).card := by
    rw [h.learned, hshown _ (by omega)]
  have hdeclined' : b.metrics.declined.toNat = k := by rw [hdeclined, hshown k (by omega)]
  have hpromotions' : b.metrics.promotions.toNat = p := by rw [hpromotions, hshown p hp]
  have hevictions' : b.metrics.evictions.toNat = e := by rw [hevictions, hshown e (by omega)]
  have hsize : b.cache.size = b.cache.ids.card := by
    rw [Cache.card_ids, ← h.census.coherent.sound.size_order]
    rfl
  have hcard := Finset.card_le_card h.census.ids_subset
  refine ⟨by omega, hlearned, ?_, by omega, by omega, ?_⟩
  · rw [UInt64.le_iff_toNat_le]
    omega
  · rw [hsize, hlearned]
    constructor
    · intro heq id hid
      have hids := Finset.eq_of_subset_of_card_le h.census.ids_subset heq.ge
      rw [← hids] at hid
      exact (mem_iff_exists_getElem? b.cache.records id).mpr (Cache.mem_ids.mp hid)
    · intro hstored
      refine le_antisymm hcard (Finset.card_le_card fun id hid => ?_)
      exact Cache.mem_ids.mpr ((mem_iff_exists_getElem? b.cache.records id).mp (hstored id hid))

/-- After less than `2 ^ 64` operations on a book that was made empty, whatever they are
and whatever the source yields, the counters agree with the cache. The past of the cache
is found by performing the same operations on it from the same source. -/
theorem run_balanced (policy : Policy) (clock : Clock) (calls : List Call)
    (hlength : (calls.flatMap Call.operations).length < 2 ^ 64) :
    (Book.new policy clock >>= Book.run calls : Draw σ Book).Agrees
      (Cache.new policy >>= follow Float (calls.flatMap Call.operations) [])
      fun b x => x.2 = b.cache ∧ Balanced (calls.map Call.submitted).sum x.1 b := by
  have hnew : (Book.new policy clock : Draw σ Book).Agrees (Cache.new policy) fun b c =>
      c = b.cache ∧ Tally 0 [] b := by
    refine (Cache.ensures_new policy).agrees.map_left (f := (ofCache · clock)) ?_
    rintro _ _ ⟨rfl, key, rfl⟩
    exact ⟨rfl, tally_ofCache policy key clock⟩
  refine hnew.bind ?_
  rintro b _ ⟨rfl, htally⟩ s
  obtain ⟨b', x, s', hrun, hfollow, hcache, htally'⟩ := htally.run calls s
  have hpast : x.1.length = (calls.flatMap Call.operations).length := Cache.length_of_follow hfollow
  rw [Nat.zero_add] at htally'
  rw [← hpast] at hlength
  exact ⟨b', x, s', hrun, hfollow, hcache, htally'.balanced hlength⟩

/-- A reached peer that was announced, and announced again in a batch. -/
theorem run_balanced_of_reached :
    let e : Endpoint := .ofIp (.v4 ⟨8, 8, 8, 8⟩) 8333
    let calls : List Call := [.learn (.ofEndpoint e (.ofSecs 1700000000)) (.v4 ⟨9, 9, 9, 9⟩) 0
        (.ofSecs 1700000000), .confirm e (.ofSecs 1700000000),
      .learnMany [(.ofEndpoint e (.ofSecs 1700000000), .v4 ⟨9, 9, 9, 9⟩)] 0 (.ofSecs 1700000060),
      .sample (.ofSecs 1700000060)]
    (calls.flatMap Call.operations).length < 2 ^ 64 ∧
      ∃ (b : Book) (past : List (Cache × Operation)) (s : SplitMix),
        (Book.new .standard ⟨1700000000⟩ >>= Book.run calls) (⟨[], 0⟩ : SplitMix)
          = .ok (b, s) ∧ Balanced 2 past b := by
  intro e calls
  have hlength : (calls.flatMap Call.operations).length < 2 ^ 64 := by decide
  obtain ⟨b, x, s, hrun, -, -, hbalanced⟩ := run_balanced .standard ⟨1700000000⟩
    calls hlength (⟨[], 0⟩ : SplitMix)
  exact ⟨hlength, b, x.1, s, hrun, hbalanced⟩

end Book

end PeerCache
