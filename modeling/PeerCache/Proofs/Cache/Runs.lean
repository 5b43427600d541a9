import PeerCache.Proofs.Cache.Dial
import PeerCache.Proofs.Cache.Learn
import PeerCache.Proofs.Cache.Load
import PeerCache.Proofs.Cache.Sample
import PeerCache.Random.SplitMix

/-!
# `PeerCache.Proofs.Cache.Runs`: every run keeps the structural rules

`Operation` lists what a caller can ask of a cache, with the arguments. Times need
not increase, the bytes of a load may be anything, and the random source is only
known to draw below its bounds. A load may remove the records that are left without
a slot in any order.

* `Operation.ensures_perform`: one operation on a coherent cache returns a result,
  and the result is coherent again.
* `ensures_run`: so does every sequence of operations.
* `Reachable.coherent`: a cache that operations lead to is coherent, whatever sources
  they draw from. No operation on it stops with a fault, and its audit passes.
-/

set_option autoImplicit false

namespace PeerCache

namespace Cache

/-- What a caller can ask of a cache. -/
inductive Operation where
  | learn (a : Announcement) (source : Ip) (penalty : Nat) (now : Timestamp)
  | confirm (e : Endpoint) (now : Timestamp)
  | noteAttempt (e : Endpoint) (now : Timestamp)
  | noteAlive (e : Endpoint) (now : Timestamp)
  | choose (now : Timestamp)
  | sample (now : Timestamp)
  | clear
  | load (order : RemovalOrder) (data : Bytes)

variable {σ : Type} [RandomSource σ]

/-- The cache after an operation. Acceptance is computed in `w`. -/
def Operation.perform (w : Type) [Weight w] : Operation → Cache → Draw σ Cache
  | .learn a source penalty now, c => Prod.snd <$> c.learn a source penalty now
  | .confirm e now, c => Prod.snd <$> c.confirm e now
  | .noteAttempt e now, c => liftM (c.noteAttempt e now)
  | .noteAlive e now, c => liftM (c.noteAlive e now)
  | .choose now, c => (fun _ => c) <$> c.choose w now
  | .sample now, c => Prod.snd <$> c.sample now
  | .clear, c => c.clear
  | .load order data, c => Prod.snd <$> c.load order data

/-- The cache after a sequence of operations. -/
def run (w : Type) [Weight w] (ops : List Operation) (c : Cache) : Draw σ Cache :=
  ops.foldlM (fun c op => op.perform w c) c

/-- The operation does not record an attempt or a success at time zero. -/
def Operation.IsDated : Operation → Prop
  | .confirm _ now => now ≠ .zero
  | .noteAttempt _ now => now ≠ .zero
  | _ => True

/-- A cache that allowed operations lead to, from an empty one. Each may use another
random source. -/
inductive Reachable (allowed : Operation → Prop) : Cache → Prop where
  | ofKey (policy : Policy) (key : PlacementKey) : Reachable allowed (ofKey policy key)
  | step {σ w : Type} [RandomSource σ] [Weight w] {c d : Cache} {op : Operation} {s s' : σ}
      (hc : Reachable allowed c) (hop : allowed op) (hrun : op.perform w c s = .ok (d, s')) :
      Reachable allowed d

variable {c : Cache} {w : Type} [Weight w]

/-! ### One operation -/

/-- An operation on a coherent cache never fails and leaves a coherent one under the
same policy. -/
theorem Operation.ensures_perform (h : Coherent ∅ ∅ c) (op : Operation) :
    (op.perform w c : Draw σ Cache).Ensures fun d =>
      Coherent ∅ ∅ d ∧ d.policy = c.policy ∧
        (op.IsDated → Every Record.Dated c → Every Record.Dated d) := by
  cases op with
  | learn a source penalty now =>
      exact (h.learn a source penalty now).map fun x hx => ⟨hx.1, hx.2.2.policy, fun _ => hx.2.1⟩
  | confirm e now => exact (h.confirm e now).map fun x hx => hx
  | noteAttempt e now =>
      obtain ⟨d, hrun, hd⟩ := h.noteAttempt e now
      exact .lift hrun hd
  | noteAlive e now =>
      obtain ⟨d, hrun, hd, hpolicy, hdated⟩ := h.noteAlive e now
      exact .lift hrun ⟨hd, hpolicy, fun _ => hdated⟩
  | choose now => exact (ensures_choose w c now).map fun _ _ => ⟨h, rfl, fun _ hc => hc⟩
  | sample now =>
      exact (h.sample now).map fun x hx => ⟨hx.1, hx.2.policy, fun _ => hx.2.descends.dated⟩
  | clear =>
      refine (ensures_new c.policy).mono fun d hd => ?_
      obtain ⟨key, rfl⟩ := hd
      exact ⟨coherent_ofKey c.policy key, rfl, fun _ _ => every_ofKey _ c.policy key⟩
  | load order data =>
      exact (ensures_load c order data).map fun x hx => ⟨hx.1, hx.2.1, fun _ _ => hx.2.2⟩

/-! ### Runs -/

theorem ensures_run (h : Coherent ∅ ∅ c) (ops : List Operation) :
    (run w ops c : Draw σ Cache).Ensures (Coherent ∅ ∅) := by
  induction ops generalizing c with
  | nil => exact .pure h
  | cons op ops ih =>
      rw [run, List.foldlM_cons]
      exact (op.ensures_perform h).bind fun d hd => ih hd.1

/-- From an empty cache on, with a given key or with a drawn one, every sequence of
operations returns a cache that follows the structural rules. -/
theorem sound_of_run (w : Type) [Weight w] (policy : Policy) (key : PlacementKey)
    (ops : List Operation) (s : σ) :
    (∃ (c : Cache) (s' : σ), run w ops (ofKey policy key) s = .ok (c, s') ∧ c.Sound) ∧
      ∃ (c : Cache) (s' : σ),
        (Cache.new policy >>= run w ops : Draw σ Cache) s = .ok (c, s') ∧ c.Sound := by
  have hrun : ∀ key, (run w ops (ofKey policy key) : Draw σ Cache).Ensures Sound := fun key =>
    (ensures_run (coherent_ofKey policy key) ops).mono fun _ => Coherent.sound
  -- A drawn key leads to an empty cache as well.
  refine ⟨hrun key s, (ensures_new policy).bind (fun c hc => ?_) s⟩
  obtain ⟨key, rfl⟩ := hc
  exact hrun key

variable {allowed : Operation → Prop}

theorem Reachable.coherent (h : Reachable allowed c) : Coherent ∅ ∅ c := by
  induction h with
  | ofKey policy key => exact coherent_ofKey policy key
  | step hc hop hrun ih => exact (Draw.Ensures.of_run (Operation.ensures_perform ih _) hrun).1

/-- The times in the histories stay different from zero when no operation is given
time zero. -/
theorem Reachable.dated (h : Reachable Operation.IsDated c) : Every Record.Dated c := by
  induction h with
  | ofKey policy key => exact every_ofKey _ policy key
  | step hc hop hrun ih =>
      exact (Draw.Ensures.of_run (Operation.ensures_perform hc.coherent _) hrun).2.2 hop ih

/-- An allowed operation leads on to another reachable cache. -/
theorem Reachable.exists_step (h : Reachable allowed c) (w : Type) [Weight w] (op : Operation)
    (hop : allowed op) (s : σ) :
    ∃ (d : Cache) (s' : σ), op.perform w c s = .ok (d, s') ∧ Reachable allowed d := by
  obtain ⟨d, s', hrun, -⟩ := Operation.ensures_perform (w := w) h.coherent op s
  exact ⟨d, s', hrun, .step h hop hrun⟩

/-- The first announcement that an empty cache takes in leaves one new record, when
the policy lets the address in. -/
theorem Reachable.exists_learn_first {policy : Policy} {key : PlacementKey}
    (h : Reachable allowed (Cache.ofKey policy key)) (w : Type) [Weight w] (a : Announcement)
    (source : Ip) (penalty : Nat) (now : Timestamp) (hop : allowed (.learn a source penalty now))
    (hadmits : policy.allowUnroutable = true ∨ a.canonical.ip.isRoutable = true) (s : σ) :
    ∃ (d : Cache) (s' : σ),
      (Operation.learn a source penalty now).perform w (Cache.ofKey policy key) s = .ok (d, s') ∧
      Reachable allowed d ∧ d.records[(⟨0⟩ : RecordId)]?
        = some { (Cache.ofKey policy key).newcomer a source penalty with refs := 1 } := by
  obtain ⟨⟨counts, d⟩, s', hrun, -, -, hlearnt⟩ := h.coherent.learn a source penalty now s
  have hperform := Draw.run_map Prod.snd hrun
  exact ⟨d, s', hperform, .step (w := w) h hop hperform, hlearnt.of_ofKey hadmits⟩

/-- No operation on a reachable cache stops with a fault, and the audit passes before
and after it. -/
theorem Reachable.perform_ok (h : Reachable allowed c) (op : Operation) (s : σ) :
    c.audit = .ok () ∧
      ∃ (d : Cache) (s' : σ), op.perform w c s = .ok (d, s') ∧ d.audit = .ok () := by
  obtain ⟨d, s', hrun, hd, -⟩ := Operation.ensures_perform (w := w) h.coherent op s
  exact ⟨h.coherent.sound.audit, d, s', hrun, hd.sound.audit⟩

/-- For instance, the peer of an announcement that was learnt is reached, and its record
moves to the tried table. -/
theorem confirm_after_learn_ok : ∃ (c d : Cache) (s s' : SplitMix),
    (Operation.learn (.ofEndpoint (.ofIp (.v4 ⟨8, 8, 8, 8⟩) 8333) (.ofSecs 1700000000))
      (.v4 ⟨9, 9, 9, 9⟩) 0 (.ofSecs 1700000000)).perform Rat (ofKey .standard default) ⟨[], 0⟩
        = .ok (c, s) ∧
    (Operation.confirm (.ofIp (.v4 ⟨8, 8, 8, 8⟩) 8333) (.ofSecs 1700000060)).perform Rat c s
      = .ok (d, s') ∧
    c.audit = .ok () ∧ d.audit = .ok () ∧
    c.records[(⟨0⟩ : RecordId)]?.map Record.inTried = some false ∧
    d.records[(⟨0⟩ : RecordId)]?.map Record.inTried = some true := by
  have hempty : Reachable (fun _ => True) (ofKey .standard default) := .ofKey .standard default
  obtain ⟨c, s, hrun, hc, hr⟩ :=
    hempty.exists_learn_first Rat (.ofEndpoint (.ofIp (.v4 ⟨8, 8, 8, 8⟩) 8333) (.ofSecs 1700000000))
      (.v4 ⟨9, 9, 9, 9⟩) 0 (.ofSecs 1700000000) trivial (by decide) (⟨[], 0⟩ : SplitMix)
  obtain ⟨hbefore, d, s', hconfirm, hafter⟩ := hc.perform_ok (w := Rat)
    (.confirm (.ofIp (.v4 ⟨8, 8, 8, 8⟩) 8333) (.ofSecs 1700000060)) s
  -- The record of the peer is in the new table, so reaching the peer promotes it.
  have hlookup : c.lookup (.ofIp (.v4 ⟨8, 8, 8, 8⟩) 8333) = some (⟨0⟩, _) :=
    hc.coherent.lookup_eq_some_iff.mpr ⟨hr, rfl⟩
  obtain ⟨evicted, d', hrun', -, -, hpromoted⟩ :=
    hc.coherent.confirm_new hlookup rfl (.ofSecs 1700000060) s
  have hperform := (Draw.run_map Prod.snd hrun').symm.trans hconfirm
  cases hperform
  have htried := congrArg (Option.map Record.inTried) hpromoted.record
  rw [Option.map_map] at htried
  refine ⟨c, _, s, _, hrun, hconfirm, hbefore, hafter, ?_, htried⟩
  rw [hr]
  rfl

end Cache

end PeerCache
