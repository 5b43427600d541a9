import PeerCache.Proofs.Cache.Audit
import PeerCache.Proofs.Cache.Promotion

/-!
# `PeerCache.Proofs.Cache.Dial`: the operations around dialling

The three operations that record what dialling a peer has shown. None of them
fails, and each keeps the invariant. Two of them only touch the history of one
record, which no index depends on. The third one promotes the record.

A history with no time zero stays so, when the operation is not given time zero.
-/

set_option autoImplicit false

namespace PeerCache

namespace Record

/-- The record after its endpoint was reached. -/
def reached (r : Record) (now : Timestamp) : Record :=
  { r with lastSuccess := some now, lastTry := some now, attempts := 0 }

/-- The record after an attempt to reach its endpoint. -/
def attempted (r : Record) (now : Timestamp) : Record :=
  { r with lastTry := some now, attempts := Cache.oneMore r.attempts }

/-- The record after a session showed that its endpoint is alive. -/
def alive (r : Record) (now : Timestamp) : Record := { r with peer := { r.peer with seen := now } }

end Record

namespace Cache

variable {c : Cache} {e : Endpoint} {id : RecordId} {r : Record}

variable {σ : Type} [RandomSource σ]

/-! ### Reaching an endpoint -/

/-- The closing audit of a confirmation passes where the invariant holds. -/
theorem confirm_of_unaudited {d : Cache} {outcome : Confirmation} {now : Timestamp} {s s' : σ}
    (hrun : c.confirmUnaudited e now s = .ok ((outcome, d), s')) (hd : Coherent ∅ ∅ d) :
    c.confirm e now s = .ok ((outcome, d), s') :=
  (Draw.run_bind hrun).trans (Draw.run_bind (Draw.run_lift hd.audited s'))

/-- The history is written first, and no index depends on it. -/
theorem Coherent.reached (h : Coherent ∅ ∅ c) (id : RecordId) (now : Timestamp) :
    Coherent ∅ ∅ (c.modifyRecord id fun r => r.reached now) :=
  h.modifyHistory fun _ _ => ⟨rfl, rfl, rfl, rfl, rfl⟩

/-- An endpoint that no record has leaves everything as it is. -/
theorem Coherent.confirm_unknown (h : Coherent ∅ ∅ c) (hlookup : c.lookup e = none)
    (now : Timestamp) (s : σ) : c.confirm e now s = .ok ((.unknown, c), s) := by
  refine confirm_of_unaudited ?_ h
  unfold Cache.confirmUnaudited
  rw [hlookup]
  rfl

/-- A record that is tried already keeps its place and gets a new history. -/
theorem Coherent.confirm_tried (h : Coherent ∅ ∅ c) (hlookup : c.lookup e = some (id, r))
    (htried : r.inTried = true) (now : Timestamp) (s : σ) :
    c.confirm e now s = .ok ((.refreshed, c.modifyRecord id fun r => r.reached now), s) := by
  refine confirm_of_unaudited ?_ (h.reached id now)
  unfold Cache.confirmUnaudited
  simp only [hlookup, htried, if_true]
  rfl

/-- A record of the new table is promoted, whatever is drawn. The one draw is that of
the bucket in which the search for a slot begins. -/
theorem Coherent.confirm_new (h : Coherent ∅ ∅ c) (hlookup : c.lookup e = some (id, r))
    (hnew : r.inTried = false) (now : Timestamp) (s : σ) :
    ∃ (evicted : Option Endpoint) (d : Cache), c.confirm e now s
        = .ok ((.promoted evicted, d), (RandomSource.below s newBucketCount).2) ∧ Coherent ∅ ∅ d ∧
        Descends (c.modifyRecord id fun r => r.reached now) d ∧
        Promoted id (r.reached now) evicted (c.modifyRecord id fun r => r.reached now) d := by
  have hr := (lookup_eq_some hlookup).1
  have hm := h.reached id now
  have hrm : (c.modifyRecord id fun r => r.reached now).records[id]? = some (r.reached now) := by
    rw [getElem?_modifyRecord_self, hr]
    rfl
  -- There is a slot to be found, and the promotion takes all of them.
  have hlength := hm.length_heldBuckets hrm
  have hpos : r.refs ≠ 0 := fun hzero => h.mem_loose id r hr hnew hzero
  obtain ⟨evicted, d, hpromote, hd, hdescends, hpromoted⟩ :=
    hm.promote hrm hnew (fun b => mem_heldBuckets) hlength
  have hdraw : (Draw.below newBucketCount : Draw σ Nat) s
      = .ok (RandomSource.below s newBucketCount) := rfl
  refine ⟨evicted, d, confirm_of_unaudited ?_ hd, hd, hdescends, hpromoted⟩
  unfold Cache.confirmUnaudited
  simp only [hlookup, hnew, Bool.false_eq_true, if_false]
  refine (Draw.run_bind hdraw).trans ?_
  rw [foundFrom_eq, Bool.not_not, if_neg]
  · exact Draw.run_bind (Draw.run_lift hpromote _)
  · intro hempty
    rw [List.isEmpty_iff, ← List.length_eq_zero_iff] at hempty
    exact hpos (hlength.symm.trans hempty)

/-- Recording that an endpoint was reached never fails and keeps the invariant. -/
theorem Coherent.confirm (h : Coherent ∅ ∅ c) (e : Endpoint) (now : Timestamp) :
    (c.confirm e now : Draw σ (Confirmation × Cache)).Ensures fun x =>
      Coherent ∅ ∅ x.2 ∧ x.2.policy = c.policy ∧
        (now ≠ .zero → Every Record.Dated c → Every Record.Dated x.2) := by
  have hdated : ∀ id, now ≠ .zero → Every Record.Dated c →
      Every Record.Dated (c.modifyRecord id fun r => r.reached now) := fun id hnow hc =>
    hc.modifyRecord fun r _ => ⟨fun he => hnow (Option.some.inj he),
      fun he => hnow (Option.some.inj he)⟩
  intro s
  cases hlookup : c.lookup e with
  | none => exact ⟨_, s, h.confirm_unknown hlookup now s, h, rfl, fun _ hc => hc⟩
  | some found =>
      obtain ⟨id, r⟩ := found
      cases htried : r.inTried with
      | true => exact ⟨_, s, h.confirm_tried hlookup htried now s, h.reached id now, rfl, hdated id⟩
      | false =>
          obtain ⟨evicted, d, hrun, hd, hdescends, hpromoted⟩ := h.confirm_new hlookup htried now s
          exact ⟨_, _, hrun, hd, hpromoted.policy,
            fun hnow hc => hdescends.dated (hdated id hnow hc)⟩

/-! ### Attempts and live sessions -/

/-- An endpoint that no record has leaves everything as it is. -/
theorem Coherent.note_unknown (h : Coherent ∅ ∅ c) (hlookup : c.lookup e = none)
    (now : Timestamp) : c.noteAttempt e now = .ok c ∧ c.noteAlive e now = .ok c := by
  constructor
  · unfold Cache.noteAttempt
    rw [hlookup]
    exact h.audited
  · unfold Cache.noteAlive
    rw [hlookup]
    exact h.audited

/-- An attempt is noted in the record. -/
theorem Coherent.noteAttempt_known (h : Coherent ∅ ∅ c) (hlookup : c.lookup e = some (id, r))
    (now : Timestamp) :
    c.noteAttempt e now = .ok (c.modifyRecord id fun r => r.attempted now) ∧
      Coherent ∅ ∅ (c.modifyRecord id fun r => r.attempted now) := by
  have hm : Coherent ∅ ∅ (c.modifyRecord id fun r => r.attempted now) :=
    h.modifyHistory fun r _ => ⟨rfl, rfl, rfl, rfl, rfl⟩
  refine ⟨?_, hm⟩
  unfold Cache.noteAttempt
  rw [hlookup]
  exact hm.audited

/-- A live session moves the last-seen time once that lies back far enough. -/
theorem Coherent.noteAlive_known (h : Coherent ∅ ∅ c) (hlookup : c.lookup e = some (id, r))
    (now : Timestamp) : ∃ d : Cache, c.noteAlive e now = .ok d ∧ Coherent ∅ ∅ d ∧
      d = if aliveStep < now.since r.peer.seen then c.modifyRecord id fun r => r.alive now
        else c := by
  have hm : Coherent ∅ ∅ (c.modifyRecord id fun r => r.alive now) :=
    h.modifyHistory fun r _ => ⟨rfl, rfl, rfl, rfl, rfl⟩
  unfold Cache.noteAlive
  rw [hlookup]
  dsimp only
  by_cases hback : aliveStep < now.since r.peer.seen
  · rw [if_pos hback, if_pos hback]
    exact ⟨_, hm.audited, hm, rfl⟩
  · rw [if_neg hback, if_neg hback]
    exact ⟨c, h.audited, h, rfl⟩

/-- Recording an attempt never fails and keeps the invariant. -/
theorem Coherent.noteAttempt (h : Coherent ∅ ∅ c) (e : Endpoint) (now : Timestamp) :
    ∃ d : Cache, c.noteAttempt e now = .ok d ∧ Coherent ∅ ∅ d ∧ d.policy = c.policy ∧
      (now ≠ .zero → Every Record.Dated c → Every Record.Dated d) := by
  cases hlookup : c.lookup e with
  | none => exact ⟨c, (h.note_unknown hlookup now).1, h, rfl, fun _ hc => hc⟩
  | some found =>
      obtain ⟨id, r⟩ := found
      obtain ⟨hrun, hm⟩ := h.noteAttempt_known hlookup now
      refine ⟨_, hrun, hm, rfl, fun hnow hc => hc.modifyRecord fun r hr => ?_⟩
      exact ⟨hr.lastSuccess, fun he => hnow (Option.some.inj he)⟩

/-- Recording a live session never fails and keeps the invariant. -/
theorem Coherent.noteAlive (h : Coherent ∅ ∅ c) (e : Endpoint) (now : Timestamp) :
    ∃ d : Cache, c.noteAlive e now = .ok d ∧ Coherent ∅ ∅ d ∧ d.policy = c.policy ∧
      (Every Record.Dated c → Every Record.Dated d) := by
  cases hlookup : c.lookup e with
  | none => exact ⟨c, (h.note_unknown hlookup now).2, h, rfl, fun hc => hc⟩
  | some found =>
      obtain ⟨id, r⟩ := found
      obtain ⟨d, hrun, hd, heq⟩ := h.noteAlive_known hlookup now
      refine ⟨d, hrun, hd, ?_⟩
      rw [heq]
      by_cases hback : aliveStep < now.since r.peer.seen
      · rw [if_pos hback]
        exact ⟨rfl, fun hc => hc.modifyRecord fun r hr => ⟨hr.lastSuccess, hr.lastTry⟩⟩
      · rw [if_neg hback]
        exact ⟨rfl, fun hc => hc⟩

end Cache

end PeerCache
