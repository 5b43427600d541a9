import PeerCache.Proofs.Cache.Runs

/-!
# `PeerCache.Proofs.Cache.Confirmed`: what reaching an endpoint changes

`Reachable.confirm_outcome` says what a confirmation returns and what the cache is
afterwards, in each of its three cases. The record is promoted whenever it is known
and new. The branch that finds no slot of it is never taken, since a record of a
reachable cache holds a slot.

The history of the record is written before it is moved. The frame of `Promoted` is
relative to the cache in between, and `Promoted.of_modifyRecord` puts it in terms of
the cache before.
-/

set_option autoImplicit false

namespace PeerCache

namespace Cache

variable {c d : Cache} {id : RecordId} {r : Record}

theorem Keeps.of_modifyRecord {f : Record → Record} {j : RecordId} (hj : j ≠ id)
    (h : Keeps (c.modifyRecord id f) d j) : Keeps c d j where
  record := by
    rw [h.record, getElem?_modifyRecord_of_ne _ _ _ hj]
  newSlots := h.newSlots

/-- A change of the promoted record itself makes no difference to the others. -/
theorem Promoted.of_modifyRecord {f : Record → Record} {evicted : Option Endpoint}
    (h : Promoted id r evicted (c.modifyRecord id f) d) : Promoted id r evicted c d where
  policy := h.policy
  key := h.key
  record := h.record
  newSlots := h.newSlots
  triedTable := h.triedTable
  vacant hfree := by
    obtain ⟨hnone, hkept⟩ := h.vacant hfree
    exact ⟨hnone, fun j hj => (hkept j hj).of_modifyRecord hj⟩
  taken other hother := by
    obtain ⟨s, hs, hevicted, hrest⟩ := h.taken other hother
    rw [getElem?_modifyRecord_of_ne _ _ _ hrest.ne] at hs
    refine ⟨s, hs, hevicted, hrest.ne, hrest.record, hrest.newSlots, fun j t hj hmem ht => ?_,
      fun j hj hj' hnotin => (hrest.others j hj hj' hnotin).of_modifyRecord hj⟩
    have ht' : (c.modifyRecord id f).records[j]? = some t := by
      rw [getElem?_modifyRecord_of_ne _ _ _ hj, ht]
    exact hrest.holder j t hj hmem ht'

variable {allowed : Operation → Prop} {σ : Type} [RandomSource σ]

/-- What reaching an endpoint leads to, whatever is drawn. Where no record has the
endpoint, nothing changes. A tried record gets a new history and keeps the rest. A
new record is promoted: `Promoted` says what becomes of it, of the record it evicts,
and of all others. -/
theorem Reachable.confirm_outcome (h : Reachable allowed c) (e : Endpoint) (now : Timestamp)
    (s : σ) :
    ((∀ (id : RecordId) (r : Record), c.records[id]? = some r → r.endpoint ≠ e.canonical) →
      c.confirm e now s = .ok ((.unknown, c), s)) ∧
    ∀ (id : RecordId) (r : Record), c.records[id]? = some r → r.endpoint = e.canonical →
      (r.inTried = true → c.confirm e now s
        = .ok ((.refreshed, c.modifyRecord id fun r => r.reached now), s)) ∧
      (r.inTried = false → ∃ (evicted : Option Endpoint) (d : Cache) (s' : σ),
        c.confirm e now s = .ok ((.promoted evicted, d), s') ∧
          Promoted id (r.reached now) evicted c d) := by
  have hcoherent := h.coherent
  constructor
  · intro hunknown
    exact hcoherent.confirm_unknown (hcoherent.lookup_eq_none_iff.mpr hunknown) now s
  · intro id r hr he
    have hlookup := hcoherent.lookup_eq_some_iff.mpr ⟨hr, he⟩
    constructor
    · intro htried
      exact hcoherent.confirm_tried hlookup htried now s
    · intro hnew
      obtain ⟨evicted, d, hrun, -, -, hpromoted⟩ := hcoherent.confirm_new hlookup hnew now s
      exact ⟨evicted, d, _, hrun, hpromoted.of_modifyRecord⟩

/-- For instance, an empty cache knows no endpoint. Once it has learnt of one, the
record is promoted when the endpoint is reached, and nobody is evicted. -/
theorem confirm_after_learn : ∃ (c : Cache) (s : SplitMix) (r : Record),
    (ofKey .standard default).confirm (.ofIp (.v4 ⟨8, 8, 8, 8⟩) 8333) (.ofSecs 1700000000)
      (⟨[], 0⟩ : SplitMix) = .ok ((.unknown, ofKey .standard default), ⟨[], 0⟩) ∧
    (Operation.learn (.ofEndpoint (.ofIp (.v4 ⟨8, 8, 8, 8⟩) 8333) (.ofSecs 1700000000))
      (.v4 ⟨9, 9, 9, 9⟩) 0 (.ofSecs 1700000000)).perform Rat (ofKey .standard default) ⟨[], 0⟩
        = .ok (c, s) ∧
    c.records[(⟨0⟩ : RecordId)]? = some r ∧
    ∃ (evicted : Option Endpoint) (d : Cache) (s' : SplitMix),
      c.confirm (.ofIp (.v4 ⟨8, 8, 8, 8⟩) 8333) (.ofSecs 1700000000) s
        = .ok ((.promoted evicted, d), s') ∧
      Promoted ⟨0⟩ (r.reached (.ofSecs 1700000000)) evicted c d := by
  have hempty : Reachable (fun _ => True) (ofKey .standard default) := .ofKey .standard default
  obtain ⟨c, s, hrun, hc, hr⟩ :=
    hempty.exists_learn_first Rat (.ofEndpoint (.ofIp (.v4 ⟨8, 8, 8, 8⟩) 8333) (.ofSecs 1700000000))
      (.v4 ⟨9, 9, 9, 9⟩) 0 (.ofSecs 1700000000) trivial (by decide) (⟨[], 0⟩ : SplitMix)
  refine ⟨c, s, _, (hempty.confirm_outcome _ _ _).1 ?_, hrun, hr, ?_⟩
  · intro id r hr
    simp [ofKey] at hr
  · exact ((hc.confirm_outcome (.ofIp (.v4 ⟨8, 8, 8, 8⟩) 8333) (.ofSecs 1700000000) s).2
      ⟨0⟩ _ hr rfl).2 rfl

end Cache

end PeerCache
