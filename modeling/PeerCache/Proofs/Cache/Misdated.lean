import PeerCache.Proofs.Cache.Displacement
import PeerCache.Proofs.Cache.History

/-!
# `PeerCache.Proofs.Cache.Misdated`: what a claimed time does to a healthy record

The last-seen time of a record is gossip. An announcement moves it forward only, and
only when it claims a time that is a whole step later. So a record that is healthy does
not get older by it, and no announcement makes it fail the rule on its age.

It can fail the rule on its drift. Nothing bounds a claimed time from above when it is
merged, so a claim that lies too far ahead of the clock is stored, and the record is
terrible. `Record.Misled` says when this happens, and `Reachable.learn_keeps_healthy`
that it is the only way in which an announcement turns a healthy record into a terrible
one. A later claim that is not too far ahead does not undo it
(`Record.isTerrible_merge_of_ahead`).
-/

set_option autoImplicit false

namespace PeerCache

/-- A time that is later than another one is known. -/
theorem Timestamp.isZero_eq_false_of_lt {a b : Timestamp} (h : a < b) : b.isZero = false := by
  rw [Timestamp.lt_def] at h
  simp only [Timestamp.isZero, beq_eq_false_iff_ne]
  omega

namespace Record

variable {r s : Record} {claim now : Timestamp} {penalty : Nat}

/-! ### The judgement of one record -/

theorem isTerrible_of_isSpared (h : r.isSpared now = true) : r.isTerrible now = false := by
  rw [isTerrible, if_pos h]

/-- The rules that a record passes when it is judged and not found terrible. -/
structure Passes (r : Record) (now : Timestamp) : Prop where
  drift : ¬ now.later maxDrift < r.peer.seen
  seen : r.peer.seen.isZero = false
  age : now.since r.peer.seen ≤ horizon
  retries : ¬ (r.lastSuccess = none ∧ retries ≤ r.attempts.toNat)
  failures : ¬ (failureWindow < now.since (r.lastSuccess.getD .zero) ∧
    maxFailures ≤ r.attempts.toNat)

theorem isTerrible_eq_false_iff (hjudged : r.isSpared now = false) :
    r.isTerrible now = false ↔ r.Passes now := by
  have hiff : r.isTerrible now = false ↔
      ¬ now.later maxDrift < r.peer.seen ∧ r.peer.seen.isZero = false ∧
      now.since r.peer.seen ≤ horizon ∧
      ¬ (r.lastSuccess = none ∧ Record.retries ≤ r.attempts.toNat) ∧
      ¬ (failureWindow < now.since (r.lastSuccess.getD .zero) ∧
        maxFailures ≤ r.attempts.toNat) := by
    simp [isTerrible, hjudged, and_assoc]
  rw [hiff]
  exact ⟨fun ⟨hdrift, hseen, hage, hretries, hfailures⟩ =>
      ⟨hdrift, hseen, hage, hretries, hfailures⟩,
    fun h => ⟨h.drift, h.seen, h.age, h.retries, h.failures⟩⟩

/-! ### The merge of a claim -/

/-- The claim that `penalty` seconds are taken off of moves the last-seen time of the
record so far ahead that the record is terrible. -/
structure Misled (r : Record) (claim : Timestamp) (penalty : Nat) (now : Timestamp) : Prop where
  /-- The record was not tried just now. -/
  judged : r.isSpared now = false
  /-- The time that would be stored is too far ahead. -/
  ahead : now.later maxDrift < claim.earlier penalty
  /-- It is stored, as it is more than a step later than the known one. -/
  moves : r.peer.seen < claim.earlier (onlineStep + penalty)

/-- A claim of a time to come counts as online. -/
theorem updateStep_of_ahead (h : now.later maxDrift < claim.earlier penalty) :
    updateStep claim now = onlineStep := by
  have hlater : now.secs < claim.secs := by
    have hcap := claim.secs_le
    simp only [Timestamp.lt_def, Timestamp.secs_later, Timestamp.secs_earlier] at h
    omega
  have hage : now.since claim = 0 := Nat.sub_eq_zero_of_le hlater.le
  rw [updateStep, hage]
  rfl

/-- A merge keeps the last-seen time of a record that has one, or moves it forward to
the time claimed. -/
theorem mergeSeen_cases {seen : Timestamp} (hseen : seen.isZero = false) (claim : Timestamp)
    (penalty : Nat) (now : Timestamp) :
    (seen < claim.earlier (updateStep claim now + penalty) ∧
      mergeSeen seen claim penalty now = claim.earlier penalty) ∨
    (¬ seen < claim.earlier (updateStep claim now + penalty) ∧
      mergeSeen seen claim penalty now = seen) := by
  by_cases hmoves : seen < claim.earlier (updateStep claim now + penalty)
  · have hlater : seen < claim := by
      rw [Timestamp.lt_def, Timestamp.secs_earlier] at hmoves
      rw [Timestamp.lt_def]
      omega
    have hclaim : claim.isZero = false := Timestamp.isZero_eq_false_of_lt hlater
    exact Or.inl ⟨hmoves, by simp [mergeSeen, hclaim, hmoves]⟩
  · exact Or.inr ⟨hmoves, by simp [mergeSeen, hseen, hmoves]⟩

/-- The judgement reads nothing else of what a merge changes. -/
theorem isTerrible_merge_of_seen {a : Announcement}
    (h : mergeSeen r.peer.seen a.seen penalty now = r.peer.seen) :
    (r.merge a penalty now).isTerrible now = r.isTerrible now := by
  simp only [isTerrible, merge, h]
  rfl

/-- A record that passes the rules and is moved forward keeps all of them but the one on
its drift, which reads the time that is stored. -/
theorem isTerrible_merge_of_moves {a : Announcement} (hjudged : r.isSpared now = false)
    (hpasses : r.Passes now) (hforward : r.peer.seen < a.seen.earlier penalty)
    (heq : mergeSeen r.peer.seen a.seen penalty now = a.seen.earlier penalty) :
    (r.merge a penalty now).isTerrible now = true ↔
      now.later maxDrift < a.seen.earlier penalty := by
  have hjudged' : (r.merge a penalty now).isSpared now = false := hjudged
  have hdrift : (r.merge a penalty now).isTerrible now = false ↔
      ¬ now.later maxDrift < a.seen.earlier penalty := by
    rw [isTerrible_eq_false_iff hjudged', ← heq]
    refine ⟨fun h => h.drift, fun h => ⟨h, ?_, ?_, hpasses.retries, hpasses.failures⟩⟩
    · show (mergeSeen r.peer.seen a.seen penalty now).isZero = false
      rw [heq]
      exact Timestamp.isZero_eq_false_of_lt hforward
    · -- A time that lies later is not older.
      show now.since (mergeSeen r.peer.seen a.seen penalty now) ≤ horizon
      rw [heq]
      exact (Nat.sub_le_sub_left (Nat.le_of_lt hforward) now.secs).trans hpasses.age
  rw [← Bool.not_eq_false, hdrift, not_not]

/-- A healthy record is terrible after a merge exactly when the claim misleads it. -/
theorem isTerrible_merge_iff (hhealthy : r.isTerrible now = false) (a : Announcement)
    (penalty : Nat) :
    (r.merge a penalty now).isTerrible now = true ↔ r.Misled a.seen penalty now := by
  by_cases hspared : r.isSpared now = true
  · -- A merge does not touch the last try, so the record is spared as before.
    have hmerged : (r.merge a penalty now).isTerrible now = false :=
      isTerrible_of_isSpared hspared
    rw [hmerged]
    refine iff_of_false Bool.false_ne_true fun hmisled => ?_
    rw [hmisled.judged] at hspared
    cases hspared
  · have hjudged : r.isSpared now = false := Bool.not_eq_true _ ▸ hspared
    have hpasses := (isTerrible_eq_false_iff hjudged).mp hhealthy
    rcases mergeSeen_cases hpasses.seen a.seen penalty now with ⟨hmoves, heq⟩ | ⟨hstays, heq⟩
    · have hforward : r.peer.seen < a.seen.earlier penalty := by
        simp only [Timestamp.lt_def, Timestamp.secs_earlier] at hmoves ⊢
        omega
      rw [isTerrible_merge_of_moves hjudged hpasses hforward heq]
      refine ⟨fun hahead => ⟨hjudged, hahead, ?_⟩, fun hmisled => hmisled.ahead⟩
      rw [updateStep_of_ahead hahead] at hmoves
      exact hmoves
    · -- The record is as it was, and a claim that misleads it would have moved it.
      rw [isTerrible_merge_of_seen heq, hhealthy]
      refine iff_of_false Bool.false_ne_true fun hmisled => hstays ?_
      rw [updateStep_of_ahead hmisled.ahead]
      exact hmisled.moves

/-- A record that is too far ahead is not put right by a claim that is not. -/
theorem isTerrible_merge_of_ahead {a : Announcement} (hahead : now.later maxDrift < r.peer.seen)
    (hclaim : ¬ now.later maxDrift < a.seen.earlier penalty) :
    (r.merge a penalty now).isTerrible now = r.isTerrible now := by
  have hseen := Timestamp.isZero_eq_false_of_lt hahead
  rcases mergeSeen_cases hseen a.seen penalty now with ⟨hmoves, -⟩ | ⟨-, heq⟩
  · -- The claim would have to be later than a time that is too far ahead.
    simp only [Timestamp.lt_def, Timestamp.secs_earlier] at hahead hclaim hmoves
    omega
  · exact isTerrible_merge_of_seen heq

end Record

namespace Cache

variable {c : Cache} {allowed : Operation → Prop} {σ : Type} [RandomSource σ]

/-! ### The announcement -/

/-- A healthy record is stored after an announcement. It is terrible then exactly when
the announcement is admitted, is about its address, and misleads it. -/
theorem Coherent.learn_healthy (h : Coherent ∅ ∅ c) (a : Announcement) (source : Ip)
    (penalty : Nat) (now : Timestamp) :
    (c.learn a source penalty now : Draw σ (Bool × Cache)).Ensures fun x =>
      ∀ (id : RecordId) (r : Record), c.records[id]? = some r → r.isTerrible now = false →
        ∃ t : Record, x.2.records[id]? = some t ∧ (t.isTerrible now = true ↔
          (c.policy.admits a.canonical.ip = true ∧ r.ip = a.canonical.ip) ∧
            r.Misled a.seen penalty now) := by
  refine (h.learn_origin a source penalty now).mono fun x hx id r hr hhealthy => ?_
  obtain ⟨hlearnt, horigin⟩ := hx
  cases ht : x.2.records[id]? with
  | none =>
      obtain ⟨-, -, hterrible⟩ := (hlearnt.spared h).removed id r hr ht
      rw [hhealthy] at hterrible
      cases hterrible
  | some t =>
      refine ⟨t, rfl, ?_⟩
      rw [((horigin id t ht).sameHistory hr).isTerrible, Operation.effect]
      by_cases habout : c.policy.admits a.canonical.ip = true ∧ r.ip = a.canonical.ip
      · rw [if_pos habout, Record.isTerrible_merge_iff hhealthy]
        exact (and_iff_right habout).symm
      · rw [if_neg habout, hhealthy]
        exact iff_of_false Bool.false_ne_true fun hboth => habout hboth.1

/-- Whatever an announcement claims, every healthy record is stored afterwards, and it
is healthy still, except in one case. The announcement is admitted, it is about the
address of the record, and it misleads the record about when it was last seen. In that
case the record is terrible. -/
theorem Reachable.learn_keeps_healthy (h : Reachable allowed c) (a : Announcement) (source : Ip)
    (penalty : Nat) (now : Timestamp) (s : σ) :
    ∃ (counts : Bool) (d : Cache) (s' : σ),
      c.learn a source penalty now s = .ok ((counts, d), s') ∧
      ∀ (id : RecordId) (r : Record), c.records[id]? = some r → r.isTerrible now = false →
        ∃ t : Record, d.records[id]? = some t ∧ (t.isTerrible now = true ↔
          (c.policy.admits a.canonical.ip = true ∧ r.ip = a.canonical.ip) ∧
            r.Misled a.seen penalty now) := by
  obtain ⟨⟨counts, d⟩, s', hrun, hkeeps⟩ := h.coherent.learn_healthy a source penalty now s
  exact ⟨counts, d, s', hrun, hkeeps⟩

/-- For instance, an endpoint is announced again with a time ten minutes ahead. That is
as far as a claim may go. -/
theorem learn_again_ahead_healthy : ∃ (c : Cache) (s : SplitMix),
    (Operation.learn (.ofEndpoint (.ofIp (.v4 ⟨8, 8, 8, 8⟩) 8333) (.ofSecs 1700000000))
      (.v4 ⟨9, 9, 9, 9⟩) 0 (.ofSecs 1700000000)).perform Rat (ofKey .standard default) ⟨[], 0⟩
        = .ok (c, s) ∧
    ∃ (counts : Bool) (d : Cache) (s' : SplitMix) (t : Record),
      c.learn (.ofEndpoint (.ofIp (.v4 ⟨8, 8, 8, 8⟩) 8333) (.ofSecs 1700000600))
        (.v4 ⟨9, 9, 9, 9⟩) 0 (.ofSecs 1700000000) s = .ok ((counts, d), s') ∧
      d.records[(⟨0⟩ : RecordId)]? = some t ∧ t.isTerrible (.ofSecs 1700000000) = false := by
  have hempty : Reachable (fun _ => True) (ofKey .standard default) := .ofKey .standard default
  obtain ⟨c, s, hrun, hc, hr⟩ :=
    hempty.exists_learn_first Rat (.ofEndpoint (.ofIp (.v4 ⟨8, 8, 8, 8⟩) 8333) (.ofSecs 1700000000))
      (.v4 ⟨9, 9, 9, 9⟩) 0 (.ofSecs 1700000000) trivial (by decide) (⟨[], 0⟩ : SplitMix)
  obtain ⟨counts, d, s', hlearn, hkeeps⟩ :=
    hc.learn_keeps_healthy (.ofEndpoint (.ofIp (.v4 ⟨8, 8, 8, 8⟩) 8333) (.ofSecs 1700000600))
      (.v4 ⟨9, 9, 9, 9⟩) 0 (.ofSecs 1700000000) s
  obtain ⟨t, ht, hiff⟩ := hkeeps ⟨0⟩ _ hr (by decide)
  refine ⟨c, s, hrun, counts, d, s', t, hlearn, ht, ?_⟩
  rw [← Bool.not_eq_true, hiff]
  rintro ⟨-, hmisled⟩
  exact absurd hmisled.ahead (by decide)

/-- A claim of the following day makes a record terrible that was healthy. -/
theorem learn_next_day_terrible : ∃ (c : Cache) (s : SplitMix),
    (Operation.learn (.ofEndpoint (.ofIp (.v4 ⟨8, 8, 8, 8⟩) 8333) (.ofSecs 1700000000))
      (.v4 ⟨9, 9, 9, 9⟩) 0 (.ofSecs 1700000000)).perform Rat (ofKey .standard default) ⟨[], 0⟩
        = .ok (c, s) ∧
    ∃ (counts : Bool) (d : Cache) (s' : SplitMix) (r t : Record),
      c.learn (.ofEndpoint (.ofIp (.v4 ⟨8, 8, 8, 8⟩) 8333) (.ofSecs 1700086400))
        (.v4 ⟨9, 9, 9, 9⟩) 0 (.ofSecs 1700000000) s = .ok ((counts, d), s') ∧
      c.records[(⟨0⟩ : RecordId)]? = some r ∧ r.isTerrible (.ofSecs 1700000000) = false ∧
      d.records[(⟨0⟩ : RecordId)]? = some t ∧ t.isTerrible (.ofSecs 1700000000) = true := by
  have hempty : Reachable (fun _ => True) (ofKey .standard default) := .ofKey .standard default
  obtain ⟨c, s, hrun, hc, hr⟩ :=
    hempty.exists_learn_first Rat (.ofEndpoint (.ofIp (.v4 ⟨8, 8, 8, 8⟩) 8333) (.ofSecs 1700000000))
      (.v4 ⟨9, 9, 9, 9⟩) 0 (.ofSecs 1700000000) trivial (by decide) (⟨[], 0⟩ : SplitMix)
  obtain ⟨⟨counts, d⟩, s', hlearn, hkeeps⟩ := hc.coherent.learn_healthy
    (.ofEndpoint (.ofIp (.v4 ⟨8, 8, 8, 8⟩) 8333) (.ofSecs 1700086400)) (.v4 ⟨9, 9, 9, 9⟩) 0
    (.ofSecs 1700000000) s
  obtain ⟨t, ht, hiff⟩ := hkeeps ⟨0⟩ _ hr (by decide)
  have hroute : Ip.isRoutable (.v4 ⟨8, 8, 8, 8⟩) = true := by decide
  refine ⟨c, s, hrun, counts, d, s', _, t, hlearn, hr, by decide, ht, hiff.mpr ⟨⟨?_, rfl⟩, ?_⟩⟩
  · exact Bool.or_eq_true_iff.mpr (Or.inr hroute)
  · exact ⟨by decide, by decide, by decide⟩

end Cache

end PeerCache
