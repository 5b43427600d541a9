import PeerCache.Proofs.Cache.Admission
import PeerCache.Proofs.Cache.Misdated

/-!
# `PeerCache.Proofs.Cache.LastSeen`: how the last-seen time of a record moves

Three operations write a last-seen time. An announcement of an unknown address sets it, a
later announcement of the address may move it, and so may a session with the peer.
`SeenMove` is the discipline that all operations obey: the time never goes back, and a
known time moves by a whole step or not at all, so that it does not tell when exactly a
session took place.

`Operation.effect_seenMove` says so of the effect on one record, and
`Reachable.seen_moves_in_steps` of the cache. An announcement also leaves a lower bound
(`Coherent.learn_seen`): what it has claimed is not forgotten by more than its penalty and
one step.
-/

set_option autoImplicit false

namespace PeerCache

namespace Record

variable {seen claim now : Timestamp} {penalty : Nat}

/-- The step of an announcement is an hour when the claim is less than a day old, and a
day otherwise. -/
theorem updateStep_eq (claim now : Timestamp) :
    updateStep claim now = if now.secs < claim.secs + 86400 then 3600 else 86400 := by
  have hiff : now.since claim < onlineWindow ↔ now.secs < claim.secs + 86400 := by
    simp only [Timestamp.since, onlineWindow, day]
    omega
  simp only [updateStep, hiff, onlineStep, staleStep, day]

/-- What a merge makes of an unknown last-seen time. -/
theorem mergeSeen_of_isZero (h : seen.isZero = true) (claim : Timestamp) (penalty : Nat)
    (now : Timestamp) : mergeSeen seen claim penalty now = claim.earlier penalty := by
  cases hclaim : claim.isZero with
  | false => simp [mergeSeen, h, hclaim]
  | true =>
      -- Neither time is known, so nothing is known afterwards.
      have hseen := (Timestamp.isZero_iff seen).mp h
      have hzero := (Timestamp.isZero_iff claim).mp hclaim
      have hsame : mergeSeen seen claim penalty now = seen := by simp [mergeSeen, hclaim]
      rw [hsame]
      ext
      simp [hseen, hzero]

/-- A merge either keeps a last-seen time or moves it forward, and it moves a known one by
more than a step. -/
theorem mergeSeen_moves (seen claim : Timestamp) (penalty : Nat) (now : Timestamp) :
    mergeSeen seen claim penalty now = seen ∨
      (seen ≤ mergeSeen seen claim penalty now ∧ (seen.isZero = false →
        seen.secs + updateStep claim now < (mergeSeen seen claim penalty now).secs)) := by
  cases hseen : seen.isZero with
  | true =>
      have hzero := (Timestamp.isZero_iff seen).mp hseen
      refine Or.inr ⟨?_, nofun⟩
      rw [Timestamp.le_def, hzero]
      exact Nat.zero_le _
  | false =>
      rcases mergeSeen_cases hseen claim penalty now with ⟨hmoves, heq⟩ | ⟨-, heq⟩
      · rw [Timestamp.lt_def, Timestamp.secs_earlier] at hmoves
        rw [heq, Timestamp.le_def, Timestamp.secs_earlier]
        exact Or.inr ⟨by omega, fun _ => by omega⟩
      · exact Or.inl heq

/-- After a merge the time claimed is not forgotten by more than its penalty and a step. -/
theorem earlier_le_mergeSeen (seen claim : Timestamp) (penalty : Nat) (now : Timestamp) :
    claim.earlier (penalty + updateStep claim now) ≤ mergeSeen seen claim penalty now := by
  have hstored : claim.earlier (penalty + updateStep claim now) ≤ claim.earlier penalty :=
    Nat.sub_le_sub_left (Nat.le_add_right _ _) _
  cases hseen : seen.isZero with
  | true =>
      rw [mergeSeen_of_isZero hseen]
      exact hstored
  | false =>
      rcases mergeSeen_cases hseen claim penalty now with ⟨-, heq⟩ | ⟨hstays, heq⟩
      · rw [heq]
        exact hstored
      · rw [heq, Nat.add_comm]
        exact Nat.le_of_not_lt hstays

end Record

namespace Cache

variable {c d : Cache} {id : RecordId} {r s t : Record} {policy : Policy} {op : Operation}

/-! ### The discipline -/

/-- By how much an operation moves a last-seen time that is known, if it may move any. A
session moves it by more than twenty minutes. An announcement moves it by more than an hour
when it claims a time that is less than a day before its own, and by more than a day
otherwise. -/
def Operation.seenStep? : Operation → Option Nat
  | .learn a _ _ now => some (if now.secs < a.seen.secs + 86400 then 3600 else 86400)
  | .noteAlive _ _ => some 1200
  | _ => none

/-- What an operation makes of the last-seen time of a record that is `r` before it and
`s` after it. -/
structure SeenMove (policy : Policy) (op : Operation) (r s : Record) : Prop where
  /-- The time never goes back. -/
  forward : r.peer.seen ≤ s.peer.seen
  /-- An operation that changes it is about the peer. -/
  concerns : s.peer.seen ≠ r.peer.seen → op.Concerns policy r
  /-- The operation is one that may change it, and if the time was known before, it has
  moved by more than the step. -/
  moves : s.peer.seen ≠ r.peer.seen → ∃ step, op.seenStep? = some step ∧
    (r.peer.seen.isZero = false → r.peer.seen.secs + step < s.peer.seen.secs)

theorem SeenMove.of_eq (h : s.peer.seen = r.peer.seen) : SeenMove policy op r s where
  forward := h ▸ Nat.le_refl _
  concerns hne := absurd h hne
  moves hne := absurd h hne

/-- The effect of each operation obeys the discipline. -/
theorem Operation.effect_seenMove (op : Operation) (policy : Policy) (r : Record) :
    SeenMove policy op r (op.effect policy r) := by
  have heffect := op.effect_cases policy r
  generalize op.effect policy r = s at heffect ⊢
  cases heffect with
  | none | unmoved | reached | attempted => exact .of_eq rfl
  | @merged a source penalty now hadmits hip =>
      rcases Record.mergeSeen_moves r.peer.seen a.seen penalty now with heq | ⟨hforward, hmoves⟩
      · exact .of_eq heq
      · rw [Record.updateStep_eq] at hmoves
        exact ⟨hforward, fun _ => ⟨hadmits, hip⟩, fun _ => ⟨_, rfl, hmoves⟩⟩
  | @alive e now he hstep =>
      have hlater : r.peer.seen.secs + 1200 < now.secs := by
        simp only [aliveStep, Timestamp.since] at hstep
        omega
      exact ⟨Nat.le_of_lt (Nat.lt_of_add_right_lt hlater), fun _ => he,
        fun _ => ⟨_, rfl, fun _ => hlater⟩⟩

/-- The discipline does not look at the place of the record in the cache. -/
theorem SeenMove.of_sameHistory (h : SeenMove policy op r s) (hst : s.SameHistory t) :
    SeenMove policy op r t := by
  have hseen : t.peer.seen = s.peer.seen := by rw [hst]
  obtain ⟨hforward, hconcerns, hmoves⟩ := h
  exact ⟨hseen ▸ hforward, hseen ▸ hconcerns, hseen ▸ hmoves⟩

variable {σ : Type} [RandomSource σ] {w : Type} [Weight w]

/-- Every record that an operation keeps obeys the discipline. -/
theorem Operation.ensures_seenMove (h : Coherent ∅ ∅ c) (op : Operation) (hop : op.IsLive) :
    (op.perform w c : Draw σ Cache).Ensures fun d => ∀ (id : RecordId) (r s : Record),
      c.records[id]? = some r → d.records[id]? = some s → SeenMove c.policy op r s :=
  (op.ensures_origin h hop).mono fun _ hd id r s hr hs =>
    (op.effect_seenMove c.policy r).of_sameHistory ((hd id s hs).sameHistory hr)

/-- The last-seen time of a record never goes back while the record is stored. -/
theorem Stays.seen_le {allowed : Operation → Prop} {ops : List Operation}
    (h : Stays allowed id c r ops d s) (hc : Coherent ∅ ∅ c)
    (hlive : ∀ op, allowed op → op.IsLive) : r.peer.seen ≤ s.peer.seen :=
  h.keeps hc hlive (P := fun _ m => r.peer.seen ≤ m.peer.seen) (Nat.le_refl _)
    fun _ op m _ _ hm hsame =>
      Nat.le_trans hm ((op.effect_seenMove c.policy m).of_sameHistory hsame).forward

/-! ### Announcements -/

/-- An announcement of an address that the policy admits leaves a lower bound on the
last-seen time of its record, whether it adds the record or not. -/
theorem Coherent.learn_seen (h : Coherent ∅ ∅ c)
    (hadmitted : Every (fun r => c.policy.admits r.ip = true) c) (a : Announcement) (source : Ip)
    (penalty : Nat) (now : Timestamp) :
    ((Operation.learn a source penalty now).perform w c : Draw σ Cache).Ensures fun d =>
      ∀ (id : RecordId) (s : Record), d.records[id]? = some s → s.ip = a.canonical.ip →
        a.seen.earlier (penalty + Record.updateStep a.seen now) ≤ s.peer.seen := by
  refine (Operation.ensures_origin h (.learn a source penalty now) trivial).mono
    fun d horigin id s hs hip => ?_
  cases horigin id s hs with
  | @kept r hr hsame =>
      obtain ⟨-, hsip, -⟩ := Operation.kind_of_sameHistory hsame
      have hrip : r.ip = a.canonical.ip := hsip.symm.trans hip
      -- What is stored has been admitted, so the announcement was not ignored.
      have hconcerns : c.policy.admits a.canonical.ip = true ∧ r.ip = a.canonical.ip :=
        ⟨hrip ▸ hadmitted id r hr, hrip⟩
      rw [Operation.effect, if_pos hconcerns] at hsame
      rw [hsame]
      exact Record.earlier_le_mergeSeen r.peer.seen a.seen penalty now
  | added hop _ hsame =>
      cases hop
      rw [hsame]
      exact Nat.sub_le_sub_left (Nat.le_add_right _ _) _

/-! ### Caches that are not loaded -/

/-- In a cache that operations other than loads lead to, from an empty one, a last-seen
time never goes back while the record is stored, whatever the addresses, the times and the
claims. Each operation obeys `SeenMove`, and an announcement leaves the time that it has
claimed, less its penalty and its step. -/
theorem Reachable.seen_moves_in_steps (h : Reachable Operation.IsLive c) :
    (∀ (id : RecordId) (r : Record) (ops : List Operation) (d : Cache) (s : Record),
      Stays Operation.IsLive id c r ops d s → r.peer.seen ≤ s.peer.seen) ∧
    (∀ op : Operation, op.IsLive → (op.perform w c : Draw σ Cache).Ensures fun d =>
      ∀ (id : RecordId) (r s : Record), c.records[id]? = some r → d.records[id]? = some s →
        SeenMove c.policy op r s) ∧
    ∀ (a : Announcement) (source : Ip) (penalty : Nat) (now : Timestamp),
      ((Operation.learn a source penalty now).perform w c : Draw σ Cache).Ensures fun d =>
        ∀ (id : RecordId) (s : Record), d.records[id]? = some s → s.ip = a.canonical.ip →
          a.seen.earlier (penalty + if now.secs < a.seen.secs + 86400 then 3600 else 86400)
            ≤ s.peer.seen := by
  refine ⟨fun id r ops d s hstays => hstays.seen_le h.coherent fun _ hop => hop,
    fun op => op.ensures_seenMove h.coherent, fun a source penalty now => ?_⟩
  rw [← Record.updateStep_eq]
  exact h.coherent.learn_seen h.admitted a source penalty now

/-- For instance, a session is noted twenty minutes and one second after the time that was
announced. -/
theorem session_moves_seen : ∃ (c d : Cache) (s : SplitMix) (r t : Record),
    (Operation.learn (.ofEndpoint (.ofIp (.v4 ⟨8, 8, 8, 8⟩) 8333) (.ofSecs 1700000000))
      (.v4 ⟨9, 9, 9, 9⟩) 0 (.ofSecs 1700000000)).perform Rat (ofKey .standard default) ⟨[], 0⟩
        = .ok (c, s) ∧
    (Operation.noteAlive (.ofIp (.v4 ⟨8, 8, 8, 8⟩) 8333) (.ofSecs 1700001201)).perform Rat c s
        = .ok (d, s) ∧
    c.records[(⟨0⟩ : RecordId)]? = some r ∧ d.records[(⟨0⟩ : RecordId)]? = some t ∧
    t.peer.seen = .ofSecs 1700001201 ∧
    SeenMove c.policy (.noteAlive (.ofIp (.v4 ⟨8, 8, 8, 8⟩) 8333) (.ofSecs 1700001201)) r t := by
  have hempty : Reachable Operation.IsLive (ofKey .standard default) := .ofKey .standard default
  have hlive : (Operation.learn (.ofEndpoint (.ofIp (.v4 ⟨8, 8, 8, 8⟩) 8333) (.ofSecs 1700000000))
      (.v4 ⟨9, 9, 9, 9⟩) 0 (.ofSecs 1700000000)).IsLive := trivial
  obtain ⟨c, s, hrun, hc, hr⟩ :=
    hempty.exists_learn_first Rat (.ofEndpoint (.ofIp (.v4 ⟨8, 8, 8, 8⟩) 8333) (.ofSecs 1700000000))
      (.v4 ⟨9, 9, 9, 9⟩) 0 (.ofSecs 1700000000) hlive (by decide) (⟨[], 0⟩ : SplitMix)
  obtain ⟨d, halive, hd⟩ := hc.coherent.noteAlive_rewritten (.ofIp (.v4 ⟨8, 8, 8, 8⟩) 8333)
    (.ofSecs 1700001201)
  have hperform : (Operation.noteAlive (.ofIp (.v4 ⟨8, 8, 8, 8⟩) 8333)
      (.ofSecs 1700001201)).perform Rat c s = .ok (d, s) := Draw.run_lift halive s
  have ht := hd.record ⟨0⟩
  rw [hr, Option.map_some] at ht
  have hmove := (@Reachable.seen_moves_in_steps c SplitMix _ Rat _ hc).2.1
    (.noteAlive (.ofIp (.v4 ⟨8, 8, 8, 8⟩) 8333) (.ofSecs 1700001201)) trivial
  exact ⟨c, d, s, _, _, hrun, hperform, hr, ht, by decide, hmove.of_run hperform ⟨0⟩ _ _ hr ht⟩

end Cache

end PeerCache
