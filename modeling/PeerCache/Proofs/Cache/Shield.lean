import PeerCache.Proofs.Cache.LastSeen

/-!
# `PeerCache.Proofs.Cache.Shield`: how long a success protects a peer

A peer that was reached, and whose session was noted, is not terrible for a week after. Its
record may fail any number of attempts, be announced again and be evicted meanwhile. Three
things are needed. When the session has been noted, the last-seen time must be known and not
too far ahead. From then on time must not run backwards, and no announcement may claim a
time too far ahead of its own, since that makes a healthy record terrible (`Record.Misled`).

`Shielded` is the invariant that carries this. It bounds the last-seen time and the last
success from below by the time of the success, and the last-seen time from above by the
time of the latest operation. `Shielded.step` keeps it and `Shielded.isTerrible` draws the
conclusion. `Reachable.success_shields` puts both together.
-/

set_option autoImplicit false

namespace PeerCache

/-- A merge keeps the last-seen time or stores the time that is claimed. -/
theorem Record.mergeSeen_eq_or (seen claim : Timestamp) (penalty : Nat) (now : Timestamp) :
    mergeSeen seen claim penalty now = seen ∨
      mergeSeen seen claim penalty now = claim.earlier penalty := by
  rw [mergeSeen]
  split
  · exact Or.inr rfl
  · exact Or.inl rfl

namespace Cache

variable {c d : Cache} {id : RecordId} {r s : Record} {e : Endpoint} {policy : Policy}
  {op : Operation} {ops : List Operation} {t last now : Timestamp}

/-! ### Operations in time -/

/-- When the operation takes place. A clearing and a load do not say. -/
def Operation.time? : Operation → Option Timestamp
  | .learn _ _ _ now | .confirm _ now | .noteAttempt _ now | .noteAlive _ now | .choose now
  | .sample now => some now
  | .clear | .load _ _ => none

/-- The operation does not claim a time that lies more than ten minutes ahead of its own,
and is not a load. -/
def Operation.IsTimely : Operation → Prop
  | .learn a _ _ now => a.seen.secs ≤ now.secs + 600
  | .load _ _ => False
  | _ => True

theorem Operation.IsTimely.isLive (h : op.IsTimely) : op.IsLive := by
  cases op with
  | load => exact h
  | learn | confirm | noteAttempt | noteAlive | choose | sample | clear => trivial

/-- The operations, of which the latest comes first, take place from `t` on. None is earlier
than the one before it, and the latest takes place at `last`. -/
inductive InOrder (t : Timestamp) : List Operation → Timestamp → Prop where
  | nil : InOrder t [] t
  | cons {last now : Timestamp} {op : Operation} {ops : List Operation} (h : InOrder t ops last)
      (htime : op.time? = some now) (hle : last ≤ now) : InOrder t (op :: ops) now

/-! ### The invariant -/

/-- What the success at `t` leaves in the record of a peer, up to the time `last` of the
latest operation. -/
structure Shielded (t last : Timestamp) (r : Record) : Prop where
  order : t ≤ last
  known : r.peer.seen.isZero = false
  /-- The last-seen time is not too far ahead. -/
  ahead : r.peer.seen.secs ≤ last.secs + 600
  /-- It is not older than the step in which sessions move it. -/
  recent : t.secs ≤ r.peer.seen.secs + 1200
  /-- The last success is this one or a later one. -/
  success : ∃ success : Timestamp, r.lastSuccess = some success ∧ t ≤ success

/-- The latest operation brings the last-seen time no further ahead than ten minutes. -/
theorem Operation.effect_seen_le (hop : op.IsTimely) (htime : op.time? = some now)
    (hahead : r.peer.seen.secs ≤ now.secs + 600) :
    (op.effect policy r).peer.seen.secs ≤ now.secs + 600 := by
  have heffect := op.effect_cases policy r
  generalize op.effect policy r = s at heffect ⊢
  cases heffect with
  | none | unmoved | reached | attempted => exact hahead
  | @merged a source penalty now' =>
      cases htime
      rcases Record.mergeSeen_eq_or r.peer.seen a.seen penalty now with heq | heq
      · exact (congrArg Timestamp.secs heq).trans_le hahead
      · have hclaim : (a.seen.earlier penalty).secs ≤ now.secs + 600 := (Nat.sub_le _ _).trans hop
        exact (congrArg Timestamp.secs heq).trans_le hclaim
  | alive =>
      cases htime
      exact Nat.le_add_right now.secs 600

/-- An operation keeps the last success of a record, or the last success is now. -/
theorem Operation.effect_lastSuccess (policy : Policy) (r : Record)
    (htime : op.time? = some now) : (op.effect policy r).lastSuccess = r.lastSuccess ∨
      (op.effect policy r).lastSuccess = some now := by
  have heffect := op.effect_cases policy r
  generalize op.effect policy r = s at heffect ⊢
  cases heffect with
  | none | unmoved | merged | attempted | alive => exact Or.inl rfl
  | reached => exact Or.inr htime

namespace Shielded

/-- The invariant does not look at the place of the record in the cache. -/
theorem of_sameHistory (h : Shielded t last r) (hrs : r.SameHistory s) : Shielded t last s := by
  rw [hrs]
  exact ⟨h.order, h.known, h.ahead, h.recent, h.success⟩

/-- An operation that is not earlier than the latest one keeps the invariant. -/
theorem step (h : Shielded t last r) (hop : op.IsTimely) (htime : op.time? = some now)
    (hle : last ≤ now) (policy : Policy) : Shielded t now (op.effect policy r) := by
  have hforward := (op.effect_seenMove policy r).forward
  have horder : t ≤ now := Nat.le_trans h.order hle
  rw [Timestamp.le_def] at hforward hle
  refine ⟨horder, ?_, ?_, ?_, ?_⟩
  · have hknown := h.known
    simp only [Timestamp.isZero, beq_eq_false_iff_ne] at hknown ⊢
    omega
  · have hahead := h.ahead
    exact Operation.effect_seen_le hop htime (by omega)
  · have hrecent := h.recent
    omega
  · rcases Operation.effect_lastSuccess policy r htime with heq | heq
    · rw [heq]
      exact h.success
    · exact ⟨now, heq, horder⟩

/-- For a week after the success the record is not terrible. -/
theorem isTerrible (h : Shielded t last r) {u : Timestamp} (hlast : last ≤ u)
    (hu : u.secs ≤ t.secs + 604800) : r.isTerrible u = false := by
  cases hspared : r.isSpared u with
  | true => exact Record.isTerrible_of_isSpared hspared
  | false =>
      rw [Record.isTerrible_eq_false_iff hspared]
      obtain ⟨success, hsuccess, hlater⟩ := h.success
      have hahead := h.ahead
      have hrecent := h.recent
      have hcap := r.peer.seen.secs_le
      rw [Timestamp.le_def] at hlast hlater
      refine ⟨?_, h.known, ?_, ?_, ?_⟩
      · simp only [Timestamp.lt_def, Timestamp.secs_later, Record.maxDrift]
        omega
      · simp only [Timestamp.since, Record.horizon, Record.day]
        omega
      · rintro ⟨hnever, -⟩
        rw [hsuccess] at hnever
        cases hnever
      · rintro ⟨hlong, -⟩
        rw [hsuccess] at hlong
        simp only [Option.getD_some, Timestamp.since, Record.failureWindow, Record.day] at hlong
        omega

end Shielded

/-- The invariant holds of a record as long as it stays stored. -/
theorem Stays.shielded (h : Stays Operation.IsTimely id c r ops d s) (hc : Coherent ∅ ∅ c)
    (hstart : Shielded t t r) (horder : InOrder t ops last) : Shielded t last s := by
  refine h.keeps (P := fun ops m => ∀ last, InOrder t ops last → Shielded t last m) hc
    (fun _ hop => hop.isLive) (fun last hnone => ?_)
    (fun ops op m m' hop hm hsame now hsome => ?_) last horder
  · cases hnone
    exact hstart
  · cases hsome with
    | cons hbefore htime hle =>
        exact ((hm _ hbefore).step hop htime hle c.policy).of_sameHistory hsame

/-! ### The success -/

variable {σ : Type} [RandomSource σ] {w : Type} [Weight w]

/-- The record of an endpoint that is reached stays stored. -/
theorem Coherent.confirm_stored (h : Coherent ∅ ∅ c) (hr : c.records[id]? = some r)
    (he : r.endpoint = e.canonical) (now : Timestamp) :
    ((Operation.confirm e now).perform w c : Draw σ Cache).Ensures fun d =>
      ∃ s : Record, d.records[id]? = some s ∧ (r.reached now).SameHistory s := by
  intro s
  have hlookup := h.lookup_eq_some_iff.mpr ⟨hr, he⟩
  cases htried : r.inTried with
  | true =>
      refine ⟨_, s, Draw.run_map Prod.snd (h.confirm_tried hlookup htried now s), r.reached now, ?_,
        rfl⟩
      rw [getElem?_modifyRecord_self, hr]
      rfl
  | false =>
      obtain ⟨evicted, d, hrun, -, -, hpromoted⟩ := h.confirm_new hlookup htried now s
      obtain ⟨m, hm, hsame⟩ := Option.map_eq_some_iff.mp hpromoted.record
      exact ⟨d, _, Draw.run_map Prod.snd hrun, m, hm,
        .of_unranked (r := { r.reached now with inTried := true, refs := 0 }) hsame⟩

/-- After a success and a session at `t` the record is stored, and holds the success. Its
last-seen time is `t` when it was further back than the step of a session. -/
theorem Coherent.run_success (h : Coherent ∅ ∅ c) (hr : c.records[id]? = some r)
    (he : r.endpoint = e.canonical) (t : Timestamp) :
    (run w [.confirm e t, .noteAlive e t] c : Draw σ Cache).Ensures fun d =>
      Coherent ∅ ∅ d ∧ ∃ s : Record, d.records[id]? = some s ∧ s.lastSuccess = some t ∧
        s.peer.seen = if aliveStep < t.since r.peer.seen then t else r.peer.seen := by
  intro x
  obtain ⟨m, x', hconfirm, r', hr', hsame⟩ := h.confirm_stored (w := w) hr he t x
  obtain ⟨hm, -⟩ := (Operation.ensures_perform h _).of_run hconfirm
  have hsuccess : r'.lastSuccess = some t := by rw [hsame]; rfl
  have hseen : r'.peer.seen = r.peer.seen := by rw [hsame]; rfl
  have he' : r'.endpoint = e.canonical := by rw [hsame]; exact he
  obtain ⟨d, halive, hd⟩ := hm.noteAlive_rewritten e t
  have hperform : (Operation.noteAlive e t).perform w m x' = .ok (d, x') :=
    Draw.run_lift halive x'
  obtain ⟨hcoherent, -⟩ := (Operation.ensures_perform hm _).of_run hperform
  have hs := hd.record id
  rw [hr', Option.map_some, if_pos he', hseen] at hs
  refine ⟨d, x', ?_, hcoherent, _, hs, ?_, ?_⟩
  · rw [run, List.foldlM_cons]
    refine (Draw.run_bind hconfirm).trans ?_
    rw [List.foldlM_cons]
    exact Draw.run_bind hperform
  · split
    · exact hsuccess
    · exact hsuccess
  · split
    · rfl
    · exact hseen

/-- In any reachable cache, let a known endpoint be reached at `t` and its session be noted,
and let its last-seen time then be known and at most ten minutes ahead. Whatever happens
from then on at times that do not decrease, with no claim more than ten minutes ahead of its
own time, the record is not terrible up to a week after `t`, as long as it stays stored. -/
theorem Reachable.success_shields {allowed : Operation → Prop} (h : Reachable allowed c)
    (hr : c.records[id]? = some r) (he : r.endpoint = e.canonical) (t : Timestamp) :
    (run w [.confirm e t, .noteAlive e t] c : Draw σ Cache).Ensures fun m =>
      ∃ r' : Record, m.records[id]? = some r' ∧
        (r'.peer.seen.isZero = false → r'.peer.seen.secs ≤ t.secs + 600 →
          ∀ (ops : List Operation) (last : Timestamp) (d : Cache) (s : Record),
            Stays Operation.IsTimely id m r' ops d s → InOrder t ops last →
              ∀ u : Timestamp, last ≤ u → u.secs ≤ t.secs + 604800 → s.isTerrible u = false) := by
  refine (h.coherent.run_success hr he t).mono fun m hm => ?_
  obtain ⟨hcoherent, r', hr', hsuccess, hseen⟩ := hm
  refine ⟨r', hr', fun hknown hahead ops last d s hstays horder u hlast hu => ?_⟩
  have hrecent : t.secs ≤ r'.peer.seen.secs + 1200 := by
    rw [hseen]
    split
    · exact Nat.le_add_right t.secs 1200
    · next hstep =>
      simp only [aliveStep, Timestamp.since] at hstep
      omega
  have hstart : Shielded t t r' :=
    ⟨Nat.le_refl _, hknown, hahead, hrecent, t, hsuccess, Nat.le_refl _⟩
  exact (hstays.shielded hcoherent hstart horder).isTerrible hlast hu

/-- For instance, an attempt fails on the day after the success. At the end of the week the
peer is not terrible. -/
theorem shielded_after_failed_attempt : ∃ (c m d : Cache) (s s' : SplitMix) (r : Record),
    (Operation.learn (.ofEndpoint (.ofIp (.v4 ⟨8, 8, 8, 8⟩) 8333) (.ofSecs 1700000000))
      (.v4 ⟨9, 9, 9, 9⟩) 0 (.ofSecs 1700000000)).perform Rat (ofKey .standard default) ⟨[], 0⟩
        = .ok (c, s) ∧
    run Rat [.confirm (.ofIp (.v4 ⟨8, 8, 8, 8⟩) 8333) (.ofSecs 1700000000),
      .noteAlive (.ofIp (.v4 ⟨8, 8, 8, 8⟩) 8333) (.ofSecs 1700000000)] c s = .ok (m, s') ∧
    (Operation.noteAttempt (.ofIp (.v4 ⟨8, 8, 8, 8⟩) 8333) (.ofSecs 1700086400)).perform Rat m s'
        = .ok (d, s') ∧
    d.records[(⟨0⟩ : RecordId)]? = some r ∧ r.isTerrible (.ofSecs 1700604800) = false := by
  have hempty : Reachable (fun _ => True) (ofKey .standard default) := .ofKey .standard default
  obtain ⟨c, s, hlearn, hc, hr⟩ :=
    hempty.exists_learn_first Rat (.ofEndpoint (.ofIp (.v4 ⟨8, 8, 8, 8⟩) 8333) (.ofSecs 1700000000))
      (.v4 ⟨9, 9, 9, 9⟩) 0 (.ofSecs 1700000000) trivial (by decide) (⟨[], 0⟩ : SplitMix)
  obtain ⟨m, s', hrun, r', hr', hshields⟩ :=
    hc.success_shields (w := Rat) (e := .ofIp (.v4 ⟨8, 8, 8, 8⟩) 8333) hr rfl (.ofSecs 1700000000) s
  -- The session comes too early to move the time that was announced.
  have hknown := (hc.coherent.run_success (w := Rat) (e := .ofIp (.v4 ⟨8, 8, 8, 8⟩) 8333) hr rfl
    (.ofSecs 1700000000)).of_run hrun
  obtain ⟨hm, t, ht, -, hseen⟩ := hknown
  rw [hr'] at ht
  cases ht
  have hannounced : r'.peer.seen = .ofSecs 1700000000 := hseen.trans (by decide)
  obtain ⟨d, hattempt, hd⟩ := hm.noteAttempt_rewritten (.ofIp (.v4 ⟨8, 8, 8, 8⟩) 8333)
    (.ofSecs 1700086400)
  have hperform : (Operation.noteAttempt (.ofIp (.v4 ⟨8, 8, 8, 8⟩) 8333)
      (.ofSecs 1700086400)).perform Rat m s' = .ok (d, s') := Draw.run_lift hattempt s'
  have hafter := hd.record ⟨0⟩
  rw [hr', Option.map_some] at hafter
  have htimely : (Operation.noteAttempt (.ofIp (.v4 ⟨8, 8, 8, 8⟩) 8333)
      (.ofSecs 1700086400)).IsTimely := trivial
  have horder : InOrder (.ofSecs 1700000000) [.noteAttempt (.ofIp (.v4 ⟨8, 8, 8, 8⟩) 8333)
      (.ofSecs 1700086400)] (.ofSecs 1700086400) := .cons .nil rfl (by decide)
  exact ⟨c, m, d, s, s', _, hlearn, hrun, hperform, hafter,
    hshields (by rw [hannounced]; decide) (by rw [hannounced]; decide) _ _ d _
      (.step (.refl hr') htimely hperform hafter) horder _ (by decide) (by decide)⟩

end Cache

end PeerCache
