import PeerCache.Proofs.Cache.Admission

/-!
# `PeerCache.Proofs.Cache.Reliability`: what a record remembers of its peer

A record counts the attempts since its peer was last reached, holds the times of the last
success and of the last try, and collects the services and the version that
announcements tell. `Remembers` states each of these fields as a summary of the operations
since the record was added, the latest first. A dial counts when it names the endpoint of
the record, and an announcement when it has the address and the policy admits it.

`Remembers.step` says that the effect of one operation keeps the summaries up to date, and
`Trace.remembers` that every record of a cache that was never loaded agrees with its life.
Moving a record between the tables or to another place in the sampling order, and adding
or removing others, does not touch any of it.
-/

set_option autoImplicit false

namespace PeerCache

namespace Cache

variable {c d : Cache} {id : RecordId} {r s : Record} {policy : Policy} {e : Endpoint} {ip : Ip}
  {op : Operation} {ops : List Operation}

/-! ### Summaries of operations -/

/-- When the endpoint is reached, if the operation says so. -/
def Operation.reachedAt? (e : Endpoint) : Operation → Option Timestamp
  | .confirm e' now => if e = e'.canonical then some now else none
  | _ => none

/-- When an attempt is made to reach the endpoint, if the operation says so. -/
def Operation.attemptedAt? (e : Endpoint) : Operation → Option Timestamp
  | .noteAttempt e' now => if e = e'.canonical then some now else none
  | _ => none

/-- What the operation announces about the address, if the policy admits it. -/
def Operation.announced? (policy : Policy) (ip : Ip) : Operation → Option Announcement
  | .learn a _ _ _ =>
    if policy.admits a.canonical.ip ∧ ip = a.canonical.ip then some a else none
  | _ => none

/-- The attempts to reach the endpoint since it was reached for the last time. -/
def attemptsSince (e : Endpoint) (ops : List Operation) : Nat :=
  (ops.takeWhile fun op => (op.reachedAt? e).isNone).countP fun op => (op.attemptedAt? e).isSome

/-- Everything that is announced about the address, the latest first. -/
def announcements (policy : Policy) (ip : Ip) (ops : List Operation) : List Announcement :=
  ops.filterMap (·.announced? policy ip)

/-- The operations, the latest first, account for what the record remembers. -/
structure Remembers (policy : Policy) (ops : List Operation) (r : Record) : Prop where
  attempts : r.attempts.toNat = min (attemptsSince r.endpoint ops) (2 ^ 32 - 1)
  lastSuccess : r.lastSuccess = ops.findSome? (·.reachedAt? r.endpoint)
  lastTry : r.lastTry =
    ops.findSome? fun op => (op.reachedAt? r.endpoint).or (op.attemptedAt? r.endpoint)
  services : r.peer.services =
    (announcements policy r.ip ops).foldr (fun a known => known.union a.services) .none
  version : r.peer.version =
    (((announcements policy r.ip ops).map (·.version)).find? (· ≠ 0)).getD 0
  /-- The first operation is the announcement that has added the record. -/
  source : ∃ (a : Announcement) (source : Ip) (penalty : Nat) (now : Timestamp),
    ops.getLast? = some (.learn a source penalty now) ∧
      a.canonical.endpoint = r.endpoint ∧ source.canonical = r.source

section

variable (e policy ip op ops)

theorem attemptsSince_cons : attemptsSince e (op :: ops) =
    if (op.reachedAt? e).isSome then 0
    else attemptsSince e ops + if (op.attemptedAt? e).isSome then 1 else 0 := by
  cases hreached : op.reachedAt? e <;>
    simp [attemptsSince, hreached, List.countP_cons]

theorem announcements_cons : announcements policy ip (op :: ops) =
    (op.announced? policy ip).toList ++ announcements policy ip ops := by
  cases hannounced : op.announced? policy ip <;> simp [announcements, hannounced]

end

/-! ### One operation -/

/-- One attempt more is counted, up to the largest number that is kept. -/
theorem toNat_oneMore (n : UInt32) : (oneMore n).toNat = min (n.toNat + 1) (2 ^ 32 - 1) := by
  have hlt := n.toNat_lt
  have hadd : (n + 1).toNat = (n.toNat + 1) % 2 ^ 32 := UInt32.toNat_add n 1
  rw [oneMore]
  split
  · next hwrap =>
    rw [hwrap] at hadd
    have hzero : (n.toNat + 1) % 2 ^ 32 = 0 := hadd.symm
    omega
  · next hroom =>
    have hne : (n + 1).toNat ≠ 0 := fun hzero => hroom (UInt32.toNat_inj.mp hzero)
    omega

namespace Remembers

/-- What is remembered is a matter of history. -/
theorem of_sameHistory (h : Remembers policy ops r) (hrs : r.SameHistory s) :
    Remembers policy ops s := by
  rw [hrs]
  exact ⟨h.attempts, h.lastSuccess, h.lastTry, h.services, h.version, h.source⟩

/-- An announcement that is admitted accounts for the record that it adds. -/
theorem newcomer (m : Cache) (a : Announcement) (source : Ip) (penalty : Nat) (now : Timestamp)
    (hadmits : policy.admits a.canonical.ip = true) :
    Remembers policy [.learn a source penalty now] (m.newcomer a source penalty) := by
  have hannounced : announcements policy (m.newcomer a source penalty).ip
      [.learn a source penalty now] = [a] := by
    have hone : (Operation.learn a source penalty now).announced? policy
        (m.newcomer a source penalty).ip = some a := if_pos ⟨hadmits, rfl⟩
    rw [announcements_cons, hone]
    rfl
  refine ⟨rfl, rfl, rfl, ?_, ?_, a, source, penalty, now, rfl, rfl, rfl⟩
  · rw [hannounced]
    exact (Services.none_union a.services).symm
  · rw [hannounced]
    show a.version = _
    by_cases hversion : a.version = 0 <;> simp [hversion]

theorem source_cons (h : Remembers policy ops r) (op : Operation) :
    ∃ (a : Announcement) (source : Ip) (penalty : Nat) (now : Timestamp),
      (op :: ops).getLast? = some (.learn a source penalty now) ∧
        a.canonical.endpoint = r.endpoint ∧ source.canonical = r.source := by
  obtain ⟨a, source, penalty, now, hlast, hkind⟩ := h.source
  refine ⟨a, source, penalty, now, ?_, hkind⟩
  rw [List.getLast?_cons, hlast]
  rfl

/-- An operation that does not count leaves everything as it is. -/
theorem cons (h : Remembers policy ops r) (hreached : op.reachedAt? r.endpoint = none)
    (hattempted : op.attemptedAt? r.endpoint = none)
    (hannounced : op.announced? policy r.ip = none) : Remembers policy (op :: ops) r where
  attempts := by rw [h.attempts, attemptsSince_cons, hreached, hattempted]; rfl
  lastSuccess := by rw [h.lastSuccess, List.findSome?_cons, hreached]
  lastTry := by rw [h.lastTry, List.findSome?_cons, hreached, hattempted]; rfl
  services := by rw [h.services, announcements_cons, hannounced]; rfl
  version := by rw [h.version, announcements_cons, hannounced]; rfl
  source := h.source_cons op

/-- Reaching the endpoint starts the count anew. -/
theorem reached (h : Remembers policy ops r) {now : Timestamp} (he : r.endpoint = e.canonical) :
    Remembers policy (.confirm e now :: ops) (r.reached now) := by
  have hreached : (Operation.confirm e now).reachedAt? (r.reached now).endpoint = some now :=
    if_pos he
  refine ⟨?_, ?_, ?_, h.services, h.version, h.source_cons _⟩
  · rw [attemptsSince_cons, hreached]
    rfl
  · rw [List.findSome?_cons, hreached]
    rfl
  · rw [List.findSome?_cons, hreached]
    rfl

/-- An attempt is counted. -/
theorem attempted (h : Remembers policy ops r) {now : Timestamp} (he : r.endpoint = e.canonical) :
    Remembers policy (.noteAttempt e now :: ops) (r.attempted now) := by
  have hattempted :
      (Operation.noteAttempt e now).attemptedAt? (r.attempted now).endpoint = some now := if_pos he
  refine ⟨?_, h.lastSuccess, ?_, h.services, h.version, h.source_cons _⟩
  · have hcount := h.attempts
    rw [attemptsSince_cons, hattempted]
    show (oneMore r.attempts).toNat = min (attemptsSince r.endpoint ops + 1) (2 ^ 32 - 1)
    rw [toNat_oneMore]
    omega
  · rw [List.findSome?_cons, hattempted]
    rfl

/-- An announcement is merged. -/
theorem merged (h : Remembers policy ops r) {a : Announcement} (source : Ip) {penalty : Nat}
    {now : Timestamp} (hadmits : policy.admits a.canonical.ip = true)
    (hip : r.ip = a.canonical.ip) :
    Remembers policy (.learn a source penalty now :: ops) (r.merge a.canonical penalty now) := by
  have hannounced : announcements policy (r.merge a.canonical penalty now).ip
      (.learn a source penalty now :: ops) = a :: announcements policy r.ip ops := by
    have hone : (Operation.learn a source penalty now).announced? policy
        (r.merge a.canonical penalty now).ip = some a := if_pos ⟨hadmits, hip⟩
    rw [announcements_cons, hone]
    rfl
  refine ⟨?_, h.lastSuccess, h.lastTry, ?_, ?_, h.source_cons _⟩
  · rw [attemptsSince_cons]
    exact h.attempts
  · rw [hannounced, List.foldr_cons, ← h.services]
    rfl
  · rw [hannounced, List.map_cons, List.find?_cons]
    show (if a.version = 0 then r.peer.version else a.version) = _
    by_cases hversion : a.version = 0 <;> simp [hversion, h.version]

/-- The last-seen time is not part of the account. -/
theorem alive (h : Remembers policy ops r) (now : Timestamp) :
    Remembers policy ops (r.alive now) :=
  ⟨h.attempts, h.lastSuccess, h.lastTry, h.services, h.version, h.source⟩

/-- The effect of an operation keeps the account. -/
theorem step (h : Remembers policy ops r) (op : Operation) :
    Remembers policy (op :: ops) (op.effect policy r) := by
  have heffect := op.effect_cases policy r
  generalize op.effect policy r = s at heffect ⊢
  cases heffect with
  | none hother =>
      cases op with
      | learn => exact h.cons rfl rfl (if_neg hother)
      | confirm => exact h.cons (if_neg hother) rfl rfl
      | noteAttempt => exact h.cons rfl (if_neg hother) rfl
      | noteAlive | choose | sample | clear | load => exact h.cons rfl rfl rfl
  | merged hadmits hip => exact h.merged _ hadmits hip
  | reached he => exact h.reached he
  | attempted he => exact h.attempted he
  | @alive e now =>
      have hkept : Remembers policy (.noteAlive e now :: ops) r := h.cons rfl rfl rfl
      exact hkept.alive now
  | unmoved => exact h.cons rfl rfl rfl

end Remembers

/-! ### Runs -/

variable {σ : Type} [RandomSource σ] {w : Type} [Weight w] {past : List (Cache × Operation)}

/-- An operation that is not about the peer of a record keeps the whole history of the
record, if it keeps the record. -/
theorem Operation.ensures_unconcerned (h : Coherent ∅ ∅ c) (op : Operation) (hop : op.IsLive) :
    (op.perform w c : Draw σ Cache).Ensures fun d => ∀ (id : RecordId) (r s : Record),
      c.records[id]? = some r → d.records[id]? = some s → ¬ op.Concerns c.policy r →
        r.SameHistory s :=
  (op.ensures_origin h hop).mono fun _ hd id r s hr hs hother => by
    have hsame := (hd id s hs).sameHistory hr
    rwa [Operation.effect_of_not_concerns hother] at hsame

/-- In a cache that was never loaded, every record agrees with its life. Its attempts,
its last success and its last try are what the dials of its endpoint come to. Its services
and its version are what the announcements of its address come to, and its source is the
informant that was first. Operations that are not about the peer change none of this. -/
theorem Trace.remembers (h : Trace Operation.IsLive past c) :
    (∀ (id : RecordId) (r : Record), c.records[id]? = some r →
      Remembers c.policy (life id past) r) ∧
    ∀ op : Operation, op.IsLive → (op.perform w c : Draw σ Cache).Ensures fun d =>
      ∀ (id : RecordId) (r s : Record), c.records[id]? = some r → d.records[id]? = some s →
        ¬ op.Concerns c.policy r → r.SameHistory s := by
  refine ⟨fun id r hr => ?_, fun op hop => op.ensures_unconcerned h.reachable.coherent hop⟩
  -- Along its life the address of the record is one that is admitted.
  have hlife : c.policy.admits r.ip = true → Remembers c.policy (life id past) r := by
    refine h.keeps (P := fun ops s => c.policy.admits s.ip = true → Remembers c.policy ops s)
      (fun m a source penalty now s hsame hadmits => ?_) (fun ops op m s hm hsame hadmits => ?_) hr
    · rw [hsame] at hadmits
      exact (Remembers.newcomer m a source penalty now hadmits).of_sameHistory hsame
    · obtain ⟨-, hip, -⟩ := Operation.kind_of_sameHistory hsame
      exact ((hm (hip ▸ hadmits)).step op).of_sameHistory hsame
  exact hlife (h.reachable.admitted id r hr)

/-- For instance, an endpoint is announced, and an attempt is made to reach it. -/
theorem remembers_first_attempt : ∃ (c d : Cache) (s : SplitMix) (r : Record),
    (Operation.learn (.ofEndpoint (.ofIp (.v4 ⟨8, 8, 8, 8⟩) 8333) (.ofSecs 1700000000))
      (.v4 ⟨9, 9, 9, 9⟩) 0 (.ofSecs 1700000000)).perform Rat (ofKey .standard default) ⟨[], 0⟩
        = .ok (c, s) ∧
    (Operation.noteAttempt (.ofIp (.v4 ⟨8, 8, 8, 8⟩) 8333) (.ofSecs 1700000100)).perform Rat c s
        = .ok (d, s) ∧
    d.records[(⟨0⟩ : RecordId)]? = some r ∧ r.attempts = 1 ∧
    r.lastTry = some (.ofSecs 1700000100) ∧
    Remembers d.policy [.noteAttempt (.ofIp (.v4 ⟨8, 8, 8, 8⟩) 8333) (.ofSecs 1700000100),
      .learn (.ofEndpoint (.ofIp (.v4 ⟨8, 8, 8, 8⟩) 8333) (.ofSecs 1700000000))
        (.v4 ⟨9, 9, 9, 9⟩) 0 (.ofSecs 1700000000)] r := by
  have hempty : Reachable Operation.IsLive (ofKey .standard default) := .ofKey .standard default
  have hlive : (Operation.learn (.ofEndpoint (.ofIp (.v4 ⟨8, 8, 8, 8⟩) 8333) (.ofSecs 1700000000))
      (.v4 ⟨9, 9, 9, 9⟩) 0 (.ofSecs 1700000000)).IsLive := trivial
  obtain ⟨c, s, hrun, hc, hr⟩ :=
    hempty.exists_learn_first Rat (.ofEndpoint (.ofIp (.v4 ⟨8, 8, 8, 8⟩) 8333) (.ofSecs 1700000000))
      (.v4 ⟨9, 9, 9, 9⟩) 0 (.ofSecs 1700000000) hlive (by decide) (⟨[], 0⟩ : SplitMix)
  obtain ⟨d, hattempt, hd⟩ := hc.coherent.noteAttempt_rewritten (.ofIp (.v4 ⟨8, 8, 8, 8⟩) 8333)
    (.ofSecs 1700000100)
  have hperform : (Operation.noteAttempt (.ofIp (.v4 ⟨8, 8, 8, 8⟩) 8333)
      (.ofSecs 1700000100)).perform Rat c s = .ok (d, s) := Draw.run_lift hattempt s
  have ht := hd.record ⟨0⟩
  rw [hr, Option.map_some] at ht
  have htrace : Trace Operation.IsLive [(c, .noteAttempt _ _), (ofKey .standard default, _)] d :=
    .step (.step (.ofKey .standard default) hlive hrun) trivial hperform
  have hremembers := (@Trace.remembers d SplitMix _ Rat _ _ htrace).1 ⟨0⟩ _ ht
  have hmem : (⟨0⟩ : RecordId) ∈ c.records := (mem_iff_exists_getElem? c.records _).mpr ⟨_, hr⟩
  have hnew : (⟨0⟩ : RecordId) ∉ (ofKey .standard default).records := by simp [ofKey]
  rw [life, if_pos hmem, life, if_neg hnew] at hremembers
  exact ⟨c, d, s, _, hrun, hperform, ht, by decide, by decide, hremembers⟩

end Cache

end PeerCache
