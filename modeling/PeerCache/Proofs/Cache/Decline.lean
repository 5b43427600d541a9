import PeerCache.Proofs.Cache.Misdated

/-!
# `PeerCache.Proofs.Cache.Decline`: a bad record does not get better by itself

A record that is terrible stays so as time goes by, and nothing that is done about other
peers changes that. So a bad peer is given out again only after somebody has named it:
announced it, dialled it, or noted a session with it.

The judgement asks five questions. The answers to four of them can only turn against the
record when the clock advances: a try becomes old, the last-seen time and the last success
become old, and attempts do not go away (`Record.Passes.earlier`, `Record.isSpared_of_le`).
The fifth fades. A record that was claimed to be seen too far ahead is terrible only until
the clock has caught up, so the statement leaves out the records that are terrible for
that reason.

What happens to other records has no effect on the history of this one, even when it is
evicted or loses a slot to them (`Stays.sameHistory_of_unnamed`).
-/

set_option autoImplicit false

namespace PeerCache

/-! ### The judgement as time goes by -/

namespace Record

variable {r : Record} {now later : Timestamp}

/-- A try that is not recent does not become recent. -/
theorem isSpared_of_le (hle : now ≤ later) (h : r.isSpared now = false) :
    r.isSpared later = false := by
  unfold isSpared at h ⊢
  cases hlast : r.lastTry with
  | none => rfl
  | some t =>
      simp only [hlast, decide_eq_false_iff_not, Timestamp.le_def, Timestamp.secs_earlier] at h ⊢
      rw [Timestamp.le_def] at hle
      omega

/-- A record that passes the rules has passed them all along, unless its last-seen time was
still too far ahead. -/
theorem Passes.earlier (h : r.Passes later) (hle : now ≤ later)
    (hahead : ¬ now.later maxDrift < r.peer.seen) : r.Passes now := by
  -- The age of a time is not smaller later on.
  have hsince : ∀ t : Timestamp, now.since t ≤ later.since t := fun t =>
    Nat.sub_le_sub_right hle t.secs
  refine ⟨hahead, h.seen, (hsince _).trans h.age, h.retries, ?_⟩
  rintro ⟨hlong, hfailed⟩
  exact h.failures ⟨hlong.trans_le (hsince _), hfailed⟩

/-- A record that is terrible, but not for a last-seen time too far ahead, stays terrible. -/
theorem isTerrible_of_le (hterrible : r.isTerrible now = true) (hle : now ≤ later)
    (hahead : ¬ now.later maxDrift < r.peer.seen) : r.isTerrible later = true := by
  have hjudged : r.isSpared now = false := by
    by_contra hspared
    rw [Bool.not_eq_false] at hspared
    rw [isTerrible_of_isSpared hspared] at hterrible
    cases hterrible
  by_contra hhealthy
  rw [Bool.not_eq_true, isTerrible_eq_false_iff (isSpared_of_le hle hjudged)] at hhealthy
  have hbefore := (isTerrible_eq_false_iff hjudged).mpr (hhealthy.earlier hle hahead)
  rw [hbefore] at hterrible
  cases hterrible

end Record

namespace Cache

variable {c d : Cache} {id : RecordId} {r s : Record} {op : Operation} {ops : List Operation}

/-! ### Operations on other peers -/

/-- The operation is about the host with the given address, at any port and in any
notation. -/
def Operation.Names (ip : Ip) : Operation → Prop
  | .learn a _ _ _ => a.ip.canonical = ip
  | .confirm e _ | .noteAttempt e _ | .noteAlive e _ => e.ip.canonical = ip
  | .choose _ | .sample _ | .clear | .load _ _ => False

/-- An operation that does not name the address of a record is not about it. -/
theorem Operation.not_concerns_of_not_names (h : ¬ op.Names r.ip) (policy : Policy) :
    ¬ op.Concerns policy r := by
  intro hconcerns
  apply h
  cases op with
  | learn a source penalty now =>
      show a.ip.canonical = r.ip
      rw [← Announcement.ip_canonical, hconcerns.2]
  | confirm e now | noteAttempt e now | noteAlive e now =>
      have he : r.endpoint = e.canonical := hconcerns
      show e.ip.canonical = r.endpoint.ip
      rw [he, Endpoint.ip_canonical]
  | choose | sample | clear | load => exact hconcerns

/-- The history of a record does not change while only other peers are named. -/
theorem Stays.sameHistory_of_unnamed {ip : Ip}
    (h : Stays (fun op => op.IsLive ∧ ¬ op.Names ip) id c r ops d s) (hc : Coherent ∅ ∅ c)
    (hip : r.ip = ip) : r.SameHistory s := by
  refine h.keeps (P := fun _ t => r.SameHistory t) hc (fun _ hop => hop.1) rfl ?_
  intro _ op t t' hop hrt htt'
  have hunnamed : ¬ op.Names t.ip := by
    rw [hrt]
    exact hip ▸ hop.2
  rw [Operation.effect_of_not_concerns (Operation.not_concerns_of_not_names hunnamed _)] at htt'
  exact hrt.trans htt'

/-! ### What is given out -/

/-- Neither a pick nor a sample gives out the address of a terrible record. -/
theorem Coherent.withholds (h : Coherent ∅ ∅ c) (hr : c.records[id]? = some r) {now : Timestamp}
    (hterrible : r.isTerrible now = true) (σ w : Type) [RandomSource σ] [Weight w] :
    ((c.choose w now : Draw σ (Option Announcement)).Ensures fun pick =>
      ∀ a, pick = some a → a.ip ≠ r.ip) ∧
    ((c.sample now : Draw σ (List Announcement × Cache)).Ensures fun x =>
      ∀ a ∈ x.1, a.ip ≠ r.ip) := by
  -- Only one record has the address, and what is given out belongs to a healthy one.
  have hother : ∀ (j : RecordId) (t : Record), c.records[j]? = some t →
      t.isTerrible now = false → t.peer.ip ≠ r.ip := by
    intro j t ht hhealthy hip
    obtain rfl := h.id_unique ht hr hip
    rw [hr] at ht
    cases ht
    rw [hterrible] at hhealthy
    cases hhealthy
  constructor
  · refine (ensures_choose w c now).mono fun pick hpick a ha => ?_
    obtain ⟨j, t, ht, hhealthy, rfl⟩ := hpick a ha
    exact hother j t ht hhealthy
  · refine (h.sample_peers now).mono fun x hx a ha => ?_
    obtain ⟨j, t, ht, hhealthy, rfl⟩ := hx a ha
    exact hother j t ht hhealthy

/-- In any reachable cache, let a record be terrible, and its last-seen time be at most ten
minutes ahead. Whatever happens from then on to other peers, the record is terrible at every
later time as long as it stays stored, and no pick and no sample at that time gives out its
address. -/
theorem Reachable.stays_terrible {allowed : Operation → Prop} (h : Reachable allowed c)
    {now : Timestamp} (hterrible : r.isTerrible now = true)
    (hahead : r.peer.seen.secs ≤ now.secs + 600)
    (hstays : Stays (fun op => op.IsLive ∧ ¬ op.Names r.ip) id c r ops d s) {later : Timestamp}
    (hle : now ≤ later) :
    s.isTerrible later = true ∧
      ∀ (σ w : Type) [RandomSource σ] [Weight w],
        ((d.choose w later : Draw σ (Option Announcement)).Ensures fun pick =>
          ∀ a, pick = some a → a.ip ≠ r.ip) ∧
        ((d.sample later : Draw σ (List Announcement × Cache)).Ensures fun x =>
          ∀ a ∈ x.1, a.ip ≠ r.ip) := by
  have hdrift : ¬ now.later Record.maxDrift < r.peer.seen := by
    have hcap := r.peer.seen.secs_le
    simp only [Timestamp.lt_def, Timestamp.secs_later, Record.maxDrift]
    omega
  have hsame : r.SameHistory s := hstays.sameHistory_of_unnamed h.coherent rfl
  have hlater : s.isTerrible later = true := by
    rw [hsame.isTerrible]
    exact Record.isTerrible_of_le hterrible hle hdrift
  have hip : s.ip = r.ip := by rw [hsame]; rfl
  refine ⟨hlater, fun σ w _ _ => ?_⟩
  rw [← hip]
  exact (hstays.coherent h.coherent).1.withholds hstays.stored hlater σ w

/-- For instance, a peer was last seen a month and a second ago. Another one is dialled, and
a day later a pick does not give the first one out. -/
theorem stays_terrible_after_month : ∃ (c d : Cache) (s : SplitMix) (r : Record),
    (Operation.learn (.ofEndpoint (.ofIp (.v4 ⟨8, 8, 8, 8⟩) 8333) (.ofSecs 1700000000))
      (.v4 ⟨9, 9, 9, 9⟩) 0 (.ofSecs 1700000000)).perform Rat (ofKey .standard default) ⟨[], 0⟩
        = .ok (c, s) ∧
    (Operation.noteAttempt (.ofIp (.v4 ⟨8, 8, 4, 4⟩) 53) (.ofSecs 1702592001)).perform Rat c s
      = .ok (d, s) ∧
    d.records[(⟨0⟩ : RecordId)]? = some r ∧ r.isTerrible (.ofSecs 1702678401) = true ∧
    (d.choose Rat (.ofSecs 1702678401) : Draw SplitMix (Option Announcement)).Ensures fun pick =>
      ∀ a, pick = some a → a.ip ≠ .v4 ⟨8, 8, 8, 8⟩ := by
  have hempty : Reachable (fun _ => True) (ofKey .standard default) := .ofKey .standard default
  obtain ⟨c, s, hlearn, hc, hr⟩ :=
    hempty.exists_learn_first Rat (.ofEndpoint (.ofIp (.v4 ⟨8, 8, 8, 8⟩) 8333) (.ofSecs 1700000000))
      (.v4 ⟨9, 9, 9, 9⟩) 0 (.ofSecs 1700000000) trivial (by decide) (⟨[], 0⟩ : SplitMix)
  obtain ⟨d, hattempt, hd⟩ := hc.coherent.noteAttempt_rewritten (.ofIp (.v4 ⟨8, 8, 4, 4⟩) 53)
    (.ofSecs 1702592001)
  have hperform : (Operation.noteAttempt (.ofIp (.v4 ⟨8, 8, 4, 4⟩) 53)
      (.ofSecs 1702592001)).perform Rat c s = .ok (d, s) := Draw.run_lift hattempt s
  have hafter := hd.record ⟨0⟩
  rw [hr, Option.map_some, if_neg (by decide)] at hafter
  have hother : (Operation.noteAttempt (.ofIp (.v4 ⟨8, 8, 4, 4⟩) 53)
      (.ofSecs 1702592001)).IsLive ∧ ¬ (Operation.noteAttempt (.ofIp (.v4 ⟨8, 8, 4, 4⟩) 53)
        (.ofSecs 1702592001)).Names (.v4 ⟨8, 8, 8, 8⟩) := by
    refine ⟨trivial, ?_⟩
    show ¬ Ip.v4 ⟨8, 8, 4, 4⟩ = .v4 ⟨8, 8, 8, 8⟩
    decide
  have hle : Timestamp.ofSecs 1702592001 ≤ .ofSecs 1702678401 := by decide
  obtain ⟨hterrible, hwithheld⟩ := hc.stays_terrible (by decide) (by decide)
    (.step (.refl hr) hother hperform hafter) hle
  exact ⟨c, d, s, _, hlearn, hperform, hafter, hterrible, (hwithheld SplitMix Rat).1⟩

end Cache

end PeerCache
