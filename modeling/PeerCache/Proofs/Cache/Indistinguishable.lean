import PeerCache.Proofs.Cache.Lockstep
import PeerCache.Proofs.Cache.SavedForm

/-!
# `PeerCache.Proofs.Cache.Indistinguishable`: equal caches behave the same

`Request` lists what can be asked of a cache, with a `Reply` to each. Taking samples
is left out: what a sample holds depends on the sampling order, which the comparison
does not see. Two caches are `Indistinguishable` when every sequence of requests gets
the same replies from both, uses the random source up alike, and leaves two caches
that compare equal.

* `Twins.serve`: one request to two caches that differ in their numbering.
* `Twins.serveAll`: a whole sequence, by induction.
* `indistinguishable_saved_iff`: a cache is told apart from the one loaded from its
  bytes exactly when one of its histories has a time zero.
* `Reachable.same_contents_same_behaviour`: the comparison is an equivalence, and caches
  that compare equal are indistinguishable. A sample changes nothing that it sees.
-/

set_option autoImplicit false

namespace PeerCache

/-- What can be asked of a cache. -/
inductive Request where
  | learn (a : Announcement) (source : Ip) (penalty : Nat) (now : Timestamp)
  | confirm (e : Endpoint) (now : Timestamp)
  | noteAttempt (e : Endpoint) (now : Timestamp)
  | noteAlive (e : Endpoint) (now : Timestamp)
  | choose (now : Timestamp)
  | contains (e : Endpoint)
  | find (e : Endpoint)
  | stats

/-- What a cache answers. -/
inductive Reply where
  | learnt (counts : Bool)
  | confirmed (outcome : Confirmation)
  | noted
  | chosen (peer : Option Announcement)
  | contained (answer : Bool)
  | found (record : Option Record)
  | counted (stats : CacheStats)

/-- The reply without the place of a record in the sampling order. -/
def Reply.unranked : Reply → Reply
  | .found record => .found (record.map Record.unranked)
  | reply => reply

namespace Cache

section

variable {σ : Type} [RandomSource σ]

/-- The reply to a request, and the cache afterwards. Acceptance is computed in `w`. -/
def serve (w : Type) [Weight w] (c : Cache) : Request → Draw σ (Reply × Cache)
  | .learn a source penalty now => (fun x => (.learnt x.1, x.2)) <$> c.learn a source penalty now
  | .confirm e now => (fun x => (.confirmed x.1, x.2)) <$> c.confirm e now
  | .noteAttempt e now => (fun d => (.noted, d)) <$> (liftM (c.noteAttempt e now) : Draw σ Cache)
  | .noteAlive e now => (fun d => (.noted, d)) <$> (liftM (c.noteAlive e now) : Draw σ Cache)
  | .choose now => (fun x => (.chosen x, c)) <$> c.choose w now
  | .contains e => return (.contained (c.contains e), c)
  | .find e => return (.found (c.find? e), c)
  | .stats => return (.counted c.stats, c)

/-- The replies to a sequence of requests, and the cache afterwards. -/
def serveAll (w : Type) [Weight w] : Cache → List Request → Draw σ (List Reply × Cache)
  | c, [] => return ([], c)
  | c, q :: qs => do
    let (reply, c) ← c.serve w q
    let (replies, c) ← serveAll w c qs
    return (reply :: replies, c)

end

/-- No sequence of requests tells the two caches apart. From equal random sources both
give the same replies, but for places in the sampling order, and leave the sources
equal again. The caches that they become compare equal. -/
def Indistinguishable (c d : Cache) : Prop :=
  ∀ (σ w : Type) [RandomSource σ] [Weight w] (qs : List Request),
    (c.serveAll w qs : Draw σ (List Reply × Cache)).Agrees (d.serveAll w qs) fun x y =>
      y.1.map Reply.unranked = x.1.map Reply.unranked ∧ x.2.sameContents y.2 = true

variable {c d e : Cache} {π : Equiv.Perm RecordId}

/-! ### One request -/

section Requests

variable {σ w : Type} [RandomSource σ] [Weight w]

/-- Renamed caches give the same reply and stay renamed. -/
theorem Renames.serve (h : Renames π c d) (hc : Coherent ∅ ∅ c) (hd : Coherent ∅ ∅ d)
    (hpolicy : d.policy = c.policy) (q : Request) :
    (c.serve w q : Draw σ (Reply × Cache)).Agrees (d.serve w q) fun x y =>
      y.1.unranked = x.1.unranked ∧ ∃ ρ : Equiv.Perm RecordId, Renames ρ x.2 y.2 := by
  cases q with
  | learn a source penalty now =>
      refine (h.learn hc hd hpolicy a source penalty now).map fun x y hxy => ?_
      exact ⟨congrArg Reply.learnt hxy.1, hxy.2⟩
  | confirm e now =>
      refine (h.confirm hc hd e now).map fun x y hxy => ?_
      exact ⟨congrArg Reply.confirmed hxy.1, π, hxy.2⟩
  | noteAttempt e now =>
      obtain ⟨c', d', hrun, hrun', hfinal⟩ := h.noteAttempt hc hd e now
      exact (Draw.Agrees.lift hrun hrun' hfinal).map fun x y hxy => ⟨rfl, π, hxy⟩
  | noteAlive e now =>
      obtain ⟨c', d', hrun, hrun', hfinal⟩ := h.noteAlive hc hd e now
      exact (Draw.Agrees.lift hrun hrun' hfinal).map fun x y hxy => ⟨rfl, π, hxy⟩
  | choose now =>
      exact (h.choose w hc hd now).map fun x y hxy => ⟨congrArg Reply.chosen hxy, π, h⟩
  | contains e =>
      exact .pure ⟨congrArg Reply.contained (h.contains hc.toIndexed hd.toIndexed e), π, h⟩
  | find e => exact .pure ⟨congrArg Reply.found (h.find? hc.toIndexed hd.toIndexed e), π, h⟩
  | stats => exact .pure ⟨congrArg Reply.counted (h.stats hc hd), π, h⟩

/-- A request to a coherent cache is answered, and leaves a coherent one under the
same policy. -/
theorem Coherent.serve (h : Coherent ∅ ∅ c) (q : Request) :
    (c.serve w q : Draw σ (Reply × Cache)).Ensures fun x =>
      Coherent ∅ ∅ x.2 ∧ x.2.policy = c.policy := by
  cases q with
  | learn a source penalty now =>
      exact (h.learn a source penalty now).map fun x hx => ⟨hx.1, hx.2.2.policy⟩
  | confirm e now => exact (h.confirm e now).map fun x hx => ⟨hx.1, hx.2.1⟩
  | noteAttempt e now =>
      obtain ⟨d, hrun, hd, hpolicy, -⟩ := h.noteAttempt e now
      exact (Draw.Ensures.lift hrun ⟨hd, hpolicy⟩).map fun x hx => hx
  | noteAlive e now =>
      obtain ⟨d, hrun, hd, hpolicy, -⟩ := h.noteAlive e now
      exact (Draw.Ensures.lift hrun ⟨hd, hpolicy⟩).map fun x hx => hx
  | choose now => exact (ensures_choose w c now).map fun _ _ => ⟨h, rfl⟩
  | contains e => exact .pure ⟨h, rfl⟩
  | find e => exact .pure ⟨h, rfl⟩
  | stats => exact .pure ⟨h, rfl⟩

end Requests

/-! ### Sequences of requests -/

/-- Two coherent caches under one policy that differ in their numbering. -/
structure Twins (c d : Cache) : Prop where
  left : Coherent ∅ ∅ c
  right : Coherent ∅ ∅ d
  policy : d.policy = c.policy
  renames : ∃ π : Equiv.Perm RecordId, Renames π c d

namespace Twins

variable {σ w : Type} [RandomSource σ] [Weight w]

/-- One request leads from twins to twins. -/
theorem serve (h : Twins c d) (q : Request) :
    (c.serve w q : Draw σ (Reply × Cache)).Agrees (d.serve w q) fun x y =>
      y.1.unranked = x.1.unranked ∧ Twins x.2 y.2 := by
  obtain ⟨π, hπ⟩ := h.renames
  -- That both stay coherent is known of each by itself.
  refine ((hπ.serve h.left h.right h.policy q).and_ensures (h.left.serve q)
    (h.right.serve q)).mono fun x y hxy => ?_
  obtain ⟨⟨hreply, hrenames⟩, ⟨hx, hpolicy⟩, hy, hpolicy'⟩ := hxy
  have hsame : y.2.policy = x.2.policy := by rw [hpolicy', h.policy, hpolicy]
  exact ⟨hreply, hx, hy, hsame, hrenames⟩

/-- A sequence of requests leads from twins to twins. -/
theorem serveAll (h : Twins c d) (qs : List Request) :
    (c.serveAll w qs : Draw σ (List Reply × Cache)).Agrees (d.serveAll w qs) fun x y =>
      y.1.map Reply.unranked = x.1.map Reply.unranked ∧ Twins x.2 y.2 := by
  -- The caches change from one request to the next, and so may the permutation.
  induction qs generalizing c d with
  | nil => exact .pure ⟨rfl, h⟩
  | cons q qs ih =>
      refine .bind (h.serve q) fun x y hxy => ?_
      refine .bind (ih hxy.2) fun x' y' hxy' => ?_
      refine .pure ⟨?_, hxy'.2⟩
      rw [List.map_cons, List.map_cons, hxy.1, hxy'.1]

/-- Twins cannot be told apart. -/
theorem not_told_apart (h : Twins c d) : Indistinguishable c d := by
  intro σ w _ _ qs
  refine (h.serveAll qs).mono fun x y hxy => ⟨hxy.1, ?_⟩
  obtain ⟨π, hπ⟩ := hxy.2.renames
  exact hπ.sameContents hxy.2.left hxy.2.right

end Twins

/-- Reordering keeps all that the comparison sees. -/
theorem Reordered.renames (h : Reordered c d) : Renames (Equiv.refl RecordId) c d where
  key := by rw [h.rest]
  record := h.record
  newSlots id := by rw [h.rest]; rfl
  triedSlots id := by rw [h.rest]; rfl

/-! ### Finding tells a time zero from none -/

/-- A record is found by its own endpoint. -/
theorem find?_endpoint (hc : Indexed c) {id : RecordId} {r : Record}
    (hr : c.records[id]? = some r) : c.find? r.endpoint = some r := by
  rw [find?, hc.lookup_eq_some_iff.mpr ⟨hr, (hc.canonical id r hr).1.symm⟩]
  rfl

/-- A lookup after a load shows the record that was saved, with "never" for a time zero. -/
theorem find?_of_saved (hc : Coherent ∅ ∅ c) (hd : Coherent ∅ ∅ d)
    (hsame : c.saved.sameContents d = true) {id : RecordId} {r : Record}
    (hr : c.records[id]? = some r) :
    (d.find? r.endpoint).map Record.unranked = some r.saved.unranked := by
  obtain ⟨π, hπ⟩ := exists_renames hc.saved hd hsame
  have hsaved : c.saved.records[id]? = some r.saved := by rw [records_saved, hr, Option.map_some]
  have hfound : c.saved.find? r.endpoint = some r.saved :=
    find?_endpoint hc.saved.toIndexed hsaved
  rw [hπ.find? hc.saved.toIndexed hd.toIndexed, hfound, Option.map_some]

/-- A lookup gives the same on caches that cannot be told apart. -/
theorem Indistinguishable.find? (h : Indistinguishable c d) (e : Endpoint) :
    (d.find? e).map Record.unranked = (c.find? e).map Record.unranked := by
  obtain ⟨x, y, s, hrun, hrun', hreply, -⟩ := h SplitMix Rat [.find e] ⟨[], 0⟩
  cases hrun
  cases hrun'
  exact Reply.found.inj (List.head_eq_of_cons_eq hreply)

/-- The cache that is loaded from the bytes of another one is told apart from it by a
time zero in a history, and by nothing else. -/
theorem indistinguishable_saved_iff (hc : Coherent ∅ ∅ c) (hd : Coherent ∅ ∅ d)
    (hpolicy : d.policy = c.policy) (hsame : c.saved.sameContents d = true) :
    Indistinguishable c d ↔ Every Record.Dated c := by
  constructor
  · intro h id r hr
    -- The lookup shows the record on the one side and its saved form on the other.
    have hfind := h.find? r.endpoint
    rw [find?_of_saved hc hd hsame hr, find?_endpoint hc.toIndexed hr] at hfind
    have hhistory : r.saved.SameHistory r := .of_unranked (Option.some.inj hfind).symm
    exact hhistory.dated r.dated_saved
  · intro hdated
    rw [saved_eq_self hdated] at hsame
    exact Twins.not_told_apart ⟨hc, hd, hpolicy, exists_renames hc hd hsame⟩

/-! ### Reachable caches -/

variable {allowed : Operation → Prop}

/-- On the caches that operations lead to, the comparison is an equivalence. Caches
under one policy that compare equal are indistinguishable, and a sample leaves a cache
that compares equal. The bytes of a cache are accepted whole by any cache under its
policy. What was loaded is indistinguishable from what was saved, unless a history has
a time zero. -/
theorem Reachable.same_contents_same_behaviour (hc : Reachable allowed c)
    (hd : Reachable allowed d) (he : Reachable allowed e) :
    (c.sameContents c = true ∧ (c.sameContents d = true → d.sameContents c = true) ∧
      (c.sameContents d = true → d.sameContents e = true → c.sameContents e = true)) ∧
    (d.policy = c.policy → c.sameContents d = true → Indistinguishable c d) ∧
    (∀ (σ : Type) [RandomSource σ] (now : Timestamp),
      (c.sample now : Draw σ (List Announcement × Cache)).Ensures fun x =>
        c.sameContents x.2 = true) ∧
    ∀ (σ : Type) [RandomSource σ] (c₀ : Cache) (order : RemovalOrder) (s : σ),
      c₀.policy = c.policy →
      ∃ d : Cache, c₀.load order c.encode s = .ok ((.ok ⟨c.newCount, c.triedCount, 0, 0⟩, d), s) ∧
        d.policy = c.policy ∧ (Indistinguishable c d ↔ Every Record.Dated c) := by
  have hc := hc.coherent
  have hd := hd.coherent
  have he := he.coherent
  refine ⟨⟨(Renames.refl c).sameContents hc hc, fun hcd => ?_, fun hcd hde => ?_⟩,
    fun hpolicy hcd => ?_, fun σ _ now => ?_, fun σ _ c₀ order s hpolicy => ?_⟩
  · rw [sameContents_iff hc hd] at hcd
    obtain ⟨π, hπ⟩ := hcd
    exact hπ.symm.sameContents hd hc
  · rw [sameContents_iff hc hd] at hcd
    rw [sameContents_iff hd he] at hde
    obtain ⟨π, hπ⟩ := hcd
    obtain ⟨ρ, hρ⟩ := hde
    exact (hπ.trans hρ).sameContents hc he
  · exact Twins.not_told_apart ⟨hc, hd, hpolicy, (sameContents_iff hc hd).mp hcd⟩
  · exact (hc.sample now).mono fun x hx => hx.2.renames.sameContents hc hx.1
  · obtain ⟨d, hload, hd, hpolicy', -, hsame⟩ := hc.exists_load c₀ order s
    rw [hpolicy] at hpolicy'
    exact ⟨d, hload, hpolicy', indistinguishable_saved_iff hc hd hpolicy' hsame⟩

/-- For instance, a cache that has learnt of one peer is indistinguishable from the one
loaded from its bytes, and both compare equal. -/
theorem reload_after_learn_same_behaviour : ∃ (c d : Cache) (s : SplitMix),
    (Operation.learn (.ofEndpoint (.ofIp (.v4 ⟨8, 8, 8, 8⟩) 8333) (.ofSecs 1700000000))
      (.v4 ⟨9, 9, 9, 9⟩) 0 (.ofSecs 1700000000)).perform Rat (ofKey .standard default) ⟨[], 0⟩
        = .ok (c, s) ∧
    c.load .ascending c.encode s = .ok ((.ok ⟨c.newCount, c.triedCount, 0, 0⟩, d), s) ∧
    d.policy = c.policy ∧ c.sameContents d = true ∧ d.sameContents c = true ∧
    Indistinguishable c d := by
  have hempty : Reachable Operation.IsDated (ofKey .standard default) := .ofKey .standard default
  obtain ⟨c, s, hrun, hc⟩ := hempty.exists_step Rat (.learn _ _ _ _) trivial (⟨[], 0⟩ : SplitMix)
  obtain ⟨d, hload, hpolicy, hiff⟩ :=
    (hc.same_contents_same_behaviour hc hc).2.2.2 SplitMix c .ascending s rfl
  have hperform : (Operation.load .ascending c.encode).perform Rat c s = .ok (d, s) :=
    Draw.run_map Prod.snd hload
  have hop : (Operation.load .ascending c.encode).IsDated := trivial
  have hd : Reachable Operation.IsDated d := .step hc hop hperform
  -- Without any request, what remains is that both compare equal.
  obtain ⟨x, y, s', hrun', hrun'', -, hsame⟩ := hiff.mpr hc.dated SplitMix Rat [] s
  cases hrun'
  cases hrun''
  have hboth := hc.same_contents_same_behaviour hd hc
  exact ⟨c, d, s, hrun, hload, hpolicy, hsame, hboth.1.2.1 hsame, hboth.2.1 hpolicy hsame⟩

/-- An attempt at time zero is lost when the cache is saved and loaded again. A lookup
shows it before and not after. -/
theorem reload_loses_attempt_at_zero : ∃ (c d e : Cache) (s : SplitMix),
    (Operation.learn (.ofEndpoint (.ofIp (.v4 ⟨8, 8, 8, 8⟩) 8333) (.ofSecs 1700000000))
      (.v4 ⟨9, 9, 9, 9⟩) 0 (.ofSecs 1700000000)).perform Rat (ofKey .standard default) ⟨[], 0⟩
        = .ok (c, s) ∧
    (Operation.noteAttempt (.ofIp (.v4 ⟨8, 8, 8, 8⟩) 8333) .zero).perform Rat c s = .ok (d, s) ∧
    d.load .ascending d.encode s = .ok ((.ok ⟨d.newCount, d.triedCount, 0, 0⟩, e), s) ∧
    e.policy = d.policy ∧
    (d.find? (.ofIp (.v4 ⟨8, 8, 8, 8⟩) 8333)).map Record.lastTry = some (some .zero) ∧
    (e.find? (.ofIp (.v4 ⟨8, 8, 8, 8⟩) 8333)).map Record.lastTry = some none ∧
    ¬ Indistinguishable d e := by
  have hempty : Reachable (fun _ => True) (ofKey .standard default) := .ofKey .standard default
  obtain ⟨c, s, hrun, hc, hr⟩ :=
    hempty.exists_learn_first Rat (.ofEndpoint (.ofIp (.v4 ⟨8, 8, 8, 8⟩) 8333) (.ofSecs 1700000000))
      (.v4 ⟨9, 9, 9, 9⟩) 0 (.ofSecs 1700000000) trivial (by decide) (⟨[], 0⟩ : SplitMix)
  have hlookup : c.lookup (.ofIp (.v4 ⟨8, 8, 8, 8⟩) 8333) = some (⟨0⟩, _) :=
    hc.coherent.lookup_eq_some_iff.mpr ⟨hr, rfl⟩
  obtain ⟨hnote, hd⟩ := hc.coherent.noteAttempt_known hlookup .zero
  obtain ⟨e, hload, he, hpolicy, -, hsame⟩ := hd.exists_load (c.modifyRecord ⟨0⟩ _) .ascending s
  -- The record before the save, and its saved form.
  have hnoted := getElem?_modifyRecord_self c ⟨0⟩ fun r => r.attempted .zero
  rw [hr, Option.map_some] at hnoted
  have hbefore := find?_endpoint hd.toIndexed hnoted
  have hafter := find?_of_saved hd he hsame hnoted
  refine ⟨c, _, e, s, hrun, Draw.run_lift hnote s, hload, hpolicy, ?_, ?_, fun h => ?_⟩
  · exact congrArg (Option.map Record.lastTry) hbefore
  · have htry := congrArg (Option.map Record.lastTry) hafter
    rw [Option.map_map] at htry
    exact htry
  · have hdated := (indistinguishable_saved_iff hd he hpolicy hsame).mp h
    exact (hdated ⟨0⟩ _ hnoted).lastTry rfl

end Cache

end PeerCache
