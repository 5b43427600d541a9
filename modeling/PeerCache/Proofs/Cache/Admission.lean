import PeerCache.Proofs.Cache.History
import PeerCache.Proofs.Cache.Indistinguishable

/-!
# `PeerCache.Proofs.Cache.Admission`: how unroutable addresses are kept out

A policy may keep addresses out that the public internet does not route. It is asked
about every announcement, and no other operation on records lets an address in
(`Operation.ensures_admitted`). So a cache that is never loaded holds what its policy
admits (`Reachable.admitted`).

A load is the second way in. It takes its records from the bytes and does not ask the
policy. `Trace.routable_iff` says what this comes to: along a run under a policy that
keeps unroutable addresses out, the cache holds none and gives none out exactly when no
load has brought one. What such a cache has saved itself is harmless
(`Coherent.bringsRoutable_encode`). What was saved under another policy need not be, and
`load_stores_private_address` is a run that shows it.

Both notations of an address are judged alike, so it makes no difference in which one it
was announced.
-/

set_option autoImplicit false

namespace PeerCache

/-- A policy that keeps unroutable addresses out admits the others. -/
theorem Policy.admits_eq_isRoutable {p : Policy} (h : p.allowUnroutable = false) (ip : Ip) :
    p.admits ip = ip.isRoutable := by
  rw [Policy.admits, h, Bool.false_or]

namespace Cache

variable {c d : Cache} {σ : Type} [RandomSource σ] {w : Type} [Weight w]

/-! ### What the policy is asked about -/

/-- An operation other than a load adds no address that the policy does not admit. -/
theorem Operation.ensures_admitted (h : Coherent ∅ ∅ c) (op : Operation) (hop : op.IsLive) :
    (op.perform w c : Draw σ Cache).Ensures fun d =>
      Every (fun r => c.policy.admits r.ip = true) c →
        Every (fun r => c.policy.admits r.ip = true) d := by
  intro s
  obtain ⟨d, s', hrun, horigin⟩ := Operation.ensures_origin (w := w) h op hop s
  refine ⟨d, s', hrun, fun hc id t ht => ?_⟩
  cases horigin id t ht with
  | @kept r hr hsame =>
      obtain ⟨-, hip, -⟩ := Operation.kind_of_sameHistory hsame
      rw [hip]
      exact hc id r hr
  | @added a source penalty now hop' hnone hsame =>
      have hip : t.ip = a.canonical.ip := by
        rw [hsame]
        rfl
      rw [hip]
      -- An announcement that is not admitted adds nothing.
      by_contra hstop
      rw [Bool.not_eq_true] at hstop
      subst hop'
      have hself := Draw.run_map Prod.snd (h.learn_unadmitted hstop source penalty now s)
      have hd : d = c := by
        have hboth := hrun.symm.trans hself
        cases hboth
        rfl
      rw [hd, hnone] at ht
      cases ht

/-- A cache that is never loaded holds addresses that its policy admits. -/
theorem Reachable.admitted (h : Reachable Operation.IsLive c) :
    Every (fun r => c.policy.admits r.ip = true) c := by
  induction h with
  | ofKey policy key => exact every_ofKey _ policy key
  | step hc hop hrun ih =>
      obtain ⟨-, hpolicy, -⟩ := (Operation.ensures_perform hc.coherent _).of_run hrun
      rw [hpolicy]
      exact (Operation.ensures_admitted hc.coherent _ hop).of_run hrun ih

/-! ### Unroutable addresses -/

/-- Every address in the cache is routable, and so is every one that it gives out. -/
structure Routable (c : Cache) : Prop where
  stored : Every (fun r => r.ip.isRoutable = true) c
  chosen : ∀ (σ w : Type) [RandomSource σ] [Weight w] (now : Timestamp),
    (c.choose w now : Draw σ (Option Announcement)).Ensures fun found =>
      ∀ a, found = some a → a.ip.isRoutable = true
  sampled : ∀ (σ : Type) [RandomSource σ] (now : Timestamp),
    (c.sample now : Draw σ (List Announcement × Cache)).Ensures fun x =>
      ∀ a ∈ x.1, a.ip.isRoutable = true

/-- What is given out is stored. -/
theorem Coherent.routable_iff_stored (h : Coherent ∅ ∅ c) :
    Routable c ↔ Every (fun r => r.ip.isRoutable = true) c := by
  refine ⟨Routable.stored, fun hc => ⟨hc, fun σ w _ _ now => ?_, fun σ _ now => ?_⟩⟩
  · refine (ensures_choose w c now).mono fun found hfound a ha => ?_
    obtain ⟨id, r, hr, -, rfl⟩ := hfound a ha
    exact hc id r hr
  · refine (h.sample_peers now).mono fun x hx a ha => ?_
    obtain ⟨id, r, hr, -, rfl⟩ := hx a ha
    exact hc id r hr

/-- The operation is not a load of bytes that are accepted and hold an unroutable
address. -/
def Operation.BringsRoutable (policy : Policy) : Operation → Prop
  | .load order data => ∀ (d : Cache) (report : LoadReport),
      ofBytes policy order data = .ok (.ok (d, report)) → Every (fun r => r.ip.isRoutable = true) d
  | _ => True

/-- Under a policy that keeps unroutable addresses out, an operation lets one in exactly
when it brings one with the bytes of a load. -/
theorem Operation.ensures_routable_iff (h : Coherent ∅ ∅ c)
    (hpolicy : c.policy.allowUnroutable = false)
    (hc : Every (fun r => r.ip.isRoutable = true) c) (op : Operation) :
    (op.perform w c : Draw σ Cache).Ensures fun d =>
      Every (fun r => r.ip.isRoutable = true) d ↔ op.BringsRoutable c.policy := by
  have hadmits := Policy.admits_eq_isRoutable hpolicy
  have hlive : op.IsLive → (op.perform w c : Draw σ Cache).Ensures
      (Every fun r => r.ip.isRoutable = true) := fun hop =>
    (op.ensures_admitted h hop).mono fun d hd => by
      simp only [hadmits] at hd
      exact hd hc
  cases op with
  | learn | confirm | noteAttempt | noteAlive | choose | sample | clear =>
      exact (hlive trivial).mono fun d hd => iff_of_true hd trivial
  | load order data =>
      intro s
      obtain ⟨result, hresult, -⟩ := ofBytes_outcome c.policy order data
      cases result with
      | ok x =>
          refine ⟨x.1, s, Draw.run_map Prod.snd (load_of_ok hresult s), fun hx d report hd => ?_,
            fun hbrings => hbrings x.1 x.2 hresult⟩
          rw [hresult] at hd
          cases hd
          exact hx
      | error e =>
          -- A load that is refused leaves nothing behind.
          obtain ⟨d, s', hnew, key, rfl⟩ := ensures_new c.policy s
          refine ⟨_, s', Draw.run_map Prod.snd (load_of_error hresult hnew),
            iff_of_true (every_ofKey _ c.policy key) fun d report hd => ?_⟩
          rw [hresult] at hd
          cases hd

/-- The bytes of a cache that holds routable addresses bring no others, whatever the
policy of the cache that loads them. -/
theorem Coherent.bringsRoutable_encode (h : Coherent ∅ ∅ c)
    (hc : Every (fun r => r.ip.isRoutable = true) c) (policy : Policy) (order : RemovalOrder) :
    (Operation.load order c.encode).BringsRoutable policy := by
  intro d report hd id s hs
  obtain ⟨d', hbytes, hcopy, -⟩ := ofBytes_encode h.saved c.every_dated_saved policy order
  rw [encode_saved, hd] at hbytes
  cases hbytes
  -- Each loaded record is the copy of one that was saved.
  rw [hcopy.getElem?_records h.saved.toPlaced, Option.map_eq_some_iff] at hs
  obtain ⟨x, hx, rfl⟩ := hs
  have hsaved := mem_storedRecords.mp (List.mem_of_getElem? hx)
  rw [records_saved, Option.map_eq_some_iff] at hsaved
  obtain ⟨r, hr, hxr⟩ := hsaved
  have hip : r.ip = x.2.ip := by
    rw [← hxr]
    rfl
  show x.2.ip.isRoutable = true
  rw [← hip]
  exact hc x.1 r hr

/-! ### Runs -/

variable {allowed : Operation → Prop} {past : List (Cache × Operation)}

/-- Along any run under a policy that keeps unroutable addresses out, no cache ever holds
such an address or gives one out, provided that no load brings one. The loads are the
only way in, so the promise fails as soon as one of them does. -/
theorem Trace.routable_iff (h : Trace allowed past c) (hpolicy : c.policy.allowUnroutable = false) :
    (∀ m ∈ c :: past.map Prod.fst, Routable m) ↔ ∀ x ∈ past, x.2.BringsRoutable x.1.policy := by
  induction h with
  | ofKey policy key =>
      have hempty : Routable (Cache.ofKey policy key) :=
        (coherent_ofKey policy key).routable_iff_stored.mpr (every_ofKey _ policy key)
      simp [hempty]
  | @step _ _ _ _ past m d op _ _ htrace _ hrun ih =>
      have hm := htrace.reachable.coherent
      obtain ⟨hd, hsame, -⟩ := (Operation.ensures_perform hm op).of_run hrun
      rw [hsame] at hpolicy
      refine List.forall_mem_cons.trans (Iff.trans ?_ List.forall_mem_cons.symm)
      rw [List.map_cons, ih hpolicy]
      refine and_congr_left fun hbefore => ?_
      -- Up to here all went well, so the last operation decides.
      have hclean := ((ih hpolicy).mpr hbefore m List.mem_cons_self).stored
      rw [hd.routable_iff_stored]
      exact (op.ensures_routable_iff hm hpolicy hclean).of_run hrun

/-- For instance, a cache learns of a public address, and loads its own bytes. -/
theorem routable_after_own_load : ∃ (c d : Cache) (s : SplitMix),
    (Operation.learn (.ofEndpoint (.ofIp (.v4 ⟨8, 8, 8, 8⟩) 8333) (.ofSecs 1700000000))
      (.v4 ⟨9, 9, 9, 9⟩) 0 (.ofSecs 1700000000)).perform Rat (ofKey .standard default) ⟨[], 0⟩
        = .ok (c, s) ∧
    (Operation.load .ascending c.encode).perform Rat c s = .ok (d, s) ∧
    (⟨0⟩ : RecordId) ∈ c.records ∧ d.policy.allowUnroutable = false ∧
    ∀ m ∈ [d, c, ofKey .standard default], Routable m := by
  have hempty : Reachable Operation.IsLive (ofKey .standard default) := .ofKey .standard default
  have hlive : (Operation.learn (.ofEndpoint (.ofIp (.v4 ⟨8, 8, 8, 8⟩) 8333) (.ofSecs 1700000000))
      (.v4 ⟨9, 9, 9, 9⟩) 0 (.ofSecs 1700000000)).IsLive := trivial
  obtain ⟨c, s, hrun, hc, hr⟩ :=
    hempty.exists_learn_first Rat (.ofEndpoint (.ofIp (.v4 ⟨8, 8, 8, 8⟩) 8333) (.ofSecs 1700000000))
      (.v4 ⟨9, 9, 9, 9⟩) 0 (.ofSecs 1700000000) hlive (by decide) (⟨[], 0⟩ : SplitMix)
  obtain ⟨-, hpolicy, -⟩ := (Operation.ensures_perform hempty.coherent _).of_run hrun
  obtain ⟨d, hload, -, hpolicy', -⟩ := hc.coherent.exists_load c .ascending s
  have hperform : (Operation.load .ascending c.encode).perform Rat c s = .ok (d, s) :=
    Draw.run_map Prod.snd hload
  have hstrict : c.policy.allowUnroutable = false := by rw [hpolicy]; rfl
  have hadmitted := hc.admitted
  simp only [Policy.admits_eq_isRoutable hstrict] at hadmitted
  have htrace : Trace (fun _ => True)
      [(c, .load .ascending c.encode), (ofKey .standard default, _)] d :=
    .step (.step (.ofKey .standard default) trivial hrun) trivial hperform
  refine ⟨c, d, s, hrun, hperform, (mem_iff_exists_getElem? c.records _).mpr ⟨_, hr⟩,
    hpolicy' ▸ hstrict, (htrace.routable_iff (hpolicy' ▸ hstrict)).mpr ?_⟩
  simp only [List.forall_mem_cons]
  exact ⟨hc.coherent.bringsRoutable_encode hadmitted c.policy .ascending, trivial, by simp⟩

/-- A cache that keeps unroutable addresses out loads the bytes of one that lets them in,
and holds a private address. -/
theorem load_stores_private_address : ∃ (c d : Cache) (s : SplitMix),
    (Operation.learn (.ofEndpoint (.ofIp (.v4 ⟨192, 168, 1, 10⟩) 8333) (.ofSecs 1700000000))
      (.v4 ⟨9, 9, 9, 9⟩) 0 (.ofSecs 1700000000)).perform Rat (ofKey .testing default) ⟨[], 0⟩
        = .ok (c, s) ∧
    Trace (fun _ => True) [(ofKey .standard default, .load .ascending c.encode)] d ∧
    d.policy.allowUnroutable = false ∧
    (∃ r : Record, d.find? (.ofIp (.v4 ⟨192, 168, 1, 10⟩) 8333) = some r ∧
      r.ip.isRoutable = false) ∧ ¬ Routable d := by
  have hempty : Reachable (fun _ => True) (ofKey .testing default) := .ofKey .testing default
  obtain ⟨c, s, hrun, hc, hr⟩ := hempty.exists_learn_first Rat
    (.ofEndpoint (.ofIp (.v4 ⟨192, 168, 1, 10⟩) 8333) (.ofSecs 1700000000))
    (.v4 ⟨9, 9, 9, 9⟩) 0 (.ofSecs 1700000000) trivial (by decide) (⟨[], 0⟩ : SplitMix)
  obtain ⟨d, hload, hd, hpolicy, -, hsame⟩ :=
    hc.coherent.exists_load (ofKey .standard default) .ascending s
  have hfound := find?_of_saved hc.coherent hd hsame hr
  rw [Option.map_eq_some_iff] at hfound
  obtain ⟨t, ht, heq⟩ := hfound
  have hip : t.ip = .v4 ⟨192, 168, 1, 10⟩ := Record.congr_unranked heq Record.ip fun _ => rfl
  have hprivate : t.ip.isRoutable = false := by
    rw [hip]
    decide
  have hperform : (Operation.load .ascending c.encode).perform Rat (ofKey .standard default) s
      = .ok (d, s) :=
    Draw.run_map Prod.snd hload
  refine ⟨c, d, s, hrun, .step (.ofKey .standard default) trivial hperform, ?_,
    ⟨t, ht, hprivate⟩, fun hclean => ?_⟩
  · rw [hpolicy]
    rfl
  · rw [find?, Option.map_eq_some_iff] at ht
    obtain ⟨⟨id, t'⟩, hlookup, rfl⟩ := ht
    have hroutable := hclean.stored id t' (lookup_eq_some hlookup).1
    exact absurd (hprivate.symm.trans hroutable) (by decide)

end Cache

end PeerCache
