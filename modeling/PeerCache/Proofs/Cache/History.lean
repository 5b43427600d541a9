import PeerCache.Proofs.Cache.Runs

/-!
# `PeerCache.Proofs.Cache.History`: what an operation does to each record

`Operation.effect` says what an operation makes of one record, apart from its table, its
references and its place in the sampling order, and `Operation.effect_cases` lists the ways
in which it may come out. `Operation.ensures_origin` says that this is all: a record that is
there after an operation was there before, with the effect applied to it, or it was added
by an announcement of an unknown address.

A load is left out, since its records come from the bytes. Every other operation is
*live*. A clearing leaves no record to speak of.

`Trace` keeps the operations that led to a cache, so that statements about a record can
refer to its past. The part of it since the record was added is its `life`, and `Trace.keeps`
is the induction along it. `Stays` follows one record from any cache on for as long as it is
stored, and `Stays.keeps` is the induction along that.
-/

set_option autoImplicit false

namespace PeerCache

/-- Whether the policy lets an address into the cache. -/
def Policy.admits (p : Policy) (ip : Ip) : Bool := p.allowUnroutable || ip.isRoutable

namespace Cache

variable {c d : Cache} {id j : RecordId} {r s : Record} {e : Endpoint}

/-- The operation does not take its records from stored bytes. -/
def Operation.IsLive : Operation → Prop
  | .load _ _ => False
  | _ => True

/-- What an operation makes of a record that is stored before and after it. -/
def Operation.effect (policy : Policy) : Operation → Record → Record
  | .learn a _ penalty now, r =>
    if policy.admits a.canonical.ip ∧ r.ip = a.canonical.ip then r.merge a.canonical penalty now
    else r
  | .confirm e now, r => if r.endpoint = e.canonical then r.reached now else r
  | .noteAttempt e now, r => if r.endpoint = e.canonical then r.attempted now else r
  | .noteAlive e now, r =>
    if r.endpoint = e.canonical then
      if aliveStep < now.since r.peer.seen then r.alive now else r
    else r
  | .choose _, r | .sample _, r | .clear, r | .load _ _, r => r

/-- The operation is about the peer of the record. A dial names its endpoint, and an
announcement that the policy admits has its address. -/
def Operation.Concerns (policy : Policy) : Operation → Record → Prop
  | .learn a _ _ _, r => policy.admits a.canonical.ip = true ∧ r.ip = a.canonical.ip
  | .confirm e _, r | .noteAttempt e _, r | .noteAlive e _, r => r.endpoint = e.canonical
  | .choose _, _ | .sample _, _ | .clear, _ | .load _ _, _ => False

/-- An operation about other peers makes nothing of a record. -/
theorem Operation.effect_of_not_concerns {op : Operation} {policy : Policy}
    (h : ¬ op.Concerns policy r) : op.effect policy r = r := by
  cases op with
  | learn | confirm | noteAttempt | noteAlive => exact if_neg h
  | choose | sample | clear | load => rfl

/-- The ways in which an operation may leave a record `r`. -/
inductive Operation.Effect (policy : Policy) (r : Record) : Operation → Record → Prop where
  /-- The operation is not about the peer. -/
  | none {op : Operation} (h : ¬ op.Concerns policy r) : Effect policy r op r
  | merged {a : Announcement} {source : Ip} {penalty : Nat} {now : Timestamp}
      (hadmits : policy.admits a.canonical.ip = true) (hip : r.ip = a.canonical.ip) :
      Effect policy r (.learn a source penalty now) (r.merge a.canonical penalty now)
  | reached {e : Endpoint} {now : Timestamp} (he : r.endpoint = e.canonical) :
      Effect policy r (.confirm e now) (r.reached now)
  | attempted {e : Endpoint} {now : Timestamp} (he : r.endpoint = e.canonical) :
      Effect policy r (.noteAttempt e now) (r.attempted now)
  | alive {e : Endpoint} {now : Timestamp} (he : r.endpoint = e.canonical)
      (hstep : aliveStep < now.since r.peer.seen) : Effect policy r (.noteAlive e now) (r.alive now)
  /-- The peer was seen too lately for the session to matter. -/
  | unmoved {e : Endpoint} {now : Timestamp} (he : r.endpoint = e.canonical)
      (hstep : ¬ aliveStep < now.since r.peer.seen) : Effect policy r (.noteAlive e now) r

theorem Operation.effect_cases (op : Operation) (policy : Policy) (r : Record) :
    Effect policy r op (op.effect policy r) := by
  by_cases hconcerns : op.Concerns policy r
  · cases op with
    | learn =>
        rw [Operation.effect, if_pos ⟨hconcerns.1, hconcerns.2⟩]
        exact .merged hconcerns.1 hconcerns.2
    | confirm =>
        have he : r.endpoint = _ := hconcerns
        rw [Operation.effect, if_pos he]
        exact .reached he
    | noteAttempt =>
        have he : r.endpoint = _ := hconcerns
        rw [Operation.effect, if_pos he]
        exact .attempted he
    | noteAlive =>
        have he : r.endpoint = _ := hconcerns
        rw [Operation.effect, if_pos he]
        split
        · next hstep => exact .alive he hstep
        · next hstep => exact .unmoved he hstep
    | choose | sample | clear | load => exact hconcerns.elim
  · rw [Operation.effect_of_not_concerns hconcerns]
    exact .none hconcerns

/-- No operation changes the endpoint of a record, or who announced it first. -/
theorem Operation.effect_kind (op : Operation) (policy : Policy) (r : Record) :
    (op.effect policy r).endpoint = r.endpoint ∧ (op.effect policy r).source = r.source := by
  have heffect := op.effect_cases policy r
  generalize op.effect policy r = s at heffect ⊢
  cases heffect <;> exact ⟨rfl, rfl⟩

/-- So a record with the history that the effect leaves is about the same peer. -/
theorem Operation.kind_of_sameHistory {op : Operation} {policy : Policy}
    (h : (op.effect policy r).SameHistory s) :
    s.endpoint = r.endpoint ∧ s.ip = r.ip ∧ s.source = r.source := by
  obtain ⟨hendpoint, hsource⟩ := op.effect_kind policy r
  rw [h]
  exact ⟨hendpoint, congrArg Endpoint.ip hendpoint, hsource⟩

/-- Where a record that is stored after an operation comes from. -/
inductive Origin (op : Operation) (c : Cache) (id : RecordId) (s : Record) : Prop where
  /-- The record was there before, and the operation had its effect on it. -/
  | kept {r : Record} (hr : c.records[id]? = some r)
      (hsame : (op.effect c.policy r).SameHistory s)
  /-- An announcement added the record. -/
  | added {a : Announcement} {source : Ip} {penalty : Nat} {now : Timestamp}
      (hop : op = .learn a source penalty now) (hnone : c.records[id]? = none)
      (hsame : (c.newcomer a source penalty).SameHistory s)

/-! ### Announcements -/

section

variable {a : Announcement} {source : Ip} {penalty : Nat} {now : Timestamp} {counts created : Bool}
  {b : Fin newBucketCount} {p : Fin bucketSize}

/-- An offer adds no record. -/
theorem Offered.descends (h : Offered c id r b p created now counts d) (hc : Placed c) :
    Descends c d := by
  cases h with
  | free => exact descends_addReference c b p id
  | held | refused => exact .refl c
  | takenOver _ _ _ hcleared =>
      exact (hcleared.descends hc).trans (descends_addReference _ b p id)
  | dropped _ _ _ _ hremoved => exact hremoved.descends

/-- The record of the announced address takes the announcement in, and no other. -/
theorem exists_of_merged (h : Indexed c) (hr : c.records[id]? = some r)
    (hip : r.ip = a.canonical.ip) (hadmits : c.policy.admits a.canonical.ip = true)
    (source : Ip) (hs : (c.merged id r a penalty now).records[j]? = some s) :
    ∃ t : Record, c.records[j]? = some t ∧
      s = (Operation.learn a source penalty now).effect c.policy t := by
  by_cases hj : j = id
  · subst hj
    rw [getElem?_merged_self hr] at hs
    cases hs
    exact ⟨r, hr, (if_pos ⟨hadmits, hip⟩).symm⟩
  · rw [getElem?_merged_of_ne hj] at hs
    refine ⟨s, hs, (if_neg fun hboth => hj ?_).symm⟩
    exact h.id_unique hs hr (hboth.2.trans hip.symm)

/-- Where the records come from when an announcement is admitted. -/
theorem Learnt.origin (h : Learnt c a source penalty now counts d) (hc : Coherent ∅ ∅ c)
    (hadmits : c.policy.admits a.canonical.ip = true) (hs : d.records[j]? = some s) :
    Origin (.learn a source penalty now) c j s := by
  cases h with
  | ignored hpolicy hroute =>
      rw [Policy.admits, hpolicy, hroute] at hadmits
      cases hadmits
  | merged hr hip =>
      obtain ⟨t, ht, rfl⟩ := exists_of_merged hc.toIndexed hr hip hadmits source hs
      exact .kept ht rfl
  | offered hr hip _ _ hoffered =>
      -- The merge comes first, and the offer keeps every history.
      have hplaced := (hc.merged hr a penalty now).toPlaced
      obtain ⟨m, hm, hsame⟩ := hoffered.descends hplaced j s hs
      obtain ⟨t, ht, rfl⟩ := exists_of_merged hc.toIndexed hr hip hadmits source hm
      exact .kept ht hsame
  | created hunknown _ hoffered =>
      obtain ⟨hcreated, -, -⟩ := hc.created a source penalty hunknown
      obtain ⟨m, hm, hsame⟩ := hoffered.descends hcreated.toPlaced j s hs
      rw [records_created] at hm
      by_cases hj : j = ⟨c.nextId⟩
      · rw [if_pos hj] at hm
        cases hm
        exact .added rfl (hj ▸ hc.getElem?_nextId) hsame
      · rw [if_neg hj] at hm
        refine .kept hm ?_
        -- No record has the address, so the announcement is about none of them.
        have hother : ¬ (c.policy.admits a.canonical.ip ∧ m.ip = a.canonical.ip) := by
          rintro ⟨-, hip⟩
          have hknown := (hc.addresses_iff m.ip j).mpr ⟨m, hm, rfl⟩
          rw [hip, hunknown] at hknown
          cases hknown
        rw [Operation.effect, if_neg hother]
        exact hsame

variable {σ : Type} [RandomSource σ]

/-- An announcement that the policy does not admit changes nothing. -/
theorem Coherent.learn_unadmitted (h : Coherent ∅ ∅ c)
    (hstop : c.policy.admits a.canonical.ip = false) (source : Ip) (penalty : Nat)
    (now : Timestamp) (s : σ) : c.learn a source penalty now s = .ok ((false, c), s) := by
  have hguard : (!c.policy.allowUnroutable && !a.canonical.ip.isRoutable) = true := by
    simpa [Policy.admits] using hstop
  have hunaudited : c.learnUnaudited a source penalty now s = .ok ((false, c), s) := by
    unfold Cache.learnUnaudited
    dsimp only
    rw [if_pos hguard]
    rfl
  unfold Cache.learn
  rw [Draw.run_bind hunaudited]
  exact (Draw.run_bind (Draw.run_lift h.audited s)).trans rfl

theorem Coherent.learn_origin (h : Coherent ∅ ∅ c) (a : Announcement) (source : Ip)
    (penalty : Nat) (now : Timestamp) :
    (c.learn a source penalty now : Draw σ (Bool × Cache)).Ensures fun x =>
      Learnt c a source penalty now x.1 x.2 ∧ ∀ (j : RecordId) (s : Record),
        x.2.records[j]? = some s → Origin (.learn a source penalty now) c j s := by
  intro s
  obtain ⟨x, s', hrun, -, -, hlearnt⟩ := h.learn a source penalty now s
  refine ⟨x, s', hrun, hlearnt, fun j t ht => ?_⟩
  cases hadmits : c.policy.admits a.canonical.ip with
  | true => exact hlearnt.origin h hadmits ht
  | false =>
      rw [h.learn_unadmitted hadmits] at hrun
      cases hrun
      have hstop : ¬ (c.policy.admits a.canonical.ip = true ∧ t.ip = a.canonical.ip) := by
        rw [hadmits]
        exact nofun
      refine .kept ht ?_
      rw [Operation.effect, if_neg hstop]
      rfl

end

/-! ### Dials -/

/-- The record that has an endpoint is rewritten, if there is one. -/
structure Rewritten (e : Endpoint) (f : Record → Record) (c d : Cache) : Prop where
  rest : d = { c with records := d.records }
  record : ∀ j : RecordId, d.records[j]? =
    c.records[j]?.map fun r => if r.endpoint = e.canonical then f r else r

section

variable {f : Record → Record} {now : Timestamp}

/-- One record has the endpoint, and both ways of rewriting it come to the same. -/
theorem rewritten_modifyRecord {g : Record → Record} (h : Indexed c)
    (hlookup : c.lookup e = some (id, r)) (hfg : g r = f r) :
    Rewritten e f c (c.modifyRecord id g) where
  rest := rfl
  record j := by
    obtain ⟨hr, he⟩ := lookup_eq_some hlookup
    rw [records_modifyRecord]
    cases hs : c.records[j]? with
    | none => rfl
    | some s =>
        rw [Option.map_some, Option.map_some]
        by_cases hj : j = id
        · subst hj
          rw [hr] at hs
          cases hs
          rw [if_pos rfl, if_pos he, hfg]
        · have hne : s.endpoint ≠ e.canonical := fun he' =>
            hj (h.id_unique hs hr (congrArg Endpoint.ip (he'.trans he.symm)))
          rw [if_neg hj, if_neg hne]

theorem rewritten_self
    (hsame : ∀ (j : RecordId) (s : Record), c.records[j]? = some s →
      s.endpoint = e.canonical → f s = s) : Rewritten e f c c where
  rest := rfl
  record j := by
    cases hs : c.records[j]? with
    | none => rfl
    | some s =>
        by_cases he : s.endpoint = e.canonical
        · rw [Option.map_some, if_pos he, hsame j s hs he]
        · rw [Option.map_some, if_neg he]

theorem rewritten_unknown (h : Indexed c) (hlookup : c.lookup e = none) (f : Record → Record) :
    Rewritten e f c c :=
  rewritten_self fun j s hs he => absurd he (h.lookup_eq_none_iff.mp hlookup j s hs)

theorem Coherent.noteAttempt_rewritten (h : Coherent ∅ ∅ c) (e : Endpoint) (now : Timestamp) :
    ∃ d : Cache, c.noteAttempt e now = .ok d ∧ Rewritten e (·.attempted now) c d := by
  cases hlookup : c.lookup e with
  | none => exact ⟨c, (h.note_unknown hlookup now).1, rewritten_unknown h.toIndexed hlookup _⟩
  | some found =>
      obtain ⟨id, r⟩ := found
      exact ⟨_, (h.noteAttempt_known hlookup now).1, rewritten_modifyRecord h.toIndexed hlookup rfl⟩

theorem Coherent.noteAlive_rewritten (h : Coherent ∅ ∅ c) (e : Endpoint) (now : Timestamp) :
    ∃ d : Cache, c.noteAlive e now = .ok d ∧
      Rewritten e (fun r => if aliveStep < now.since r.peer.seen then r.alive now else r) c d := by
  cases hlookup : c.lookup e with
  | none => exact ⟨c, (h.note_unknown hlookup now).2, rewritten_unknown h.toIndexed hlookup _⟩
  | some found =>
      obtain ⟨id, r⟩ := found
      obtain ⟨d, hrun, -, hd⟩ := h.noteAlive_known hlookup now
      refine ⟨d, hrun, ?_⟩
      by_cases hstep : aliveStep < now.since r.peer.seen
      · rw [if_pos hstep] at hd
        subst hd
        exact rewritten_modifyRecord h.toIndexed hlookup (if_pos hstep).symm
      · rw [if_neg hstep] at hd
        subst hd
        refine rewritten_self fun j s hs he => ?_
        rw [h.lookup_eq_some_iff.mpr ⟨hs, he⟩] at hlookup
        cases hlookup
        exact if_neg hstep

/-- Reaching an endpoint rewrites its record, and then promotes it when it is new. -/
theorem Coherent.confirm_rewritten {σ : Type} [RandomSource σ] (h : Coherent ∅ ∅ c)
    (e : Endpoint) (now : Timestamp) :
    (c.confirm e now : Draw σ (Confirmation × Cache)).Ensures fun x =>
      ∃ m : Cache, Rewritten e (·.reached now) c m ∧ (x.2 = m ∨
        ∃ (id : RecordId) (r : Record) (evicted : Option Endpoint), Coherent ∅ ∅ m ∧
          Descends m x.2 ∧ Promoted id r evicted m x.2) := by
  intro s
  cases hlookup : c.lookup e with
  | none =>
      exact ⟨_, s, h.confirm_unknown hlookup now s, c, rewritten_unknown h.toIndexed hlookup _,
        Or.inl rfl⟩
  | some found =>
      obtain ⟨id, r⟩ := found
      have hrewritten : Rewritten e (·.reached now) c (c.modifyRecord id fun r => r.reached now) :=
        rewritten_modifyRecord h.toIndexed hlookup rfl
      cases htried : r.inTried with
      | true => exact ⟨_, s, h.confirm_tried hlookup htried now s, _, hrewritten, Or.inl rfl⟩
      | false =>
          -- The history is written before the record is moved.
          obtain ⟨evicted, d, hrun, -, hdescends, hpromoted⟩ :=
            h.confirm_new hlookup htried now s
          exact ⟨_, _, hrun, _, hrewritten,
            Or.inr ⟨id, _, evicted, h.reached id now, hdescends, hpromoted⟩⟩

theorem Rewritten.origin {op : Operation} (h : Rewritten e f c d)
    (hop : ∀ r : Record, op.effect c.policy r = if r.endpoint = e.canonical then f r else r)
    (hs : d.records[j]? = some s) : Origin op c j s := by
  rw [h.record, Option.map_eq_some_iff] at hs
  obtain ⟨r, hr, rfl⟩ := hs
  refine .kept hr ?_
  rw [hop]
  rfl

end

/-! ### One operation -/

theorem Descends.origin {op : Operation} (h : Descends c d)
    (hop : ∀ r : Record, op.effect c.policy r = r) (hs : d.records[j]? = some s) :
    Origin op c j s := by
  obtain ⟨r, hr, hsame⟩ := h j s hs
  refine .kept hr ?_
  rw [hop]
  exact hsame

/-- A record that was stored before has had the effect of the operation. -/
theorem Origin.sameHistory {op : Operation} (h : Origin op c id s)
    (hr : c.records[id]? = some r) : (op.effect c.policy r).SameHistory s := by
  cases h with
  | kept hr' hsame =>
      rw [hr] at hr'
      cases hr'
      exact hsame
  | added _ hnone =>
      rw [hr] at hnone
      cases hnone

theorem Origin.of_descends {op : Operation} {m : Cache} {t : Record}
    (h : ∀ s : Record, m.records[j]? = some s → Origin op c j s) (hmd : Descends m d)
    (ht : d.records[j]? = some t) : Origin op c j t := by
  obtain ⟨s, hs, hst⟩ := hmd j t ht
  cases h s hs with
  | kept hr hsame => exact .kept hr (hsame.trans hst)
  | added hop hnone hsame => exact .added hop hnone (hsame.trans hst)

variable {σ : Type} [RandomSource σ] {w : Type} [Weight w]

/-- A record that is stored after a live operation was stored before, and the operation
had its effect on it, or it was added by an announcement. -/
theorem Operation.ensures_origin (h : Coherent ∅ ∅ c) (op : Operation) (hop : op.IsLive) :
    (op.perform w c : Draw σ Cache).Ensures fun d =>
      ∀ (j : RecordId) (s : Record), d.records[j]? = some s → Origin op c j s := by
  cases op with
  | learn a source penalty now =>
      exact (h.learn_origin a source penalty now).map fun x hx => hx.2
  | confirm e now =>
      refine (h.confirm_rewritten e now).map fun x hx j s hs => ?_
      obtain ⟨m, hm, hx⟩ := hx
      have horigin : ∀ t, m.records[j]? = some t → Origin (.confirm e now) c j t :=
        fun t ht => hm.origin (fun _ => rfl) ht
      rcases hx with rfl | ⟨id, r, evicted, -, hdescends, -⟩
      · exact horigin s hs
      · exact .of_descends horigin hdescends hs
  | noteAttempt e now =>
      obtain ⟨d, hrun, hd⟩ := h.noteAttempt_rewritten e now
      exact .lift hrun fun j s hs => hd.origin (fun _ => rfl) hs
  | noteAlive e now =>
      obtain ⟨d, hrun, hd⟩ := h.noteAlive_rewritten e now
      exact .lift hrun fun j s hs => hd.origin (fun _ => rfl) hs
  | choose now =>
      exact (ensures_choose w c now).map fun _ _ j s hs =>
        (Descends.refl c).origin (fun _ => rfl) hs
  | sample now =>
      exact (h.sample now).map fun x hx j s hs => hx.2.descends.origin (fun _ => rfl) hs
  | clear =>
      refine (ensures_new c.policy).mono fun d hd j s hs => ?_
      obtain ⟨key, rfl⟩ := hd
      simp [ofKey] at hs
  | load => exact hop.elim

/-! ### The operations that led to a cache -/

/-- The operations that have led from an empty cache to another one, the latest first,
each with the cache that it met. -/
inductive Trace (allowed : Operation → Prop) : List (Cache × Operation) → Cache → Prop where
  | ofKey (policy : Policy) (key : PlacementKey) : Trace allowed [] (ofKey policy key)
  | step {σ w : Type} [RandomSource σ] [Weight w] {past : List (Cache × Operation)} {c d : Cache}
      {op : Operation} {s s' : σ} (hc : Trace allowed past c) (hop : allowed op)
      (hrun : op.perform w c s = .ok (d, s')) : Trace allowed ((c, op) :: past) d

variable {allowed : Operation → Prop} {past : List (Cache × Operation)}

theorem Trace.reachable (h : Trace allowed past c) : Reachable allowed c := by
  induction h with
  | ofKey policy key => exact .ofKey policy key
  | step _ hop hrun ih => exact ih.step hop hrun

/-- The operations that a record has seen since it was added, the latest first. The past
is followed back to the operation that met a cache without the record, which is the
announcement that has added it. -/
def life (id : RecordId) : List (Cache × Operation) → List Operation
  | [] => []
  | (c, op) :: past => op :: if id ∈ c.records then life id past else []

/-- What holds of a record when an announcement adds it, and is kept by the effect of
every operation, holds of every record, and its life tells how it came about. -/
theorem Trace.keeps (h : Trace Operation.IsLive past c) {P : List Operation → Record → Prop}
    (hadded : ∀ (m : Cache) (a : Announcement) (source : Ip) (penalty : Nat) (now : Timestamp)
      (s : Record), (m.newcomer a source penalty).SameHistory s →
        P [.learn a source penalty now] s)
    (hkept : ∀ (ops : List Operation) (op : Operation) (r s : Record), P ops r →
      (op.effect c.policy r).SameHistory s → P (op :: ops) s)
    (hr : c.records[id]? = some r) : P (life id past) r := by
  induction h generalizing r with
  | ofKey policy key => simp [Cache.ofKey] at hr
  | @step _ _ _ _ past m d op _ _ htrace hop hrun ih =>
      have hm := htrace.reachable.coherent
      obtain ⟨-, hpolicy, -⟩ := (Operation.ensures_perform hm op).of_run hrun
      rw [hpolicy] at hkept
      rw [life]
      cases (Operation.ensures_origin hm op hop).of_run hrun id r hr with
      | @kept t ht hsame =>
          rw [if_pos ((mem_iff_exists_getElem? m.records id).mpr ⟨t, ht⟩)]
          exact hkept _ op t r (ih hkept ht) hsame
      | @added a source penalty now hlearn hnone hsame =>
          have hnew : id ∉ m.records := fun hmem => by
            obtain ⟨t, ht⟩ := (mem_iff_exists_getElem? m.records id).mp hmem
            rw [hnone] at ht
            cases ht
          rw [if_neg hnew, hlearn]
          exact hadded m a source penalty now r hsame

/-! ### A record while it stays -/

/-- Allowed operations lead from `c` to `d`, and the record numbered `id` is stored all
the way. It is `r` at the beginning and `s` in the end. The latest operation comes
first. -/
inductive Stays (allowed : Operation → Prop) (id : RecordId) (c : Cache) (r : Record) :
    List Operation → Cache → Record → Prop where
  | refl (hr : c.records[id]? = some r) : Stays allowed id c r [] c r
  | step {σ w : Type} [RandomSource σ] [Weight w] {ops : List Operation} {m d : Cache}
      {op : Operation} {s t : Record} {x x' : σ} (hm : Stays allowed id c r ops m s)
      (hop : allowed op) (hrun : op.perform w m x = .ok (d, x')) (ht : d.records[id]? = some t) :
      Stays allowed id c r (op :: ops) d t

namespace Stays

variable {ops : List Operation}

theorem stored (h : Stays allowed id c r ops d s) : d.records[id]? = some s := by
  cases h with
  | refl hr => exact hr
  | step _ _ _ ht => exact ht

theorem coherent (h : Stays allowed id c r ops d s) (hc : Coherent ∅ ∅ c) :
    Coherent ∅ ∅ d ∧ d.policy = c.policy := by
  induction h with
  | refl => exact ⟨hc, rfl⟩
  | step _ _ hrun _ ih =>
      obtain ⟨hd, hpolicy, -⟩ := (Operation.ensures_perform ih.1 _).of_run hrun
      exact ⟨hd, hpolicy.trans ih.2⟩

/-- What holds at the beginning and is kept by the effect of every allowed operation
holds in the end. Whatever happens to other records has no bearing on it. -/
theorem keeps (h : Stays allowed id c r ops d s) (hc : Coherent ∅ ∅ c)
    (hlive : ∀ op, allowed op → op.IsLive) {P : List Operation → Record → Prop} (hstart : P [] r)
    (hstep : ∀ (ops : List Operation) (op : Operation) (s t : Record), allowed op → P ops s →
      (op.effect c.policy s).SameHistory t → P (op :: ops) t) : P ops s := by
  induction h with
  | refl => exact hstart
  | step hm hop hrun ht ih =>
      obtain ⟨hcoherent, hpolicy⟩ := hm.coherent hc
      have horigin := (Operation.ensures_origin hcoherent _ (hlive _ hop)).of_run hrun id _ ht
      have hsame := horigin.sameHistory hm.stored
      rw [hpolicy] at hsame
      exact hstep _ _ _ _ hop ih hsame

end Stays

end Cache

end PeerCache
