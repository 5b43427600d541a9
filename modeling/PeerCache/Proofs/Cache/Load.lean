import PeerCache.Cache.Load
import PeerCache.Proofs.Cache.Audit
import PeerCache.Proofs.Cache.Promotion
import PeerCache.Proofs.Cache.Stored

/-!
# `PeerCache.Proofs.Cache.Load`: what loading can lead to

The bytes may come from anyone. Whatever they are, the decoder builds the cache by
steps that keep the invariant (`Loading`): a stored record is added without a slot,
and slots are given one at a time, each to a record that belongs there and only
while it is free. Until all bucket lists are read any record may be loose. The loose
ones are removed at the end, and the audit that closes a load finds nothing.

So the refusals of the decoder are the only errors (`Refusal`).
-/

set_option autoImplicit false

namespace PeerCache

open Decoder

namespace Cache

variable {c : Cache} {s : StoredRecord} {loose : Set RecordId} {policy : Policy}

/-! ### Adding stored records -/

/-- A stored record is added unless its address is known. -/
theorem insertStored_eq (c : Cache) (s : StoredRecord) : c.insertStored s =
    if c.addresses.contains s.ip then .error (.duplicateAddress s.ip)
    else .ok (⟨c.nextId⟩, c.inserted (s.toRecord c.order.size)) := by
  simp only [insertStored, Cache.inserted, StoredRecord.toRecord_ip]

/-- Adding a stored new record when there are bucket lists. -/
theorem loadNew_of_unknown (hunknown : ¬ c.addresses.contains s.ip) : c.loadNew true s =
    .ok { c.inserted (s.toRecord c.order.size) with newCount := c.newCount + 1 } := by
  unfold Cache.loadNew
  rw [insertStored_eq, if_neg hunknown]
  rfl

/-- Adding a stored tried record whose slot is free. -/
theorem loadTried_of_free (hunknown : ¬ c.addresses.contains s.ip) {b : Fin triedBucketCount}
    {p : Fin bucketSize} (hslot : c.triedSlot s.endpoint = (b, p))
    (hfree : c.triedTable.get b p = none) (lost : Nat) : Cache.loadTried (c, lost) s =
      .ok ((c.inserted (s.toRecord c.order.size)).seated b p ⟨c.nextId⟩, lost) := by
  unfold Cache.loadTried
  dsimp only
  rw [if_neg hunknown, hslot]
  dsimp only
  rw [hfree, if_neg (by simp), insertStored_eq, if_neg hunknown]
  rfl

theorem newcomer_toRecord (hs : s.Canonical) (hunknown : ¬ c.addresses.contains s.ip) :
    c.Newcomer (s.toRecord c.order.size) where
  orderIndex := rfl
  refs := rfl
  inTried := rfl
  endpoint := by
    show (Endpoint.ofIp s.ip s.port).canonical = Endpoint.ofIp s.ip s.port
    simp [Endpoint.canonical, hs.ip]
  source := hs.source
  address := by
    rw [StoredRecord.toRecord_ip]
    simpa using hunknown

/-- The state of a load under a policy. Any record may be loose. The records whose
numbers lie below the number of new records are the new ones. -/
structure Loading (policy : Policy) (newTotal : Nat) (c : Cache) : Prop
    extends Coherent Set.univ ∅ c where
  policy_eq : c.policy = policy
  newTotal_le : ∀ (id : RecordId) (r : Record), c.records[id]? = some r → r.inTried = true →
    newTotal ≤ id.number
  dated : Every Record.Dated c

/-- Steps that keep the invariant and the history keep a load going. -/
theorem Loading.of_descends {newTotal : Nat} {d : Cache} (h : Loading policy newTotal c)
    (hd : Coherent Set.univ ∅ d) (hpolicy : d.policy = c.policy) (hdescends : Descends c d)
    (htried : ∀ (id : RecordId) (r : Record), d.records[id]? = some r → r.inTried = true →
      newTotal ≤ id.number) : Loading policy newTotal d where
  toCoherent := hd
  policy_eq := hpolicy.trans h.policy_eq
  newTotal_le := htried
  dated := hdescends.dated h.dated

/-- A record that is offered a free slot takes it as any record takes a slot. -/
theorem offerFree_of_some {id : RecordId} {r : Record} (hr : c.records[id]? = some r)
    (b : Fin newBucketCount) : c.offerFree id b =
      if c.newTable.get b (c.newSlot b r.endpoint) = none ∧ r.refs < maxReferences then
        c.addReference b (c.newSlot b r.endpoint) id
      else c := by
  simp [Cache.offerFree, hr, Cache.addReference]

/-- Offering a slot to a new record keeps the invariant. -/
theorem Loading.offerFree {newTotal : Nat} (h : Loading policy newTotal c) {id : RecordId}
    (hnew : ∀ r, c.records[id]? = some r → r.inTried = false) (b : Fin newBucketCount) :
    Loading policy newTotal (c.offerFree id b) ∧ (c.offerFree id b).nextId = c.nextId := by
  cases hr : c.records[id]? with
  | none =>
      rw [show c.offerFree id b = c by simp [Cache.offerFree, hr]]
      exact ⟨h, rfl⟩
  | some r =>
      rw [offerFree_of_some hr]
      split
      · next hok =>
        have hput : Coherent (Set.univ \ {id}) ∅ (c.addReference b (c.newSlot b r.endpoint) id) :=
          h.toCoherent.addReference hok.1 hr (hnew r hr) hok.2 rfl
        have hdescends := descends_addReference c b (c.newSlot b r.endpoint) id
        -- The record has a slot now, and may be called loose all the same.
        refine ⟨h.of_descends (hput.mono fun _ _ _ _ _ _ => trivial) rfl hdescends
          fun j s hs htried => ?_, rfl⟩
        rw [records_addReference, Option.map_eq_some_iff] at hs
        obtain ⟨r', hr', rfl⟩ := hs
        refine h.newTotal_le j r' hr' ?_
        by_cases hj : j = id <;> simpa [hj] using htried
      · exact ⟨h, rfl⟩

/-- A stored record that is added keeps a load going. -/
theorem Loading.inserted {newTotal : Nat} (h : Loading policy newTotal c) (hs : s.Canonical)
    (hunknown : ¬ c.addresses.contains s.ip) :
    Coherent Set.univ {⟨c.nextId⟩} (c.inserted (s.toRecord c.order.size)) ∧
      (∀ (id : RecordId) (r : Record),
        (c.inserted (s.toRecord c.order.size)).records[id]? = some r →
          (r.inTried = true → newTotal ≤ id.number) ∧ r.Dated) := by
  have hinserted := h.toCoherent.inserted (newcomer_toRecord hs hunknown)
  rw [insert_empty_eq] at hinserted
  refine ⟨hinserted.mono fun _ _ _ _ _ _ => trivial, fun id r hr => ?_⟩
  rcases getElem?_of_inserted hr with ⟨-, rfl⟩ | hr
  · exact ⟨nofun, StoredRecord.toTime?_ne_zero _, StoredRecord.toTime?_ne_zero _⟩
  · exact ⟨h.newTotal_le id r hr, h.dated id r hr⟩

/-- Adding a stored new record. -/
theorem Loading.loadNew {newTotal : Nat} (h : Loading policy newTotal c) (hs : s.Canonical)
    (listed : Bool) : Outcome Refusal (fun d => Loading policy newTotal d ∧ d.nextId = c.nextId + 1)
      (c.loadNew listed s) := by
  unfold Cache.loadNew
  rw [insertStored_eq]
  by_cases hunknown : c.addresses.contains s.ip = true
  · rw [if_pos hunknown]
    exact .duplicateAddress s.ip
  · rw [if_neg hunknown]
    obtain ⟨hcoherent, hrecords⟩ := h.inserted hs hunknown
    have hr : (c.inserted (s.toRecord c.order.size)).records[(⟨c.nextId⟩ : RecordId)]?
        = some (s.toRecord c.order.size) := by
      rw [records_inserted, if_pos rfl]
    have hcounted := hcoherent.countNew hr rfl (Finset.mem_singleton_self _)
    rw [Finset.erase_singleton] at hcounted
    have hadded : Loading policy newTotal { c.inserted (s.toRecord c.order.size) with
        newCount := (c.inserted (s.toRecord c.order.size)).newCount + 1 } :=
      ⟨hcounted, h.policy_eq, fun id r hr => (hrecords id r hr).1,
        fun id r hr => (hrecords id r hr).2⟩
    cases listed with
    | true => exact ⟨hadded, rfl⟩
    | false =>
        refine hadded.offerFree (fun r' hr' => ?_) _
        change (c.inserted (s.toRecord c.order.size)).records[(⟨c.nextId⟩ : RecordId)]? = _ at hr'
        rw [hr] at hr'
        cases hr'
        rfl

/-- Adding a stored tried record, or losing it. -/
theorem Loading.loadTried {newTotal : Nat} (h : Loading policy newTotal c) (hs : s.Canonical)
    (hnext : newTotal ≤ c.nextId) (lost : Nat) :
    Outcome Refusal (fun x => Loading policy newTotal x.1 ∧ newTotal ≤ x.1.nextId)
      (Cache.loadTried (c, lost) s) := by
  by_cases hunknown : c.addresses.contains s.ip = true
  · rw [show Cache.loadTried (c, lost) s = .error (.duplicateAddress s.ip) by
      simp [Cache.loadTried, hunknown]]
    exact .duplicateAddress s.ip
  obtain ⟨b, p, hslot⟩ : ∃ b p, c.triedSlot s.endpoint = (b, p) := ⟨_, _, rfl⟩
  cases hfree : c.triedTable.get b p with
  | some other =>
      -- The slot is taken, and the record is lost.
      rw [show Cache.loadTried (c, lost) s = .ok (c, lost + 1) by
        simp [Cache.loadTried, hunknown, hslot, hfree]]
      exact ⟨h, hnext⟩
  | none =>
      rw [loadTried_of_free hunknown hslot hfree]
      obtain ⟨hcoherent, hrecords⟩ := h.inserted hs hunknown
      have hr : (c.inserted (s.toRecord c.order.size)).records[(⟨c.nextId⟩ : RecordId)]?
          = some (s.toRecord c.order.size) := by
        rw [records_inserted, if_pos rfl]
      have hseated := hcoherent.seated hr rfl rfl (Finset.mem_singleton_self _) hslot hfree
      rw [Finset.erase_singleton] at hseated
      refine ⟨⟨hseated.mono fun _ _ _ _ _ _ => trivial, h.policy_eq, fun id r' hr' htried => ?_,
        fun id r' hr' => ?_⟩, Nat.le_succ_of_le hnext⟩
      · rw [records_seated, Option.map_eq_some_iff] at hr'
        obtain ⟨r, hr, rfl⟩ := hr'
        by_cases hid : id = ⟨c.nextId⟩
        · rw [hid]
          exact hnext
        · rw [if_neg hid] at htried
          exact (hrecords id r hr).1 htried
      · rw [records_seated, Option.map_eq_some_iff] at hr'
        obtain ⟨r, hr, rfl⟩ := hr'
        have hdated := (hrecords id r hr).2
        split
        · exact ⟨hdated.lastSuccess, hdated.lastTry⟩
        · exact hdated

/-- Following an entry of a bucket list. -/
theorem Loading.loadEntry {newTotal : Nat} (h : Loading policy newTotal c) (b : Fin newBucketCount)
    (entry : Nat) : Loading policy newTotal (Cache.loadEntry newTotal b c entry) := by
  unfold Cache.loadEntry
  split
  · next hlt =>
    -- A number below the total is that of a new record.
    refine (h.offerFree (fun r hr => ?_) b).1
    rw [← Bool.not_eq_true]
    intro htried
    exact absurd (h.newTotal_le ⟨entry⟩ r hr htried) (Nat.not_le_of_lt hlt)
  · exact h

/-- Reading a bucket list. -/
theorem Loading.decodeBucket {newTotal : Nat} (h : Loading policy newTotal c)
    (b : Fin newBucketCount) :
    (Cache.decodeBucket newTotal c b).Yields Refusal (Loading policy newTotal) := by
  refine .bind (yields_little 4 .truncated) fun n _ => ?_
  refine Yields.fold (I := fun _ => Loading policy newTotal) (yields_little 4 .truncated)
    (fun _ m entry hm _ => ?_) n 0 h
  exact hm.loadEntry b entry

theorem yields_skipBucket : skipBucket.Yields Refusal fun _ => True := by
  refine .bind (yields_little 4 .truncated) fun n _ => ?_
  refine Yields.fold (I := fun _ _ => True) (yields_little 4 .truncated) (fun _ _ _ _ _ => ?_)
    n 0 trivial
  trivial

/-- A load begins with the empty cache. -/
theorem loading_ofKey (policy : Policy) (key : PlacementKey) (newTotal : Nat) :
    Loading policy newTotal (ofKey policy key) where
  toCoherent := (coherent_ofKey policy key).mono fun _ _ _ _ _ _ => trivial
  policy_eq := rfl
  newTotal_le := by simp [ofKey]
  dated := every_ofKey _ policy key

/-- Whatever the bytes, the decoder refuses them or leads to a state of a load. -/
theorem yields_decode (policy : Policy) :
    (decode policy).Yields Refusal fun x => ∃ newTotal, Loading policy newTotal x.1 := by
  refine .bind (yields_little 1 .truncated) fun version _ => ?_
  refine .bind (yields_little 1 .truncated) fun size _ => ?_
  split
  · exact .throw_bind (.unsupportedKeySize _)
  refine .bind (yields_take keySize .truncated) fun keyBytes _ => ?_
  refine .bind (yields_little 4 .truncated) fun newTotal _ => ?_
  refine .bind (yields_little 4 .truncated) fun triedTotal _ => ?_
  refine .bind (yields_little 4 .truncated) fun buckets _ => ?_
  dsimp only
  split
  · exact .throw_bind (.tableTooLarge _ _)
  -- The records are read in the order of their numbers, the new ones first.
  have hnewStep : ∀ k m s, Loading policy newTotal m ∧ m.nextId = k → s.Canonical →
      Outcome Refusal (fun d => Loading policy newTotal d ∧ d.nextId = k + 1)
        (loadNew (version = formatVersion ∧ buckets ^^^ bucketMarker = newBucketCount) m s) := by
    rintro k m s ⟨hm, rfl⟩ hs
    exact hm.loadNew hs _
  have hstart := loading_ofKey policy ((PlacementKey.ofBytes? keyBytes).getD default) newTotal
  refine (Yields.fold StoredRecord.yields_decode hnewStep newTotal 0 ⟨hstart, rfl⟩).bind
    fun m hm => ?_
  have htriedStep : ∀ (_ : Nat) x s,
      Loading policy newTotal x.1 ∧ newTotal ≤ x.1.nextId → s.Canonical →
        Outcome Refusal (fun x => Loading policy newTotal x.1 ∧ newTotal ≤ x.1.nextId)
          (loadTried x s) :=
    fun _ x s hx hs => hx.1.loadTried hs hx.2 x.2
  have hbetween : Loading policy newTotal (m, 0).1 ∧ newTotal ≤ (m, 0).1.nextId :=
    ⟨hm.1, by rw [hm.2, Nat.zero_add]⟩
  refine (Yields.fold StoredRecord.yields_decode htriedStep triedTotal 0 hbetween).bind
    fun x hx => ?_
  obtain ⟨m, lost⟩ := x
  dsimp only
  split
  · generalize List.finRange newBucketCount = l
    have hlists := Yields.foldlM (l := l) (fun m b hm => Loading.decodeBucket hm b) hx.1
    exact hlists.bind fun m hm => .pure ⟨newTotal, hm⟩
  · refine .bind (Yields.fold (I := fun _ _ => True) yields_skipBucket (fun _ _ _ _ _ => ?_) _ 0
      trivial) fun _ _ => .pure ⟨newTotal, hx.1⟩
    trivial

/-! ### Removing what is left without a slot -/

@[simp] theorem mem_unplaced {id : RecordId} : id ∈ c.unplaced ↔
    ∃ r : Record, c.records[id]? = some r ∧ r.inTried = false ∧ r.refs = 0 := by
  simp [unplaced]

theorem nodup_unplaced (c : Cache) : c.unplaced.Nodup :=
  (nodup_ids c.records).sublist (List.filter_sublist.map _)

/-- What is left of a cache without some of its records. The others change at most their
places in the sampling order. -/
structure Pruned (l : List RecordId) (c d : Cache) : Prop where
  policy : d.policy = c.policy
  key : d.key = c.key
  nextId : d.nextId = c.nextId
  newTable : d.newTable = c.newTable
  triedTable : d.triedTable = c.triedTable
  triedCount : d.triedCount = c.triedCount
  gone : ∀ id ∈ l, d.records[id]? = none
  others : ∀ id ∉ l, d.records[id]?.map Record.unranked = c.records[id]?.map Record.unranked

theorem Pruned.nil (c : Cache) : Pruned [] c c :=
  ⟨rfl, rfl, rfl, rfl, rfl, rfl, fun _ h => absurd h List.not_mem_nil, fun _ _ => rfl⟩

theorem Pruned.cons {id : RecordId} {l : List RecordId} {m d : Cache} (h : Removed id c m)
    (hrest : Pruned l m d) : Pruned (id :: l) c d where
  policy := hrest.policy.trans h.policy
  key := hrest.key.trans h.key
  nextId := hrest.nextId.trans h.nextId
  newTable := hrest.newTable.trans h.newTable
  triedTable := hrest.triedTable.trans h.triedTable
  triedCount := hrest.triedCount.trans h.triedCount
  gone j hj := by
    by_cases hjl : j ∈ l
    · exact hrest.gone j hjl
    · obtain rfl := (List.mem_cons.mp hj).resolve_right hjl
      have hothers := hrest.others j hjl
      rw [h.gone, Option.map_none] at hothers
      exact Option.map_eq_none_iff.mp hothers
  others j hj := by
    rw [List.mem_cons, not_or] at hj
    rw [hrest.others j hj.2, h.unranked_others hj.1]

/-- A record that is left was there before. -/
theorem Pruned.exists_of_getElem? {l : List RecordId} {d : Cache} (h : Pruned l c d)
    {id : RecordId} {r : Record} (hr : d.records[id]? = some r) :
    id ∉ l ∧ ∃ r', c.records[id]? = some r' ∧ r.unranked = r'.unranked := by
  have hid : id ∉ l := by
    intro hmem
    rw [h.gone id hmem] at hr
    cases hr
  have hothers := h.others id hid
  rw [hr, Option.map_some, eq_comm, Option.map_eq_some_iff] at hothers
  obtain ⟨r', hr', hsame⟩ := hothers
  exact ⟨hid, r', hr', hsame.symm⟩

/-- Which records are gone does not depend on the order of the list. -/
theorem Pruned.of_mem_iff {l l' : List RecordId} {d : Cache} (h : Pruned l c d)
    (hmem : ∀ id, id ∈ l ↔ id ∈ l') : Pruned l' c d :=
  { h with
    gone := fun id hid => h.gone id ((hmem id).mpr hid)
    others := fun id hid => h.others id fun hl => hid ((hmem id).mp hl) }

theorem Pruned.descends {l : List RecordId} {d : Cache} (h : Pruned l c d) : Descends c d := by
  intro id r hr
  obtain ⟨-, r', hr', hsame⟩ := h.exists_of_getElem? hr
  exact ⟨r', hr', .of_unranked hsame⟩

/-- Records without slots can be removed one after the other. -/
theorem Coherent.deleteAll {l : List RecordId} (h : Coherent {id | id ∈ l} ∅ c) (hnodup : l.Nodup)
    (hl : ∀ id ∈ l, ∃ r : Record, c.records[id]? = some r ∧ r.inTried = false ∧ r.refs = 0) :
    ∃ d : Cache, l.foldlM (fun c id => c.delete id) c = .ok d ∧ Coherent ∅ ∅ d ∧
      Pruned l c d := by
  -- The loose records are the ones that the list still names.
  induction l generalizing c with
  | nil => exact ⟨c, rfl, h.mono fun _ _ _ _ _ hj => absurd hj List.not_mem_nil, .nil c⟩
  | cons id l ih =>
      obtain ⟨hid, hnodup⟩ := List.nodup_cons.mp hnodup
      obtain ⟨r, hr, hnew, hrefs⟩ := hl id List.mem_cons_self
      obtain ⟨m, hdelete, hm, hremoved⟩ := h.delete hr hnew hrefs (Finset.notMem_empty id)
      obtain ⟨f, hothers⟩ := hremoved.others
      have hloose : Coherent {j | j ∈ l} ∅ m := hm.mono fun j r' hr' _ _ hj => by
        rcases List.mem_cons.mp hj with rfl | hj
        · rw [hremoved.gone] at hr'
          cases hr'
        · exact hj
      obtain ⟨d, hrest, hd, hpruned⟩ := ih hloose hnodup fun j hj => by
        have hne : j ≠ id := by
          rintro rfl
          exact hid hj
        obtain ⟨r', hr', hnew', hrefs'⟩ := hl j (List.mem_cons_of_mem id hj)
        exact ⟨r'.moved f, by rw [hothers j hne, hr']; rfl, hnew', hrefs'⟩
      refine ⟨d, ?_, hd, .cons hremoved hpruned⟩
      rw [List.foldlM_cons, hdelete]
      exact hrest

/-- The records without slots can be removed in any order. -/
theorem Coherent.prune (h : Coherent Set.univ ∅ c) {l : List RecordId} (hl : l.Perm c.unplaced) :
    ∃ d : Cache, l.foldlM (fun c id => c.delete id) c = .ok d ∧ Coherent ∅ ∅ d ∧ Pruned l c d := by
  have hmem : ∀ id, id ∈ l ↔ id ∈ c.unplaced := fun id => hl.mem_iff
  -- Only the records that are about to be removed are loose.
  have hloose : Coherent {id | id ∈ l} ∅ c :=
    h.mono fun id r hr hnew hrefs _ => (hmem id).mpr (mem_unplaced.mpr ⟨r, hr, hnew, hrefs⟩)
  exact hloose.deleteAll (hl.nodup_iff.mpr c.nodup_unplaced) fun id hid =>
    mem_unplaced.mp ((hmem id).mp hid)

/-! ### The whole load -/

variable {order : RemovalOrder}

/-- A cache that was read becomes the result when it passes the audit without the
records that hold no slot. -/
theorem ofBytes_of_run {policy : Policy} {data rest : Bytes} {m d : Cache} {lostTried : Nat}
    (hrun : (decode policy).run data = .ok ((m, lostTried), rest))
    (hdelete : (order.arrange m.unplaced).foldlM (fun c id => c.delete id) m = .ok d)
    (haudit : d.audit = .ok ()) :
    ofBytes policy order data =
      .ok (.ok (d, ⟨d.newCount, d.triedCount, m.unplaced.length, lostTried⟩)) := by
  unfold ofBytes
  rw [hrun]
  dsimp only
  rw [hdelete, show (Except.ok d : Checked Cache) = pure d from rfl, pure_bind, haudit,
    (order.perm m.unplaced).length_eq]
  rfl

/-- Bytes that the decoder takes are accepted. -/
theorem exists_ofBytes_of_run {policy : Policy} {data rest : Bytes} {m : Cache} {lostTried : Nat}
    (hrun : (decode policy).run data = .ok ((m, lostTried), rest)) (order : RemovalOrder) :
    ∃ d : Cache, ofBytes policy order data =
        .ok (.ok (d, ⟨d.newCount, d.triedCount, m.unplaced.length, lostTried⟩)) ∧
      (order.arrange m.unplaced).foldlM (fun c id => c.delete id) m = .ok d ∧ Coherent ∅ ∅ d ∧
      Pruned m.unplaced m d ∧ ∃ newTotal, Loading policy newTotal m := by
  have houtcome := yields_decode policy data
  rw [show decode policy data = .ok ((m, lostTried), rest) from hrun] at houtcome
  obtain ⟨newTotal, hm⟩ := houtcome
  have hperm := order.perm m.unplaced
  obtain ⟨d, hdelete, hd, hpruned⟩ := hm.toCoherent.prune hperm
  exact ⟨d, ofBytes_of_run hrun hdelete hd.sound.audit, hdelete, hd,
    hpruned.of_mem_iff fun id => hperm.mem_iff, newTotal, hm⟩

/-- What is accepted was taken by the decoder, and lost the records without slots. -/
theorem exists_run_of_ofBytes {policy : Policy} {data : Bytes} {d : Cache} {report : LoadReport}
    (h : ofBytes policy order data = .ok (.ok (d, report))) :
    ∃ (m : Cache) (lostTried : Nat) (rest : Bytes),
      (decode policy).run data = .ok ((m, lostTried), rest) ∧
      report = ⟨d.newCount, d.triedCount, m.unplaced.length, lostTried⟩ ∧
      (order.arrange m.unplaced).foldlM (fun c id => c.delete id) m = .ok d ∧ Coherent ∅ ∅ d ∧
      Pruned m.unplaced m d ∧ ∃ newTotal, Loading policy newTotal m := by
  cases hrun : (decode policy).run data with
  | error e =>
      rw [ofBytes, hrun] at h
      cases h
  | ok x =>
      obtain ⟨⟨m, lostTried⟩, rest⟩ := x
      obtain ⟨d', haccepted, hcoherent⟩ := exists_ofBytes_of_run hrun order
      rw [haccepted] at h
      cases h
      exact ⟨m, lostTried, rest, rfl, rfl, hcoherent⟩

/-- Bytes lead to a sound cache, with its counts in the report, or they are refused. -/
theorem ofBytes_outcome (policy : Policy) (order : RemovalOrder) (data : Bytes) :
    ∃ result : Except StorageError (Cache × LoadReport), ofBytes policy order data = .ok result ∧
      Outcome Refusal (fun x => Coherent ∅ ∅ x.1 ∧ x.1.policy = policy ∧ Every Record.Dated x.1 ∧
        x.2.newCount = x.1.newCount ∧ x.2.triedCount = x.1.triedCount) result := by
  cases hrun : (decode policy).run data with
  | error e =>
      have houtcome := yields_decode policy data
      rw [show decode policy data = .error e from hrun] at houtcome
      refine ⟨.error e, ?_, houtcome⟩
      rw [ofBytes, hrun]
      rfl
  | ok x =>
      obtain ⟨⟨m, lostTried⟩, rest⟩ := x
      obtain ⟨d, haccepted, -, hd, hpruned, newTotal, hm⟩ := exists_ofBytes_of_run hrun order
      exact ⟨_, haccepted, hd, hpruned.policy.trans hm.policy_eq,
        hpruned.descends.dated hm.dated, rfl, rfl⟩

variable {σ : Type} [RandomSource σ]

/-- A load of bytes that are accepted draws nothing. -/
theorem load_of_ok {data : Bytes} {d : Cache} {report : LoadReport}
    (h : ofBytes c.policy order data = .ok (.ok (d, report))) (s : σ) :
    c.load order data s = .ok ((.ok report, d), s) := by
  show ((liftM (ofBytes c.policy order data) : Draw σ _) s >>= _) = _
  rw [h]
  rfl

/-- A load of bytes that are refused ends in a new cache. -/
theorem load_of_error {data : Bytes} {e : StorageError}
    (h : ofBytes c.policy order data = .ok (.error e)) {d : Cache} {s s' : σ}
    (hnew : Cache.new c.policy s = .ok (d, s')) :
    c.load order data s = .ok ((.error e, d), s') := by
  show ((liftM (ofBytes c.policy order data) : Draw σ _) s >>= _) = _
  rw [h]
  show (Cache.new c.policy s >>= fun x =>
    .ok ((Except.error e, x.1), x.2)) = _
  rw [hnew]
  rfl

/-- A new cache is empty, whatever its key. -/
theorem ensures_new (policy : Policy) :
    (Cache.new policy : Draw σ Cache).Ensures fun c => ∃ key, c = ofKey policy key :=
  Draw.ensures_key.bind fun key _ => .pure ⟨key, rfl⟩

/-- Loading never fails, and the cache that it leaves follows the rules, under the same
policy. -/
theorem ensures_load (c : Cache) (order : RemovalOrder) (data : Bytes) :
    (c.load order data : Draw σ (Except StorageError LoadReport × Cache)).Ensures fun x =>
      Coherent ∅ ∅ x.2 ∧ x.2.policy = c.policy ∧ Every Record.Dated x.2 := by
  intro s
  obtain ⟨result, hresult, houtcome⟩ := ofBytes_outcome c.policy order data
  cases result with
  | ok x =>
      obtain ⟨hd, hpolicy, hdated, -⟩ := houtcome
      exact ⟨_, s, load_of_ok hresult s, hd, hpolicy, hdated⟩
  | error e =>
      obtain ⟨d, s', hnew, key, rfl⟩ := ensures_new c.policy s
      exact ⟨_, s', load_of_error hresult hnew, coherent_ofKey c.policy key, rfl,
        every_ofKey _ c.policy key⟩

/-- Loading replaces the cache by a sound one, whose counts are those of the report.
Otherwise the bytes are refused for one of four reasons, and the cache is a new one
whose key is drawn from the source. -/
theorem load_outcome (c : Cache) (order : RemovalOrder) (data : Bytes) (s : σ) :
    (∃ (report : LoadReport) (d : Cache), c.load order data s = .ok ((.ok report, d), s) ∧ d.Sound ∧
      report.newCount = d.newCount ∧ report.triedCount = d.triedCount) ∨
    (∃ (e : StorageError) (d : Cache) (s' : σ), c.load order data s = .ok ((.error e, d), s') ∧
      Refusal e ∧ Cache.new c.policy s = .ok (d, s')) := by
  obtain ⟨result, hresult, houtcome⟩ := ofBytes_outcome c.policy order data
  cases result with
  | ok x =>
      obtain ⟨hd, -, -, hcounts⟩ := houtcome
      exact Or.inl ⟨x.2, x.1, load_of_ok hresult s, hd.sound, hcounts⟩
  | error e =>
      obtain ⟨d, s', hnew, -⟩ := ensures_new c.policy s
      exact Or.inr ⟨e, d, s', load_of_error hresult hnew, houtcome, hnew⟩

end Cache

end PeerCache
