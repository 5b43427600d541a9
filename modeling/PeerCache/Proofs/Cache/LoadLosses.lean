import PeerCache.Proofs.Cache.Acceptance
import PeerCache.Random.SplitMix

/-!
# `PeerCache.Proofs.Cache.LoadLosses`: which records a load loses

A load loses a record only where the record collides with an earlier one.
`StoredCache.Loads` says this of the content of the bytes and the cache that is left:
which records are gone, which slots the others hold, and that these have every field that
was stored of them (`StoredRecord.Restored`). It speaks of places of records, of entries of
bucket lists, and of the slots that the stored key gives.

* `Served.held_eq_empty_iff`: a record without a slot came too late for each slot that it
  was offered. `Served.held_eq_empty_iff_primary` is the case in which each record is
  offered its primary slot only.
* `Gathered.lookup_new`, `Gathered.lookup_tried`: who is found when the records without
  slots have been removed.
* `Gathered.loads`: `StoredCache.Loads` for all content that can be placed.
* `load_losses`: every load that succeeds.
-/

set_option autoImplicit false

namespace PeerCache

/-! ### What a load comes to -/

/-- The endpoint of a stored record in canonical notation is in canonical notation. -/
theorem StoredRecord.Canonical.endpoint {s : StoredRecord} (h : s.Canonical) :
    s.endpoint.canonical = s.endpoint := by
  show Endpoint.ofIp (Endpoint.ofIp s.ip s.port).ip.canonical (Endpoint.ofIp s.ip s.port).port = _
  rw [Endpoint.ip_ofIp, Endpoint.port_ofIp, h.ip]
  rfl

/-- The record has every field that was stored. No time is later than the latest one that is
kept, and a time of zero stands for "never" in the history. -/
structure StoredRecord.Restored (s : StoredRecord) (r : Record) : Prop where
  endpoint : r.endpoint = .ofIp s.ip s.port
  services : r.peer.services.bits = s.services
  seen : r.peer.seen.secs = min s.seen.toNat latestSecond
  version : r.peer.version = s.version
  source : r.source = s.source
  lastSuccess : r.lastSuccess.map Timestamp.secs
    = if s.lastSuccess = 0 then none else some (min s.lastSuccess.toNat latestSecond)
  lastTry : r.lastTry.map Timestamp.secs
    = if s.lastTry = 0 then none else some (min s.lastTry.toNat latestSecond)
  attempts : r.attempts = s.attempts

theorem StoredRecord.map_secs_toTime? (secs : UInt64) : (toTime? secs).map Timestamp.secs
    = if secs = 0 then none else some (min secs.toNat latestSecond) := by
  unfold toTime?
  split <;> rfl

/-- These are all fields but those that tell where the record stands in the cache. -/
theorem StoredRecord.restored_iff {s : StoredRecord} {r : Record} :
    s.Restored r ↔ (s.toRecord 0).SameHistory r := by
  constructor
  · intro h
    obtain ⟨⟨endpoint, ⟨services⟩, seen, version⟩, source, lastSuccess, lastTry, attempts, _⟩ := r
    obtain rfl : endpoint = s.endpoint := h.endpoint
    obtain rfl : services = s.services := h.services
    obtain rfl : seen = .ofSecs s.seen.toNat := Timestamp.ext h.seen
    obtain rfl : version = s.version := h.version
    obtain rfl : source = s.source := h.source
    obtain rfl : attempts = s.attempts := h.attempts
    have hinj : Function.Injective Timestamp.secs := fun _ _ => Timestamp.ext
    obtain rfl : lastSuccess = toTime? s.lastSuccess :=
      Option.map_injective hinj (h.lastSuccess.trans (map_secs_toTime? _).symm)
    obtain rfl : lastTry = toTime? s.lastTry :=
      Option.map_injective hinj (h.lastTry.trans (map_secs_toTime? _).symm)
    rfl
  · intro h
    rw [h]
    exact ⟨rfl, rfl, rfl, rfl, rfl, map_secs_toTime? _, map_secs_toTime? _, rfl⟩

/-- A cache with the key of the content and with what is left of its records. A record is
lost when no endpoint of the cache is its own. New records are found by their places in
the file. -/
structure StoredCache.Loads (f : StoredCache) (d : Cache) (report : LoadReport) : Prop where
  key : d.key = f.key
  /-- The report counts the records of the cache, and every other one of the file as lost. -/
  newCount : report.newCount = d.newCount ∧ report.newCount + report.lostNew = f.new.length
  triedCount : report.triedCount = d.triedCount ∧
    report.triedCount + report.lostTried = f.tried.length
  /-- A tried record is lost to an earlier one with the same slot. -/
  tried_lost_iff : ∀ (i : Nat) (s : StoredRecord), f.tried[i]? = some s →
    (d.lookup s.endpoint = none ↔ ∃ (j : Nat) (t : StoredRecord), j < i ∧
      f.tried[j]? = some t ∧ d.triedSlot t.endpoint = d.triedSlot s.endpoint)
  /-- With bucket lists, a new record is lost when at each of its entries an earlier entry
  of the same list has taken its slot. -/
  new_lost_iff_listed : f.Listed → ∀ (i : Nat) (s : StoredRecord), f.new[i]? = some s →
    (d.lookup s.endpoint = none ↔ ∀ (n : Nat) (b : Fin newBucketCount),
      f.entries[n]? = some (b, i) → ∃ k j : Nat, k < n ∧ f.entries[k]? = some (b, j) ∧
        d.newTable.get b (d.newSlot b s.endpoint) = some ⟨j⟩)
  /-- A record gets slots from its entries only. -/
  entry_of_slot : f.Listed → ∀ b p id, d.newTable.get b p = some id →
    (b, id.number) ∈ f.entries
  /-- Without bucket lists, a new record is lost to an earlier one with the same primary
  slot. -/
  new_lost_iff_unlisted : ¬ f.Listed → ∀ (i : Nat) (s : StoredRecord), f.new[i]? = some s →
    (d.lookup s.endpoint = none ↔ ∃ (j : Nat) (t : StoredRecord), j < i ∧
      f.new[j]? = some t ∧
        d.primarySlot t.endpoint t.source = d.primarySlot s.endpoint s.source)
  /-- A record that is left has its primary slot and no other then. -/
  held_of_unlisted : ¬ f.Listed → ∀ (i : Nat) (s : StoredRecord), f.new[i]? = some s →
    d.lookup s.endpoint ≠ none →
      d.newTable.held ⟨i⟩ = {d.primarySlot s.endpoint s.source}
  card_held_le : ∀ id : RecordId, (d.newTable.held id).card ≤ 8
  /-- What is left of a new record is what was stored of it, under its place as number. -/
  new_kept : ∀ (i : Nat) (s : StoredRecord), f.new[i]? = some s →
    ∀ (id : RecordId) (r : Record), d.lookup s.endpoint = some (id, r) →
      id = ⟨i⟩ ∧ r.inTried = false ∧ s.Restored r
  /-- What is left of a tried record is what was stored of it. -/
  tried_kept : ∀ s ∈ f.tried, ∀ (id : RecordId) (r : Record),
    d.lookup s.endpoint = some (id, r) → r.inTried = true ∧ s.Restored r
  /-- There are no other records. -/
  exists_new : ∀ (id : RecordId) (r : Record), d.records[id]? = some r → r.inTried = false →
    ∃ s : StoredRecord, f.new[id.number]? = some s ∧ s.Restored r
  exists_tried : ∀ (id : RecordId) (r : Record), d.records[id]? = some r → r.inTried = true →
    ∃ s ∈ f.tried, s.Restored r

namespace Cache

variable {c d m : Cache} {s : StoredRecord} {new tried : List StoredRecord}
  {offers : List (Fin newBucketCount × Nat)} {i : Nat} {r : Record}

/-! ### Slots -/

/-- A record holds no slot exactly when for each offer the slot went to a record that was
offered it before. -/
theorem Served.held_eq_empty_iff (h : Served new offers c) (hc : Placed c)
    (hs : new[i]? = some s) (hr : c.records[(⟨i⟩ : RecordId)]? = some r)
    (hendpoint : r.endpoint = s.endpoint) : c.newTable.held ⟨i⟩ = ∅ ↔
      ∀ (n : Nat) (b : Fin newBucketCount), offers[n]? = some (b, i) →
        ∃ k j : Nat, k < n ∧ offers[k]? = some (b, j) ∧
          c.newTable.get b (c.newSlot b s.endpoint) = some ⟨j⟩ := by
  constructor
  · intro hempty n b hn
    rcases h.taken n b i s hn hs with ⟨k, j, hle, hk, hget⟩ | hfull
    · have hne : k ≠ n := by
        rintro rfl
        rw [hn] at hk
        cases hk
        exact SlotTable.held_eq_empty_iff.mp hempty b _ hget
      exact ⟨k, j, Nat.lt_of_le_of_ne hle hne, hk, hget⟩
    · rw [hempty] at hfull
      cases hfull
  · intro hlate
    rw [SlotTable.held_eq_empty_iff]
    intro b p hget
    obtain ⟨r', hr', -, hslot⟩ := hc.new_slot b p ⟨i⟩ hget
    rw [hr] at hr'
    cases hr'
    rw [← hslot, hendpoint] at hget
    -- The holder would have been offered the slot before the first time it was.
    have hnever : ∀ n : Nat, offers[n]? ≠ some (b, i) := by
      intro n
      induction n using Nat.strong_induction_on with
      | _ n ih =>
          intro hn
          obtain ⟨k, j, hlt, hk, hget'⟩ := hlate n b hn
          rw [hget] at hget'
          cases hget'
          exact ih k hlt hk
    obtain ⟨n, hn⟩ := h.offered b _ ⟨i⟩ hget
    exact hnever n hn

/-- The offer at a place is that of the record at the place. -/
theorem getElem?_primaryOffers {key : PlacementKey} {n : Nat} {b : Fin newBucketCount} :
    (primaryOffers key false new)[n]? = some (b, i) ↔
      n = i ∧ ∃ s, new[i]? = some s ∧ Placement.newBucket key s.endpoint s.source = b := by
  simp only [primaryOffers, Bool.false_eq_true, if_false, List.getElem?_map, List.getElem?_zipIdx,
    Option.map_map, Option.map_eq_some_iff, Function.comp_apply, Prod.mk.injEq, Nat.zero_add]
  constructor
  · rintro ⟨s, hs, hb, rfl⟩
    exact ⟨rfl, s, hs, hb⟩
  · rintro ⟨rfl, s, hs, hb⟩
    exact ⟨s, hs, hb, rfl⟩

/-- When each record is offered its primary slot only, that is the only one it can get. -/
theorem Served.held_primary {key : PlacementKey} (h : Served new (primaryOffers key false new) c)
    (hc : Placed c) (hkey : c.key = key) (hs : new[i]? = some s)
    (hr : c.records[(⟨i⟩ : RecordId)]? = some r) (hendpoint : r.endpoint = s.endpoint)
    {b : Fin newBucketCount} {p : Fin bucketSize} (hget : c.newTable.get b p = some ⟨i⟩) :
    c.primarySlot s.endpoint s.source = (b, p) := by
  obtain ⟨r', hr', -, hslot⟩ := hc.new_slot b p ⟨i⟩ hget
  rw [hr] at hr'
  cases hr'
  obtain ⟨n, hn⟩ := h.offered b p ⟨i⟩ hget
  obtain ⟨-, t, ht, hbucket⟩ := getElem?_primaryOffers.mp hn
  rw [hs] at ht
  cases ht
  rw [primarySlot, hkey, hbucket, ← hendpoint, hslot]

/-- A record holds no slot exactly when an earlier one has the same primary slot. -/
theorem Served.held_eq_empty_iff_primary {key : PlacementKey}
    (h : Served new (primaryOffers key false new) c) (hc : Placed c) (hkey : c.key = key)
    (hnumbered : Numbered new c) (hs : new[i]? = some s) : c.newTable.held ⟨i⟩ = ∅ ↔
      ∃ (j : Nat) (t : StoredRecord), j < i ∧ new[j]? = some t ∧
        c.primarySlot t.endpoint t.source = c.primarySlot s.endpoint s.source := by
  obtain ⟨r, hr, -, hhistory⟩ := hnumbered.stored i s hs
  constructor
  · intro hempty
    have hoffer : (primaryOffers key false new)[i]? =
        some (Placement.newBucket key s.endpoint s.source, i) :=
      getElem?_primaryOffers.mpr ⟨rfl, s, hs, rfl⟩
    obtain ⟨k, j, hlt, hk, hget⟩ :=
      (h.held_eq_empty_iff hc hs hr hhistory.endpoint).mp hempty i _ hoffer
    obtain ⟨rfl, t, ht, -⟩ := getElem?_primaryOffers.mp hk
    obtain ⟨r', hr', -, hhistory'⟩ := hnumbered.stored k t ht
    refine ⟨k, t, hlt, ht, ?_⟩
    rw [h.held_primary hc hkey ht hr' hhistory'.endpoint hget, primarySlot, hkey]
  · rintro ⟨j, t, hlt, ht, hsame⟩
    obtain ⟨r', hr', -, hhistory'⟩ := hnumbered.stored j t ht
    -- The earlier record cannot be full, so somebody no later has taken the slot.
    have hoffer : (primaryOffers key false new)[j]? =
        some (Placement.newBucket key t.endpoint t.source, j) :=
      getElem?_primaryOffers.mpr ⟨rfl, t, ht, rfl⟩
    have hslot : c.primarySlot t.endpoint t.source = (Placement.newBucket key t.endpoint t.source,
        c.newSlot (Placement.newBucket key t.endpoint t.source) t.endpoint) := by
      rw [primarySlot, hkey]
    rw [SlotTable.held_eq_empty_iff]
    intro b p hget
    have hprimary := h.held_primary hc hkey hs hr hhistory.endpoint hget
    rw [← hsame, hslot] at hprimary
    obtain ⟨rfl, rfl⟩ := Prod.mk.inj hprimary
    rcases h.taken j _ j t hoffer ht with ⟨k, j', hle, hk, hget'⟩ | hfull
    · obtain ⟨rfl, -⟩ := getElem?_primaryOffers.mp hk
      rw [hget] at hget'
      cases hget'
      omega
    · have hsub : c.newTable.held ⟨j⟩ ⊆ {c.primarySlot t.endpoint t.source} := by
        intro slot hmem
        obtain ⟨b', p'⟩ := slot
        rw [h.held_primary hc hkey ht hr' hhistory'.endpoint (SlotTable.mem_held.mp hmem)]
        exact Finset.mem_singleton_self _
      have hcard := Finset.card_le_card hsub
      rw [hfull, Finset.card_singleton] at hcard
      exact absurd hcard (by decide)

/-- The first record with its slot of the tried table holds it. -/
theorem Seated.exists_of_first (h : Seated tried c) (hs : tried[i]? = some s)
    (hfirst : ¬ ∃ (j : Nat) (t : StoredRecord), j < i ∧ tried[j]? = some t ∧
      c.triedSlot t.endpoint = c.triedSlot s.endpoint) :
    ∃ (b : Fin triedBucketCount) (p : Fin bucketSize) (id : RecordId) (r : Record),
      c.triedTable.get b p = some id ∧ c.records[id]? = some r ∧
        (s.toRecord 0).SameHistory r := by
  obtain ⟨b, p, hslot⟩ : ∃ b p, c.triedSlot s.endpoint = (b, p) := ⟨_, _, rfl⟩
  have hfind : tried.find? (fun s => c.triedSlot s.endpoint = (b, p)) = some s := by
    obtain ⟨hi, hget⟩ := List.getElem?_eq_some_iff.mp hs
    refine List.find?_eq_some_iff_getElem.mpr ⟨decide_eq_true hslot, i, hi, hget, ?_⟩
    intro j hj
    rw [Bool.not_eq_true', decide_eq_false_iff_not, ← hslot]
    exact fun hsame => hfirst ⟨j, tried[j], hj, List.getElem?_eq_getElem (hj.trans hi), hsame⟩
  have hholder := h.holder b p
  rw [hfind] at hholder
  cases hget : c.triedTable.get b p with
  | none =>
      rw [hget] at hholder
      cases hholder
  | some id =>
      rw [hget] at hholder
      cases hholder with
      | some hheld =>
          obtain ⟨r, hr, hhistory⟩ := hheld
          exact ⟨b, p, id, r, hget, hr, hhistory⟩

/-! ### What is left -/

section Pruned

variable {l : List RecordId} {id : RecordId} {e : Endpoint}

theorem Pruned.newSlot_eq (h : Pruned l c d) (b : Fin newBucketCount) (e : Endpoint) :
    d.newSlot b e = c.newSlot b e := by
  rw [newSlot, newSlot, h.key]

theorem Pruned.primarySlot_eq (h : Pruned l c d) (e : Endpoint) (source : Ip) :
    d.primarySlot e source = c.primarySlot e source := by
  rw [primarySlot, primarySlot, h.key, h.newSlot_eq]

theorem Pruned.triedSlot_eq (h : Pruned l c d) (e : Endpoint) :
    d.triedSlot e = c.triedSlot e := by
  rw [triedSlot, triedSlot, h.key]

/-- The endpoint of a record that was removed is not found. -/
theorem Pruned.lookup_of_mem (h : Pruned l c d) (hc : Indexed c) (hd : Indexed d)
    (hr : c.records[id]? = some r) (he : r.endpoint = e.canonical) (hid : id ∈ l) :
    d.lookup e = none := by
  rw [hd.lookup_eq_none_iff]
  intro id' r' hr' he'
  obtain ⟨hid', t, ht, hsame⟩ := h.exists_of_getElem? hr'
  have hendpoint : t.endpoint = r.endpoint := by
    rw [he, ← he', Record.congr_unranked hsame.symm Record.endpoint fun _ => rfl]
  obtain rfl := hc.id_unique ht hr (congrArg Endpoint.ip hendpoint)
  exact hid' hid

/-- A record that was not removed is left. -/
theorem Pruned.exists_of_notMem (h : Pruned l c d) (hr : c.records[id]? = some r) (hid : id ∉ l) :
    ∃ r' : Record, d.records[id]? = some r' ∧ r'.unranked = r.unranked := by
  have hothers := h.others id hid
  rwa [hr, Option.map_some, Option.map_eq_some_iff] at hothers

/-- Its endpoint is found, and it is in the same table with the same history. -/
theorem Pruned.lookup_of_notMem (h : Pruned l c d) (hd : Indexed d)
    (hr : c.records[id]? = some r) (he : r.endpoint = e.canonical) (hid : id ∉ l) :
    ∃ r' : Record, d.lookup e = some (id, r') ∧ r'.inTried = r.inTried ∧ r.SameHistory r' := by
  obtain ⟨r', hr', hsame⟩ := h.exists_of_notMem hr hid
  have hendpoint : r'.endpoint = r.endpoint :=
    Record.congr_unranked hsame Record.endpoint fun _ => rfl
  have hkind : r'.inTried = r.inTried := Record.congr_unranked hsame Record.inTried fun _ => rfl
  have hfound := hd.lookup_eq_some_iff.mpr ⟨hr', hendpoint.trans he⟩
  exact ⟨r', hfound, hkind, .of_unranked hsame⟩

/-- A record is removed when it is a new one without references. -/
theorem mem_unplaced_iff (hr : c.records[id]? = some r) :
    id ∈ c.unplaced ↔ r.inTried = false ∧ r.refs = 0 := by
  simp [hr]

/-- Each record that is removed for want of a slot is one new record less. -/
theorem Pruned.newCount_add {loose : Set RecordId} (h : Pruned c.unplaced c d)
    (hc : Coherent loose ∅ c) (hd : Coherent ∅ ∅ d) :
    d.newCount + c.unplaced.length = c.newCount := by
  have hleft : d.idsIn false = c.idsIn false \ c.unplaced.toFinset := by
    ext id
    rw [mem_idsIn, Finset.mem_sdiff, mem_idsIn, List.mem_toFinset]
    constructor
    · rintro ⟨r, hr, hnew⟩
      obtain ⟨hid, r', hr', hsame⟩ := h.exists_of_getElem? hr
      rw [Record.congr_unranked hsame Record.inTried fun _ => rfl] at hnew
      exact ⟨⟨r', hr', hnew⟩, hid⟩
    · rintro ⟨⟨r, hr, hnew⟩, hid⟩
      obtain ⟨r', hr', hsame⟩ := h.exists_of_notMem hr hid
      exact ⟨r', hr', (Record.congr_unranked hsame Record.inTried fun _ => rfl).trans hnew⟩
  have hsub : c.unplaced.toFinset ⊆ c.idsIn false := by
    intro id hid
    obtain ⟨r, hr, hnew, -⟩ := mem_unplaced.mp (List.mem_toFinset.mp hid)
    exact mem_idsIn.mpr ⟨r, hr, hnew⟩
  have hcard := Finset.card_sdiff_add_card_eq_card hsub
  rw [List.toFinset_card_of_nodup c.nodup_unplaced, ← hleft] at hcard
  rw [hd.newCount_eq, hc.newCount_eq, Finset.sdiff_empty, Finset.sdiff_empty]
  exact hcard

end Pruned

variable {policy : Policy} {total : Nat} {key : PlacementKey} {lost : Nat}

/-- A new record without a slot is not found. Any other is, with what was stored of it. -/
theorem Gathered.lookup_new (h : Gathered policy total key new tried offers m lost)
    (hpruned : Pruned m.unplaced m d) (hd : Indexed d) (hs : new[i]? = some s)
    (hcanonical : s.Canonical) :
    m.newTable.held ⟨i⟩ = ∅ ∧ d.lookup s.endpoint = none ∨
      m.newTable.held ⟨i⟩ ≠ ∅ ∧ ∃ r : Record, d.lookup s.endpoint = some (⟨i⟩, r) ∧
        r.inTried = false ∧ s.Restored r := by
  obtain ⟨r, hr, hnew, hhistory⟩ := h.stored i s hs
  have he : r.endpoint = s.endpoint.canonical := by
    rw [hcanonical.endpoint]
    exact hhistory.endpoint
  have hcard := h.card_held ⟨i⟩ r hr
  by_cases hrefs : r.refs = 0
  · rw [hrefs, Finset.card_eq_zero] at hcard
    have hmem := (mem_unplaced_iff hr).mpr ⟨hnew, hrefs⟩
    exact Or.inl ⟨hcard, hpruned.lookup_of_mem h.toIndexed hd hr he hmem⟩
  · have hmem : (⟨i⟩ : RecordId) ∉ m.unplaced := fun hmem => hrefs ((mem_unplaced_iff hr).mp hmem).2
    obtain ⟨r', hfound, hkind, hkept⟩ := hpruned.lookup_of_notMem hd hr he hmem
    refine Or.inr ⟨?_, r', hfound, hkind.trans hnew,
      StoredRecord.restored_iff.mpr (hhistory.trans hkept)⟩
    intro hempty
    rw [hempty, Finset.card_empty] at hcard
    exact hrefs hcard.symm

theorem Gathered.lookup_new_eq_none_iff (h : Gathered policy total key new tried offers m lost)
    (hpruned : Pruned m.unplaced m d) (hd : Indexed d) (hs : new[i]? = some s)
    (hcanonical : s.Canonical) : d.lookup s.endpoint = none ↔ m.newTable.held ⟨i⟩ = ∅ := by
  rcases h.lookup_new hpruned hd hs hcanonical with ⟨hempty, hnone⟩ | ⟨hheld, r, hfound, -⟩
  · exact ⟨fun _ => hempty, fun _ => hnone⟩
  · rw [hfound]
    exact ⟨nofun, fun hempty => absurd hempty hheld⟩

/-- A tried record with the slot of an earlier one is not found. Any other is, with what
was stored of it. -/
theorem Gathered.lookup_tried (h : Gathered policy total key new tried offers m lost)
    (hpruned : Pruned m.unplaced m d) (hd : Indexed d) (hs : tried[i]? = some s)
    (hcanonical : s.Canonical) :
    (∃ (j : Nat) (t : StoredRecord), j < i ∧ tried[j]? = some t ∧
        m.triedSlot t.endpoint = m.triedSlot s.endpoint) ∧ d.lookup s.endpoint = none ∨
      (¬ ∃ (j : Nat) (t : StoredRecord), j < i ∧ tried[j]? = some t ∧
        m.triedSlot t.endpoint = m.triedSlot s.endpoint) ∧
      ∃ (id : RecordId) (r : Record), d.lookup s.endpoint = some (id, r) ∧
        r.inTried = true ∧ s.Restored r := by
  by_cases hearlier : ∃ (j : Nat) (t : StoredRecord), j < i ∧ tried[j]? = some t ∧
      m.triedSlot t.endpoint = m.triedSlot s.endpoint
  · refine Or.inl ⟨hearlier, ?_⟩
    obtain ⟨j, t, hlt, ht, hslot⟩ := hearlier
    rw [hd.lookup_eq_none_iff, hcanonical.endpoint]
    intro id r hr
    obtain ⟨-, r', hr', hsame⟩ := hpruned.exists_of_getElem? hr
    rw [Record.congr_unranked hsame Record.endpoint fun _ => rfl]
    exact h.later_lost j i t s hlt ht hs hslot id r' hr'
  · refine Or.inr ⟨hearlier, ?_⟩
    obtain ⟨b, p, id, r, hget, hr, hhistory⟩ := h.toSeated.exists_of_first hs hearlier
    have htried : r.inTried = true := (h.of_triedTable hr hget).1
    have he : r.endpoint = s.endpoint.canonical := by
      rw [hcanonical.endpoint]
      exact hhistory.endpoint
    have hmem : id ∉ m.unplaced := by
      rw [mem_unplaced_iff hr, htried]
      exact fun hnew => nomatch hnew.1
    obtain ⟨r', hfound, hkind, hkept⟩ := hpruned.lookup_of_notMem hd hr he hmem
    exact ⟨id, r', hfound, hkind.trans htried,
      StoredRecord.restored_iff.mpr (hhistory.trans hkept)⟩

theorem Gathered.lookup_tried_eq_none_iff (h : Gathered policy total key new tried offers m lost)
    (hpruned : Pruned m.unplaced m d) (hd : Indexed d) (hs : tried[i]? = some s)
    (hcanonical : s.Canonical) : d.lookup s.endpoint = none ↔
      ∃ (j : Nat) (t : StoredRecord), j < i ∧ tried[j]? = some t ∧
        m.triedSlot t.endpoint = m.triedSlot s.endpoint := by
  rcases h.lookup_tried hpruned hd hs hcanonical with ⟨hearlier, hnone⟩ | ⟨hfirst, id, r, hfound, -⟩
  · exact ⟨fun _ => hearlier, fun _ => hnone⟩
  · rw [hfound]
    exact ⟨nofun, fun hearlier => absurd hearlier hfirst⟩

/-- A new record that is left is the one at its place in the file. -/
theorem Gathered.exists_new (h : Gathered policy total key new tried offers m lost)
    (hpruned : Pruned m.unplaced m d) {id : RecordId} (hr : d.records[id]? = some r)
    (hnew : r.inTried = false) :
    ∃ s : StoredRecord, new[id.number]? = some s ∧ s.Restored r := by
  obtain ⟨-, r', hr', hsame⟩ := hpruned.exists_of_getElem? hr
  rw [Record.congr_unranked hsame Record.inTried fun _ => rfl] at hnew
  have hplace := List.getElem?_eq_getElem (h.place_lt id r' hr' hnew)
  obtain ⟨t, ht, -, hhistory⟩ := h.stored id.number _ hplace
  obtain rfl := Option.some.inj (ht.symm.trans hr')
  exact ⟨_, hplace, StoredRecord.restored_iff.mpr (hhistory.trans (.of_unranked hsame))⟩

/-- A tried record that is left is one of the file. -/
theorem Gathered.exists_tried (h : Gathered policy total key new tried offers m lost)
    (hpruned : Pruned m.unplaced m d) {id : RecordId} (hr : d.records[id]? = some r)
    (htried : r.inTried = true) : ∃ s ∈ tried, s.Restored r := by
  obtain ⟨-, r', hr', hsame⟩ := hpruned.exists_of_getElem? hr
  rw [Record.congr_unranked hsame Record.inTried fun _ => rfl] at htried
  obtain ⟨b, p, hslot⟩ : ∃ b p, m.triedSlot r'.endpoint = (b, p) := ⟨_, _, rfl⟩
  have hholder := h.holder b p
  rw [(h.tried_iff b p id).mpr ⟨r', hr', htried, hslot⟩] at hholder
  cases hfind : tried.find? fun s => m.triedSlot s.endpoint = (b, p) with
  | none =>
      rw [hfind] at hholder
      cases hholder
  | some s =>
      rw [hfind] at hholder
      cases hholder with
      | some hheld =>
          obtain ⟨t, ht, hhistory⟩ := hheld
          obtain rfl := Option.some.inj (ht.symm.trans hr')
          exact ⟨s, List.mem_of_find?_eq_some hfind,
            StoredRecord.restored_iff.mpr (hhistory.trans (.of_unranked hsame))⟩

/-- A record has no more slots than a record may have, and a number without a record has
none. -/
theorem Placed.card_held_le (h : Placed c) (id : RecordId) :
    (c.newTable.held id).card ≤ maxReferences := by
  cases hr : c.records[id]? with
  | some r =>
      rw [h.card_held id r hr]
      exact h.refs_le id r hr
  | none =>
      have hempty : c.newTable.held id = ∅ := by
        rw [SlotTable.held_eq_empty_iff]
        intro b p hget
        obtain ⟨r, hr', -⟩ := h.new_slot b p id hget
        rw [hr] at hr'
        cases hr'
      rw [hempty, Finset.card_empty]
      exact Nat.zero_le _

/-- The content that was placed, without the records that hold no slot. -/
theorem Gathered.loads {f : StoredCache}
    (h : Gathered policy f.new.length f.key f.new f.tried f.offers m lost) (hfits : f.Fits)
    (hd : Coherent ∅ ∅ d) (hpruned : Pruned m.unplaced m d) :
    f.Loads d ⟨d.newCount, d.triedCount, m.unplaced.length, lost⟩ where
  key := hpruned.key.trans h.key_eq
  newCount := by
    refine ⟨rfl, ?_⟩
    rw [← h.length_new]
    exact hpruned.newCount_add h.toCoherent hd
  triedCount := by
    refine ⟨rfl, ?_⟩
    rw [← h.length_tried, hpruned.triedCount]
  tried_lost_iff i s hs := by
    have hcanonical := hfits.tried_canonical s (List.mem_of_getElem? hs)
    simp only [hpruned.triedSlot_eq]
    exact h.lookup_tried_eq_none_iff hpruned hd.toIndexed hs hcanonical
  new_lost_iff_listed hlisted i s hs := by
    have hcanonical := hfits.new_canonical s (List.mem_of_getElem? hs)
    have hserved := h.toServed
    rw [StoredCache.offers, if_pos hlisted] at hserved
    obtain ⟨r, hr, -, hhistory⟩ := h.stored i s hs
    simp only [hpruned.newSlot_eq, hpruned.newTable]
    rw [h.lookup_new_eq_none_iff hpruned hd.toIndexed hs hcanonical]
    exact hserved.held_eq_empty_iff h.toPlaced hs hr hhistory.endpoint
  entry_of_slot hlisted b p id hget := by
    rw [hpruned.newTable] at hget
    obtain ⟨n, hn⟩ := h.offered b p id hget
    rw [StoredCache.offers, if_pos hlisted] at hn
    exact List.mem_of_getElem? hn
  new_lost_iff_unlisted hlisted i s hs := by
    have hcanonical := hfits.new_canonical s (List.mem_of_getElem? hs)
    have hserved := h.toServed
    rw [StoredCache.offers, if_neg hlisted] at hserved
    simp only [hpruned.primarySlot_eq]
    rw [h.lookup_new_eq_none_iff hpruned hd.toIndexed hs hcanonical]
    exact hserved.held_eq_empty_iff_primary h.toPlaced h.key_eq h.toNumbered hs
  held_of_unlisted hlisted i s hs hfound := by
    have hcanonical := hfits.new_canonical s (List.mem_of_getElem? hs)
    have hserved := h.toServed
    rw [StoredCache.offers, if_neg hlisted] at hserved
    obtain ⟨r, hr, -, hhistory⟩ := h.stored i s hs
    rw [Ne, h.lookup_new_eq_none_iff hpruned hd.toIndexed hs hcanonical] at hfound
    rw [hpruned.newTable, hpruned.primarySlot_eq, Finset.eq_singleton_iff_nonempty_unique_mem]
    refine ⟨Finset.nonempty_iff_ne_empty.mpr hfound, fun slot hmem => ?_⟩
    exact (hserved.held_primary h.toPlaced h.key_eq hs hr hhistory.endpoint
      (SlotTable.mem_held.mp hmem)).symm
  card_held_le := hd.card_held_le
  new_kept i s hs id r hlookup := by
    have hcanonical := hfits.new_canonical s (List.mem_of_getElem? hs)
    rcases h.lookup_new hpruned hd.toIndexed hs hcanonical with ⟨-, hnone⟩ | ⟨-, r', hr', hkept⟩
    · rw [hnone] at hlookup
      cases hlookup
    · rw [hr'] at hlookup
      cases hlookup
      exact ⟨rfl, hkept⟩
  tried_kept s hs id r hlookup := by
    obtain ⟨i, hi⟩ := List.getElem?_of_mem hs
    rcases h.lookup_tried hpruned hd.toIndexed hi (hfits.tried_canonical s hs) with
      ⟨-, hnone⟩ | ⟨-, id', r', hr', hkept⟩
    · rw [hnone] at hlookup
      cases hlookup
    · rw [hr'] at hlookup
      cases hlookup
      exact hkept
  exists_new id r hr hnew := h.exists_new hpruned hr hnew
  exists_tried id r hr htried := h.exists_tried hpruned hr htried

end Cache

/-! ### Every load -/

/-- A stored record of a peer that was never tried. -/
def StoredRecord.untried : StoredRecord :=
  ⟨.v4 ⟨8, 8, 8, 8⟩, 8333, 1, 1700000000, 70015, .v4 ⟨9, 9, 9, 9⟩, 0, 0, 0⟩

namespace Cache

section Load

variable {c d : Cache} {σ : Type} [RandomSource σ] {data : Bytes} {report : LoadReport}
  {order : RemovalOrder} {s s' : σ}

/-- A load that succeeds leaves the cache that was read. -/
theorem ofBytes_of_load (h : c.load order data s = .ok ((.ok report, d), s')) :
    ofBytes c.policy order data = .ok (.ok (d, report)) := by
  obtain ⟨result, hresult, -⟩ := ofBytes_outcome c.policy order data
  cases result with
  | ok x =>
      rw [load_of_ok hresult s] at h
      cases h
      exact hresult
  | error e =>
      obtain ⟨d', s'', hnew, -⟩ := ensures_new c.policy s
      rw [load_of_error hresult hnew] at h
      cases h

/-- The bytes that a load accepts have one content, and the cache that is left has lost
nothing of it but records that collide. -/
theorem load_losses (h : c.load order data s = .ok ((.ok report, d), s')) :
    ∃ f : StoredCache, (∀ g : StoredCache, g.StoredIn data ↔ g = f) ∧ f.Loads d report := by
  obtain ⟨m, lost, rest, hrun, rfl, -, hd, hpruned, -⟩ :=
    exists_run_of_ofBytes (ofBytes_of_load h)
  obtain ⟨taken, rfl, f, hfits, rfl, hleads⟩ := takes_decode c.policy data (m, lost) rest hrun
  have hstored : f.StoredIn (f.toBytes ++ rest) := ⟨hfits, rest, rfl⟩
  have honly : ∀ g : StoredCache, g.StoredIn (f.toBytes ++ rest) ↔ g = f := fun g =>
    ⟨hstored.unique, fun hg => hg ▸ hstored⟩
  exact ⟨f, honly, (hleads.gathered hfits).loads hfits hd hpruned⟩

/-- For instance, the only record of a file is named in no bucket list. The load succeeds,
and the record is lost. -/
theorem load_losses_of_unnamed : ∃ (f : StoredCache) (d : Cache) (report : LoadReport),
    f.Listed ∧ f.new.map StoredRecord.endpoint = [.v4 ⟨8, 8, 8, 8⟩ 8333] ∧
    (ofKey .standard default).load .ascending f.toBytes (⟨[], 0⟩ : SplitMix) =
      .ok ((.ok report, d), ⟨[], 0⟩) ∧
    f.Loads d report ∧ d.lookup (.v4 ⟨8, 8, 8, 8⟩ 8333) = none := by
  have hcanonical : StoredRecord.untried.Canonical := ⟨by decide, by decide⟩
  have hlisted := StoredCache.listed_ofNew default [.untried] fun _ => []
  have hfits : (StoredCache.ofNew default [.untried] fun _ => []).Fits :=
    StoredCache.fits_ofNew default (by decide) (by simpa using hcanonical)
      fun _ => ⟨by decide, nofun⟩
  obtain ⟨m, lost, -, hrun⟩ := hfits.exists_run (List.nodup_singleton _) .standard
  obtain ⟨d, hbytes, -⟩ := exists_ofBytes_of_run hrun .ascending
  have hload := load_of_ok (c := ofKey .standard default) hbytes (⟨[], 0⟩ : SplitMix)
  obtain ⟨g, honly, hloads⟩ := load_losses hload
  -- The content that the load has read is the one that was written.
  obtain rfl := (honly _).mp ⟨hfits, [], (List.append_nil _).symm⟩
  refine ⟨_, d, _, hlisted, rfl, hload, hloads, ?_⟩
  refine (hloads.new_lost_iff_listed hlisted 0 .untried rfl).mpr fun n b hn => ?_
  simp [StoredCache.entries_ofNew] at hn

end Load

end Cache

end PeerCache
