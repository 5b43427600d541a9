import PeerCache.Proofs.Cache.Audit
import PeerCache.Proofs.Cache.Slots

/-!
# `PeerCache.Proofs.Cache.Learn`: taking in an announcement

An announcement of an unknown address adds a record without a slot. Until the slot
is settled that record is the only one that may be loose, and it is either placed or
removed again. Nothing else is ever loose, so `Coherent.offerSlot` covers the known
address as well.

A record that is offered a further slot has room for it (`Coherent.refresh`), which
keeps the references below their limit.

`Offered` lists the ways in which an offer ends, and `Learnt` those in which the
announcement does. What an announcement can do is read off these two.
-/

set_option autoImplicit false

namespace PeerCache

theorem Record.hasRoom_iff {r : Record} :
    r.hasRoom = true ↔ r.inTried = false ∧ r.refs < maxReferences := by
  simp [Record.hasRoom]

namespace Cache

variable {c : Cache} {id : RecordId} {r : Record}

/-! ### The offer of a slot -/

/-- How an offer of the slot `(b, p)` to the record `r`, numbered `id`, may end. The
first argument after these says whether a creation is to be reported. -/
inductive Offered (c : Cache) (id : RecordId) (r : Record) (b : Fin newBucketCount)
    (p : Fin bucketSize) (created : Bool) (now : Timestamp) : Bool → Cache → Prop
  /-- The slot is free, and the record takes it. -/
  | free (hget : c.newTable.get b p = none) :
      Offered c id r b p created now created (c.addReference b p id)
  /-- The record holds the slot already. -/
  | held (hget : c.newTable.get b p = some id) : Offered c id r b p created now created c
  /-- Another holder gives way. -/
  | takenOver {holder : RecordId} {m : Cache} (hget : c.newTable.get b p = some holder)
      (hne : holder ≠ id) (hway : c.givesWay holder r.refs now = true)
      (hcleared : Cleared b p c m) : Offered c id r b p created now created (m.addReference b p id)
  /-- Another holder stays, and the record had no slot before. -/
  | dropped {holder : RecordId} {d : Cache} (hget : c.newTable.get b p = some holder)
      (hne : holder ≠ id) (hstays : c.givesWay holder r.refs now = false) (hrefs : r.refs = 0)
      (hremoved : Removed id c d) : Offered c id r b p created now false d
  /-- Another holder stays, and the record has other slots. -/
  | refused {holder : RecordId} (hget : c.newTable.get b p = some holder) (hne : holder ≠ id)
      (hstays : c.givesWay holder r.refs now = false) (hrefs : r.refs ≠ 0) :
      Offered c id r b p created now false c

/-! How an offer ends is settled by the holder of the slot, by whether it gives way, and
by whether the record has other slots. -/

namespace Offered

variable {b : Fin newBucketCount} {p : Fin bucketSize} {created counts : Bool} {now : Timestamp}
  {d : Cache} {holder : RecordId}

theorem policy (h : Offered c id r b p created now counts d) : d.policy = c.policy := by
  cases h with
  | free | held | refused => rfl
  | takenOver _ _ _ hcleared => exact hcleared.policy
  | dropped _ _ _ _ hremoved => exact hremoved.policy

theorem of_free (h : Offered c id r b p created now counts d) (hget : c.newTable.get b p = none) :
    counts = created ∧ d = c.addReference b p id := by
  cases h with
  | free => exact ⟨rfl, rfl⟩
  | held he | takenOver he | dropped he | refused he =>
      rw [hget] at he
      cases he

theorem of_held (h : Offered c id r b p created now counts d)
    (hget : c.newTable.get b p = some id) : counts = created ∧ d = c := by
  cases h with
  | held => exact ⟨rfl, rfl⟩
  | free he =>
      rw [hget] at he
      cases he
  | takenOver he hne | dropped he hne | refused he hne =>
      rw [hget] at he
      cases he
      exact absurd rfl hne

theorem of_givesWay (h : Offered c id r b p created now counts d)
    (hget : c.newTable.get b p = some holder) (hne : holder ≠ id)
    (hway : c.givesWay holder r.refs now = true) :
    counts = created ∧ ∃ m, Cleared b p c m ∧ d = m.addReference b p id := by
  cases h with
  | takenOver _ _ _ hcleared => exact ⟨rfl, _, hcleared, rfl⟩
  | free he =>
      rw [hget] at he
      cases he
  | held he =>
      rw [hget] at he
      cases he
      exact absurd rfl hne
  | dropped he _ hstays | refused he _ hstays =>
      rw [hget] at he
      cases he
      rw [hway] at hstays
      cases hstays

theorem of_stays (h : Offered c id r b p created now counts d)
    (hget : c.newTable.get b p = some holder) (hne : holder ≠ id)
    (hstays : c.givesWay holder r.refs now = false) :
    counts = false ∧ (r.refs = 0 → Removed id c d) ∧ (r.refs ≠ 0 → d = c) := by
  cases h with
  | dropped _ _ _ hzero hremoved => exact ⟨rfl, fun _ => hremoved, fun hmore => absurd hzero hmore⟩
  | refused _ _ _ hmore => exact ⟨rfl, fun hzero => absurd hzero hmore, fun _ => rfl⟩
  | free he =>
      rw [hget] at he
      cases he
  | held he =>
      rw [hget] at he
      cases he
      exact absurd rfl hne
  | takenOver he _ hway =>
      rw [hget] at he
      cases he
      rw [hstays] at hway
      cases hway

end Offered

/-- A record is offered a slot. It is the only one that may be without any, and it
has one in the end or is gone. -/
theorem Coherent.offerSlot (h : Coherent {id} ∅ c) (hr : c.records[id]? = some r)
    (hnew : r.inTried = false) (hroom : r.refs < maxReferences) (source : Ip)
    {b : Fin newBucketCount} {p : Fin bucketSize} (hslot : c.primarySlot r.endpoint source = (b, p))
    (created : Bool) (now : Timestamp) :
    ∃ (counts : Bool) (d : Cache), c.offerSlot id source created now = .ok (counts, d) ∧
      Coherent ∅ ∅ d ∧ Descends c d ∧ Offered c id r b p created now counts d := by
  unfold Cache.offerSlot
  simp only [hr]
  have hplace : c.newSlot b r.endpoint = p := by
    obtain ⟨rfl, hp⟩ := Prod.mk.inj hslot
    exact hp
  -- A record that has a slot is not loose.
  have hfixed : r.refs ≠ 0 → Coherent ∅ ∅ c := fun hrefs => h.mono fun j r' hr' _ hzero hj => by
    obtain rfl : j = id := hj
    rw [hr] at hr'
    cases hr'
    exact absurd hzero hrefs
  rw [hslot]
  dsimp only
  cases hget : c.newTable.get b p with
  | none =>
      -- The slot is free.
      refine ⟨created, _, rfl, ?_, descends_addReference c b p id, .free hget⟩
      simpa using h.addReference hget hr hnew hroom hplace
  | some holder =>
      dsimp only
      by_cases hself : holder = id
      · -- The record holds the slot already.
        subst hself
        rw [if_pos rfl]
        refine ⟨created, c, rfl, hfixed ?_, .refl c, .held hget⟩
        rw [← h.card_held holder r hr, Finset.card_ne_zero]
        exact ⟨(b, p), SlotTable.mem_held.mpr hget⟩
      · rw [if_neg hself]
        by_cases hway : c.givesWay holder r.refs now = true
        · -- The holder gives way, and is removed if that was its last slot.
          rw [if_pos hway]
          have hother : c.newTable.get b p ≠ some id :=
            fun he => hself (Option.some.inj (hget.symm.trans he))
          obtain ⟨d, hclear, hd, hdescends, hcleared⟩ := h.takeOver hr hnew hroom hplace hother
            fun _ _ => Finset.notMem_empty _
          refine ⟨created, d.addReference b p id, by rw [hclear]; rfl, ?_, hdescends,
            .takenOver hget hself hway hcleared⟩
          simpa using hd
        · -- The holder stays. A record that has no slot by now is removed.
          rw [if_neg hway]
          have hstays : c.givesWay holder r.refs now = false := Bool.not_eq_true _ ▸ hway
          by_cases hrefs : r.refs = 0
          · rw [if_pos hrefs]
            obtain ⟨d, hdelete, hd, hremoved⟩ := h.delete hr hnew hrefs (Finset.notMem_empty id)
            refine ⟨false, d, by rw [hdelete]; rfl, hd.mono fun j r' hr' _ _ hj => ?_,
              hremoved.descends, .dropped hget hself hstays hrefs hremoved⟩
            obtain rfl : j = id := hj
            rw [hremoved.gone] at hr'
            cases hr'
          · rw [if_neg hrefs]
            exact ⟨false, c, rfl, hfixed hrefs, .refl c, .refused hget hself hstays hrefs⟩

/-! ### Known and unknown addresses -/

/-- The cache with an announcement merged into the record of the address. -/
def merged (c : Cache) (id : RecordId) (old : Record) (a : Announcement) (penalty : Nat)
    (now : Timestamp) : Cache :=
  c.modifyRecord id fun _ => old.merge a.canonical penalty now

/-- The record that an announcement of an unknown address adds. -/
def newcomer (c : Cache) (a : Announcement) (source : Ip) (penalty : Nat) : Record :=
  .ofAnnouncement { a.canonical with seen := a.canonical.seen.earlier penalty } source.canonical
    c.order.size

/-- The cache with this record added and counted. The record holds no slot yet. -/
def created (c : Cache) (a : Announcement) (source : Ip) (penalty : Nat) : Cache :=
  { c.inserted (c.newcomer a source penalty) with newCount := c.newCount + 1 }

theorem records_created (c : Cache) (a : Announcement) (source : Ip) (penalty : Nat)
    (j : RecordId) : (c.created a source penalty).records[j]? =
      if j = ⟨c.nextId⟩ then some (c.newcomer a source penalty) else c.records[j]? :=
  records_inserted c _ j

theorem getElem?_merged_self {old : Record} (hr : c.records[id]? = some old) (a : Announcement)
    (penalty : Nat) (now : Timestamp) :
    (c.merged id old a penalty now).records[id]? = some (old.merge a.canonical penalty now) := by
  rw [merged, getElem?_modifyRecord_self, hr]
  rfl

theorem getElem?_merged_of_ne {old : Record} {j : RecordId} (hj : j ≠ id) (a : Announcement)
    (penalty : Nat) (now : Timestamp) :
    (c.merged id old a penalty now).records[j]? = c.records[j]? :=
  getElem?_modifyRecord_of_ne c id _ hj

/-- What an announcement leads to: the answer and the cache afterwards. -/
inductive Learnt (c : Cache) (a : Announcement) (source : Ip) (penalty : Nat) (now : Timestamp) :
    Bool → Cache → Prop
  /-- The policy does not admit the address. -/
  | ignored (hpolicy : c.policy.allowUnroutable = false)
      (hroute : a.canonical.ip.isRoutable = false) : Learnt c a source penalty now false c
  /-- The address is known, and its record is offered no further slot. -/
  | merged {id : RecordId} {old : Record} (hr : c.records[id]? = some old)
      (hip : old.ip = a.canonical.ip) :
      Learnt c a source penalty now false (c.merged id old a penalty now)
  /-- The address is known, and its record is offered a further slot. -/
  | offered {id : RecordId} {old : Record} {b : Fin newBucketCount} {p : Fin bucketSize}
      {counts : Bool} {d : Cache} (hr : c.records[id]? = some old) (hip : old.ip = a.canonical.ip)
      (hnew : old.inTried = false) (hslot : c.primarySlot old.endpoint source.canonical = (b, p))
      (hoffered : Offered (c.merged id old a penalty now) id (old.merge a.canonical penalty now)
        b p false now counts d) : Learnt c a source penalty now counts d
  /-- The address is unknown, and the record that is added for it is offered a slot. -/
  | created {b : Fin newBucketCount} {p : Fin bucketSize} {counts : Bool} {d : Cache}
      (hunknown : c.addresses[a.canonical.ip]? = none)
      (hslot : c.primarySlot a.canonical.endpoint source.canonical = (b, p))
      (hoffered : Offered (c.created a source penalty) ⟨c.nextId⟩ (c.newcomer a source penalty)
        b p true now counts d) : Learnt c a source penalty now counts d

theorem Learnt.policy {a : Announcement} {source : Ip} {penalty : Nat} {now : Timestamp}
    {counts : Bool} {d : Cache} (h : Learnt c a source penalty now counts d) :
    d.policy = c.policy := by
  cases h with
  | ignored | merged => rfl
  | offered _ _ _ _ hoffered => exact hoffered.policy
  | created _ _ hoffered => exact hoffered.policy

/-- An empty cache stores the first endpoint it hears of, under number zero. -/
theorem Learnt.of_ofKey {policy : Policy} {key : PlacementKey} {a : Announcement} {source : Ip}
    {penalty : Nat} {now : Timestamp} {counts : Bool} {d : Cache}
    (h : Learnt (ofKey policy key) a source penalty now counts d)
    (hadmits : policy.allowUnroutable = true ∨ a.canonical.ip.isRoutable = true) :
    d.records[(⟨0⟩ : RecordId)]?
      = some { (ofKey policy key).newcomer a source penalty with refs := 1 } := by
  have hfree : ∀ b p, ((ofKey policy key).created a source penalty).newTable.get b p = none :=
    SlotTable.get_empty
  cases h with
  | ignored hpolicy hroute =>
      change policy.allowUnroutable = false at hpolicy
      rw [hpolicy, hroute] at hadmits
      exact absurd hadmits (by decide)
  | merged hr => simp [ofKey] at hr
  | offered hr => simp [ofKey] at hr
  | created hunknown hslot hoffered =>
      cases hoffered with
      | free hget =>
          have hzero : (⟨0⟩ : RecordId) = ⟨(ofKey policy key).nextId⟩ := rfl
          rw [records_addReference, records_created, if_pos hzero, Option.map_some, if_pos hzero]
          rfl
      | held hget | takenOver hget | dropped hget | refused hget =>
          rw [hfree] at hget
          cases hget

theorem Coherent.merged (h : Coherent ∅ ∅ c) {old : Record} (hr : c.records[id]? = some old)
    (a : Announcement) (penalty : Nat) (now : Timestamp) :
    Coherent ∅ ∅ (c.merged id old a penalty now) :=
  h.modifyHistory fun r hr' => by
    rw [hr] at hr'
    cases hr'
    exact ⟨rfl, rfl, rfl, rfl, rfl⟩

theorem Every.merged {old : Record} (hc : Every Record.Dated c) (hr : c.records[id]? = some old)
    (a : Announcement) (penalty : Nat) (now : Timestamp) :
    Every Record.Dated (c.merged id old a penalty now) :=
  hc.modifyRecord fun _ _ => ⟨(hc id old hr).lastSuccess, (hc id old hr).lastTry⟩

variable {σ : Type} [RandomSource σ]

/-- An announcement is merged into a record. A record that is to be offered a
further slot has room for it, whatever is drawn. -/
theorem ensures_refresh {old : Record} (hr : c.records[id]? = some old) (a : Announcement)
    (penalty : Nat) (now : Timestamp) :
    (c.refresh id a.canonical penalty now : Draw σ (Bool × Cache)).Ensures fun x =>
      x.2 = c.merged id old a penalty now ∧
        (x.1 = true → old.inTried = false ∧ old.refs < maxReferences) := by
  unfold Cache.refresh
  rw [hr]
  dsimp only
  by_cases hstop : (!(old.merge a.canonical penalty now).isNews a.canonical.seen ||
      !(old.merge a.canonical penalty now).hasRoom) = true
  · rw [if_pos hstop]
    exact .pure ⟨rfl, nofun⟩
  · rw [if_neg hstop]
    have hboth : (old.merge a.canonical penalty now).isNews a.canonical.seen = true ∧
        (old.merge a.canonical penalty now).hasRoom = true := by simpa using hstop
    by_cases hfirst : (old.merge a.canonical penalty now).refs = 0
    · rw [if_pos hfirst]
      exact .pure ⟨rfl, fun _ => Record.hasRoom_iff.mp hboth.2⟩
    · rw [if_neg hfirst]
      refine .bind (Draw.ensures_below ?_) fun n _ =>
        .pure ⟨rfl, fun _ => Record.hasRoom_iff.mp hboth.2⟩
      rw [Nat.one_shiftLeft]
      exact Nat.two_pow_pos _

/-- A record for an unknown address is added and counted. It has no slot yet. -/
theorem Coherent.created (h : Coherent ∅ ∅ c) (a : Announcement) (source : Ip) (penalty : Nat)
    (hunknown : c.addresses[a.canonical.ip]? = none) :
    Coherent {⟨c.nextId⟩} ∅ (c.created a source penalty) ∧
      (c.created a source penalty).records[(⟨c.nextId⟩ : RecordId)]?
        = some (c.newcomer a source penalty) ∧
      (Every Record.Dated c → Every Record.Dated (c.created a source penalty)) := by
  have hnewcomer : c.Newcomer (c.newcomer a source penalty) :=
    ⟨rfl, rfl, rfl, Endpoint.canonical_canonical _, Ip.canonical_canonical _, hunknown⟩
  have hr : (c.created a source penalty).records[(⟨c.nextId⟩ : RecordId)]?
      = some (c.newcomer a source penalty) := by
    rw [records_created, if_pos rfl]
  refine ⟨?_, hr, fun hc j r hr' => ?_⟩
  · have hcounted := (h.inserted hnewcomer).countNew hr rfl (Finset.mem_insert_self _ _)
    rw [Finset.erase_insert (Finset.notMem_empty _), insert_empty_eq] at hcounted
    exact hcounted
  · rcases getElem?_of_inserted hr' with ⟨-, rfl⟩ | hr'
    · exact ⟨nofun, nofun⟩
    · exact hc j r hr'

/-- Taking in an announcement never fails and keeps the invariant. -/
theorem Coherent.learnUnaudited (h : Coherent ∅ ∅ c) (a : Announcement) (source : Ip)
    (penalty : Nat) (now : Timestamp) :
    (c.learnUnaudited a source penalty now : Draw σ (Bool × Cache)).Ensures fun x =>
      Coherent ∅ ∅ x.2 ∧ (Every Record.Dated c → Every Record.Dated x.2) ∧
        Learnt c a source penalty now x.1 x.2 := by
  unfold Cache.learnUnaudited
  dsimp only
  split
  · next hstop =>
    have hboth : c.policy.allowUnroutable = false ∧ a.canonical.ip.isRoutable = false := by
      simpa using hstop
    exact .pure ⟨h, fun hc => hc, .ignored hboth.1 hboth.2⟩
  · cases hknown : c.addresses[a.canonical.ip]? with
    | some id =>
        obtain ⟨old, hr, hip⟩ := (h.addresses_iff _ id).mp hknown
        have hm := h.merged hr a penalty now
        have hdated := fun hc : Every Record.Dated c => hc.merged hr a penalty now
        refine .bind (ensures_refresh hr a penalty now) fun x hx => ?_
        obtain ⟨wanted, m⟩ := x
        obtain ⟨rfl, hroom⟩ := hx
        cases wanted with
        | false => exact .pure ⟨hm, hdated, .merged hr hip⟩
        | true =>
            obtain ⟨hnew, hrefs⟩ := hroom rfl
            have hrm := getElem?_merged_self hr a penalty now
            have hloose : Coherent {id} ∅ (c.merged id old a penalty now) :=
              hm.mono fun _ _ _ _ _ hj => hj.elim
            obtain ⟨counts, d, hoffer, hd, hdescends, hoffered⟩ :=
              hloose.offerSlot hrm hnew hrefs source.canonical rfl false now
            exact .lift hoffer ⟨hd, fun hc => hdescends.dated (hdated hc),
              .offered hr hip hnew rfl hoffered⟩
    | none =>
        obtain ⟨hm, hr, hdated⟩ := h.created a source penalty hknown
        obtain ⟨counts, d, hoffer, hd, hdescends, hoffered⟩ :=
          hm.offerSlot hr rfl (show 0 < maxReferences by decide) source.canonical rfl true now
        exact .lift hoffer ⟨hd, fun hc => hdescends.dated (hdated hc),
          .created hknown rfl hoffered⟩

/-- Taking in an announcement, with the closing audit. -/
theorem Coherent.learn (h : Coherent ∅ ∅ c) (a : Announcement) (source : Ip) (penalty : Nat)
    (now : Timestamp) : (c.learn a source penalty now : Draw σ (Bool × Cache)).Ensures fun x =>
      Coherent ∅ ∅ x.2 ∧ (Every Record.Dated c → Every Record.Dated x.2) ∧
        Learnt c a source penalty now x.1 x.2 := by
  refine .bind (h.learnUnaudited a source penalty now) fun x hx => ?_
  refine .bind hx.1.ensures_audited fun d hd => ?_
  subst hd
  exact .pure hx

end Cache

end PeerCache
