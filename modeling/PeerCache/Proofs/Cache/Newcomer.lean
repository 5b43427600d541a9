import PeerCache.Proofs.Cache.Displacement
import PeerCache.Proofs.Cache.Numbers

/-!
# `PeerCache.Proofs.Cache.Newcomer`: which unknown addresses are taken in

An unknown address that the policy admits gets a record before its slot is looked at. The
slot decides what becomes of the record. An open slot (`SlotOpen`) makes it stay, and the
announcement reports a creation (`Coherent.learn_open`).

From any other slot the record is turned away. Nothing has happened since it was added, so
it stands last in the sampling order, and removing it undoes each step of adding it
(`popped_created`). Only its number is not given back (`Coherent.learn_closed`).

`Reachable.learn_reports` puts this together with the known addresses, for which no record
is added and none is reported.
-/

set_option autoImplicit false

namespace PeerCache

namespace Cache

variable {c d : Cache} {id holder : RecordId} {r : Record} {a : Announcement} {source : Ip}
  {penalty : Nat} {now : Timestamp} {b : Fin newBucketCount} {p : Fin bucketSize}

/-- There is a record for the address. -/
def Knows (c : Cache) (ip : Ip) : Prop :=
  ∃ (id : RecordId) (r : Record), c.records[id]? = some r ∧ r.ip = ip

/-- The slot of the new table is free, or the record that holds it gives way to a newcomer:
it is terrible or holds more than one slot. -/
def SlotOpen (c : Cache) (slot : Fin newBucketCount × Fin bucketSize) (now : Timestamp) : Prop :=
  c.newTable.get slot.1 slot.2 = none ∨
    ∃ (id : RecordId) (r : Record), c.newTable.get slot.1 slot.2 = some id ∧
      c.records[id]? = some r ∧ (r.isTerrible now = true ∨ 1 < r.refs)

theorem Indexed.not_knows_iff (h : Indexed c) {ip : Ip} :
    ¬ c.Knows ip ↔ c.addresses[ip]? = none := by
  rw [Option.eq_none_iff_forall_ne_some]
  simp only [ne_eq, h.addresses_iff]
  exact not_exists

/-! ### The record that is added -/

/-- Another record that holds the slot gives way to the one that is added when the slot is
open. -/
theorem Coherent.givesWay_created (h : Coherent ∅ ∅ c) (hget : c.newTable.get b p = some holder)
    (a : Announcement) (source : Ip) (penalty : Nat) (now : Timestamp) : holder ≠ ⟨c.nextId⟩ ∧
      ((c.created a source penalty).givesWay holder 0 now = true ↔ c.SlotOpen (b, p) now) := by
  obtain ⟨r, hr, -⟩ := h.new_slot _ _ _ hget
  have hne : holder ≠ ⟨c.nextId⟩ := by
    rintro rfl
    rw [h.getElem?_nextId] at hr
    cases hr
  refine ⟨hne, ?_⟩
  rw [givesWay, records_created, if_neg hne]
  simp [SlotOpen, hget, hr]

/-- Removing a record that stands last in the order moves no other. -/
theorem delete_last (hr : c.records[id]? = some r) (hnew : r.inTried = false)
    (hrefs : r.refs = 0) (hlast : r.orderIndex + 1 = c.order.size) (hcount : c.newCount ≠ 0) :
    c.delete id = .ok (c.popped id r) := by
  have hne : c.order.size ≠ 0 := by omega
  have hplace : r.orderIndex = c.order.size - 1 := by omega
  have hswap : c.swapOrder r.orderIndex (c.order.size - 1) = .ok c := by
    rw [swapOrder, if_pos hplace]
  simp [Cache.delete, hr, hnew, hrefs, hne, hswap, hcount, Cache.popped, bind, Except.bind]

/-- Removing what was just added to the records leaves them as they were. -/
theorem erase_insert_records (h : c.records[id]? = none) (r : Record) :
    (c.records.insert id r).erase id = c.records := by
  refine Std.ExtTreeMap.ext_getElem? fun j => ?_
  rw [getElem?_erase_eq_ite, getElem?_insert_eq_ite]
  by_cases hj : j = id
  · rw [if_pos hj, hj, h]
  · rw [if_neg hj, if_neg hj]

theorem erase_insert_addresses {ip : Ip} (h : c.addresses[ip]? = none) (id : RecordId) :
    (c.addresses.insert ip id).erase ip = c.addresses := by
  refine Std.ExtHashMap.ext_getElem? fun ip' => ?_
  rw [Std.ExtHashMap.getElem?_erase, Std.ExtHashMap.getElem?_insert]
  by_cases hip : ip = ip'
  · rw [if_pos (beq_iff_eq.mpr hip), ← hip, h]
  · rw [if_neg (mt beq_iff_eq.mp hip), if_neg (mt beq_iff_eq.mp hip)]

/-- Removing the record that was just added restores everything but its number. -/
theorem popped_created (h : Indexed c) (hunknown : c.addresses[a.canonical.ip]? = none)
    (source : Ip) (penalty : Nat) :
    (c.created a source penalty).popped ⟨c.nextId⟩ (c.newcomer a source penalty)
      = { c with nextId := c.nextId + 1 } := by
  have hrecords := erase_insert_records h.getElem?_nextId (c.newcomer a source penalty)
  have haddresses := erase_insert_addresses hunknown ⟨c.nextId⟩
  have horder : (c.order.push ⟨c.nextId⟩).pop = c.order := Array.pop_push
  -- Each index takes the record in and gives it back.
  rw [popped]
  show ({ c with
    nextId := c.nextId + 1
    records := (c.records.insert ⟨c.nextId⟩ (c.newcomer a source penalty)).erase ⟨c.nextId⟩
    order := (c.order.push ⟨c.nextId⟩).pop
    addresses := (c.addresses.insert a.canonical.ip ⟨c.nextId⟩).erase a.canonical.ip
    newCount := c.newCount + 1 - 1 } : Cache) = _
  rw [hrecords, haddresses, horder, Nat.add_sub_cancel]

theorem delete_created (h : Indexed c) (hunknown : c.addresses[a.canonical.ip]? = none)
    (source : Ip) (penalty : Nat) :
    (c.created a source penalty).delete ⟨c.nextId⟩ = .ok { c with nextId := c.nextId + 1 } := by
  have hr : (c.created a source penalty).records[(⟨c.nextId⟩ : RecordId)]?
      = some (c.newcomer a source penalty) := by
    rw [records_created, if_pos rfl]
  have hlast : c.order.size + 1 = (c.order.push ⟨c.nextId⟩).size := by
    rw [Array.size_push]
  rw [delete_last hr rfl rfl hlast (Nat.succ_ne_zero c.newCount),
    popped_created h hunknown source penalty]

/-- A record that holds no slot is removed when another record keeps the slot that it is
offered. -/
theorem offerSlot_of_stays (hr : c.records[id]? = some r) (hrefs : r.refs = 0)
    (hslot : c.primarySlot r.endpoint source = (b, p)) (hget : c.newTable.get b p = some holder)
    (hne : holder ≠ id) (hstays : ¬ c.givesWay holder 0 now = true)
    (hdelete : c.delete id = .ok d) (created : Bool) :
    c.offerSlot id source created now = .ok (false, d) := by
  unfold Cache.offerSlot
  simp only [hr, hslot, hget, if_neg hne, hrefs, if_neg hstays, if_pos, hdelete]
  rfl

/-! ### The announcement of an unknown address -/

section

variable {σ : Type} [RandomSource σ]

/-- The announcement comes to what the offer of the slot comes to. It draws nothing. -/
theorem learn_unknown (hadmits : c.policy.admits a.canonical.ip = true)
    (hunknown : c.addresses[a.canonical.ip]? = none) {created : Bool}
    (hoffer : (c.created a source penalty).offerSlot ⟨c.nextId⟩ source.canonical true now
      = .ok (created, d)) (hd : Coherent ∅ ∅ d) (s : σ) :
    c.learn a source penalty now s = .ok ((created, d), s) := by
  have hguard : ¬ (!c.policy.allowUnroutable && !a.canonical.ip.isRoutable) = true := by
    rwa [← Bool.not_or, Bool.not_eq_true', Bool.not_eq_false]
  have hunaudited : c.learnUnaudited a source penalty now s = .ok ((created, d), s) := by
    unfold Cache.learnUnaudited
    dsimp only
    rw [if_neg hguard, hunknown]
    exact Draw.run_lift hoffer s
  unfold Cache.learn
  rw [Draw.run_bind hunaudited]
  exact (Draw.run_bind (Draw.run_lift hd.audited s)).trans rfl

/-- An open slot goes to the newcomer. -/
theorem Coherent.learn_open (h : Coherent ∅ ∅ c) (hadmits : c.policy.admits a.canonical.ip = true)
    (hunknown : c.addresses[a.canonical.ip]? = none)
    (hslot : c.primarySlot a.canonical.endpoint source.canonical = (b, p))
    (hopen : c.SlotOpen (b, p) now) (penalty : Nat) (s : σ) :
    ∃ d : Cache, c.learn a source penalty now s = .ok ((true, d), s) ∧ Coherent ∅ ∅ d ∧
      Offered (c.created a source penalty) ⟨c.nextId⟩ (c.newcomer a source penalty) b p true now
        true d := by
  obtain ⟨hcreated, hr, -⟩ := h.created a source penalty hunknown
  obtain ⟨created, d, hoffer, hd, -, hoffered⟩ :=
    hcreated.offerSlot hr rfl (show 0 < maxReferences by decide) source.canonical hslot true now
  have hcreates : created = true := by
    cases hget : c.newTable.get b p with
    | none => exact (hoffered.of_free hget).1
    | some holder =>
        obtain ⟨hne, hway⟩ := h.givesWay_created hget a source penalty now
        exact (hoffered.of_givesWay hget hne (hway.mpr hopen)).1
  subst hcreates
  exact ⟨d, learn_unknown hadmits hunknown hoffer hd s, hd, hoffered⟩

/-- From a slot that is not open the newcomer is turned away, and nothing but the next
number has changed. -/
theorem Coherent.learn_closed (h : Coherent ∅ ∅ c)
    (hadmits : c.policy.admits a.canonical.ip = true)
    (hunknown : c.addresses[a.canonical.ip]? = none)
    (hslot : c.primarySlot a.canonical.endpoint source.canonical = (b, p))
    (hclosed : ¬ c.SlotOpen (b, p) now) (penalty : Nat) (s : σ) :
    Coherent ∅ ∅ { c with nextId := c.nextId + 1 } ∧
      c.learn a source penalty now s = .ok ((false, { c with nextId := c.nextId + 1 }), s) := by
  obtain ⟨hcreated, hr, -⟩ := h.created a source penalty hunknown
  have hrun : (c.created a source penalty).offerSlot ⟨c.nextId⟩ source.canonical true now
      = .ok (false, { c with nextId := c.nextId + 1 }) := by
    cases hget : c.newTable.get b p with
    | none => exact absurd (Or.inl hget) hclosed
    | some holder =>
        obtain ⟨hne, hway⟩ := h.givesWay_created hget a source penalty now
        exact offerSlot_of_stays hr rfl hslot hget hne (mt hway.mp hclosed)
          (delete_created h.toIndexed hunknown source penalty) true
  -- Whatever an offer returns is coherent, and this is what it returns.
  obtain ⟨created, d, hoffer, hd, -, -⟩ :=
    hcreated.offerSlot hr rfl (show 0 < maxReferences by decide) source.canonical hslot true now
  rw [hrun] at hoffer
  cases hoffer
  exact ⟨hd, learn_unknown hadmits hunknown hrun hd s⟩

end

/-! ### Every announcement -/

/-- An announcement of a known address reports no creation. -/
theorem Learnt.eq_false_of_known {created : Bool} (h : Learnt c a source penalty now created d)
    (hc : Indexed c) (hknown : c.Knows a.canonical.ip) : created = false := by
  cases h with
  | ignored | merged => rfl
  | offered _ _ _ _ hoffered => exact hoffered.counts_eq_false
  | created hunknown => exact absurd hknown (hc.not_knows_iff.mpr hunknown)

/-- A record whose creation is reported holds the slot that it was offered. -/
theorem Offered.exists_stored {created : Bool} (h : Offered c id r b p created now true d)
    (hr : c.records[id]? = some r) :
    d.newTable.get b p = some id ∧ ∃ s : Record, d.records[id]? = some s ∧ r.SameButPlace s := by
  -- An offer that ends otherwise reports no creation.
  have hstored : d.newTable.get b p = some id ∧ ∃ s : Record, d.records[id]? = some s := by
    cases h with
    | free =>
        refine ⟨(SlotTable.get_set _ _ _ _ _ _).trans (if_pos ⟨rfl, rfl⟩), ?_⟩
        rw [records_addReference, hr]
        exact ⟨_, rfl⟩
    | held hget => exact ⟨hget, r, hr⟩
    | takenOver hget hne _ hcleared =>
        refine ⟨(SlotTable.get_set _ _ _ _ _ _).trans (if_pos ⟨rfl, rfl⟩), ?_⟩
        obtain ⟨f, hothers⟩ := hcleared.others
        have hkept := hothers id fun he => hne (Option.some.inj (hget.symm.trans he))
        rw [records_addReference, hkept, hr]
        exact ⟨_, rfl⟩
  obtain ⟨hget, s, hs⟩ := hstored
  exact ⟨hget, s, hs, h.sameButPlace hr hs⟩

variable {allowed : Operation → Prop} {σ : Type} [RandomSource σ]

/-- An announcement reports a creation when it brings a record for an address that had none,
and at no other time. For an unknown address this is so when the policy admits the address
and the slot that the placement hash gives for it is open. When no creation is reported for
an unknown address, the cache is as before but for the next number, and nothing was drawn. -/
theorem Reachable.learn_reports (h : Reachable allowed c) (a : Announcement) (source : Ip)
    (penalty : Nat) (now : Timestamp) (s : σ) :
    ∃ (created : Bool) (d : Cache) (s' : σ),
      c.learn a source penalty now s = .ok ((created, d), s') ∧
      (created = true ↔ ¬ c.Knows a.canonical.ip ∧ d.Knows a.canonical.ip) ∧
      (¬ c.Knows a.canonical.ip →
        (created = true ↔ c.policy.admits a.canonical.ip = true ∧
          c.SlotOpen (c.primarySlot a.canonical.endpoint source.canonical) now) ∧
        (created = false → d = { c with nextId := d.nextId } ∧ s' = s)) := by
  have hc := h.coherent
  by_cases hknown : c.Knows a.canonical.ip
  · -- For a known address no creation is reported.
    obtain ⟨⟨created, d⟩, s', hrun, -, -, hlearnt⟩ := hc.learn a source penalty now s
    obtain rfl := hlearnt.eq_false_of_known hc.toIndexed hknown
    exact ⟨false, d, s', hrun, iff_of_false nofun fun hboth => hboth.1 hknown,
      fun hunknown => absurd hknown hunknown⟩
  · have hunknown := hc.not_knows_iff.mp hknown
    by_cases hadmits : c.policy.admits a.canonical.ip = true
    · obtain ⟨⟨b, p⟩, hslot⟩ : ∃ slot, c.primarySlot a.canonical.endpoint source.canonical = slot :=
        ⟨_, rfl⟩
      rw [hslot]
      by_cases hopen : c.SlotOpen (b, p) now
      · -- The newcomer is stored.
        obtain ⟨d, hrun, -, hoffered⟩ := hc.learn_open hadmits hunknown hslot hopen penalty s
        obtain ⟨-, hr, -⟩ := hc.created a source penalty hunknown
        obtain ⟨-, t, ht, hsame⟩ := hoffered.exists_stored hr
        have hip : t.ip = a.canonical.ip := congrArg Endpoint.ip hsame.kind.1
        exact ⟨true, d, s, hrun, iff_of_true rfl ⟨hknown, _, t, ht, hip⟩,
          fun _ => ⟨iff_of_true rfl ⟨hadmits, hopen⟩, nofun⟩⟩
      · -- The newcomer is turned away.
        obtain ⟨-, hrun⟩ := hc.learn_closed hadmits hunknown hslot hopen penalty s
        exact ⟨false, _, s, hrun, iff_of_false nofun fun hboth => hknown hboth.2,
          fun _ => ⟨iff_of_false nofun fun hboth => hopen hboth.2, fun _ => ⟨rfl, rfl⟩⟩⟩
    · -- The policy does not admit the address.
      have hrun := hc.learn_unadmitted (Bool.not_eq_true _ ▸ hadmits) source penalty now s
      exact ⟨false, c, s, hrun, iff_of_false nofun fun hboth => hknown hboth.2,
        fun _ => ⟨iff_of_false nofun fun hboth => hadmits hboth.1, fun _ => ⟨rfl, rfl⟩⟩⟩

/-- For instance, the first announcement to an empty cache, of a routable address. -/
theorem learn_reports_first :
    ¬ (ofKey .standard default).Knows (.v4 ⟨8, 8, 8, 8⟩) ∧ ∃ (d : Cache) (s' : SplitMix),
      (ofKey .standard default).learn (.ofEndpoint (.ofIp (.v4 ⟨8, 8, 8, 8⟩) 8333)
        (.ofSecs 1700000000)) (.v4 ⟨9, 9, 9, 9⟩) 0 (.ofSecs 1700000000) (⟨[], 0⟩ : SplitMix)
          = .ok ((true, d), s') ∧ d.Knows (.v4 ⟨8, 8, 8, 8⟩) := by
  have hempty : Reachable (fun _ => True) (ofKey .standard default) := .ofKey .standard default
  have hunknown : ¬ (ofKey .standard default).Knows (.v4 ⟨8, 8, 8, 8⟩) := by
    rintro ⟨id, r, hr, -⟩
    simp [ofKey] at hr
  obtain ⟨created, d, s', hrun, hreports, hunknowns⟩ :=
    hempty.learn_reports (.ofEndpoint (.ofIp (.v4 ⟨8, 8, 8, 8⟩) 8333) (.ofSecs 1700000000))
      (.v4 ⟨9, 9, 9, 9⟩) 0 (.ofSecs 1700000000) (⟨[], 0⟩ : SplitMix)
  have hcreated : created = true :=
    (hunknowns hunknown).1.mpr ⟨by decide, Or.inl (SlotTable.get_empty _ _)⟩
  subst hcreated
  exact ⟨hunknown, d, s', hrun, (hreports.mp rfl).2⟩

end Cache

end PeerCache
