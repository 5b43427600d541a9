import PeerCache.Proofs.Cache.Records
import PeerCache.Proofs.Decoder

/-!
# `PeerCache.Proofs.Cache.Stored`: one record on disk and back

A stored record is read back from its bytes (`StoredRecord.reads_decode`), and a
record is recovered from what is stored of it (`StoredRecord.toRecord_ofRecord`).
The second needs the record to be in canonical notation, since only the canonical
addresses are stored, and its history to be free of time zero, which stands for
"never". Whatever the bytes, only such records are read (`StoredRecord.yields_decode`).
-/

set_option autoImplicit false

namespace PeerCache

/-- The reasons for which bytes are refused. -/
inductive Refusal : StorageError → Prop where
  | truncated : Refusal .truncated
  | unsupportedKeySize (size : UInt8) : Refusal (.unsupportedKeySize size)
  | tableTooLarge (new tried : UInt32) : Refusal (.tableTooLarge new tried)
  | duplicateAddress (ip : Ip) : Refusal (.duplicateAddress ip)

open Decoder

namespace StoredRecord

/-- A stored record whose addresses are in canonical notation. -/
structure Canonical (s : StoredRecord) : Prop where
  ip : s.ip.canonical = s.ip
  source : s.source.canonical = s.source

theorem yields_decodeIp : decodeIp.Yields Refusal fun ip => ip.canonical = ip := by
  refine .bind (yields_take 16 .truncated) fun bytes hlength => ?_
  -- Sixteen bytes are an address, so the length is the only thing that can be wrong.
  match bytes, hlength with
  | [b0, b1, b2, b3, b4, b5, b6, b7, b8, b9, b10, b11, b12, b13, b14, b15], _ =>
    exact .pure (Ip.canonical_ofWide _)

/-- A stored record is read in canonical notation, unless the bytes run out. -/
theorem yields_decode : StoredRecord.decode.Yields Refusal Canonical := by
  refine .bind yields_decodeIp fun ip hip => ?_
  refine .bind (yields_little 2 .truncated) fun port _ => ?_
  refine .bind (yields_little 8 .truncated) fun services _ => ?_
  refine .bind (yields_little 8 .truncated) fun seen _ => ?_
  refine .bind (yields_little 4 .truncated) fun version _ => ?_
  refine .bind yields_decodeIp fun source hsource => ?_
  refine .bind (yields_little 8 .truncated) fun lastSuccess _ => ?_
  refine .bind (yields_little 8 .truncated) fun lastTry _ => ?_
  refine .bind (yields_little 4 .truncated) fun attempts _ => ?_
  exact .pure ⟨hip, hsource⟩

@[simp] theorem toRecord_ip (s : StoredRecord) (n : Nat) : (s.toRecord n).ip = s.ip :=
  Endpoint.ip_ofIp s.ip s.port

theorem toTime?_ne_zero (secs : UInt64) : toTime? secs ≠ some .zero := by
  unfold toTime?
  split
  · simp
  · next hne =>
    intro he
    have hsecs := congrArg Timestamp.secs (Option.some.inj he)
    have hpos : secs.toNat ≠ 0 := fun hzero => hne (UInt64.toNat.inj hzero)
    simp only [Timestamp.secs_ofSecs, Timestamp.secs_zero, latestSecond] at hsecs
    omega

/-! ### There and back -/

theorem reads_decodeIp {ip : Ip} (hip : ip.canonical = ip) : decodeIp.Reads ip.toBytes ip := by
  rw [← List.append_nil ip.toBytes]
  refine .bind (reads_take (Ip.length_toBytes ip)) ?_
  rw [Ip.ofBytes?_toBytes, hip]
  exact .pure ip

/-- A stored record in canonical notation is read back from its bytes. -/
theorem reads_decode {s : StoredRecord} (hs : s.Canonical) :
    StoredRecord.decode.Reads s.toBytes s := by
  -- The fields nest to the right, as the decoder takes them off.
  have hbytes : s.toBytes = s.ip.toBytes ++ (Bytes.little 2 s.port.toNat ++
      (Bytes.little 8 s.services.toNat ++ (Bytes.little 8 s.seen.toNat ++
      (Bytes.little 4 s.version.toNat ++ (s.source.toBytes ++
      (Bytes.little 8 s.lastSuccess.toNat ++ (Bytes.little 8 s.lastTry.toNat ++
      (Bytes.little 4 s.attempts.toNat ++ [])))))))) := by
    simp [toBytes]
  rw [hbytes]
  refine .bind (reads_decodeIp hs.ip) ?_
  refine .bind (reads_little s.port.toNat_lt) ?_
  refine .bind (reads_little s.services.toNat_lt) ?_
  refine .bind (reads_little s.seen.toNat_lt) ?_
  refine .bind (reads_little s.version.toNat_lt) ?_
  refine .bind (reads_decodeIp hs.source) ?_
  refine .bind (reads_little s.lastSuccess.toNat_lt) ?_
  refine .bind (reads_little s.lastTry.toNat_lt) ?_
  refine .bind (reads_little s.attempts.toNat_lt) ?_
  simp only [UInt16.ofNat_toNat, UInt32.ofNat_toNat, UInt64.ofNat_toNat]
  exact .pure s

/-- An address is read from no other bytes than its own. -/
theorem takes_decodeIp : decodeIp.Takes fun taken ip => taken = ip.toBytes ∧ ip.canonical = ip := by
  refine .bind (takes_take 16) fun taken bytes hbytes => ?_
  obtain ⟨rfl, hlength⟩ := hbytes
  match taken, hlength with
  | [b0, b1, b2, b3, b4, b5, b6, b7, b8, b9, b10, b11, b12, b13, b14, b15], _ =>
    refine .pure ⟨?_, Ip.canonical_ofWide _⟩
    simp [Ip.toBytes, Ip.wide_ofWide, Ipv6.toBytes, Ipv6.words, Bytes.big16_ofBig16]

/-- A stored record is read from no other bytes than its own. -/
theorem takes_decode :
    StoredRecord.decode.Takes fun taken s => taken = s.toBytes ∧ s.Canonical := by
  refine .bind takes_decodeIp fun _ ip hip => ?_
  refine .bind (takes_little 2) fun _ port hport => ?_
  refine .bind (takes_little 8) fun _ services hservices => ?_
  refine .bind (takes_little 8) fun _ seen hseen => ?_
  refine .bind (takes_little 4) fun _ version hversion => ?_
  refine .bind takes_decodeIp fun _ source hsource => ?_
  refine .bind (takes_little 8) fun _ lastSuccess hlastSuccess => ?_
  refine .bind (takes_little 8) fun _ lastTry hlastTry => ?_
  refine .bind (takes_little 4) fun _ attempts hattempts => .pure ⟨?_, hip.2, hsource.2⟩
  -- A number below the span of its field is kept.
  simp only [Bytes.span] at hport hservices hseen hversion hlastSuccess hlastTry hattempts
  simp [toBytes, hip.1, hport, hservices, hseen, hversion, hsource.1, hlastSuccess, hlastTry,
    hattempts, Nat.mod_eq_of_lt]

theorem toTime?_ofTime? {t : Option Timestamp} (ht : t ≠ some .zero) : toTime? (ofTime? t) = t := by
  cases t with
  | none => rfl
  | some t =>
      -- A time is below `2 ^ 64`, so its stored form keeps it.
      have hle := t.secs_le
      have hne : t.secs ≠ 0 := fun hzero => ht (congrArg some (Timestamp.ext hzero))
      have hsecs : (UInt64.ofNat t.secs).toNat = t.secs := by
        rw [UInt64.toNat_ofNat']
        exact Nat.mod_eq_of_lt (by simp only [latestSecond] at hle; omega)
      have hnonzero : UInt64.ofNat t.secs ≠ 0 := fun hzero => by
        rw [hzero] at hsecs
        exact hne hsecs.symm
      show (if UInt64.ofNat t.secs = 0 then none
        else some (Timestamp.ofSecs (UInt64.ofNat t.secs).toNat)) = _
      rw [if_neg hnonzero, hsecs, Timestamp.ofSecs_secs]

/-- What is stored of a record is in canonical notation. -/
theorem canonical_ofRecord (r : Record) : (ofRecord r).Canonical :=
  ⟨Ip.canonical_canonical _, Ip.canonical_canonical _⟩

/-- The endpoint that is stored of a record in canonical notation is its own. -/
theorem endpoint_ofRecord {r : Record} (hendpoint : r.endpoint.canonical = r.endpoint) :
    (ofRecord r).endpoint = r.endpoint := hendpoint

theorem ip_ofRecord {r : Record} (hendpoint : r.endpoint.canonical = r.endpoint) :
    (ofRecord r).ip = r.ip := by
  have hip := congrArg Endpoint.ip hendpoint
  rw [Endpoint.ip_canonical] at hip
  exact hip

/-- A record is recovered from what is stored of it, as a new one without slots. -/
theorem toRecord_ofRecord {r : Record} (hendpoint : r.endpoint.canonical = r.endpoint)
    (hsource : r.source.canonical = r.source) (hdated : r.Dated) (n : Nat) :
    (ofRecord r).toRecord n = { r with inTried := false, refs := 0, orderIndex := n } := by
  have hseen : Timestamp.ofSecs (UInt64.ofNat r.peer.seen.secs).toNat = r.peer.seen := by
    have hle := r.peer.seen.secs_le
    rw [UInt64.toNat_ofNat', Nat.mod_eq_of_lt (by simp only [latestSecond] at hle; omega),
      Timestamp.ofSecs_secs]
  have hpeer : (⟨(ofRecord r).endpoint, ⟨(ofRecord r).services⟩,
      .ofSecs (ofRecord r).seen.toNat, (ofRecord r).version⟩ : Announcement) = r.peer := by
    show (⟨r.endpoint.canonical, r.peer.services, _, r.peer.version⟩ : Announcement) = _
    rw [hendpoint]
    exact congrArg (Announcement.mk r.peer.endpoint r.peer.services · r.peer.version) hseen
  show Record.mk _ _ _ _ _ _ _ _ = _
  rw [hpeer]
  show Record.mk r.peer r.source.canonical (toTime? (ofTime? r.lastSuccess))
    (toTime? (ofTime? r.lastTry)) r.attempts false 0 n = _
  rw [hsource, toTime?_ofTime? hdated.lastSuccess, toTime?_ofTime? hdated.lastTry]

end StoredRecord

end PeerCache
