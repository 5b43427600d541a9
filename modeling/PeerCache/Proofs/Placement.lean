import PeerCache.Placement

/-!
# `PeerCache.Proofs.Placement`: the bytes that are hashed tell what was asked

The placement functions ask the hash four kinds of questions (`Placement.Query`): the first
stage of a new bucket, the first stage of a tried bucket, the second stage of either, and
the slot inside a bucket. Questions with the same bytes get the same answer, so if two
different ones had the same bytes, a slot of one table would say something about a slot of
the other.

There are no such two. `questions_unambiguous` says that questions with the same bytes are
the same question, up to what the cache does not tell apart: the notation of an address, the
flow label and scope of an endpoint, and the bits of a bucket above the lowest 32.

The argument follows the bytes from the front. All keys have the same length, and a field
says its own length, so after equal bytes an equal key or an equal field has been read and
equal bytes are left (`key_append_inj`, `field_append_inj`). The kinds are told apart by
their lengths, with one exception. A first stage for the new table and a second stage can
have the same length, but after the group that both start with, one goes on with a group of
at most six bytes and the other with a number of eight (`newFirst_ne_second`).
-/

set_option autoImplicit false

namespace PeerCache

theorem Bytes.little_mod (width n : Nat) :
    Bytes.little width (n % Bytes.span width) = Bytes.little width n := by
  have hread := Bytes.little_ofLittle (Bytes.little width n)
  rw [Bytes.length_little, Bytes.ofLittle_little] at hread
  exact hread

theorem TableKind.tag_injective {t t' : TableKind} (h : t.tag = t'.tag) : t = t' := by
  cases t <;> cases t' <;> first | rfl | exact absurd h (by decide)

/-- The sixteen bytes of an address determine the host. -/
theorem Ip.canonical_eq_of_toBytes {ip ip' : Ip} (h : ip.toBytes = ip'.toBytes) :
    ip.canonical = ip'.canonical := by
  have hread := Ip.ofBytes?_toBytes ip
  rw [h, Ip.ofBytes?_toBytes] at hread
  exact (Option.some.inj hread).symm

namespace Placement

variable {key key' : PlacementKey} {group group' source source' : Group} {n n' : Nat}
variable {table table' : TableKind} {bucket bucket' : Nat} {e e' : Endpoint}
variable {a b rest rest' : Bytes}

/-! ### Reading from the front -/

/-- Keys are all of one length, so what follows a key cannot be mistaken for a part of it. -/
theorem key_append_inj (h : key.bytes ++ rest = key'.bytes ++ rest') :
    key = key' ∧ rest = rest' := by
  obtain ⟨hkey, hrest⟩ := List.append_inj h (key.length_bytes.trans key'.length_bytes.symm)
  cases key
  cases key'
  cases hkey
  exact ⟨rfl, hrest⟩

/-- A field that is short enough for its length to fit into a byte says where it ends. -/
theorem field_append_inj (ha : a.length < 256) (hb : b.length < 256)
    (h : field a ++ rest = field b ++ rest') : a = b ∧ rest = rest' := by
  simp only [field, List.cons_append, List.cons.injEq] at h
  obtain ⟨hbyte, hbytes⟩ := h
  have hlength : a.length = b.length := by
    have hnat := congrArg UInt8.toNat hbyte
    simp only [UInt8.toNat_ofNat'] at hnat
    omega
  exact List.append_inj hbytes hlength

theorem group_append_inj (h : field group.key ++ rest = field group'.key ++ rest') :
    group = group' ∧ rest = rest' := by
  have hgroup := group.length_key_le
  have hgroup' := group'.length_key_le
  obtain ⟨hkey, hrest⟩ := field_append_inj (by omega) (by omega) h
  exact ⟨Group.key_injective hkey, hrest⟩

/-- A number is determined up to the width in which it is written. -/
theorem little_append_inj {width : Nat}
    (h : Bytes.little width n ++ rest = Bytes.little width n' ++ rest') :
    n % Bytes.span width = n' % Bytes.span width ∧ rest = rest' := by
  obtain ⟨hbytes, hrest⟩ := List.append_inj h (by simp)
  refine ⟨?_, hrest⟩
  rw [← Bytes.ofLittle_little, hbytes, Bytes.ofLittle_little]

@[simp] theorem length_field (bytes : Bytes) : (field bytes).length = bytes.length + 1 := rfl

@[simp] theorem length_endpointKey (e : Endpoint) : (endpointKey e).length = 18 := by
  simp [endpointKey]

/-- The bytes of an endpoint determine the host and the port. -/
theorem canonical_eq_of_endpointKey (h : endpointKey e = endpointKey e') :
    e.canonical = e'.canonical := by
  obtain ⟨hip, hport⟩ := List.append_inj h (by simp)
  have hport : e.port = e'.port := by
    simp only [Bytes.big16, List.cons.injEq, and_true] at hport
    rw [← Bytes.ofBig16_big16 e.port, hport.1, hport.2, Bytes.ofBig16_big16]
  rw [Endpoint.canonical, Endpoint.canonical, Ip.canonical_eq_of_toBytes hip, hport]

theorem canonical_eq_of_field (h : field (endpointKey e) = field (endpointKey e')) :
    e.canonical = e'.canonical := by
  apply canonical_eq_of_endpointKey
  exact List.tail_eq_of_cons_eq h

/-! ### Each kind by itself -/

theorem newFirst_injective (h : newFirst key group source = newFirst key' group' source') :
    key = key' ∧ group = group' ∧ source = source' := by
  simp only [newFirst, List.append_assoc] at h
  obtain ⟨hkey, h⟩ := key_append_inj h
  obtain ⟨hgroup, h⟩ := group_append_inj h
  rw [← List.append_nil (field source.key), ← List.append_nil (field source'.key)] at h
  exact ⟨hkey, hgroup, (group_append_inj h).1⟩

theorem second_injective (h : second key group n = second key' group' n') :
    key = key' ∧ group = group' ∧ n % Bytes.span 8 = n' % Bytes.span 8 := by
  simp only [second, List.append_assoc] at h
  obtain ⟨hkey, h⟩ := key_append_inj h
  obtain ⟨hgroup, h⟩ := group_append_inj h
  rw [← List.append_nil (Bytes.little 8 n), ← List.append_nil (Bytes.little 8 n')] at h
  exact ⟨hkey, hgroup, (little_append_inj h).1⟩

theorem triedFirst_injective (h : triedFirst key e = triedFirst key' e') :
    key = key' ∧ e.canonical = e'.canonical := by
  obtain ⟨hkey, h⟩ := key_append_inj h
  exact ⟨hkey, canonical_eq_of_field h⟩

theorem slotInput_injective (h : slotInput key table bucket e = slotInput key' table' bucket' e') :
    key = key' ∧ table = table' ∧ bucket % Bytes.span 4 = bucket' % Bytes.span 4 ∧
      e.canonical = e'.canonical := by
  simp only [slotInput, List.append_assoc] at h
  obtain ⟨hkey, h⟩ := key_append_inj h
  simp only [List.cons_append, List.cons.injEq] at h
  obtain ⟨htag, h⟩ := h
  obtain ⟨hbucket, h⟩ := little_append_inj h
  exact ⟨hkey, TableKind.tag_injective htag, hbucket, canonical_eq_of_field h⟩

/-! ### The kinds against each other -/

theorem length_newFirst_le : (newFirst key group source).length ≤ 44 := by
  have hgroup := group.length_key_le
  have hsource := source.length_key_le
  simp only [newFirst, List.length_append, length_field, key.length_bytes, keySize]
  omega

theorem length_second_le : (second key group n).length ≤ 46 := by
  have hgroup := group.length_key_le
  simp only [second, List.length_append, length_field, Bytes.length_little, key.length_bytes,
    keySize]
  omega

theorem length_triedFirst : (triedFirst key e).length = 51 := by
  simp [triedFirst, key.length_bytes, keySize]

theorem length_slotInput : (slotInput key table bucket e).length = 56 := by
  simp [slotInput, key.length_bytes, keySize]

/-- After a group, another group is shorter than a number. -/
theorem newFirst_ne_second : newFirst key group source ≠ second key' group' n := by
  intro h
  simp only [newFirst, second, List.append_assoc] at h
  obtain ⟨-, h⟩ := key_append_inj h
  obtain ⟨-, h⟩ := group_append_inj h
  have hsource := source.length_key_le
  have hlength := congrArg List.length h
  simp only [length_field, Bytes.length_little] at hlength
  omega

/-! ### Questions -/

/-- A question that a placement function asks the hash. -/
inductive Query where
  /-- The first stage of a new bucket: the group that is announced, and by whom. -/
  | newFirst (key : PlacementKey) (group source : Group)
  /-- The first stage of a tried bucket. -/
  | triedFirst (key : PlacementKey) (e : Endpoint)
  /-- The second stage of either bucket. -/
  | second (key : PlacementKey) (group : Group) (reduced : UInt64)
  /-- The slot inside a bucket. -/
  | slot (key : PlacementKey) (table : TableKind) (bucket : Nat) (e : Endpoint)

namespace Query

/-- The bytes that are hashed for the question. -/
def input : Query → Bytes
  | newFirst key group source => Placement.newFirst key group source
  | triedFirst key e => Placement.triedFirst key e
  | second key group reduced => Placement.second key group reduced.toNat
  | slot key table bucket e => slotInput key table bucket e

/-- The answer of the hash. -/
def answer (q : Query) : Nat := fold q.input

/-- What the question is about: hosts without their notation, and the bucket as far as it
counts. -/
def essence : Query → Query
  | newFirst key group source => newFirst key group source
  | triedFirst key e => triedFirst key e.canonical
  | second key group reduced => second key group reduced
  | slot key table bucket e => slot key table (bucket % Bytes.span 4) e.canonical

@[simp] theorem input_essence (q : Query) : q.essence.input = q.input := by
  cases q with
  | newFirst | second => rfl
  | triedFirst key e => simp [essence, input, Placement.triedFirst]
  | slot key table bucket e => simp [essence, input, slotInput, Bytes.little_mod]

/-- The kinds differ in their lengths, except for the two that start with a group. -/
theorem length_input (q : Query) :
    match q with
    | newFirst _ _ _ => q.input.length ≤ 44
    | second _ _ _ => q.input.length ≤ 46
    | triedFirst _ _ => q.input.length = 51
    | slot _ _ _ _ => q.input.length = 56 := by
  cases q with
  | newFirst => exact length_newFirst_le
  | second => exact length_second_le
  | triedFirst => exact length_triedFirst
  | slot => exact length_slotInput

/-- Equal bytes come from questions about the same thing. -/
theorem essence_eq_of_input {q q' : Query} (h : q.input = q'.input) : q.essence = q'.essence := by
  have hlength := congrArg List.length h
  have hq := q.length_input
  have hq' := q'.length_input
  cases q with
  | newFirst key group source =>
      cases q' with
      | newFirst key' group' source' =>
          obtain ⟨rfl, rfl, rfl⟩ := newFirst_injective h
          rfl
      | second => exact absurd h newFirst_ne_second
      | triedFirst | slot => dsimp only at hq hq'; omega
  | second key group reduced =>
      cases q' with
      | newFirst => exact absurd h.symm newFirst_ne_second
      | second key' group' reduced' =>
          obtain ⟨rfl, rfl, hmod⟩ := second_injective h
          -- Eight bytes are wide enough for the whole number.
          have hfits : reduced.toNat < Bytes.span 8 := reduced.toNat_lt
          have hfits' : reduced'.toNat < Bytes.span 8 := reduced'.toNat_lt
          rw [Nat.mod_eq_of_lt hfits, Nat.mod_eq_of_lt hfits'] at hmod
          obtain rfl := UInt64.toNat.inj hmod
          rfl
      | triedFirst | slot => dsimp only at hq hq'; omega
  | triedFirst key e =>
      cases q' with
      | triedFirst key' e' =>
          obtain ⟨rfl, he⟩ := triedFirst_injective h
          rw [essence, essence, he]
      | newFirst | second | slot => dsimp only at hq hq'; omega
  | slot key table bucket e =>
      cases q' with
      | slot key' table' bucket' e' =>
          obtain ⟨rfl, rfl, hbucket, he⟩ := slotInput_injective h
          rw [essence, essence, hbucket, he]
      | newFirst | second | triedFirst => dsimp only at hq hq'; omega

/-- The bytes that are hashed for a question determine the question, for all keys and all
arguments, and they leave open only what the question is not about. Questions of two kinds
never have the same bytes. -/
theorem input_eq_iff (q q' : Query) : q.input = q'.input ↔ q.essence = q'.essence := by
  constructor
  · exact essence_eq_of_input
  · intro h
    rw [← input_essence q, h, input_essence]

/-- Two notations of one endpoint, with and without a flow label and a scope. -/
example (key : PlacementKey) : (triedFirst key (.v4 ⟨8, 8, 8, 8⟩ 8333)).input =
    (triedFirst key (.v6 (Ipv4.embed ⟨8, 8, 8, 8⟩) 8333 7 2)).input := rfl

end Query

/-! ### What the placement functions ask -/

/-- A reduced first stage fits into the number that the second stage hashes. -/
theorem toNat_reduced {first bound : Nat} (hpos : 0 < bound) (hbound : bound ≤ 64) :
    (UInt64.ofNat (first % bound)).toNat = first % bound := by
  have hlt := Nat.mod_lt first hpos
  apply UInt64.toNat_ofNat_of_lt
  simp only [UInt64.size]
  omega

theorem newBucket_eq_answer (key : PlacementKey) (e : Endpoint) (source : Ip) :
    newBucket key e source = Fin.ofNat newBucketCount
      (Query.second key (Group.ofIp source) (UInt64.ofNat
        ((Query.newFirst key (Group.ofIp e.ip) (Group.ofIp source)).answer %
          newBucketsPerSourceGroup))).answer := by
  simp only [newBucket, newBucketOf, Query.answer, Query.input]
  rw [toNat_reduced (by decide) (by decide)]

theorem triedBucket_eq_answer (key : PlacementKey) (e : Endpoint) :
    triedBucket key e = Fin.ofNat triedBucketCount
      (Query.second key (Group.ofIp e.ip) (UInt64.ofNat
        ((Query.triedFirst key e).answer % triedBucketsPerGroup))).answer := by
  simp only [triedBucket, triedBucketOf, Query.answer, Query.input]
  rw [toNat_reduced (by decide) (by decide)]

/-- The placement functions ask nothing but the questions above, and no two questions that
are about different things have the same bytes. -/
theorem questions_unambiguous :
    (∀ (key : PlacementKey) (e : Endpoint) (source : Ip),
      newBucket key e source = Fin.ofNat newBucketCount
        (Query.second key (Group.ofIp source) (UInt64.ofNat
          ((Query.newFirst key (Group.ofIp e.ip) (Group.ofIp source)).answer %
            newBucketsPerSourceGroup))).answer) ∧
    (∀ (key : PlacementKey) (e : Endpoint),
      triedBucket key e = Fin.ofNat triedBucketCount
        (Query.second key (Group.ofIp e.ip) (UInt64.ofNat
          ((Query.triedFirst key e).answer % triedBucketsPerGroup))).answer) ∧
    (∀ (key : PlacementKey) (table : TableKind) (bucket : Nat) (e : Endpoint),
      slot key table bucket e =
        Fin.ofNat bucketSize (Query.slot key table bucket e).answer) ∧
    ∀ q q' : Query, q.input = q'.input ↔ q.essence = q'.essence := by
  refine ⟨newBucket_eq_answer, triedBucket_eq_answer, ?_, Query.input_eq_iff⟩
  intro key table bucket e
  rfl

end Placement

end PeerCache
