import Mathlib.Data.List.Basic
import PeerCache.Storage.Envelope

/-!
# `PeerCache.Proofs.Envelope`: what is made of stored bytes

Opening an envelope splits the bytes twice: the magic is cut off the front, then the checksum
off the end. `exists_parts` says that bytes of sufficient length have these parts, and
`unwrap_parts` opens an envelope that is given by its parts. The envelope of some content has
the magic, the content and the checksum as its parts and no others (`parts_eq_wrap_iff`), since
the parts on both sides of the content are of fixed lengths.

* `Envelope.unwrap_wrap`: what was wrapped can be unwrapped again.
* `Envelope.unwrap_eq_ok_iff`: nothing else can be unwrapped.
* `Envelope.unwrap_outcome`: what comes of any bytes. All but the bytes of an envelope are
  refused for the first fault that is found.
-/

set_option autoImplicit false

namespace PeerCache.Envelope

variable {magic : NetworkMagic} {head content checksum content' data : Bytes}

theorem length_wrap (magic : NetworkMagic) (content : Bytes) :
    (wrap magic content).length = magicSize + content.length + checksumSize := by
  simp [wrap, checksumSize]
  omega

/-- Bytes that are not too few have a magic at the front and a checksum at the end. Between
them there may be nothing. -/
theorem exists_parts (hlength : magicSize + checksumSize ≤ data.length) :
    ∃ head content checksum : Bytes, head.length = magicSize ∧ checksum.length = checksumSize ∧
      data = head ++ content ++ checksum := by
  refine ⟨data.take magicSize,
    (data.drop magicSize).take (data.length - magicSize - checksumSize),
    (data.drop magicSize).drop (data.length - magicSize - checksumSize), ?_, ?_, ?_⟩
  · rw [List.length_take]
    omega
  · rw [List.length_drop, List.length_drop]
    omega
  · rw [List.append_assoc, List.take_append_drop, List.take_append_drop]

/-- The number that is found in the bytes of a magic is the one that they write down. -/
theorem ofLittle_eq_iff (hhead : head.length = magicSize) (found : UInt32) :
    UInt32.ofNat (Bytes.ofLittle head) = found ↔
      head = Bytes.little magicSize found.toNat := by
  constructor
  · rintro rfl
    have hlt : Bytes.ofLittle head < Bytes.span magicSize := hhead ▸ Bytes.ofLittle_lt head
    rw [UInt32.toNat_ofNat_of_lt' hlt, ← hhead, Bytes.little_ofLittle]
  · rintro rfl
    have hlt : found.toNat < Bytes.span magicSize := found.toNat_lt
    rw [Bytes.ofLittle_little, Nat.mod_eq_of_lt hlt]
    exact UInt32.ofNat_toNat

/-- The bytes of a magic tell the magic. -/
theorem little_inj {found found' : UInt32} :
    Bytes.little magicSize found.toNat = Bytes.little magicSize found'.toNat ↔
      found = found' := by
  have hread : UInt32.ofNat (Bytes.ofLittle (Bytes.little magicSize found.toNat)) = found :=
    (ofLittle_eq_iff (Bytes.length_little _ _) found).mpr rfl
  rw [← ofLittle_eq_iff (Bytes.length_little _ _), hread]

/-- The parts are those of an envelope when each of them is. -/
theorem parts_eq_wrap_iff (hhead : head.length = magicSize)
    (hchecksum : checksum.length = checksumSize) :
    head ++ content ++ checksum = wrap magic content' ↔
      head = Bytes.little magicSize magic.value.toNat ∧ content = content' ∧
        Sha256.twice content = checksum := by
  constructor
  · intro h
    obtain ⟨hfront, hend⟩ := List.append_inj' h (by rw [hchecksum, Sha256.length_twice]; rfl)
    obtain ⟨hmagic, hcontent⟩ := List.append_inj hfront (by rw [hhead, Bytes.length_little])
    exact ⟨hmagic, hcontent, by rw [hcontent, hend]⟩
  · rintro ⟨rfl, rfl, rfl⟩
    rfl

/-- Bytes that are given by their parts are judged by the magic first, then by the checksum. -/
theorem unwrap_parts (magic : NetworkMagic) (content : Bytes) (hhead : head.length = magicSize)
    (hchecksum : checksum.length = checksumSize) :
    unwrap magic (head ++ content ++ checksum) =
      if UInt32.ofNat (Bytes.ofLittle head) ≠ magic.value then
        .error (.badMagic magic.value (UInt32.ofNat (Bytes.ofLittle head)))
      else if Sha256.twice content ≠ checksum then .error .checksumMismatch
      else .ok content := by
  have hlength : ¬ (head ++ content ++ checksum).length < magicSize + checksumSize := by
    simp only [List.length_append]
    omega
  have htake : (head ++ content ++ checksum).take magicSize = head := by
    rw [List.append_assoc, ← hhead, List.take_left]
  have hdrop : (head ++ content ++ checksum).drop magicSize = content ++ checksum := by
    rw [List.append_assoc, ← hhead, List.drop_left]
  -- The second cut falls where the content ends.
  have hcut : (content ++ checksum).length - checksumSize = content.length := by
    rw [List.length_append, hchecksum, Nat.add_sub_cancel]
  simp only [unwrap, if_neg hlength, htake, hdrop, hcut, List.take_left, List.drop_left]

theorem unwrap_wrap (magic : NetworkMagic) (content : Bytes) :
    unwrap magic (wrap magic content) = .ok content := by
  have hhead : (Bytes.little magicSize magic.value.toNat).length = magicSize :=
    Bytes.length_little _ _
  have hmagic := (ofLittle_eq_iff hhead magic.value).mpr rfl
  rw [wrap, unwrap_parts magic content hhead (Sha256.length_twice content),
    if_neg (not_not.mpr hmagic), if_neg (not_not.mpr rfl)]

/-- All that opening an envelope can come to. -/
theorem unwrap_cases (magic : NetworkMagic) (data : Bytes) :
    (data.length < 36 ∧ unwrap magic data = .error .truncated) ∨
    (36 ≤ data.length ∧ ∃ found : UInt32, data.take 4 = Bytes.little 4 found.toNat ∧
      found ≠ magic.value ∧ unwrap magic data = .error (.badMagic magic.value found)) ∨
    (36 ≤ data.length ∧ data.take 4 = Bytes.little 4 magic.value.toNat ∧
      (∀ content : Bytes, data ≠ wrap magic content) ∧
      unwrap magic data = .error .checksumMismatch) ∨
    ∃ content : Bytes, data = wrap magic content ∧ unwrap magic data = .ok content := by
  rcases Nat.lt_or_ge data.length 36 with hshort | hlong
  · exact Or.inl ⟨hshort, if_pos hshort⟩
  obtain ⟨head, content, checksum, hhead, hchecksum, rfl⟩ := exists_parts hlong
  have hfirst : (head ++ content ++ checksum).take 4 = head := by
    rw [List.append_assoc]
    exact List.take_left' hhead
  have hopened := unwrap_parts magic content hhead hchecksum
  have hwritten := (ofLittle_eq_iff hhead _).mp rfl
  rw [hfirst]
  by_cases hfound : UInt32.ofNat (Bytes.ofLittle head) = magic.value
  · rw [if_neg (not_not.mpr hfound)] at hopened
    have hmagic := (ofLittle_eq_iff hhead _).mp hfound
    by_cases hsum : Sha256.twice content = checksum
    · have hwrap := (parts_eq_wrap_iff hhead hchecksum).mpr ⟨hmagic, rfl, hsum⟩
      exact Or.inr (Or.inr (Or.inr ⟨content, hwrap, hwrap ▸ unwrap_wrap magic content⟩))
    · rw [if_pos hsum] at hopened
      have hnone : ∀ content' : Bytes, head ++ content ++ checksum ≠ wrap magic content' := by
        intro content' hwrap
        exact hsum ((parts_eq_wrap_iff hhead hchecksum).mp hwrap).2.2
      exact Or.inr (Or.inr (Or.inl ⟨hlong, hmagic, hnone, hopened⟩))
  · rw [if_pos hfound] at hopened
    exact Or.inr (Or.inl ⟨hlong, _, hwritten, hfound, hopened⟩)

/-- Bytes can be unwrapped when they are the content in its envelope. -/
theorem unwrap_eq_ok_iff : unwrap magic data = .ok content ↔ data = wrap magic content := by
  constructor
  · intro h
    rcases unwrap_cases magic data with ⟨-, hresult⟩ | ⟨-, found, -, -, hresult⟩ |
      ⟨-, -, -, hresult⟩ | ⟨content', hwrap, hresult⟩
    all_goals
      rw [hresult] at h
      cases h
    exact hwrap
  · rintro rfl
    exact unwrap_wrap magic content

/-- Opening an envelope is exact. The content comes out exactly of the bytes that it is wrapped
into. Fewer than 36 bytes are refused as truncated. Of the others, those that do not start with
the magic of the network, lowest byte first, are refused for it, and the error tells the magic
that they start with. What is left has the right magic and is no envelope of any content, and
it is refused for its checksum. There is no other outcome. -/
theorem unwrap_outcome (magic : NetworkMagic) (data : Bytes) :
    (∀ content : Bytes, unwrap magic data = .ok content ↔ data = wrap magic content) ∧
    (unwrap magic data = .error .truncated ↔ data.length < 36) ∧
    (∀ expected found : UInt32, unwrap magic data = .error (.badMagic expected found) ↔
      36 ≤ data.length ∧ data.take 4 ≠ Bytes.little 4 magic.value.toNat ∧
        expected = magic.value ∧ data.take 4 = Bytes.little 4 found.toNat) ∧
    (unwrap magic data = .error .checksumMismatch ↔
      36 ≤ data.length ∧ data.take 4 = Bytes.little 4 magic.value.toNat ∧
        ∀ content : Bytes, data ≠ wrap magic content) ∧
    ((∃ content : Bytes, unwrap magic data = .ok content) ∨
      unwrap magic data = .error .truncated ∨
      (∃ found : UInt32, unwrap magic data = .error (.badMagic magic.value found)) ∨
      unwrap magic data = .error .checksumMismatch) := by
  refine ⟨fun content => unwrap_eq_ok_iff, ?_⟩
  rcases unwrap_cases magic data with ⟨hshort, hresult⟩ | ⟨hlong, found, hfound, hother, hresult⟩ |
    ⟨hlong, hmagic, hnone, hresult⟩ | ⟨content, rfl, hresult⟩
  · -- Too few bytes.
    have hnot : ¬ 36 ≤ data.length := by omega
    simp [hresult, hshort, hnot]
  · -- The magic of another network.
    have hnot : ¬ data.length < 36 := by omega
    have hinj : ∀ found' : UInt32,
        Bytes.little 4 found.toNat = Bytes.little 4 found'.toNat ↔ found = found' :=
      fun _ => little_inj
    simp [hresult, hnot, hlong, hfound, hinj, hother, eq_comm]
  · -- The right magic, and a checksum that does not fit.
    have hnot : ¬ data.length < 36 := by omega
    simp [hresult, hnot, hlong, hmagic, hnone]
  · -- An envelope, which is long enough and has the magic in front.
    have hlength : 36 ≤ (wrap magic content).length := by
      rw [length_wrap, magicSize, checksumSize]
      omega
    have hnot : ¬ (wrap magic content).length < 36 := by omega
    have hmagic : (wrap magic content).take 4 = Bytes.little 4 magic.value.toNat := by
      rw [wrap, List.append_assoc]
      exact List.take_left' (Bytes.length_little _ _)
    simp [hresult, hnot, hmagic]

end PeerCache.Envelope
