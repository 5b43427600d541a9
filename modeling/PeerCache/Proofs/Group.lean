import PeerCache.Net.Group

/-!
# `PeerCache.Proofs.Group`: which addresses share a group

A limit per group is worth as much as the groups. If one provider's range fell into several
groups, the provider would get several shares. If two providers fell into one, they would
have to share.

`Group.key_ofIp_eq_iff` says which addresses have the same key: the neighbours
(`Group.Neighbours`). A loopback address is a neighbour of the loopback addresses, and any
other unroutable address is one of the other unroutable addresses. The neighbours of a
routable address are the routable ones of its family that agree with it in the first 16 or
32 bits. The canonical forms are compared, so the notation does not count.

The key determines the group (`Group.key_injective`), so the statement is about groups. Each
address is a member of one group (`Group.member_ofIp`, `Group.Member.ofIp_eq`), and
neighbours are members of the same (`Group.neighbours_iff`).
-/

set_option autoImplicit false

namespace PeerCache

/-! ### Leading bits -/

theorem Ipv4.toNat_shiftRight (x : Ipv4) : x.toNat >>> 16 = x.a.toNat * 256 + x.b.toNat := by
  have hc := x.c.toNat_lt
  have hd := x.d.toNat_lt
  simp only [Nat.shiftRight_eq_div_pow, Ipv4.toNat]
  omega

theorem Ipv6.toNat_shiftRight (x : Ipv6) : x.toNat >>> 96 = x.w0.toNat * 65536 + x.w1.toNat := by
  have h2 := x.w2.toNat_lt
  have h3 := x.w3.toNat_lt
  have h4 := x.w4.toNat_lt
  have h5 := x.w5.toNat_lt
  have h6 := x.w6.toNat_lt
  have h7 := x.w7.toNat_lt
  simp only [Nat.shiftRight_eq_div_pow, Ipv6.toNat, Ipv6.words, List.foldl_cons, List.foldl_nil]
  omega

/-- The first 16 bits of an address are its first two bytes. -/
theorem Ipv4.within_iff (x y : Ipv4) : x.within y 16 = true ↔ x.a = y.a ∧ x.b = y.b := by
  have hx := x.b.toNat_lt
  have hy := y.b.toNat_lt
  simp only [Ipv4.within, beq_iff_eq, Nat.reduceSub, toNat_shiftRight, ← UInt8.toNat_inj]
  omega

/-- The first 32 bits of an address are its first two words. -/
theorem Ipv6.within_iff (x y : Ipv6) : x.within y 32 = true ↔ x.w0 = y.w0 ∧ x.w1 = y.w1 := by
  have hx := x.w1.toNat_lt
  have hy := y.w1.toNat_lt
  simp only [Ipv6.within, beq_iff_eq, Nat.reduceSub, toNat_shiftRight, ← UInt16.toNat_inj]
  omega

/-! ### Loopback addresses -/

theorem Ipv4.isLoopback_of_isRoutable {x : Ipv4} (h : x.isRoutable = true) :
    x.isLoopback = false := by
  have hreserved : (⟨127, 0, 0, 0⟩, 8) ∈ reserved := by decide
  have houtside := List.all_eq_true.mp h _ hreserved
  rw [Bool.not_eq_true'] at houtside
  exact houtside

theorem Ipv6.isLoopback_of_isRoutable {x : Ipv6} (h : x.isRoutable = true) :
    x.isLoopback = false := by
  have hreserved : (⟨0, 0, 0, 0, 0, 0, 0, 1⟩, 128) ∈ reserved := by decide
  have houtside := List.all_eq_true.mp h _ hreserved
  rw [Bool.not_eq_true'] at houtside
  exact houtside

/-- A routable address is not a loopback address, since the loopback blocks are reserved. -/
theorem Ip.isLoopback_of_isRoutable {ip : Ip} (h : ip.isRoutable = true) :
    ip.isLoopback = false := by
  unfold Ip.isRoutable at h
  unfold Ip.isLoopback
  cases hx : ip.canonical with
  | v4 x =>
      rw [hx] at h
      exact Ipv4.isLoopback_of_isRoutable h
  | v6 x =>
      rw [hx] at h
      exact Ipv6.isLoopback_of_isRoutable h

namespace Group

variable {ip x y : Ip} {g : Group}

/-! ### Who belongs to a group -/

/-- The members of the groups, by their canonical forms. -/
inductive Member : Ip → Group → Prop where
  | loopback {x : Ip} (h : x.isLoopback = true) : Member x .loopback
  | unroutable {x : Ip} (hroute : x.isRoutable = false) (hloop : x.isLoopback = false) :
      Member x .unroutable
  | v4 {x : Ipv4} {a b : UInt8} (hroute : x.isRoutable = true) (ha : x.a = a) (hb : x.b = b) :
      Member (.v4 x) (.v4 a b)
  | v6 {x : Ipv6} {w0 w1 : UInt16} (hroute : x.isRoutable = true) (h0 : x.w0 = w0)
      (h1 : x.w1 = w1) : Member (.v6 x) (.v6 w0 w1)

/-- An address is a member of the group that is computed for it. -/
theorem member_ofIp (ip : Ip) : Member ip.canonical (ofIp ip) := by
  unfold ofIp
  split
  · next hloop => exact .loopback (by simpa using hloop)
  · next hloop =>
    split
    · next hroute => exact .unroutable (by simpa using hroute) (by simpa using hloop)
    · next hroute =>
      rw [Bool.not_eq_true, Bool.not_eq_false', Ip.isRoutable] at hroute
      cases hx : ip.canonical with
      | v4 x =>
          rw [hx] at hroute
          exact .v4 hroute rfl rfl
      | v6 x =>
          rw [hx] at hroute
          exact .v6 hroute rfl rfl

/-- No other group has the address as a member. -/
theorem Member.ofIp_eq (h : Member ip.canonical g) : ofIp ip = g := by
  generalize hx : ip.canonical = x at h
  cases h with
  | loopback hloop =>
      rw [← hx, Ip.isLoopback_canonical] at hloop
      simp [ofIp, hloop]
  | unroutable hroute hloop =>
      rw [← hx, Ip.isRoutable_canonical] at hroute
      rw [← hx, Ip.isLoopback_canonical] at hloop
      simp [ofIp, hroute, hloop]
  | v4 hroute ha hb | v6 hroute ha hb =>
      have hroutable : ip.isRoutable = true := by
        rw [Ip.isRoutable, hx]
        exact hroute
      simp [ofIp, hroutable, Ip.isLoopback_of_isRoutable hroutable, hx, ha, hb]

/-! ### Who shares a group -/

/-- Two addresses in canonical form that are documented to share a group. -/
inductive Neighbours : Ip → Ip → Prop where
  /-- Both are loopback addresses. -/
  | loopback {x y : Ip} (hx : x.isLoopback = true) (hy : y.isLoopback = true) : Neighbours x y
  /-- Both are unroutable, and neither is a loopback address. -/
  | unroutable {x y : Ip} (hx : x.isRoutable = false ∧ x.isLoopback = false)
      (hy : y.isRoutable = false ∧ y.isLoopback = false) : Neighbours x y
  /-- Both are routable IPv4 addresses, and the first 16 bits are the same. -/
  | v4 {x y : Ipv4} (hx : x.isRoutable = true) (hy : y.isRoutable = true)
      (hbits : x.within y 16 = true) : Neighbours (.v4 x) (.v4 y)
  /-- Both are routable IPv6 addresses, and the first 32 bits are the same. -/
  | v6 {x y : Ipv6} (hx : x.isRoutable = true) (hy : y.isRoutable = true)
      (hbits : x.within y 32 = true) : Neighbours (.v6 x) (.v6 y)

theorem neighbours_iff : Neighbours x y ↔ ∃ g : Group, Member x g ∧ Member y g := by
  constructor
  · intro h
    cases h with
    | loopback hx hy => exact ⟨_, .loopback hx, .loopback hy⟩
    | unroutable hx hy => exact ⟨_, .unroutable hx.1 hx.2, .unroutable hy.1 hy.2⟩
    | v4 hx hy hbits =>
        obtain ⟨ha, hb⟩ := (Ipv4.within_iff _ _).mp hbits
        exact ⟨_, .v4 hx ha hb, .v4 hy rfl rfl⟩
    | v6 hx hy hbits =>
        obtain ⟨h0, h1⟩ := (Ipv6.within_iff _ _).mp hbits
        exact ⟨_, .v6 hx h0 h1, .v6 hy rfl rfl⟩
  · rintro ⟨g, hx, hy⟩
    cases hx with
    | loopback hx =>
        cases hy with
        | loopback hy => exact .loopback hx hy
    | unroutable hx hx' =>
        cases hy with
        | unroutable hy hy' => exact .unroutable ⟨hx, hx'⟩ ⟨hy, hy'⟩
    | v4 hx ha hb =>
        cases hy with
        | v4 hy ha' hb' =>
            exact .v4 hx hy ((Ipv4.within_iff _ _).mpr ⟨ha.trans ha'.symm, hb.trans hb'.symm⟩)
    | v6 hx h0 h1 =>
        cases hy with
        | v6 hy h0' h1' =>
            exact .v6 hx hy ((Ipv6.within_iff _ _).mpr ⟨h0.trans h0'.symm, h1.trans h1'.symm⟩)

/-- Two addresses, in whatever notation, have the same key bytes if and only if they are
neighbours. -/
theorem key_ofIp_eq_iff (a b : Ip) :
    (ofIp a).key = (ofIp b).key ↔ Neighbours a.canonical b.canonical := by
  rw [neighbours_iff]
  constructor
  · intro hkey
    have hsame := key_injective hkey
    exact ⟨ofIp b, hsame ▸ member_ofIp a, member_ofIp b⟩
  · rintro ⟨g, ha, hb⟩
    rw [ha.ofIp_eq, hb.ofIp_eq]

/-- A block of 16 bits can be routable in part. -/
example : (ofIp (.v4 ⟨198, 51, 99, 1⟩)).key = [1, 198, 51] ∧
    (ofIp (.v4 ⟨198, 51, 100, 1⟩)).key = [0] := by decide

end Group

end PeerCache
