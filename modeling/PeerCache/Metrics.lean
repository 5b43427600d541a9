import PeerCache.Cache.Load

/-!
# `PeerCache.Metrics`: counts of what a book has done

Every counter has 64 bits and wraps around.
-/

set_option autoImplicit false

namespace PeerCache

/-- What a book has done since it was made. -/
structure Metrics where
  learned : UInt64
  declined : UInt64
  promotions : UInt64
  evictions : UInt64
  picksHit : UInt64
  picksMiss : UInt64
  loads : UInt64
  prunedNew : UInt64
  prunedTried : UInt64
  discards : UInt64
deriving DecidableEq

namespace Metrics

/-- Nothing done yet. -/
def zero : Metrics := ⟨0, 0, 0, 0, 0, 0, 0, 0, 0, 0⟩

instance : Inhabited Metrics := ⟨zero⟩

/-- Counts an announcement by whether it was stored as a new address. -/
def countAdd (m : Metrics) (created : Bool) : Metrics :=
  if created then { m with learned := m.learned + 1 }
  else { m with declined := m.declined + 1 }

/-- Counts a promotion by whether it displaced another record. -/
def countPromotion (m : Metrics) (evicted : Bool) : Metrics :=
  { m with
    promotions := m.promotions + 1
    evictions := if evicted then m.evictions + 1 else m.evictions }

/-- Counts a pick by whether it found a peer. -/
def countChoice (m : Metrics) (hit : Bool) : Metrics :=
  if hit then { m with picksHit := m.picksHit + 1 }
  else { m with picksMiss := m.picksMiss + 1 }

/-- Counts a successful load and its losses. -/
def countLoad (m : Metrics) (report : LoadReport) : Metrics :=
  { m with
    loads := m.loads + 1
    prunedNew := m.prunedNew + UInt64.ofNat report.lostNew
    prunedTried := m.prunedTried + UInt64.ofNat report.lostTried }

/-- Counts a cache that was discarded because it broke a structural rule. -/
def countDiscard (m : Metrics) : Metrics :=
  { m with discards := m.discards + 1 }

end Metrics

end PeerCache
