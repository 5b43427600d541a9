import PeerCache.Announcement
import PeerCache.Weight

/-!
# `PeerCache.Record`: what the cache knows about one peer

A record joins an announcement with its history: who announced it, when it was
last tried and last reached, and how often it has failed since. The last three
fields say where the record stands in the cache.

A record is *terrible* when nobody should be told about it any more. Five rules
decide, in this order: a record tried within the last minute is spared; one seen
too far in the future, not seen at all, or not seen for a month is terrible; so
is one that has never been reached in three attempts, and one that has failed
ten times and was not reached for a week.

The *chance* of a record is the likelihood with which a pick accepts it.
-/

set_option autoImplicit false

namespace PeerCache

/-- The number of a record within one cache. -/
structure RecordId where
  number : Nat
deriving DecidableEq, Hashable

namespace RecordId

instance : Inhabited RecordId := ⟨⟨0⟩⟩

instance : Ord RecordId := ⟨fun a b => compare a.number b.number⟩

theorem compare_def (a b : RecordId) : compare a b = compare a.number b.number := rfl

instance : Std.TransOrd RecordId where
  eq_swap {a b} :=
    show compare a.number b.number = (compare b.number a.number).swap from
      Std.OrientedOrd.eq_swap
  isLE_trans {a b c} hab hbc :=
    show (compare a.number c.number).isLE from
      Std.TransOrd.isLE_trans (show (compare a.number b.number).isLE from hab)
        (show (compare b.number c.number).isLE from hbc)

instance : Std.LawfulEqOrd RecordId where
  compare_self {a} := show compare a.number a.number = .eq from Std.ReflOrd.compare_self
  eq_of_compare {a b} h := by
    obtain ⟨a⟩ := a
    obtain ⟨b⟩ := b
    exact congrArg mk (Std.LawfulEqOrd.eq_of_compare (show compare a b = .eq from h))

instance : EquivBEq RecordId := inferInstance

instance : LawfulHashable RecordId := inferInstance

/-- The record's number after a hash sign. -/
def describe (id : RecordId) : String := "#" ++ toString id.number

end RecordId

/-- A peer that may be dialled, with its history and its place in the cache. -/
structure Record where
  peer : Announcement
  /-- The address of whoever announced the peer first. -/
  source : Ip
  lastSuccess : Option Timestamp
  lastTry : Option Timestamp
  /-- Attempts since the last success. -/
  attempts : UInt32
  /-- Whether the record holds a slot of the tried table. -/
  inTried : Bool
  /-- How many slots of the new table hold the record. -/
  refs : Nat
  /-- The place of the record in the sampling order. -/
  orderIndex : Nat
deriving DecidableEq

namespace Record

/-- Seconds in a day. -/
def day : Nat := 24 * 60 * 60

/-- A peer not seen for longer is terrible. -/
def horizon : Nat := 30 * day

/-- A peer that was never reached is terrible after this many attempts. -/
def retries : Nat := 3

/-- A peer is terrible after this many failures, unless it was reached lately. -/
def maxFailures : Nat := 10

/-- How long a success spares a peer that keeps failing. -/
def failureWindow : Nat := 7 * day

/-- A try this recent spares a peer from every other rule. -/
def tryGrace : Nat := 60

/-- A peer claimed to be seen further ahead than this is terrible. -/
def maxDrift : Nat := 10 * 60

/-- A try this recent makes a pick unlikely. -/
def recentTry : Nat := 10 * 60

/-- A record without history that holds no slot yet. -/
def ofAnnouncement (peer : Announcement) (source : Ip) (orderIndex : Nat) : Record :=
  ⟨peer, source, none, none, 0, false, 0, orderIndex⟩

/-- The endpoint of the peer. -/
def endpoint (r : Record) : Endpoint := r.peer.endpoint

/-- The address of the peer. -/
def ip (r : Record) : Ip := r.peer.ip

/-- Whether the peer was tried so lately that it is not judged. -/
def isSpared (r : Record) (now : Timestamp) : Bool :=
  match r.lastTry with
  | some t => decide (now.earlier tryGrace ≤ t)
  | none => false

/-- Whether the peer should no longer be recommended. -/
def isTerrible (r : Record) (now : Timestamp) : Bool :=
  if r.isSpared now then false
  else if now.later maxDrift < r.peer.seen then true
  else if r.peer.seen.isZero || horizon < now.since r.peer.seen then true
  else if r.lastSuccess.isNone && retries ≤ r.attempts.toNat then true
  else
    failureWindow < now.since (r.lastSuccess.getD .zero) && maxFailures ≤ r.attempts.toNat

/-- Whether the peer was tried within the last ten minutes. -/
def isRecentlyTried (r : Record) (now : Timestamp) : Bool :=
  match r.lastTry with
  | some t => now.since t < recentTry
  | none => false

/-- How likely a pick is to accept the peer: a hundredth after a recent try, and
two thirds less a little for each of at most eight failures. -/
def chance {w : Type} [Weight w] (r : Record) (now : Timestamp) : w :=
  let recent : w := if r.isRecentlyTried now then 0.01 else 1.0
  recent * Weight.timesPow 1.0 0.66 (min r.attempts.toNat 8)

end Record

end PeerCache
