import PeerCache.Cache.Dial
import PeerCache.Cache.Learn
import PeerCache.Cache.Sample
import PeerCache.Clock
import PeerCache.Metrics
import PeerCache.Storage.PeersFile

/-!
# `PeerCache.Book`: a cache with a clock and counters

A book is what a node works with. It reads the time from its clock, counts what
it does, and keeps the cache in a peers file. An operation can also be given a
time of its own: those are the ones whose names end in `At`.

Loading from a file is all or nothing. A file that cannot be read leaves the
book empty, as content that cannot be used does.
-/

set_option autoImplicit false

namespace PeerCache

/-- A cache with a clock and counters. -/
structure Book where
  cache : Cache
  clock : Clock
  metrics : Metrics

namespace Book

variable {σ : Type} [RandomSource σ]

/-- The book around a cache, with nothing counted. -/
def ofCache (cache : Cache) (clock : Clock) : Book := ⟨cache, clock, .zero⟩

/-- The empty book. -/
def new (policy : Policy) (clock : Clock) : Draw σ Book :=
  return ofCache (← Cache.new policy) clock

/-- The time on the book's clock. -/
def now (b : Book) : Timestamp := b.clock.now

/-- Takes in an announcement at a given time. -/
def learnAt (b : Book) (a : Announcement) (source : Ip) (penalty : Nat) (now : Timestamp) :
    Draw σ (Bool × Book) := do
  let (created, cache) ← b.cache.learn a source penalty now
  return (created, { b with cache, metrics := b.metrics.countAdd created })

/-- Takes in an announcement. -/
def learn (b : Book) (a : Announcement) (source : Ip) (penalty : Nat) : Draw σ (Bool × Book) :=
  b.learnAt a source penalty b.now

/-- Takes in announcements in order, all at one time, and counts the new addresses. -/
def learnManyAt (penalty : Nat) (now : Timestamp) :
    (batch : List (Announcement × Ip)) → (created : Nat) → Book → Draw σ (Nat × Book)
  | [], created, b => return (created, b)
  | (a, source) :: batch, created, b => do
    let (isNew, b) ← b.learnAt a source penalty now
    learnManyAt penalty now batch (if isNew then created + 1 else created) b

/-- Takes in announcements in order and returns how many addresses were new. -/
def learnMany (b : Book) (batch : List (Announcement × Ip)) (penalty : Nat) :
    Draw σ (Nat × Book) :=
  learnManyAt penalty b.now batch 0 b

/-- Counts a promotion, if the outcome is one. -/
def countConfirmation (m : Metrics) : Confirmation → Metrics
  | .promoted evicted => m.countPromotion evicted.isSome
  | _ => m

/-- Records at a given time that an endpoint was reached. -/
def confirmAt (b : Book) (e : Endpoint) (now : Timestamp) : Draw σ (Confirmation × Book) := do
  let (outcome, cache) ← b.cache.confirm e now
  return (outcome, { b with cache, metrics := countConfirmation b.metrics outcome })

/-- Records that an endpoint was reached. -/
def confirm (b : Book) (e : Endpoint) : Draw σ Book := do
  let (_, b) ← b.confirmAt e b.now
  return b

/-- Records at a given time an attempt to reach an endpoint. -/
def noteAttemptAt (b : Book) (e : Endpoint) (now : Timestamp) : Checked Book :=
  return { b with cache := ← b.cache.noteAttempt e now }

/-- Records an attempt to reach an endpoint. -/
def noteAttempt (b : Book) (e : Endpoint) : Checked Book := b.noteAttemptAt e b.now

/-- Records that a session is alive at a given time. -/
def noteAliveAt (b : Book) (e : Endpoint) (now : Timestamp) : Checked Book :=
  return { b with cache := ← b.cache.noteAlive e now }

/-- Records that a session is alive. -/
def noteAlive (b : Book) (e : Endpoint) : Checked Book := b.noteAliveAt e b.now

/-- Picks a peer to dial at a given time. -/
def chooseAt (b : Book) (now : Timestamp) : Draw σ (Option Announcement × Book) := do
  let pick ← b.cache.choose Float now
  return (pick, { b with metrics := b.metrics.countChoice pick.isSome })

/-- Picks a peer to dial. -/
def choose (b : Book) : Draw σ (Option Announcement × Book) := b.chooseAt b.now

/-- Draws peers to tell others about at a given time. -/
def sampleAt (b : Book) (now : Timestamp) : Draw σ (List Announcement × Book) := do
  let (found, cache) ← b.cache.sample now
  return (found, { b with cache })

/-- Draws peers to tell others about. -/
def sample (b : Book) : Draw σ (List Announcement × Book) := b.sampleAt b.now

/-- Drops every record and draws another key. -/
def clear (b : Book) : Draw σ Book := return { b with cache := ← b.cache.clear }

/-- Replaces the cache by the one in `data`, or empties it. -/
def loadBytes (b : Book) (order : RemovalOrder) (data : Bytes) :
    Draw σ (Except StorageError LoadReport × Book) := do
  match ← b.cache.load order data with
  | (.ok report, cache) =>
    return (.ok report, { b with cache, metrics := b.metrics.countLoad report })
  | (.error e, cache) => return (.error e, { b with cache })

/-- Replaces the cache by the one in a peers file, or empties it. -/
def loadFrom (b : Book) (order : RemovalOrder) (file : PeersFile) (folder : Folder) :
    Draw σ (Except StorageError LoadReport × Book) :=
  match file.read folder with
  | .ok data => b.loadBytes order data
  | .error e => return (.error e, ← b.clear)

/-- Keeps the cache in a peers file. -/
def saveTo (b : Book) (file : PeersFile) (folder : Folder) : Except StorageError Unit × Folder :=
  file.write b.cache.encode folder

/-- The state of the book, shown for diagnosis. -/
def describe (b : Book) : String :=
  "AddressBook \x7b engine: " ++ b.cache.describe ++ ", .. \x7d"

end Book

end PeerCache
