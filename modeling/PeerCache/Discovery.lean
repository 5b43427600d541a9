import PeerCache.Book
import PeerCache.Settings

/-!
# `PeerCache.Discovery`: filling a node's connections

Discovery seeds a book with known endpoints and then dials what the book picks,
a bounded number of dials at a time. The outcomes are fed back: an attempt is
noted before each dial, and a success confirms the peer and notes that it is
alive.

A round is a small machine. A dial *waits* from the moment it is made until it
has run, and holds one of the permits meanwhile. Then it is *done* until its
outcome is collected. All this time its endpoint is in flight. The round makes
dials until the target is in sight, the attempts or permits are used up, the book
has nothing to offer, or its pick is in flight already. Then it collects the oldest
outcome and goes on. It ends when the target is reached or nothing is outstanding.

Dials run when there is no outcome to collect: all that wait, in order.
-/

set_option autoImplicit false

namespace PeerCache

/-- The bounds of discovery. -/
structure DiscoveryConfig where
  /-- The most dials that wait at one time. -/
  maxInFlight : Nat
  maxInFlight_pos : 0 < maxInFlight
  /-- The most dials made in one round. -/
  maxAttempts : Nat
  /-- How much the last-seen time of a seed is lowered. -/
  seedPenalty : Nat

/-- The most permits that a round can hand out. -/
def permitLimit : Nat := (1 <<< 61) - 1

/-- Why discovery stopped. -/
inductive DiscoveryError where
  /-- No dial would ever be allowed. -/
  | noDials
  /-- A dial broke down without an outcome. -/
  | brokenDial
deriving DecidableEq

/-- The wording of the error. -/
def DiscoveryError.message : DiscoveryError → String
  | .noDials => "max_in_flight must be at least 1"
  | .brokenDial => "dial task failed"

/-- Bounds that allow at least one dial. -/
def DiscoveryConfig.of (maxInFlight maxAttempts seedPenalty : Nat) :
    Except DiscoveryError DiscoveryConfig :=
  if h : 0 < maxInFlight then .ok ⟨maxInFlight, h, maxAttempts, seedPenalty⟩
  else .error .noDials

/-- How a dial ends. -/
inductive DialOutcome where
  | connected
  | failed
  /-- The dial broke down without an outcome. -/
  | broken
deriving DecidableEq

/-- A round of discovery under way. -/
structure Round where
  attempted : Nat
  connected : Nat
  failed : Nat
  /-- Whether the book had nothing to offer at some point. -/
  exhausted : Bool
  /-- How many permits are left to hand out. -/
  permits : Nat
  /-- The endpoints of the dials whose outcome is not collected. -/
  inFlight : List Endpoint
  /-- Dials made that have not run, oldest first. -/
  waiting : List Endpoint
  /-- Dials that have run and whose outcome is not collected, oldest first. -/
  done : List (Endpoint × DialOutcome)
  /-- Dials in the order they ran, latest first. -/
  ran : List Endpoint

namespace Round

/-- A round before its first dial, with all permits left. -/
def start (permits : Nat) : Round := ⟨0, 0, 0, false, permits, [], [], [], []⟩

/-- The number of dials whose outcome is not collected. -/
def outstanding (r : Round) : Nat := r.waiting.length + r.done.length

/-- Whether an endpoint is being dialled. -/
def isInFlight (r : Round) (e : Endpoint) : Bool := r.inFlight.contains e

/-- The round with one more dial waiting, which takes a permit. -/
def addDial (r : Round) (e : Endpoint) : Round :=
  { r with
    attempted := r.attempted + 1
    permits := r.permits - 1
    inFlight := e :: r.inFlight
    waiting := r.waiting ++ [e] }

/-- The round after a dial that waited has run. Its permit is free again. -/
def finish (r : Round) (e : Endpoint) (outcome : DialOutcome) : Round :=
  { r with
    permits := r.permits + 1
    waiting := r.waiting.erase e
    done := r.done ++ [(e, outcome)]
    ran := e :: r.ran }

/-- Runs all dials that wait. -/
def runWaiting (r : Round) (dial : Endpoint → DialOutcome) : Round :=
  r.waiting.foldl (fun r e => r.finish e (dial e)) r

/-- Runs the dials that wait when there is no outcome to collect. -/
def runIdle (r : Round) (dial : Endpoint → DialOutcome) : Round :=
  if r.done.isEmpty then r.runWaiting dial else r

/-- The round without a dial whose outcome is collected. -/
def take (r : Round) (e : Endpoint) (outcome : DialOutcome) : Round :=
  { r with inFlight := r.inFlight.erase e, done := r.done.erase (e, outcome) }

/-- The dials in the order they ran. -/
def dialed (r : Round) : List Endpoint := r.ran.reverse

variable {σ : Type} [RandomSource σ]

/-- Makes one more dial, unless something stops the round from it. Returns whether the
dial was made. -/
def makeDial (config : DiscoveryConfig) (target : Nat) (r : Round) (b : Book) :
    Draw σ (Bool × Round × Book) :=
  if target ≤ r.connected + r.outstanding || config.maxAttempts ≤ r.attempted then
    return (false, r, b)
  else if r.permits = 0 then return (false, r, b)
  else do
    let (pick, b) ← b.choose
    match pick with
    | none => return (false, { r with exhausted := true }, b)
    | some a =>
      if r.isInFlight a.endpoint then return (false, r, b)
      else return (true, r.addDial a.endpoint, ← b.noteAttempt a.endpoint)

/-- Makes dials until something stops it, at most `attempts`. -/
def fill (config : DiscoveryConfig) (target : Nat) :
    (attempts : Nat) → Round → Book → Draw σ (Round × Book)
  | 0, r, b => return (r, b)
  | attempts + 1, r, b => do
    let (made, r, b) ← r.makeDial config target b
    if made then fill config target attempts r b else return (r, b)

/-- Collects the outcome of a dial and feeds it back. A broken dial has none. -/
def collect (r : Round) (e : Endpoint) (outcome : DialOutcome) (b : Book) :
    Draw σ (Except DiscoveryError Round × Book) :=
  let r := r.take e outcome
  match outcome with
  | .connected => do
    let b ← b.confirm e
    let b ← b.noteAlive e
    return (.ok { r with connected := r.connected + 1 }, b)
  | .failed => return (.ok { r with failed := r.failed + 1 }, b)
  | .broken => return (.error .brokenDial, b)

/-- Goes on with a round of which at most `left` outcomes are still to come. -/
def go (config : DiscoveryConfig) (dial : Endpoint → DialOutcome) (target : Nat) :
    (left : Nat) → Round → Book → Draw σ (Except DiscoveryError Round × Book)
  | 0, r, b => return (.ok r, b)
  | left + 1, r, b => do
    let (r, b) ← fill config target (config.maxAttempts - r.attempted) r b
    let r := r.runIdle dial
    match r.done with
    | [] => return (.ok r, b)
    | (e, outcome) :: _ =>
      match ← r.collect e outcome b with
      | (.error error, b) => return (.error error, b)
      | (.ok r, b) =>
        if target ≤ r.connected then return (.ok r, b)
        else go config dial target left r b

end Round

namespace Book

variable {σ : Type} [RandomSource σ]

/-- Seeds the book with endpoints, each as announced by the given address now. -/
def seed (b : Book) (config : DiscoveryConfig) (pairs : List (Endpoint × Ip)) :
    Draw σ (Nat × Book) :=
  b.learnMany (pairs.map fun (e, source) => (.ofEndpoint e b.now, source)) config.seedPenalty

/-- Seeds the book with the endpoints in the settings. -/
def seedFrom (b : Book) (config : DiscoveryConfig) (settings : Settings) : Draw σ (Nat × Book) :=
  b.seed config settings.seedPairs

/-- Runs one round of discovery that aims at `target` connections. -/
def discover (b : Book) (config : DiscoveryConfig) (dial : Endpoint → DialOutcome)
    (target : Nat) : Draw σ (Except DiscoveryError Round × Book) :=
  if permitLimit < config.maxInFlight then throw .permits
  else Round.go config dial target (config.maxAttempts + 1) (.start config.maxInFlight) b

end Book

end PeerCache
