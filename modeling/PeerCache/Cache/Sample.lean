import PeerCache.Cache.Audit

/-!
# `PeerCache.Cache.Sample`: picking peers at random

`Cache.choose` picks one peer to dial. It first settles the table: a fair coin
when both hold records. Then it goes through up to 256 rounds. Each round takes a
uniformly random occupied slot and accepts its record with a likelihood that
follows the record's chance and grows by a fifth from round to round. Terrible
records are never accepted.

A random occupied slot is found by trying slots blindly. After 1024 misses the
table must be nearly empty, and one of its occupied slots is drawn directly,
which is just as uniform.

`Cache.sample` draws peers to tell others about: up to 23 percent of all records
and never more than 2500, without replacement, terrible ones left out.
-/

set_option autoImplicit false

namespace PeerCache

/-- The share of the records that a sample may hold, in percent. -/
def samplePercent : Nat := 23

/-- The most records that a sample may hold. -/
def sampleMax : Nat := 2500

/-- Rounds after which a pick gives up. -/
def chooseRounds : Nat := 256

/-- Blind tries after which an occupied slot is drawn directly. -/
def blindTries : Nat := 1024

/-- The number of outcomes of the draw that decides on acceptance. -/
def acceptanceScale : Nat := 1 <<< 30

variable {σ : Type} [RandomSource σ]

namespace SlotTable

variable {rows cols : Nat} {α : Type}

/-- Draws an occupied slot from the listing of all of them. -/
def drawOccupied (t : SlotTable rows cols α) : Draw σ (Option α) := do
  let occupied := t.occupied
  if occupied.isEmpty then return none
  let n ← Draw.below occupied.length
  return occupied[n]?.map fun (_, _, a) => a

/-- Tries slots blindly until one is occupied. When `tries` are used up, draws
from the listing. -/
def randomEntry (t : SlotTable rows cols α) : (tries : Nat) → Draw σ (Option α)
  | 0 => t.drawOccupied
  | tries + 1 => do
    let b ← Draw.below rows
    let p ← Draw.below cols
    match index? rows cols b p with
    | none => throw .orderIndex
    | some (b, p) =>
      match t.get b p with
      | some a => return some a
      | none => t.randomEntry tries

end SlotTable

namespace Cache

/-- The remaining rounds of a pick from one table. `factor` is what acceptance
has grown by. -/
def chooseFrom (w : Type) [Weight w] {rows cols : Nat} (c : Cache)
    (table : SlotTable rows cols RecordId) (now : Timestamp) :
    (rounds : Nat) → (factor : w) → Draw σ (Option Announcement)
  | 0, _ => return none
  | rounds + 1, factor => do
    match (← table.randomEntry blindTries).bind fun id => c.records[id]? with
    | none => return none
    | some r =>
      -- Each refusal raises the odds of the next round.
      if r.isTerrible now then chooseFrom w c table now rounds (factor * 1.2)
      else
        let draw ← Draw.below acceptanceScale
        if (draw : w) < factor * r.chance now * (acceptanceScale : w) then return some r.peer
        else chooseFrom w c table now rounds (factor * 1.2)

/-- Whether a pick goes to the tried table. -/
def chooseTried (c : Cache) : Draw σ Bool :=
  if c.triedCount = 0 then return false
  else if c.newCount = 0 then return true
  else Draw.coin

/-- Picks a peer to dial, with acceptance computed in `w`. -/
def choose (w : Type) [Weight w] (c : Cache) (now : Timestamp) :
    Draw σ (Option Announcement) := do
  if c.isEmpty then return none
  else if ← c.chooseTried then chooseFrom w c c.triedTable now chooseRounds 1.0
  else chooseFrom w c c.newTable now chooseRounds 1.0

/-- How many peers a sample may hold. -/
def sampleSize (c : Cache) : Nat := min (samplePercent * c.size / 100) sampleMax

/-- Exchanges place `n` of the sampling order with a random place from there on. -/
def shuffleStep (c : Cache) (n : Nat) : Draw σ Cache := do
  let k ← Draw.below (c.size - n)
  c.swapOrder n (n + k)

/-- Goes on sampling from place `n`, with `places` places left and `wanted` peers
still to find. -/
def sampleFrom (now : Timestamp) : (places n wanted : Nat) → (found : List Announcement) →
    Cache → Draw σ (List Announcement × Cache)
  | 0, _, _, found, c => return (found.reverse, c)
  | _, _, 0, found, c => return (found.reverse, c)
  | places + 1, n, wanted + 1, found, c => do
    let c ← c.shuffleStep n
    match c.order[n]? with
    | none => throw .orderIndex
    | some id =>
      match c.records[id]? with
      | some r =>
        if r.isTerrible now then sampleFrom now places (n + 1) (wanted + 1) found c
        else sampleFrom now places (n + 1) wanted (r.peer :: found) c
      | none => sampleFrom now places (n + 1) (wanted + 1) found c

/-- Draws peers to tell others about. -/
def sample (c : Cache) (now : Timestamp) : Draw σ (List Announcement × Cache) := do
  let (found, c) ← sampleFrom now c.size 0 c.sampleSize [] c
  return (found, ← c.audited)

end Cache

end PeerCache
