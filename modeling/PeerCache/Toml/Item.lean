/-!
# `PeerCache.Toml.Item`: the tree of a TOML document

A document is a table. Tables come about in several ways, and the way decides
whether later lines may add to them:

* a *declared* table has a header of its own, and a second one is refused;
* an *implied* table was only passed through by longer headers, and may still be
  declared once;
* a *dotted* table was made by a dotted key, and takes further dotted keys;
* a *closed* table was written inline and takes nothing more.

Numbers and times are kept without their values, because settings hold neither.
-/

set_option autoImplicit false

namespace PeerCache.Toml

/-- How a table came about. -/
inductive TableForm where
  | declared
  | implied
  | dotted
  | closed
deriving DecidableEq

/-- A value, or a table of values. -/
inductive Item where
  | text (s : String)
  | boolean (b : Bool)
  | number
  | time
  | list (items : List Item)
  | table (form : TableForm) (entries : List (String × Item))
  /-- Tables under one repeated header, latest first. -/
  | tables (elements : List (List (String × Item)))

/-- The entries of a table, in order. -/
abbrev Entries := List (String × Item)

namespace Entries

/-- The entries with one more at the end. -/
def append (entries : Entries) (key : String) (item : Item) : Entries := entries ++ [(key, item)]

/-- The entries with the item of a key exchanged. -/
def replace (entries : Entries) (key : String) (item : Item) : Entries :=
  entries.map fun (k, old) => if k = key then (k, item) else (k, old)

/-- Adds an item under a dotted key: tables on the way are made as needed. -/
def insert (item : Item) : (path : List String) → (key : String) → Entries → Option Entries
  | [], key, entries =>
    match entries.lookup key with
    | some _ => none
    | none => some (entries.append key item)
  | step :: path, key, entries =>
    match entries.lookup step with
    | none => do
      let inner ← insert item path key []
      return entries.append step (.table .dotted inner)
    | some (.table form inner) =>
      if form = .dotted ∨ (form = .implied ∧ path ≠ []) then do
        let inner ← insert item path key inner
        return entries.replace step (.table form inner)
      else none
    | some (.tables (latest :: older)) =>
      if path = [] then none
      else do
        let latest ← insert item path key latest
        return entries.replace step (.tables (latest :: older))
    | some _ => none

/-- Changes the table that a header path leads to. Tables on the way are made as
needed, and of repeated tables the latest is entered. -/
def descend (change : (key : String) → Entries → Option Entries) :
    (path : List String) → Entries → Option Entries
  | [], _ => none
  | [key], entries => change key entries
  | step :: path, entries =>
    match entries.lookup step with
    | none => do
      let inner ← descend change path []
      return entries.append step (.table .implied inner)
    | some (.table form inner) =>
      if form = .closed then none
      else do
        let inner ← descend change path inner
        return entries.replace step (.table form inner)
    | some (.tables (latest :: older)) => do
      let latest ← descend change path latest
      return entries.replace step (.tables (latest :: older))
    | some _ => none

/-- Declares the table of a header. -/
def declare (key : String) (entries : Entries) : Option Entries :=
  match entries.lookup key with
  | none => some (entries.append key (.table .declared []))
  | some (.table .implied inner) => some (entries.replace key (.table .declared inner))
  | some _ => none

/-- Adds another table under a repeated header. -/
def declareElement (key : String) (entries : Entries) : Option Entries :=
  match entries.lookup key with
  | none => some (entries.append key (.tables [[]]))
  | some (.tables elements) => some (entries.replace key (.tables ([] :: elements)))
  | some _ => none

/-- Changes the inside of the table that was declared last under a key. -/
def enter (change : Entries → Option Entries) (key : String) (entries : Entries) :
    Option Entries :=
  match entries.lookup key with
  | some (.table form inner) => do
    return entries.replace key (.table form (← change inner))
  | some (.tables (latest :: older)) => do
    return entries.replace key (.tables ((← change latest) :: older))
  | _ => none

end Entries

end PeerCache.Toml
