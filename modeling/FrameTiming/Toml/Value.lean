/-! # TOML values

The values of a TOML document, and the rules by which keys and headers put them into tables. A table
remembers how it came about, because that decides what may still be added to it.
-/

namespace FrameTiming.Toml

inductive TableKind where
  | inlined
  /-- Opened by a header of its own. -/
  | header
  /-- On the way to the table of a header. -/
  | implied
  /-- On the way of a dotted key. -/
  | dotted
deriving DecidableEq, Repr

inductive Value where
  | string (content : String)
  | integer (value : Int64)
  | float (value : Float)
  | boolean (value : Bool)
  | dateTime
  | array (elements : List Value)
  | table (kind : TableKind) (entries : List (String × Value))
  /-- The tables of equal double-bracket headers, the latest last. -/
  | tables (elements : List (List (String × Value)))

abbrev Entries := List (String × Value)

namespace Entries

def set (entries : Entries) (key : String) (value : Value) : Entries :=
  match entries with
  | [] => [(key, value)]
  | (first, old) :: rest =>
      if first = key then (key, value) :: rest else (first, old) :: set rest key value

/-- The value of a dotted key is put into the table that its path leads to. Tables on the way may
have been made by dotted keys or, except for the last one, be implied by headers; no key is given
twice. -/
def insertDotted? (key : String) (value : Value) : (path : List String) → Entries → Option Entries
  | [], entries =>
      if (entries.lookup key).isSome then none else some (entries.set key value)
  | first :: rest, entries =>
      match entries.lookup first with
      | none =>
          (insertDotted? key value rest []).map fun inner =>
            entries.set first (.table .dotted inner)
      | some (.table kind inner) =>
          if kind = .dotted ∨ (kind = .implied ∧ rest ≠ []) then
            (insertDotted? key value rest inner).map fun inner =>
              entries.set first (.table kind inner)
          else
            none
      | some (.tables elements) =>
          match elements.getLast?, rest with
          | some last, _ :: _ =>
              (insertDotted? key value rest last).map fun last =>
                entries.set first (.tables (elements.dropLast ++ [last]))
          | _, _ => none
      | some _ => none

/-- Changes the entries that a header path leads to: `missing` makes those that do not exist, and of
several tables under one name the latest is meant. -/
def descend? (change : Entries → Option Entries) : (path : List String) → Entries → Option Entries
  | [], entries => change entries
  | first :: rest, entries =>
      match entries.lookup first with
      | none => (descend? change rest []).map fun inner => entries.set first (.table .implied inner)
      | some (.table kind inner) =>
          if kind = .inlined then none
          else (descend? change rest inner).map fun inner => entries.set first (.table kind inner)
      | some (.tables elements) =>
          elements.getLast?.bind fun last =>
            (descend? change rest last).map fun last =>
              entries.set first (.tables (elements.dropLast ++ [last]))
      | some _ => none

def openTable? (path : List String) (key : String) : Entries → Option Entries :=
  descend? (fun entries =>
    match entries.lookup key with
    | none => some (entries.set key (.table .header []))
    | some (.table .implied inner) => some (entries.set key (.table .header inner))
    | some _ => none) path

def openElement? (path : List String) (key : String) : Entries → Option Entries :=
  descend? (fun entries =>
    match entries.lookup key with
    | none => some (entries.set key (.tables [[]]))
    | some (.tables elements) => some (entries.set key (.tables (elements ++ [[]])))
    | some _ => none) path

end Entries

end FrameTiming.Toml
