import GraphConformance.Table
import GraphConformance.Toml.Moment

/-!
# Configuration values

A configuration text is a tree of tables. A table remembers how it came about, because that decides
what may still be added to it: `descend?` walks a path, making the tables that are missing, and
`put?`, `openTable?` and `openElement?` add a value, a headed table and an element of a list of
tables at its end. Nothing is ever defined twice.
-/

set_option autoImplicit false

namespace GraphConformance.Toml

/-- How a table came about. -/
inductive Origin where
  /-- Written between braces, and complete. -/
  | inline
  /-- By a header of its own. -/
  | header
  /-- By the header of a table inside it. -/
  | implied
  /-- By a dotted key. -/
  | dotted
deriving DecidableEq, Repr

/-- Integers are below this bound and not below its opposite, so that they have 64 bits. -/
def integerLimit : Nat := 9223372036854775808

inductive Value where
  | string (text : String)
  | integer (value : Int)
  /-- A number with a fraction or an exponent, as written. -/
  | float (text : String)
  | boolean (value : Bool)
  | moment (moment : Moment)
  | array (items : List Value)
  | table (origin : Origin) (entries : List (String × Value))
  /-- A list of tables that are opened by headers one by one. -/
  | tables (elements : List (List (String × Value)))
deriving Inhabited

/-- The entries of a table. -/
abbrev Entries := List (String × Value)

/-- Whether a path may go through a table: a complete table is left alone, and dotted keys do not go
through a table with a header. -/
def Origin.admits (o : Origin) (byDots : Bool) : Bool :=
  match o with
  | inline => false
  | header => !byDots
  | implied | dotted => true

/-- Change the table at the end of a path from a given table, with the missing tables made. -/
def descend? (byDots : Bool) (change : Origin → Entries → Option Entries) :
    List String → Origin → Entries → Option Entries
  | [], origin, entries => change origin entries
  | key :: path, _, entries =>
    match Table.lookupEntry key entries with
    | none =>
      let origin := if byDots then .dotted else .implied
      (descend? byDots change path origin []).map fun inner =>
        Table.putEntry key (.table origin inner) entries
    | some (.table origin inner) =>
      if origin.admits byDots then
        (descend? byDots change path origin inner).map fun inner =>
          Table.putEntry key (.table origin inner) entries
      else none
    | some (.tables elements) =>
      match elements.getLast? with
      | some element =>
        (descend? byDots change path .header element).map fun element =>
          Table.putEntry key (.tables (elements.dropLast ++ [element])) entries
      | none => none
    | some _ => none

/-- Add a value under a dotted key. Dotted keys add to tables made by dotted keys alone. -/
def put? (path : List String) (key : String) (value : Value) : Origin → Entries → Option Entries :=
  descend? true (fun origin entries =>
    -- a table that dotted keys made takes dotted keys, and every other one takes plain keys
    if (origin = .dotted ↔ path = []) ∨ (Table.lookupEntry key entries).isSome then none
    else some (entries ++ [(key, value)])) path

/-- Open a table by its header, unless it is there for another reason than a table inside it. -/
def openTable? (path : List String) (key : String) : Entries → Option Entries :=
  descend? false (fun _ entries =>
    match Table.lookupEntry key entries with
    | none => some (entries ++ [(key, .table .header [])])
    | some (.table .implied inner) => some (Table.putEntry key (.table .header inner) entries)
    | some _ => none) path .header

/-- Open the next element of a list of tables. -/
def openElement? (path : List String) (key : String) : Entries → Option Entries :=
  descend? false (fun _ entries =>
    match Table.lookupEntry key entries with
    | none => some (entries ++ [(key, .tables [[]])])
    | some (.tables elements) => some (Table.putEntry key (.tables (elements ++ [[]])) entries)
    | some _ => none) path .header

end GraphConformance.Toml
