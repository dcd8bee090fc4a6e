import Blueprint.OrderedMap
import Blueprint.Toml.Scalar
/-!
TOML tables: what keys and headers may add to what is there. A table is opened by a header of its
own, implied by the header of a table inside it, or made by dotted keys; which of these it is
decides whether it may still grow.
-/

namespace Blueprint.Toml

/-- How a table came to be. -/
inductive Origin where
  | header
  | implied
  | dotted
  deriving DecidableEq, Repr

/-- What a key stands for. Values are closed, inline tables among them. -/
inductive Item where
  | value (scalar : Scalar)
  | table (origin : Origin) (entries : List (String × Item))
  /-- an array of tables of which only the last can be reached -/
  | tables (last : List (String × Item))

/-- A table as its entries. -/
abbrev Entries := List (String × Item)

/-- Change the table that a path of keys leads to. Tables that are missing are made on the way; no
way leads through a value, and dotted keys do not lead into a table with a header. -/
def changeAt (missing : Origin) (change : Origin → Entries → Option Entries) :
    List String → Origin → Entries → Option Entries
  | [], origin, entries => change origin entries
  | key :: path, _, entries =>
    match OrderedMap.get? entries key with
    | none => do
      let inner ← changeAt missing change path missing []
      return OrderedMap.insert entries key (.table missing inner)
    | some (.value _) => none
    | some (.tables last) => do
      let inner ← changeAt missing change path .header last
      return OrderedMap.insert entries key (.tables inner)
    | some (.table origin old) =>
      if missing = .dotted ∧ origin = .header then none
      else do
        let inner ← changeAt missing change path origin old
        return OrderedMap.insert entries key (.table origin inner)

/-- Add a new key to a table. -/
def addNew (entries : Entries) (key : String) (item : Item) : Option Entries :=
  if (OrderedMap.get? entries key).isSome then none
  else some (OrderedMap.insert entries key item)

/-- Write a value under a path of keys, the last of which must be new. A table reached by dotted
keys must have been made by such keys. -/
def define (entries : Entries) (path : List String) (scalar : Scalar) : Option Entries :=
  match path.getLast? with
  | none => none
  | some key =>
    let tables := path.dropLast
    changeAt .dotted
      (fun origin entries =>
        if tables ≠ [] ∧ origin ≠ .dotted then none else addNew entries key (.value scalar))
      tables .header entries

/-- Write a value in the table that a header opened. -/
def defineIn (header : List String) (entries : Entries) (path : List String) (scalar : Scalar) :
    Option Entries :=
  changeAt .implied (fun _ entries => define entries path scalar) header .header entries

/-- Open a table by its header. It may be there only as one that was implied. -/
def openTable (entries : Entries) (path : List String) : Option Entries :=
  match path.getLast? with
  | none => none
  | some key =>
    changeAt .implied
      (fun _ entries =>
        match OrderedMap.get? entries key with
        | none => some (OrderedMap.insert entries key (.table .header []))
        | some (.table .implied inner) =>
          some (OrderedMap.insert entries key (.table .header inner))
        | some _ => none)
      path.dropLast .header entries

/-- Open one more table of an array of tables. -/
def openElement (entries : Entries) (path : List String) : Option Entries :=
  match path.getLast? with
  | none => none
  | some key =>
    changeAt .implied
      (fun _ entries =>
        match OrderedMap.get? entries key with
        | none | some (.tables _) => some (OrderedMap.insert entries key (.tables []))
        | some _ => none)
      path.dropLast .header entries

end Blueprint.Toml
