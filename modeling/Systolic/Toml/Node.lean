import Systolic.Keyed
import Systolic.Toml.Value

/-!
# Tables under construction

While a document or an inline table is read, each table remembers how it came into being, since that decides what may
still be added to it: a table is defined by at most one header, a table that a header defines is closed to dotted keys,
and no key is given twice. `Entries.insert` adds what a key and its value say, `Entries.define` a header with the
entries below it.
-/

namespace Systolic.Toml

/-- How a table came into being. -/
inductive Origin
  /-- By its own header. -/
  | header
  /-- On the way to the table of a longer header. -/
  | implied
  /-- By the dotted key of an entry. -/
  | dotted
  deriving DecidableEq

inductive Node
  | value (v : Value)
  | table (origin : Origin) (entries : List (String × Node))
  /-- The tables of the headers `[[…]]` with one key. -/
  | tables (items : List (List (String × Node)))

/-- The entries of a table, in the order in which their keys were first used. -/
abbrev Entries := Keyed Node

/-- A key with its value; the key is the last of a path of keys. -/
structure Assignment where
  path : List String
  key : String
  value : Value

/-- A header in single or in double brackets; the key is the last of a path of keys. -/
structure Header where
  path : List String
  key : String
  /-- In double brackets: one more table of an array. -/
  appends : Bool

namespace Entries

/-- Change the last of several tables. -/
def modifyLast (f : Entries → Option Entries) : List Entries → Option (List Entries)
  | [] => none
  | [last] => (f last).map ([·])
  | first :: rest => (modifyLast f rest).map (first :: ·)

/-- Add `value` under `key` in the table that the dotted path leads to. A table on the way may not have a header of its
own, and the last of them must have come from a dotted key. -/
def insert (key : String) (value : Value) : List String → Entries → Option Entries
  | [], entries =>
    match Keyed.get? key entries with
    | none => some (Keyed.put key (.value value) entries)
    | some _ => none
  | step :: path, entries =>
    let below := insert key value path
    match Keyed.get? step entries with
    | none => (below []).map fun new => Keyed.put step (.table .dotted new) entries
    | some (.table .dotted old) => (below old).map fun new => Keyed.put step (.table .dotted new) entries
    | some (.table .implied old) =>
      if path.isEmpty then none else (below old).map fun new => Keyed.put step (.table .implied new) entries
    | some (.tables items) =>
      if path.isEmpty then none else (modifyLast below items).map fun new => Keyed.put step (.tables new) entries
    | some (.table .header _) | some (.value _) => none

/-- Add the assignments in turn. -/
def fill (entries : Entries) : List Assignment → Option Entries
  | [] => some entries
  | a :: rest => (insert a.key a.value a.path entries).bind (fill · rest)

/-- Add the table of a header with the assignments below it, at the end of the header's path. -/
def define (header : Header) (body : List Assignment) : List String → Entries → Option Entries
  | [], entries =>
    match header.appends, Keyed.get? header.key entries with
    | false, none => (fill [] body).map fun new => Keyed.put header.key (.table .header new) entries
    | false, some (.table .implied old) => (fill old body).map fun new => Keyed.put header.key (.table .header new) entries
    | true, none => (fill [] body).map fun new => Keyed.put header.key (.tables [new]) entries
    | true, some (.tables items) => (fill [] body).map fun new => Keyed.put header.key (.tables (items ++ [new])) entries
    | _, some _ => none
  | step :: path, entries =>
    let below := define header body path
    match Keyed.get? step entries with
    | none => (below []).map fun new => Keyed.put step (.table .implied new) entries
    | some (.table origin old) => (below old).map fun new => Keyed.put step (.table origin new) entries
    | some (.tables items) => (modifyLast below items).map fun new => Keyed.put step (.tables new) entries
    | some (.value _) => none

end Entries

mutual

/-- The value that a finished node stands for. -/
def Node.toValue : Node → Value
  | .value v => v
  | .table _ entries => .table (entryValues entries)
  | .tables items => .array (tableValues items)

def entryValues : Entries → List (String × Value)
  | [] => []
  | e :: rest => (e.1, e.2.toValue) :: entryValues rest

def tableValues : List Entries → List Value
  | [] => []
  | entries :: rest => .table (entryValues entries) :: tableValues rest

end

end Systolic.Toml
