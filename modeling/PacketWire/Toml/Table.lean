import PacketWire.Toml.Value

/-!
# Assembling tables

A file is a list of entries, each a dotted key and a value, cut into sections by headers. Tables
that a key or header only passes through come into being on the way. A table may be passed by a
header unless it was written in braces; a dotted key passes only those tables that came into being
on the way, and of several tables under one name the last. A table that headers have only passed
may still get a header of its own, once.

* `addValue_isSome_iff`: a plain key is added exactly where it is new.
-/

namespace PacketWire.Toml

/-- A dotted key and its value. -/
structure Entry where
  /-- The keys in front of the last. -/
  path : List String
  key : String
  value : Value

/-- The entries below a header. -/
structure Section where
  /-- Whether the header begins one more of the tables under its name. -/
  isElement : Bool
  path : List String
  key : String
  entries : List Entry

/-- What is written in a file. -/
structure Document where
  /-- The entries above every header. -/
  entries : List Entry
  sections : List Section

/-- What passes through tables. -/
inductive Passage where
  | byHeader
  | byKey
  deriving DecidableEq, Repr

namespace Passage

/-- How a table comes into being on the way. -/
def origin : Passage → Origin
  | byHeader => .implied
  | byKey => .dotted

/-- Whether a table may be passed. -/
def mayPass : Passage → Origin → Bool
  | _, .braces => false
  | byKey, .header => false
  | _, _ => true

end Passage

/-- A change to a table, which may be refused. -/
abbrev Change := Origin → Table → Option Table

/-- Applies a change to the table at the end of a path. -/
def changeAt (passage : Passage) (change : Change) : List String → Change
  | [], origin, table => change origin table
  | key :: path, _, table =>
    match table.get? key with
    | none => do
      let below ← changeAt passage change path passage.origin .empty
      return table.set key (.table passage.origin below)
    | some (.table origin below) =>
      if passage.mayPass origin then do
        let below ← changeAt passage change path origin below
        return table.set key (.table origin below)
      else none
    | some (.tables items) =>
      match items.getLast? with
      | none => none
      | some last => do
        let last ← changeAt passage change path .header last
        return table.set key (.tables (items.dropLast ++ [last]))
    | some _ => none

/-- Adds a value under a key that is new. -/
def addValue (key : String) (value : Value) (table : Table) : Option Table :=
  if (table.get? key).isSome then none else some (table.set key value)

theorem addValue_isSome_iff (key : String) (value : Value) (table : Table) :
    (addValue key value table).isSome ↔ table.get? key = none := by
  cases h : table.get? key <;> simp [addValue, h]

/-- Adds an entry. The last table on the way of a dotted key has come into being by dotted keys. -/
def addEntry (entry : Entry) (table : Table) : Option Table :=
  changeAt .byKey (fun origin table =>
      if entry.path.isEmpty || origin = .dotted then addValue entry.key entry.value table else none)
    entry.path .header table

/-- Adds entries one after another. -/
def addEntries (entries : List Entry) (table : Table) : Option Table :=
  entries.foldlM (fun table entry => addEntry entry table) table

/-- The table of entries in braces. -/
def ofEntries? (entries : List Entry) : Option Table := addEntries entries .empty

/-- Adds a section to the table that holds it. -/
def addSection (section_ : Section) (parent : Table) : Option Table :=
  let key := section_.key
  if section_.isElement then do
    let items ← match parent.get? key with
      | none => some []
      | some (.tables items) => some items
      | some _ => none
    let table ← ofEntries? section_.entries
    return parent.set key (.tables (items ++ [table]))
  else do
    let held ← match parent.get? key with
      | none => some .empty
      | some (.table .implied held) => some held
      | some _ => none
    let table ← addEntries section_.entries held
    return (parent.erase key).set key (.table .header table)

/-- The table that a file stands for. -/
def Document.table? (document : Document) : Option Table := do
  let root ← ofEntries? document.entries
  document.sections.foldlM (fun root section_ =>
    changeAt .byHeader (fun _ parent => addSection section_ parent) section_.path .header root) root

end PacketWire.Toml
