import ColonMachine.Toml.Grammar

/-!
# Settings files as trees

The statements of a settings file build a tree of tables.  `Builder` is the tree so far, with what
is needed to tell a repetition that is allowed from one that is not:

* a table that was only **implied**, by standing on the way to something else, may still be
  opened or assigned once, and what it holds is kept;
* a key that is assigned an **array** may hold, while the array is read, the tables of its items.

Everything else that is given twice is an error, and so is a value where a table is needed.

The assignments in braces go into the tree like any others, and beside it they add up to the value
of the braces.  The value takes the place of the table in the tree only where an array would.  From
then on that table is **shared** by the tree and the braces around it: until these are closed, what
is done to it in one of them is done in both.
-/

namespace ColonMachine.Toml

/-- What a key stands for. -/
inductive Node where
  /-- A string. -/
  | string (text : Text)
  /-- An integer. -/
  | integer (n : Int)
  /-- A truth value. -/
  | boolean (b : Bool)
  /-- A fractional number, a date or a time. -/
  | other
  /-- An array that was assigned. -/
  | array
  /-- A table. -/
  | table (entries : List (Text × Node))
  /-- An array of tables that were opened one by one. -/
  | tables (elements : List (List (Text × Node)))

/-- The entries of a table, in order. -/
abbrev Entries := List (Text × Node)

namespace Entries

/-- Sets an entry, in place of one with the same name. -/
def put (name : Text) (node : Node) (entries : Entries) : Entries :=
  if (entries.lookup name).isSome then
    entries.map fun entry => if entry.1 == name then (name, node) else entry
  else entries ++ [(name, node)]

/-- Changes the table at the end of a path; of an array of tables, the last one is meant. -/
def modifyAt : (path : Key) → (change : Entries → Option Entries) → Entries → Option Entries
  | [], change, entries => change entries
  | name :: path, change, entries =>
    match entries.lookup name with
    | some (.table inner) => do
      return entries.put name (.table (← modifyAt path change inner))
    | some (.tables elements) => do
      let inner ← modifyAt path change (← elements.getLast?)
      return entries.put name (.tables (elements.dropLast ++ [inner]))
    | _ => none

/-- The table at the end of a path. -/
def tableAt? : (path : Key) → Entries → Option Entries
  | [], entries => some entries
  | name :: path, entries =>
    match entries.lookup name with
    | some (.table inner) => tableAt? path inner
    | some (.tables elements) => do tableAt? path (← elements.getLast?)
    | _ => none

/-- Sets an entry at the end of a path, making the tables on the way. -/
def graft (name : Text) (node : Node) : (path : Key) → Entries → Option Entries
  | [], entries => some (entries.put name node)
  | step :: path, entries =>
    match entries.lookup step with
    | none => do return entries.put step (.table (← graft name node path []))
    | some (.table inner) => do return entries.put step (.table (← graft name node path inner))
    | some _ => none

end Entries

/-- A tree of tables that is being built. -/
structure Builder where
  /-- The tree so far. -/
  root : Entries := []
  /-- The keys that were only implied. -/
  implied : List Key := []
  /-- The keys that are assigned arrays. -/
  arrays : List Key := []
  /-- The keys of the tables that are shared between the tree and the braces being read. -/
  shared : List Key := []
  /-- The table that assignments go to. -/
  context : Key := []

namespace Builder

/-- Marks a key as implied. -/
def imply (key : Key) (b : Builder) : Builder := { b with implied := key :: b.implied }

/-- Marks a key as no longer implied. -/
def settle (key : Key) (b : Builder) : Builder :=
  { b with implied := b.implied.filter (· != key) }

/-- The key under which it is kept whether a name of the table at hand is an array: for the empty
name it is the key of the table itself, unless that is the whole file. -/
def kindKey (name : Text) (b : Builder) : Key :=
  if name.isEmpty && !b.context.isEmpty then b.context else b.context ++ [name]

/-- Marks a name of the table at hand as being an array, or as not being one. -/
def markArray (isArray : Bool) (name : Text) (b : Builder) : Builder :=
  let key := b.kindKey name
  let others := b.arrays.filter (· != key)
  { b with arrays := if isArray then key :: others else others }

/-- Marks the table at a key as shared. -/
def share (key : Key) (b : Builder) : Builder := { b with shared := key :: b.shared }

/-- Marks the table at a key, and those in it, as no longer shared. -/
def unshare (key : Key) (b : Builder) : Builder :=
  { b with shared := b.shared.filter fun other => !key.isPrefixOf other }

/-- Sets an entry of the table at hand without asking what was there. -/
def write (name : Text) (node : Node) (b : Builder) : Option Builder := do
  return { b with root := ← b.root.modifyAt b.context fun table => some (table.put name node) }

/-- Sets an entry of the table at hand.  If there is one already, its key must have been implied:
then an array takes its place, and anything else leaves it as it is. -/
def set (name : Text) (node : Node) (b : Builder) : Option Builder := do
  let table ← b.root.tableAt? b.context
  let key := b.context ++ [name]
  if (table.lookup name).isNone then b.write name node
  else if !b.implied.contains key then none
  else if b.arrays.contains key then ((b.settle key).unshare key).write name node
  else some (b.settle key)

/-- Makes the tables on a path that are missing, given the path before it. -/
def reach : (before : Key) → (path : Key) → Builder → Option Builder
  | _, [], b => some b
  | before, name :: path, b => do
    let table ← b.root.tableAt? before
    let key := before ++ [name]
    match table.lookup name with
    | none => reach key path (← ({ b with context := before }.imply key).write name (.table []))
    | some (.table _) | some (.tables _) => reach key path b
    | some _ => none

/-- Adds one more table to an array of tables in the table at hand. -/
def append (name : Text) (b : Builder) : Option Builder := do
  let table ← b.root.tableAt? b.context
  match table.lookup name with
  | none => b.write name (.tables [[]])
  | some (.tables elements) => b.write name (.tables (elements ++ [[]]))
  | some _ => none

/-- Opens a table, or one more table of an array. -/
def enter (element : Bool) (key : Key) (b : Builder) : Option Builder := do
  let parent := key.dropLast
  let name ← key.getLast?
  let b ← b.reach [] parent
  let b := { b with context := parent }
  let b ← if element then b.append name else b.set name (.table [])
  return { b with context := key }

/-- Goes on into the tables that stand before the last name of a key. -/
def descend : (path : Key) → Builder → Option Builder
  | [], b => some b
  | name :: path, b => do
    let key := b.context ++ [name]
    descend path (← (b.imply key).enter false key)

/-- Enters a value at the end of a path into the entries of the braces at `home`.  If the path leads
through a shared table, the entries get the table of the tree, and the tree gets the value. -/
def record (home path : Key) (name : Text) (node : Node) (entries : Entries) (b : Builder) :
    Option (Entries × Builder) :=
  let steps := (List.range path.length).map fun n => path.take (n + 1)
  match steps.find? fun step => b.shared.contains (home ++ step) with
  | none => do return (← entries.graft name node path, b)
  | some step => do
    let table ← b.root.tableAt? (home ++ step)
    let entries ← entries.graft (← step.getLast?) (.table table) step.dropLast
    return (← entries.graft name node path, ← b.write name node)

mutual

/-- The node of a value for the name `name` of the table at hand; the tables in the value become
part of the tree on the way. -/
def node? (name : Text) (inArray : Bool) : Literal → Builder → Option (Node × Builder)
  | .string text, b => some (.string text, b)
  | .integer n, b => some (.integer n, b)
  | .boolean x, b => some (.boolean x, b)
  | .fraction, b => some (.other, b)
  | .moment, b => some (.other, b)
  | .array items, b => (items? name items (b.markArray true name)).map fun b => (.array, b)
  | .inline pairs, b => do
    let key := b.context ++ [name]
    let inner ← ((b.imply key).unshare key).enter inArray key
    let (entries, inner) ← pairs? key pairs [] inner
    return (.table entries, { inner with context := b.context })

/-- The items of an array, for the tables in them. -/
def items? (name : Text) : List Literal → Builder → Option Builder
  | [], b => some b
  | item :: items, b => do items? name items (← node? name true item b).2

/-- The assignments of a table in braces, with the entries they add up to. -/
def pairs? (home : Key) :
    List (Key × Literal) → (entries : Entries) → Builder → Option (Entries × Builder)
  | [], entries, b => some (entries, b)
  | (key, value) :: pairs, entries, b => do
    let name ← key.getLast?
    let b ← ({ b with context := home } : Builder).descend key.dropLast
    let (node, b) ← node? name false value b
    let target := b.context ++ [name]
    let replaces := node matches .table _ && b.arrays.contains target
    let b ← b.set name node
    let b := if replaces then b.share target else b
    let (entries, b) ← b.record home key.dropLast name node entries
    pairs? home pairs entries (b.markArray (node matches .array) name)

end

/-- Carries out an assignment in the table at hand. -/
def assign (key : Key) (value : Literal) (b : Builder) : Option Builder := do
  let name ← key.getLast?
  let inner ← b.descend key.dropLast
  let (node, inner) ← inner.node? name false value
  let inner ← inner.set name node
  return { inner.markArray (node matches .array) name with context := b.context }

/-- Carries out a statement. -/
def perform (b : Builder) : Statement → Option Builder
  | .table key => do
    let b ← b.enter false key
    return { b with arrays := b.arrays.filter (· != key) }
  | .element key => do
    let b ← b.enter true key
    return { b with arrays := b.arrays.filter (· != key) }
  | .assign key value => b.assign key value

end Builder

/-- Reads a settings file. -/
def read? (t : Text) : Option Entries := do
  let statements ← statements? (← characters? t)
  return (← statements.foldlM Builder.perform {}).root

end ColonMachine.Toml
