import Abacus.Toml.Read

/-!
# Documents

The tables that the statements of a settings file build up.  A table may be
opened once by a header.  It may also come into being because a key goes through
it; such a table is implied, and a header may still open it once.

A key that goes through an array takes the array's place: it starts an empty
table there, each time anew.  What stood below is lost, and its keys give
nothing any more.  Which keys hold arrays is kept apart from the entries, and a
value whose key ends in an empty part counts for the key above it.

Of a list of tables only the last one can be added to, so only that one is
kept.  All keys are kept in the order in which they are written, and a header
counts as a key.
-/

namespace Abacus.Toml

/-- What stands at a key. -/
inductive Entry where
  | integer (n : Int)
  | boolean (b : Bool)
  /-- A float, a text or a time. -/
  | other
  | array
  | table
  /-- A list of tables; below the key stands the last of them. -/
  | tables
  deriving DecidableEq

namespace Entry

/-- Whether keys can stand below the entry. -/
def isOpen : Entry → Bool
  | .table | .tables => true
  | _ => false

end Entry

/-- What stands at the key of a value. -/
def Item.entry : Item → Entry
  | .integer n => .integer n
  | .boolean b => .boolean b
  | .float | .text | .time => .other
  | .array _ => .array
  | .table _ => .table

/-- The keys above a key, from the outermost on. -/
def parents (k : Key) : List Key :=
  (List.range (k.length - 1)).map fun n => k.take (n + 1)

/-! ## Tables in braces -/

/-- What stands below a key, by the rest of the key. -/
abbrev Contents := List (Key × Entry)

namespace Contents

/-- Makes sure that tables stand at the given keys. -/
def pass? (c : Contents) : List Key → Option Contents
  | [] => some c
  | k :: ks =>
    match c.lookup k with
    | none => pass? (c ++ [(k, .table)]) ks
    | some e => if e = .table then pass? c ks else none

/-- Places an entry with what stands below it; it takes the place of another. -/
def put (c : Contents) (k : Key) (e : Entry) (below : Contents) : Contents :=
  (c.filter fun p => !k.isPrefixOf p.1) ++ (k, e) :: below.map fun p => (k ++ p.1, p.2)

end Contents

mutual

/-- What stands below the key of a value; none when a key of a table in braces
goes through something else than a table. -/
def Item.contents? : Item → Option Contents
  | .array items => itemsContents? items
  | .table entries => entriesContents? [] entries
  | _ => some []

/-- Nothing stands below an array, but its values must be sound. -/
def itemsContents? : List Item → Option Contents
  | [] => some []
  | v :: vs => do
    let _ ← v.contents?
    itemsContents? vs

/-- Adds the entries of a table in braces to `c`. -/
def entriesContents? (c : Contents) : List (Key × Item) → Option Contents
  | [] => some c
  | (k, v) :: es => do
    let below ← v.contents?
    let c ← c.pass? (parents k)
    entriesContents? (c.put k v.entry below) es

end

/-! ## Documents -/

/-- The tables of a settings file. -/
structure Document where
  entries : List (Key × Entry) := []
  /-- The keys of implied tables. -/
  implied : List Key := []
  /-- The keys whose value was last written as an array. -/
  arrays : List Key := []
  /-- All keys in the order of the file. -/
  keys : List Key := []
  deriving DecidableEq

namespace Document

/-- What stands at a key. -/
def get? (d : Document) (k : Key) : Option Entry :=
  d.entries.lookup k

/-- Places an entry at a key where none stands. -/
def insert (d : Document) (k : Key) (e : Entry) : Document :=
  { d with entries := d.entries ++ [(k, e)] }

/-- Removes what stands below a key. -/
def clear (d : Document) (k : Key) : Document :=
  { d with entries := d.entries.filter fun p => p.1 = k || !k.isPrefixOf p.1 }

/-- Replaces what stands at and below a key. -/
def replace (d : Document) (k : Key) (e : Entry) (below : Contents) : Document :=
  { d with entries := Contents.put d.entries k e below }

/-- Marks the table at a key as implied. -/
def imply (d : Document) (k : Key) : Document :=
  { d with implied := k :: d.implied }

/-- Marks the table at a key as no longer implied. -/
def settle (d : Document) (k : Key) : Document :=
  { d with implied := d.implied.filter (· ≠ k) }

/-- Adds a key to those of the file. -/
def record (d : Document) (k : Key) : Document :=
  { d with keys := d.keys ++ [k] }

/-- Notes whether the value at a key was written as an array. -/
def noteArray (d : Document) (k : Key) (isArray : Bool) : Document :=
  let others := d.arrays.filter (· ≠ k)
  { d with arrays := if isArray then k :: others else others }

/-- The key for which the kind of a value counts: without a last part that is
empty, unless it is the only one. -/
def kindKey (k : Key) : Key :=
  if k.getLast? = some [] ∧ 1 < k.length then k.dropLast else k

/-- Makes sure that keys can stand below each of the given ones: what is missing
becomes an implied table. -/
def pass? (d : Document) : List Key → Option Document
  | [] => some d
  | k :: ks =>
    match d.get? k with
    | none => pass? ((d.insert k .table).imply k) ks
    | some e => if e.isOpen then pass? d ks else none

/-- Places an entry at a key whose parents hold keys.  Where something stands
already it must be implied; then it stays, unless the key is one of an array. -/
def put? (d : Document) (k : Key) (e : Entry) (below : Contents) : Option Document :=
  if (parents k).all fun p => (d.get? p).any Entry.isOpen then
    match d.get? k with
    | none => some (d.replace k e below)
    | some _ =>
      if k ∈ d.implied then
        let d := d.settle k
        some (if k ∈ d.arrays then d.replace k e below else d)
      else none
  else none

/-- Opens the table at a key. -/
def openTable? (d : Document) (k : Key) : Option Document := do
  (← d.pass? (parents k)).put? k .table []

/-- Opens a new table in the list at a key. -/
def openList? (d : Document) (k : Key) : Option Document := do
  let d ← d.pass? (parents k)
  match d.get? k with
  | none => some (d.insert k .tables)
  | some .tables => some (d.clear k)
  | some _ => none

/-- Opens the tables that a key goes through, below the table at `base`. -/
def through? (base : Key) (d : Document) (k : Key) : Option Document :=
  (parents k).foldlM (fun d p => (d.imply (base ++ p)).openTable? (base ++ p)) d

/-- Opens the table that a value in braces stands for. -/
def openInline? (d : Document) (k : Key) (inArray : Bool) : Option Document :=
  let d := d.imply k
  if inArray then d.openList? k else d.openTable? k

mutual

/-- Adds the keys that a value at key `k` holds. -/
def addItem? (k : Key) (inArray : Bool) (d : Document) : Item → Option Document
  | .array items => addItems? k (d.noteArray (kindKey k) true) items
  | .table entries => do addEntries? k (← d.openInline? k inArray) entries
  | _ => some d

/-- Adds the keys that the values of an array at key `k` hold. -/
def addItems? (k : Key) (d : Document) : List Item → Option Document
  | [] => some d
  | v :: vs => do addItems? k (← addItem? k true d v) vs

/-- Adds the entries of a table at key `base`. -/
def addEntries? (base : Key) (d : Document) : List (Key × Item) → Option Document
  | [] => some d
  | (k, v) :: es => do
    let full := base ++ k
    let d ← d.through? base k
    let d ← addItem? full false (d.record full) v
    let d ← d.put? full v.entry (← v.contents?)
    addEntries? base (d.noteArray (kindKey full) (v.entry = .array)) es

end

/-- Adds a statement.  `base` is the key of the open table; the one that is open
after the statement is given with the document. -/
def add? (base : Key) (d : Document) : Statement → Option (Key × Document)
  | .header k => do some (k, ((← d.openTable? k).noteArray k false).record k)
  | .listHeader k => do some (k, ((← d.openList? k).noteArray k false).record k)
  | .assign k v => do some (base, ← addEntries? base d [(k, v)])

/-- The document that statements build up. -/
def ofStatements? (ts : List Statement) : Option Document := do
  let (_, d) ← ts.foldlM (fun (base, d) t => add? base d t) (([] : Key), ({} : Document))
  some d

/-- The document that a text holds. -/
def ofText? (text : Bytes) : Option Document := do
  ofStatements? (← statements? text)

end Document

end Abacus.Toml
