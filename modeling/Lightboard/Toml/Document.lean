import Lightboard.Toml.Reader

/-!
# Documents

The statements of a text build one table. A path can be defined once, except that

* a table that came into being only as the parent of another path may still be defined, and
* a path that holds an array takes a new value.

`Document.keys` lists the paths in the order they appear, so that a reader of documents can tell which
of them it made no use of.
-/

namespace Lightboard.Toml

/-- A value of a document. -/
inductive Datum where
  | text (t : Text)
  | integer (n : Int)
  | float (x : Float)
  | boolean (b : Bool)
  | moment (m : Moment)
  | list (items : List Datum)
  | table (entries : List (Text × Datum))
  /-- An array of tables, one for each header. -/
  | tables (items : List (List (Text × Datum)))

instance : Inhabited Datum := ⟨.boolean false⟩

/-- The entries of a table. -/
abbrev Entries := List (Text × Datum)

namespace Entries

def get? (k : Text) : Entries → Option Datum
  | [] => none
  | (k', v) :: rest => if k' = k then some v else get? k rest

def put (k : Text) (v : Datum) : Entries → Entries
  | [] => [(k, v)]
  | (k', v') :: rest => if k' = k then (k', v) :: rest else (k', v') :: put k v rest

/-- Changes the table a path leads to. An array of tables is entered at its last element. -/
def within (f : Entries → Option Entries) : Path → Entries → Option Entries
  | [], es => f es
  | k :: path, es =>
    match get? k es with
    | some (.table sub) => (within f path sub).map fun sub' => put k (.table sub') es
    | some (.tables items) => do
      let last ← items.getLast?
      let last' ← within f path last
      return put k (.tables (items.dropLast ++ [last'])) es
    | _ => none

/-- What a path leads to, an array of tables again entered at its last element. -/
def find? : Path → Entries → Option Datum
  | [], es => some (.table es)
  | [k], es => get? k es
  | k :: path, es =>
    match get? k es with
    | some (.table sub) => find? path sub
    | some (.tables items) => do
      let last ← items.getLast?
      find? path last
    | _ => none

/-- Puts a value at a dotted key, making the tables on the way. -/
def putAt (v : Datum) : Path → Entries → Option Entries
  | [], _ => none
  | [k], es => some (put k v es)
  | k :: path, es =>
    match get? k es with
    | none => (putAt v path []).map fun sub => put k (.table sub) es
    | some (.table sub) => (putAt v path sub).map fun sub' => put k (.table sub') es
    | _ => none

end Entries

/-- A document on the way. -/
structure Builder where
  root : Entries := []
  /-- Tables that came into being as parents only. -/
  implicit : List Path := []
  /-- Paths that hold an array. -/
  arrays : List Path := []
  /-- The paths given, the last first. -/
  given : List Path := []
  /-- The table that keys are added to. -/
  context : Path := []

namespace Builder

def markImplicit (b : Builder) (p : Path) : Builder := { b with implicit := p :: b.implicit }

def unmarkImplicit (b : Builder) (p : Path) : Builder :=
  { b with implicit := b.implicit.filter (· != p) }

/-- Notes whether a key of the current table holds an array. An empty key stands for the table. -/
def noteKind (b : Builder) (key : Text) (isArray : Bool) : Builder :=
  let path := if key.isEmpty then b.context else b.context ++ [key]
  let path := if path.isEmpty then [[]] else path
  let others := b.arrays.filter (· != path)
  { b with arrays := if isArray then path :: others else others }

/-- Gives a key of the current table its value. -/
def setValue (b : Builder) (key : Text) (v : Datum) : Option Builder := do
  let path := b.context ++ [key]
  let table ← if b.context.isEmpty then some (.table b.root) else b.root.find? b.context
  let entries : Entries ←
    match table with
    | .table es => some es
    | .tables items => items.getLast?
    | _ => none
  match Entries.get? key entries with
  | none => return { b with root := ← b.root.within (fun es => some (es.put key v)) b.context }
  | some _ =>
    if b.arrays.contains path then
      let b := b.unmarkImplicit path
      return { b with root := ← b.root.within (fun es => some (es.put key v)) b.context }
    else if b.implicit.contains path then return b.unmarkImplicit path
    else none

/-- Makes the tables on the way to a path that are not there yet, after those of `done`. -/
def openParents (b : Builder) (done : Path) : Path → Option Builder
  | [] => some b
  | k :: rest => do
    let path := done ++ [k]
    let b ←
      match b.root.find? path with
      | none => do
        let b := b.markImplicit path
        pure { b with root := ← b.root.within (fun es => some (es.put k (.table []))) done }
      | some (.table _) => pure b
      | some (.tables _) => pure b
      | some _ => none
    openParents b path rest

/-- Makes a path the table that keys are added to: a new element of an array of tables, or a table. -/
def enter (b : Builder) (key : Path) (isElement : Bool) : Option Builder := do
  let last ← key.getLast?
  let parents := key.dropLast
  let b ← b.openParents [] parents
  let b := { b with context := parents }
  let b ←
    if isElement then do
      let root ← b.root.within (fun es =>
        match es.get? last with
        | none => some (es.put last (.tables [[]]))
        | some (.tables items) => some (es.put last (.tables (items ++ [[]])))
        | some _ => none) parents
      pure { b with root := root }
    else b.setValue last (.table [])
  return { b with context := key }

/-- Enters the tables a dotted key leads through, each of which may be defined before or after. -/
def enterImplicit (b : Builder) : Path → Option Builder
  | [] => some b
  | k :: rest => do
    let path := b.context ++ [k]
    let b ← (b.markImplicit path).enter path false
    b.enterImplicit rest

def note (b : Builder) (p : Path) : Builder := { b with given := p :: b.given }

mutual

/-- Builds a value under a key of the current table. Tables on one line count as tables of that key,
or as elements of its array if they stand in one. -/
def value (b : Builder) (key : Text) (inArray : Bool) : Term → Option (Datum × Builder)
  | .text t => some (.text t, b)
  | .integer n => some (.integer n, b)
  | .float x => some (.float x, b)
  | .boolean v => some (.boolean v, b)
  | .moment m => some (.moment m, b)
  | .array items => do
    let (ds, b) ← items' (b.noteKind key true) key items
    return (.list ds, b)
  | .table ps => do
    let outer := b.context
    let path := outer ++ [key]
    let b ← (b.markImplicit path).enter path inArray
    let (es, b) ← pairs b path [] ps
    return (.table es, { b with context := outer })

/-- Builds the items of an array. -/
def items' (b : Builder) (key : Text) : List Term → Option (List Datum × Builder)
  | [] => some ([], b)
  | t :: ts => do
    let (d, b) ← value b key true t
    let (ds, b) ← items' b key ts
    return (d :: ds, b)

/-- Builds the pairs of a table on one line, whose entries so far are `es`. -/
def pairs (b : Builder) (home : Path) (es : Entries) :
    List (Path × Term) → Option (Entries × Builder)
  | [] => some (es, b)
  | (key, t) :: ps => do
    let last ← key.getLast?
    let b ← { b with context := home }.enterImplicit key.dropLast
    let b := b.note (b.context ++ [last])
    let (d, b) ← value b last false t
    let b ← b.setValue last d
    let b := b.noteKind last (t matches .array _)
    let es ← es.putAt d key
    pairs { b with context := home } home es ps

end

/-- Builds one statement. -/
def statement (b : Builder) : Statement → Option Builder
  | .header key => do
    let b ← b.enter key false
    return (b.noteKind [] false).note key
  | .element key => do
    let b ← b.enter key true
    return (b.noteKind [] false).note key
  | .assign key t => do
    let home := b.context
    let last ← key.getLast?
    let b ← b.enterImplicit key.dropLast
    let b := b.note (b.context ++ [last])
    let (d, b) ← b.value last false t
    let b ← b.setValue last d
    let b := b.noteKind last (t matches .array _)
    return { b with context := home }

end Builder

/-- A table, with the paths that were given in the order they were given. -/
structure Document where
  root : Entries
  keys : List Path

/-- The document of a list of statements; nothing if they contradict each other. -/
def Document.ofStatements (ss : List Statement) : Option Document := do
  let b ← ss.foldlM Builder.statement {}
  return ⟨b.root, b.given.reverse⟩

/-- The document of a text. -/
def Document.read (t : Text) : Option Document := do
  let ss ← parse t
  Document.ofStatements ss

mutual

/-- A value as it stands in a message. -/
def Datum.shown : Datum → Text
  | .text t => t
  | .integer n => Text.ofInt n
  | .float x => Number.brief x
  | .boolean true => "true"
  | .boolean false => "false"
  | .moment m => m.text
  | .list items => Text.concat ["[", Text.join [ascii ' '] (shownItems items), "]"]
  | .table es => shownTable (shownEntries es)
  | .tables items => Text.concat ["[", Text.join [ascii ' '] (shownTables items), "]"]

def shownItems : List Datum → List Text
  | [] => []
  | d :: ds => d.shown :: shownItems ds

def shownEntries : List (Text × Datum) → List (Text × Text)
  | [] => []
  | (k, d) :: es => (k, d.shown) :: shownEntries es

def shownTables : List (List (Text × Datum)) → List Text
  | [] => []
  | es :: rest => shownTable (shownEntries es) :: shownTables rest

/-- A table whose values are already texts, in the order of its keys. -/
def shownTable (es : List (Text × Text)) : Text :=
  let sorted := es.mergeSort fun a b => Text.atMost a.1 b.1
  Text.concat
    ["map[", Text.join [ascii ' '] (sorted.map fun (k, v) => Text.concat [k, ":", v]), "]"]

end

/-- The name of the kind of a value, as it stands in a message. -/
def Datum.kind : Datum → Text
  | .text _ => "string"
  | .integer _ => "int64"
  | .float _ => "float64"
  | .boolean _ => "bool"
  | .moment _ => "time.Time"
  | .list _ => "[]interface \x7b\x7d"
  | .table _ => "map[string]interface \x7b\x7d"
  | .tables _ => "[]map[string]interface \x7b\x7d"

end Lightboard.Toml
