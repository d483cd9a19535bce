import Lightboard.Toml.Document

/-!
# Records from tables

A table gives a record its fields. An entry belongs to the field that its key names, letter case
aside. Every such entry is read over what the field holds so far, so two entries of one field can
complete each other, and each of them has to be of the right kind.

Reading tells which paths of the document it made use of.
-/

namespace Lightboard.Toml

/-- Reads a value that stands at a path over what was there before: what is there now, and the paths
used inside the value. There is no answer to a value of the wrong kind. -/
abbrev Update (σ : Type) := σ → Path → Datum → Option (σ × List Path)

/-- A field of a record. -/
structure Field (σ : Type) where
  name : Text
  update : Update σ

/-- The field that a key names. -/
def fieldOf? {σ : Type} (fields : List (Field σ)) (key : Text) : Option (Field σ) :=
  fields.find? fun f => key.foldsTo f.name

/-- Reads the entries of the table at a path over a record, one after the other. -/
def Entries.readOver {σ : Type} (fields : List (Field σ)) (path : Path) (s : σ) :
    Entries → Option (σ × List Path)
  | [] => some (s, [])
  | (key, d) :: rest =>
    match fieldOf? fields key with
    | none => Entries.readOver fields path s rest
    | some f => do
      let here := path ++ [key]
      let (s, inside) ← f.update s here d
      let (s, later) ← Entries.readOver fields path s rest
      return (s, here :: inside ++ later)

/-- The tables of an array that holds nothing else. -/
def Datum.tables? : Datum → Option (List Entries)
  | .tables ts => some ts
  | .list ds =>
    ds.mapM fun
      | .table t => some t
      | _ => none
  | _ => none

/-- Reads tables over records, each over the one in its place; where there is none, over `first`. -/
def readRecords {σ : Type} (first : σ) (fields : List (Field σ)) (path : Path) :
    List Entries → List σ → Option (List σ × List Path)
  | [], _ => some ([], [])
  | es :: rest, before => do
    let (s, inside) ← es.readOver fields path (before.headD first)
    let (ss, later) ← readRecords first fields path rest before.tail
    return (s :: ss, inside ++ later)

namespace Update

/-- A text. -/
def text {σ : Type} (set : σ → Text → σ) : Update σ
  | s, _, .text t => some (set s t, [])
  | _, _, _ => none

/-- An integer. -/
def integer {σ : Type} (set : σ → Int → σ) : Update σ
  | s, _, .integer n => some (set s n, [])
  | _, _, _ => none

/-- A truth value. -/
def boolean {σ : Type} (set : σ → Bool → σ) : Update σ
  | s, _, .boolean b => some (set s b, [])
  | _, _, _ => none

/-- A table, which gives fields of the same record. -/
def table {σ : Type} (fields : List (Field σ)) : Update σ
  | s, path, .table es => Entries.readOver fields path s es
  | _, _, _ => none

/-- An array of tables. Records that are there already are read over if there are enough of them. -/
def records {σ : Type} (first : σ) (fields : List (Field σ)) : Update (List σ) :=
  fun before path d => do
    let ts ← d.tables?
    readRecords first fields path ts (if before.length < ts.length then [] else before)

/-- Reads a part of a record. -/
def inside {σ α : Type} (get : σ → α) (set : σ → α → σ) (u : Update α) : Update σ :=
  fun s path d => (u (get s) path d).map fun (a, used) => (set s a, used)

end Update

/-- Reads a document over a record: the record, and the paths given that have no meaning in it. -/
def Document.readOver {σ : Type} (fields : List (Field σ)) (first : σ) (doc : Document) :
    Option (σ × List Path) :=
  (doc.root.readOver fields [] first).map fun (s, used) =>
    (s, doc.keys.filter fun path => !used.contains path)

end Lightboard.Toml
