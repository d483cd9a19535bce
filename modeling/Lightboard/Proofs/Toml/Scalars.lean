import Lightboard.Toml.Document

/-!
# Arrays of scalars

A term without tables is a datum as it stands: building it leaves the document alone but for the
note that a key holds an array. So a document of two keys, a text and an array of rows of scalars,
is built without further ado.
-/

namespace Lightboard.Toml

/-- The scalars that operands are written as. -/
inductive Scalar where
  | text (t : Text)
  | integer (n : Int)
  | float (x : Float)
  | boolean (b : Bool)

namespace Scalar

def term : Scalar → Term
  | .text t => .text t
  | .integer n => .integer n
  | .float x => .float x
  | .boolean b => .boolean b

def datum : Scalar → Datum
  | .text t => .text t
  | .integer n => .integer n
  | .float x => .float x
  | .boolean b => .boolean b

end Scalar

/-- The term of a row of scalars. -/
def rowTerm (row : List Scalar) : Term := .array (row.map Scalar.term)

/-- The datum of a row of scalars. -/
def rowDatum (row : List Scalar) : Datum := .list (row.map Scalar.datum)

namespace Builder

variable {b : Builder} {key : Text}

theorem value_scalar (s : Scalar) (inArray : Bool) :
    b.value key inArray s.term = some (s.datum, b) := by
  cases s <;> rfl

theorem items_scalars (row : List Scalar) :
    b.items' key (row.map Scalar.term) = some (row.map Scalar.datum, b) := by
  induction row with
  | nil => rfl
  | cons s row ih =>
      rw [List.map_cons, items', value_scalar]
      simp only [Option.bind_eq_bind, Option.bind_some, ih]
      rfl

theorem value_row (row : List Scalar) (inArray : Bool) :
    b.value key inArray (rowTerm row) = some (rowDatum row, b.noteKind key true) := by
  rw [rowTerm, value, items_scalars]
  rfl

/-- Building rows changes nothing but the notes on arrays. -/
theorem items_rows (rows : List (List Scalar)) :
    ∃ arrays, b.items' key (rows.map rowTerm) =
      some (rows.map rowDatum, { b with arrays := arrays }) := by
  induction rows generalizing b with
  | nil => exact ⟨b.arrays, rfl⟩
  | cons row rows ih =>
      obtain ⟨arrays, rest⟩ := @ih (b.noteKind key true)
      refine ⟨arrays, ?_⟩
      rw [List.map_cons, items', value_row]
      simp only [Option.bind_eq_bind, Option.bind_some, rest]
      rfl

/-- A new key at the top gets its value. -/
theorem statement_assign {t : Term} {d : Datum} (home : b.context = [])
    (new : Entries.get? key b.root = none)
    (built : ∀ b : Builder, ∃ arrays, b.value key false t = some (d, { b with arrays := arrays })) :
    ∃ arrays, b.statement (.assign [key] t) =
      some { b with root := b.root.put key d, given := [key] :: b.given, arrays := arrays } := by
  obtain ⟨root, implicit, arrays, given, context⟩ := b
  subst home
  obtain ⟨arrays', value⟩ := built ⟨root, implicit, arrays, [key] :: given, []⟩
  simp only [statement, List.getLast?_singleton, List.dropLast_singleton, enterImplicit, note,
    List.nil_append, Option.bind_eq_bind, Option.bind_some, value, setValue, List.isEmpty_nil,
      if_true, new, Entries.within,
    pure]
  exact ⟨_, rfl⟩

end Builder

/-- The document of a name and rows of code. -/
theorem ofStatements_source (name : Text) (rows : List (List Scalar)) :
    Document.ofStatements
    [.assign ["name"] (.text name), .assign ["code"] (.array (rows.map rowTerm))] =
      some ⟨[("name", .text name), ("code", .list (rows.map rowDatum))], [["name"], ["code"]]⟩ := by
  obtain ⟨arrays, first⟩ := @Builder.statement_assign {} "name" (.text name) (.text name) rfl rfl
    fun b => ⟨b.arrays, rfl⟩
  obtain ⟨arrays', second⟩ := @Builder.statement_assign
    { root := [("name", .text name)], given := [["name"]],
      arrays := arrays } "code" (.array (rows.map rowTerm))
    (.list (rows.map rowDatum)) rfl rfl (by
      intro b
      obtain ⟨arrays, rest⟩ := @Builder.items_rows (b.noteKind "code" true) "code" rows
      refine ⟨arrays, ?_⟩
      rw [Builder.value, rest]
      rfl)
  have first' : ({} : Builder).statement (.assign ["name"] (.text name)) =
      some { root := [("name", .text name)], given := [["name"]], arrays := arrays } := first
  unfold Document.ofStatements
  simp only [List.foldlM_cons, List.foldlM_nil, first', second, Option.bind_eq_bind,
    Option.bind_some]
  rfl

end Lightboard.Toml
