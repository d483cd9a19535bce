import Lightboard.Proofs.Assembly.Reloaded
import Lightboard.Proofs.Binary.StoredForm
import Lightboard.Store.Loader

/-!
# Programs that a store gives back

A store keeps programs in their stored form. Those that were loaded from assembly text or from a stored
form survive that: what is decoded has the same name, the same code and the same routines. The only
conditions are that lengths can be written, and that loop tokens of assembly text are not rounded.

The name under which a source is loaded goes to the program, or to an error, and nowhere else.
-/

namespace Lightboard

namespace Program

/-- Two programs with the same code and the same routines. -/
def SameBody (p q : Program) : Prop := p.code = q.code ∧ ∀ n, p.resolve n = q.resolve n

namespace SameBody

variable {p q r : Program}

theorem refl (p : Program) : p.SameBody p := ⟨rfl, fun _ => rfl⟩

theorem symm (same : p.SameBody q) : q.SameBody p := ⟨same.1.symm, fun n => (same.2 n).symm⟩

theorem trans (same : p.SameBody q) (also : q.SameBody r) : p.SameBody r :=
  ⟨same.1.trans also.1, fun n => (same.2 n).trans (also.2 n)⟩

end SameBody

/-- A program that comes back from its stored form. -/
def Survives (p : Program) : Prop :=
  ∃ q, decode .memory p.encode = .ok q ∧ q.name = p.name ∧ q.SameBody p

theorem survives_of_accepted {p : Program} (fits : p.FitsStore) (accepted : p.IsAccepted)
    (unrounded : p.code.map Instruction.rounded = p.code) : p.Survives :=
  ⟨_, decode_encode_of_accepted fits accepted .memory, rfl, unrounded,
    Wire.get?_ofList_sortedRoutines p⟩

end Program

namespace Assembly

/-- The routines of a source begin at one of its entries. -/
theorem readCode_entries {table table' : Table Text Int} {index : Nat}
    {raws : List (List Toml.Datum)} {code : List Instruction}
    (read : readCode table index raws = .ok (code, table')) {n : Text} {entry : Int}
    (there : table'.get? n = some entry) :
    table.get? n = some entry ∨ (index ≤ entry ∧ entry < index + code.length) := by
  induction raws generalizing table index code with
  | nil =>
    cases read
    exact .inl there
  | cons raw raws ih =>
    unfold readCode at read
    split at read
    · cases read
    · split at read
      · cases read
      · next entered =>
        split at read
        · cases read
        · next rest =>
          cases read
          obtain before | ⟨low, high⟩ := ih rest
          · -- the first entry may have named a routine of its own
            unfold enterRoutine at entered
            split at entered
            · split at entered
              · split at entered
                · cases entered
                · cases entered
                  rw [Table.get?_insert] at before
                  split at before
                  · cases before
                    exact .inr ⟨by omega, by simp⟩
                  · exact .inl before
              · cases entered
            · cases entered
              exact .inl before
          · refine .inr ⟨by omega, ?_⟩
            simp only [List.length_cons]
            omega

theorem load_isAccepted {name : Text} {s : Stream} {p : Program}
    (loaded : (load name s).result = .ok p) : p.IsAccepted where
  opCodes i member := (OpCode.mem_named_iff i.op).1 (load_isNamed loaded i member).1
  entries := by
    intro n entry there
    obtain ⟨src, -, -, coded⟩ := load_ok loaded
    obtain absent | ⟨low, high⟩ := readCode_entries coded there
    · cases absent
    · exact ⟨by omega, by omega⟩
  patterns := by
    rintro i member v held rfl
    exact (load_hasNotation loaded i member).2 _ held rfl

end Assembly

namespace Store

variable {ε : Type}

/-- The name given to a source matters for the name of its program and for errors only. -/
def SourceLoader.IgnoresName (next : SourceLoader ε) : Prop :=
  ∀ t a b p, (next a { bytes := t }).1 = .ok p →
    ∃ q, (next b { bytes := t }).1 = .ok q ∧ q.SameBody p

theorem loadSource_ignoresName {src : Assembly.Source} {a b : Text} {p : Program}
    (loaded : (Assembly.loadSource a src).result = .ok p) :
    ∃ q, (Assembly.loadSource b src).result = .ok q ∧ q.SameBody p := by
  simp only [Assembly.loadSource] at loaded ⊢
  split at loaded
  · cases loaded
  · cases loaded
    exact ⟨_, rfl, rfl, fun _ => rfl⟩

theorem loadStored_ignoresName {s : Stream} {a b : Text} {p : Program}
    (loaded : (loadStored a s).result = .ok p) :
    ∃ q, (loadStored b s).result = .ok q ∧ q.SameBody p := by
  unfold loadStored at loaded ⊢
  split at loaded
  · cases loaded
  · cases loaded
    refine ⟨_, rfl, ?_⟩
    split
    · exact ⟨rfl, fun _ => rfl⟩
    · exact .refl _

/-- Both forms ignore the name. -/
theorem ofForm_ignoresName (form : Form) : (SourceLoader.ofForm form).IgnoresName := by
  intro t a b p loaded
  cases form with
  | stored => exact loadStored_ignoresName loaded
  | assembly =>
    simp only [SourceLoader.ofForm, Form.load, Assembly.load] at loaded ⊢
    split at loaded
    · exact loadSource_ignoresName loaded
    · cases loaded

/-- What assembly text gives survives, unless a loop token is rounded. -/
theorem assembly_survives {name : Text} {s : Stream} {p : Program}
    (loaded : (SourceLoader.ofForm .assembly name s).1 = .ok p) (fits : p.FitsStore)
    (small : ∀ i ∈ p.code, ∀ n, .loopVar n ∈ i.operands → n.natAbs ≤ 2 ^ 53) : p.Survives :=
  Program.survives_of_accepted fits (Assembly.load_isAccepted loaded) (Program.rounded_code small)

/-- What a stored form gives survives, also under a name from outside. -/
theorem stored_survives {name : Text} {s : Stream} {p : Program}
    (loaded : (SourceLoader.ofForm .stored name s).1 = .ok p)
    (short : Wire.FitsLength name.length) : p.Survives := by
  simp only [SourceLoader.ofForm, Form.load, loadStored] at loaded
  split at loaded
  · cases loaded
  · next q decoded =>
    obtain ⟨w, i, got, read⟩ := Program.decode_eq_ok decoded
    obtain ⟨fits, accepted, kept⟩ := Wire.toProgram_spec (Wire.Program.read_gives _ _ _ got) read
    cases loaded
    split
    · exact Program.survives_of_accepted ⟨short, fits.code, fits.routines, fits.entries,
        fits.operands⟩ ⟨accepted.opCodes, accepted.entries, accepted.patterns⟩ kept
    · exact Program.survives_of_accepted fits accepted kept

end Store

end Lightboard
