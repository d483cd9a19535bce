import Lightboard.Code.Value
import Lightboard.Proofs.Code.PatternTexts
import Lightboard.Proofs.Text.Digits

/-!
# What prints alike

A tag is found again from how it prints, also if its code has no name: the labels of a kind of tag are
different words without brackets, and a code without a name prints as a number in brackets. So are
tokens and patterns. Together with the name of its kind, which tells the kinds apart, the printed form
of a reference or a tag tells which one it is (`Value.eq_of_described`).
-/

namespace Lightboard

namespace Text

theorem ofNat_injective {m n : Nat} (same : ofNat m = ofNat n) : m = n := by
  rw [← value_ofNat m, same, value_ofNat]

theorem minus_not_mem_ofNat (n : Nat) : ascii '-' ∉ ofNat n :=
  fun sign => absurd (isDigit_of_mem_ofNat n _ sign) (by decide)

theorem ofInt_injective {m n : Int} (same : ofInt m = ofInt n) : m = n := by
  have sign {k : Nat} {rest : Text} (h : ascii '-' :: rest = ofNat k) : False :=
    minus_not_mem_ofNat k (h ▸ List.mem_cons_self)
  unfold ofInt at same
  split at same
  · split at same
    · have := ofNat_injective (List.cons.inj same).2
      omega
    · exact (sign same).elim
  · split at same
    · exact (sign same.symm).elim
    · have := ofNat_injective same
      omega

end Text

theorem unnamedCode_injective {kind : String} {m n : Nat}
    (same : unnamedCode kind m = unnamedCode kind n) : m = n := by
  unfold unnamedCode at same
  rw [List.append_cancel_right_eq, List.append_cancel_left_eq] at same
  exact Text.ofNat_injective (List.cons.inj same).2

theorem bracket_mem_unnamedCode (kind : String) (n : Nat) : ascii '(' ∈ unnamedCode kind n := by
  simp [unnamedCode]

/-- The words of each kind of tag that prints with the name of its kind. -/
def vocabularies : List (List Text) :=
  [Register.named.map Register.label, Operator.named.map Operator.label,
   JumpCondition.named.map JumpCondition.label, IoOp.named.map IoOp.label,
   SetOp.named.map SetOp.label]

theorem vocabularies_distinct :
    ∀ words ∈ vocabularies, words.Nodup ∧ ∀ word ∈ words, ascii '(' ∉ word := by
  decide +kernel

/-- A kind of tag, with different words for the named ones and numbers in brackets for the others. -/
theorem label_injective {α : Type} {named : List α} {size : Nat} {unnamed : Fin size → α}
    {label : α → Text} {kind : String} (words : named.map label ∈ vocabularies)
    (printed : ∀ past, label (unnamed past) = unnamedCode kind (named.length + past))
    (total : ∀ x, x ∈ named ∨ ∃ past, x = unnamed past) {x y : α} (same : label x = label y) :
    x = y := by
  obtain ⟨distinct, plain⟩ := vocabularies_distinct _ words
  have plain {x : α} (nx : x ∈ named) : ascii '(' ∉ label x := plain _ (List.mem_map_of_mem nx)
  have bracketed (past : Fin size) : ascii '(' ∈ label (unnamed past) :=
    printed past ▸ bracket_mem_unnamedCode _ _
  obtain nx | ⟨px, rfl⟩ := total x <;> obtain ny | ⟨py, rfl⟩ := total y
  · exact List.inj_on_of_nodup_map distinct nx ny same
  · exact absurd (same ▸ bracketed py) (plain nx)
  · exact absurd (same ▸ bracketed px) (plain ny)
  · rw [printed, printed] at same
    have := unnamedCode_injective same
    rw [Fin.ext (by omega : px.val = py.val)]

theorem Register.label_injective {r s : Register} (same : r.label = s.label) : r = s := by
  refine @Lightboard.label_injective _ named _ unnamed _ _ (by simp [vocabularies])
    (fun _ => rfl) (fun x => ?_) _ _ same
  cases x with
  | unnamed past => exact .inr ⟨past, rfl⟩
  | _ => exact .inl (by decide)

theorem Operator.label_injective {o p : Operator} (same : o.label = p.label) : o = p := by
  refine @Lightboard.label_injective _ named _ unnamed _ _ (by simp [vocabularies])
    (fun _ => rfl) (fun x => ?_) _ _ same
  cases x with
  | unnamed past => exact .inr ⟨past, rfl⟩
  | _ => exact .inl (by decide)

theorem JumpCondition.label_injective {c d : JumpCondition} (same : c.label = d.label) : c = d := by
  refine @Lightboard.label_injective _ named _ unnamed _ _ (by simp [vocabularies])
    (fun _ => rfl) (fun x => ?_) _ _ same
  cases x with
  | unnamed past => exact .inr ⟨past, rfl⟩
  | _ => exact .inl (by decide)

theorem IoOp.label_injective {o p : IoOp} (same : o.label = p.label) : o = p := by
  refine @Lightboard.label_injective _ named _ unnamed _ _ (by simp [vocabularies])
    (fun _ => rfl) (fun x => ?_) _ _ same
  cases x with
  | unnamed past => exact .inr ⟨past, rfl⟩
  | _ => exact .inl (by decide)

theorem SetOp.label_injective {o p : SetOp} (same : o.label = p.label) : o = p := by
  refine @Lightboard.label_injective _ named _ unnamed _ _ (by simp [vocabularies])
    (fun _ => rfl) (fun x => ?_) _ _ same
  cases x with
  | unnamed past => exact .inr ⟨past, rfl⟩
  | _ => exact .inl (by decide)

/-- A pattern with alternatives is read back from its text, and the one without has the empty text,
which does not read as a pattern. -/
theorem TimePattern.text_injective {p q : TimePattern} (same : p.text = q.text) : p = q := by
  have blank : ∀ r, TimePattern.read TimePattern.empty.text ≠ .ok r := nofun
  by_cases none : p = empty
  · by_cases none' : q = empty
    · rw [none, none']
    · exact absurd ((congrArg TimePattern.read (none ▸ same)).trans (read_text none')) (blank q)
  · by_cases none' : q = empty
    · exact absurd ((congrArg TimePattern.read (none' ▸ same.symm)).trans (read_text none)) (blank p)
    · have read := read_text none
      rw [same, read_text none'] at read
      exact (Except.ok.inj read).symm

namespace Value

/-- The names of the kinds, in the order of the kinds. -/
def kinds : List Text :=
  ["Number", "StrValue", "BoolValue", "NoneValue", "UnitModeValue", "OperandValue", "RegisterRef",
   "Symbol", "LoopVar", "OperatorValue", "JumpConditionValue", "IoOpValue", "SetOpValue",
   "TimePattern"]

theorem kinds_ctorIdx (v : Value) : kinds[v.ctorIdx]? = some v.kind := by
  cases v <;> rfl

theorem kinds_distinct : kinds.Nodup ∧ ∀ k ∈ kinds, ascii ':' ∉ k := by
  decide +kernel

theorem colon_not_mem_kind (v : Value) : ascii ':' ∉ v.kind :=
  kinds_distinct.2 _ (List.mem_of_getElem? v.kinds_ctorIdx)

/-- The name of its kind tells what kind a value is of. -/
theorem ctorIdx_of_kind {a b : Value} (same : a.kind = b.kind) : a.ctorIdx = b.ctorIdx := by
  obtain ⟨within, -⟩ := List.getElem?_eq_some_iff.mp a.kinds_ctorIdx
  refine (List.getElem?_inj within kinds_distinct.1).mp ?_
  rw [a.kinds_ctorIdx, b.kinds_ctorIdx, same]

/-- The printed form is cut at its first colon, as no kind has one in its name. -/
theorem described_eq_iff {a b : Value} :
    a.described = b.described ↔ a.kind = b.kind ∧ a.text = b.text := by
  have shape (v : Value) : v.described = ("vm." : Text) ++ (v.kind ++ ascii ':' :: v.text) := by
    simp only [described, Text.concat, List.flatten_cons, List.flatten_nil, List.append_nil]
    rfl
  rw [shape, shape, List.append_cancel_left_eq]
  constructor
  · intro same
    have pieces := congrArg (Text.splitOn (ascii ':')) same
    rw [Text.splitOn_append a.colon_not_mem_kind, Text.splitOn_append b.colon_not_mem_kind] at pieces
    have kind := (List.cons.inj pieces).1
    rw [kind, List.append_cancel_left_eq] at same
    exact ⟨kind, (List.cons.inj same).2⟩
  · rintro ⟨kind, text⟩
    rw [kind, text]

/-- The kinds of values that are compared as they print. -/
def IsPrinted : Value → Prop
  | .register _ | .symbol _ | .loopVar _ | .operator _ | .jump _ | .io _ | .setOp _ => True
  | _ => False

theorem eq_of_described {a b : Value} (printed : a.IsPrinted) (same : a.described = b.described) :
    a = b := by
  obtain ⟨kind, text⟩ := described_eq_iff.mp same
  have kind := ctorIdx_of_kind kind
  cases a with
  | register r =>
      cases b with
      | register s => rw [Register.label_injective (List.cons.inj text).2]
      | _ => cases kind
  | symbol n =>
      cases b with
      | symbol m => rw [(List.cons.inj text).2]
      | _ => cases kind
  | loopVar n =>
      cases b with
      | loopVar m => rw [Text.ofInt_injective (List.cons.inj text).2]
      | _ => cases kind
  | operator o =>
      cases b with
      | operator p => rw [Operator.label_injective (List.cons.inj text).2]
      | _ => cases kind
  | jump c =>
      cases b with
      | jump d => rw [JumpCondition.label_injective (List.cons.inj text).2]
      | _ => cases kind
  | io o =>
      cases b with
      | io p => rw [IoOp.label_injective (List.cons.inj text).2]
      | _ => cases kind
  | setOp o =>
      cases b with
      | setOp p => rw [SetOp.label_injective (List.cons.inj text).2]
      | _ => cases kind
  | _ => exact printed.elim

end Value

end Lightboard
