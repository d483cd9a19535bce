import Lightboard.Proofs.Code.PatternTexts

/-!
# Unions of time patterns

Every pattern is made of a list of alternatives, of which only the first of equal ones is kept
(`TimePattern.ofList`), and a union is made of the two lists one after the other (`union_ofList`). So
the laws of unions are laws of lists. Text works alike: the pieces of two texts with a bar between them
are the pieces of the one and then those of the other.
-/

namespace Lightboard

/-- A separator between two texts cuts there, whatever else it cuts. -/
theorem Text.splitOn_append_cons (sep : UInt8) (s t : Text) :
    splitOn sep (s ++ sep :: t) = splitOn sep s ++ splitOn sep t := by
  induction s with
  | nil => simp [splitOn]
  | cons b s ih =>
      rw [List.cons_append, splitOn, splitOn, ih]
      split
      · rfl
      · cases pieces : splitOn sep s with
        | nil => exact absurd pieces (splitOn_ne_nil sep s)
        | cons piece rest => rfl

section

variable {α : Type} [BEq α] [LawfulBEq α]

theorem eraseDups_of_nodup {xs : List α} (nodup : xs.Nodup) : xs.eraseDups = xs := by
  induction xs using List.reverseRecOn with
  | nil => rfl
  | append_singleton xs x ih =>
      obtain ⟨nodup, -, apart⟩ := List.nodup_append.mp nodup
      have new : x ∉ xs := fun old => apart x old x List.mem_cons_self rfl
      rw [TimePattern.eraseDups_concat, ih nodup, if_neg new]

/-- What is repeated is left out once and for all. -/
theorem eraseDups_append_eraseDups (xs ys : List α) :
    (xs ++ ys.eraseDups).eraseDups = (xs ++ ys).eraseDups := by
  induction ys using List.reverseRecOn with
  | nil => rfl
  | append_singleton ys y ih =>
      rw [TimePattern.eraseDups_concat, ← List.append_assoc, ← List.append_assoc,
        TimePattern.eraseDups_concat (xs ++ ys)]
      by_cases old : y ∈ ys
      · rw [if_pos old, if_pos (List.mem_append_right xs old), List.append_nil, List.append_nil, ih]
      · have seen : y ∈ xs ++ ys.eraseDups ↔ y ∈ xs ++ ys := by
          rw [List.mem_append, List.mem_append, List.mem_eraseDups]
        rw [if_neg old, TimePattern.eraseDups_concat, ih]
        simp only [seen]

end

namespace TimePattern

/-- The pattern with these alternatives, each at the place where it comes first. -/
def ofList (as : List Alternative) : TimePattern := as.foldl add empty

theorem alternatives_ofList (as : List Alternative) : (ofList as).alternatives = as.eraseDups :=
  @foldl_add_alternatives empty [] rfl as

theorem ofList_alternatives (p : TimePattern) : ofList p.alternatives = p :=
  ext_alternatives (by rw [alternatives_ofList, eraseDups_of_nodup p.nodup])

theorem union_ofList (as bs : List Alternative) :
    (ofList as).union (ofList bs) = ofList (as ++ bs) := by
  apply ext_alternatives
  rw [union, alternatives_ofList, foldl_add_alternatives (alternatives_ofList as),
    eraseDups_append_eraseDups, alternatives_ofList]

/-- The alternatives of a union are those of the first pattern, then the new ones of the second. -/
theorem union_eq (p q : TimePattern) : p.union q = ofList (p.alternatives ++ q.alternatives) := by
  rw [← union_ofList, ofList_alternatives, ofList_alternatives]

theorem mem_union {p q : TimePattern} {a : Alternative} :
    a ∈ (p.union q).alternatives ↔ a ∈ p.alternatives ∨ a ∈ q.alternatives := by
  rw [union_eq, alternatives_ofList, List.mem_eraseDups, List.mem_append]

/-- A union matches when one of the patterns does. -/
theorem fits_union (p q : TimePattern) (hour minute : Int) :
    (p.union q).fits hour minute = (p.fits hour minute || q.fits hour minute) := by
  rw [Bool.eq_iff_iff, Bool.or_eq_true]
  simp only [fits, List.any_eq_true, mem_union, or_and_right, exists_or]

theorem union_assoc (p q r : TimePattern) : (p.union q).union r = p.union (q.union r) := by
  rw [← ofList_alternatives p, ← ofList_alternatives q, ← ofList_alternatives r]
  simp only [union_ofList, List.append_assoc]

theorem union_self (p : TimePattern) : p.union p = p := by
  have old : p.alternatives.removeAll p.alternatives = [] := by
    simp [List.removeAll, List.filter_eq_nil_iff]
  apply ext_alternatives
  rw [union_eq, alternatives_ofList, List.eraseDups_append, eraseDups_of_nodup p.nodup, old,
    List.eraseDups_nil, List.append_nil]

/-- The order of two patterns matters for the order of the alternatives only. -/
theorem union_comm (p q : TimePattern) : (p.union q).alternatives.Perm (q.union p).alternatives := by
  rw [List.perm_ext_iff_of_nodup (p.union q).nodup (q.union p).nodup]
  intro a
  rw [mem_union, mem_union, or_comm]

theorem empty_union (p : TimePattern) : empty.union p = p := by
  rw [union_eq]
  exact p.ofList_alternatives

theorem union_empty (p : TimePattern) : p.union empty = p := rfl

theorem read_eq_ok_iff (t : Text) (p : TimePattern) : read t = .ok p ↔ ∃ as : List Alternative,
    as.map Alternative.text =
      (Text.splitOn (ascii '|') t).map (fun piece => Alternative.pad piece.trim) ∧ p = ofList as :=
  foldlM_readPiece_eq_ok_iff _ empty p

/-- A bar between two texts is a union of what they read as. -/
theorem read_append_bar (s t : Text) (r : TimePattern) : read (s ++ ascii '|' :: t) = .ok r ↔
    ∃ p q, read s = .ok p ∧ read t = .ok q ∧ r = p.union q := by
  simp only [read_eq_ok_iff, Text.splitOn_append_cons, List.map_append, List.map_eq_append_iff]
  constructor
  · rintro ⟨_, ⟨as, bs, rfl, left, right⟩, rfl⟩
    exact ⟨_, _, ⟨as, left, rfl⟩, ⟨bs, right, rfl⟩, (union_ofList as bs).symm⟩
  · rintro ⟨_, _, ⟨as, left, rfl⟩, ⟨bs, right, rfl⟩, rfl⟩
    exact ⟨_, ⟨as, bs, rfl, left, right⟩, union_ofList as bs⟩

end TimePattern

end Lightboard
