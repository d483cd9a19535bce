import Lightboard.Text.Basic

/-!
# Texts in order

Texts are ordered byte by byte. Sorting puts them in ascending order, and texts that differ from each
other in strictly ascending order.
-/

namespace Lightboard.Text

theorem before_iff (a b : Text) : before a b = true ↔ a < b := by
  simp [before]

theorem atMost_iff (a b : Text) : atMost a b = true ↔ a ≤ b := by
  simp [atMost, before]

theorem atMost_trans (a b c : Text) :
    atMost a b = true → atMost b c = true → atMost a c = true := by
  simp only [atMost_iff]
  exact List.le_trans

theorem atMost_total (a b : Text) : (atMost a b || atMost b a) = true := by
  rw [Bool.or_eq_true, atMost_iff, atMost_iff]
  exact List.le_total a b

theorem lt_of_not_lt_of_ne {a b : Text} (h : ¬ b < a) (ne : a ≠ b) : a < b := by
  obtain lt | same := List.le_iff_lt_or_eq.mp (List.not_lt.mp h)
  · exact lt
  · exact absurd same ne

theorem perm_sorted (ts : List Text) : (sorted ts).Perm ts := List.mergeSort_perm ts atMost

theorem sorted_ascending (ts : List Text) : (sorted ts).Pairwise (· ≤ ·) :=
  (List.pairwise_mergeSort atMost_trans atMost_total ts).imp fun h => (atMost_iff _ _).mp h

/-- Texts that differ from each other are sorted strictly. -/
theorem sorted_strict {ts : List Text} (nodup : ts.Nodup) : (sorted ts).Pairwise (· < ·) := by
  have different : (sorted ts).Pairwise (· ≠ ·) := ((perm_sorted ts).nodup_iff).mpr nodup
  refine ((sorted_ascending ts).and different).imp ?_
  rintro a b ⟨le, ne⟩
  exact lt_of_not_lt_of_ne (List.not_lt.mpr le) ne

end Lightboard.Text
