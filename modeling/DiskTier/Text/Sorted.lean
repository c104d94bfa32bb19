/-!
# Sorted texts

Texts in ascending order of their code points, each once.
-/

namespace DiskTier.Text

/-- Puts a text at its place among sorted ones, unless it is there already. -/
def insertSorted (s : String) : List String → List String
  | [] => [s]
  | t :: ts => if s < t then s :: t :: ts else if s = t then t :: ts else t :: insertSorted s ts

/-- The distinct texts of a list, in ascending order. -/
def sortedDistinct (texts : List String) : List String := texts.foldr insertSorted []

theorem mem_insertSorted {s t : String} {texts : List String} :
    t ∈ insertSorted s texts ↔ t = s ∨ t ∈ texts := by
  induction texts with
  | nil => simp [insertSorted]
  | cons u us ih =>
    rw [insertSorted]
    split
    · simp
    · split
      · simp_all
      · simp only [List.mem_cons, ih]
        exact or_left_comm

theorem mem_sortedDistinct {t : String} {texts : List String} :
    t ∈ sortedDistinct texts ↔ t ∈ texts := by
  induction texts with
  | nil => simp [sortedDistinct]
  | cons u us ih =>
    have h : sortedDistinct (u :: us) = insertSorted u (sortedDistinct us) := rfl
    rw [h, mem_insertSorted, ih, List.mem_cons]

theorem pairwise_insertSorted {s : String} {texts : List String} (h : texts.Pairwise (· < ·)) :
    (insertSorted s texts).Pairwise (· < ·) := by
  induction texts with
  | nil => exact List.pairwise_singleton _ _
  | cons t ts ih =>
    obtain ⟨ht, hts⟩ := List.pairwise_cons.1 h
    rw [insertSorted]
    split
    · next hlt =>
      refine List.pairwise_cons.2 ⟨?_, h⟩
      intro u hu
      rcases List.mem_cons.1 hu with rfl | hu
      · exact hlt
      · exact String.lt_trans hlt (ht u hu)
    · next hle =>
      split
      · exact h
      · next hne =>
        have hlt : t < s := Decidable.byContradiction fun hge =>
          hne (String.le_antisymm (String.not_lt.1 hge) (String.not_lt.1 hle))
        refine List.pairwise_cons.2 ⟨?_, ih hts⟩
        intro u hu
        rcases mem_insertSorted.1 hu with rfl | hu
        · exact hlt
        · exact ht u hu

/-- Each text comes once, and in its order. -/
theorem pairwise_sortedDistinct (texts : List String) :
    (sortedDistinct texts).Pairwise (· < ·) := by
  induction texts with
  | nil => exact List.Pairwise.nil
  | cons t ts ih => exact pairwise_insertSorted ih

end DiskTier.Text
