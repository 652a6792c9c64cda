/-! Writing a run of entries into an array in place.
The view of a splice as lists: what stood before the run, the run, what stood
after it. -/

namespace ArrayStore

/-- Overwrites the entries from `start` on, as far as the array reaches. -/
def splice {α : Type} (entries : Array α) (start : Nat) : List α → Array α
  | [] => entries
  | x :: run => splice (entries.setIfInBounds start x) (start + 1) run

@[simp] theorem size_splice {α : Type} (entries : Array α) (start : Nat) (run : List α) :
    (splice entries start run).size = entries.size := by
  induction run generalizing entries start with
  | nil => rfl
  | cons x run ih => simp [splice, ih]

theorem getElem?_splice {α : Type} (entries : Array α) (start : Nat) (run : List α) (i : Nat) :
    (splice entries start run)[i]? =
      if start ≤ i ∧ i < start + run.length ∧ i < entries.size then run[i - start]?
      else entries[i]? := by
  induction run generalizing entries start with
  | nil =>
    rw [splice, if_neg (by simp only [List.length_nil]; omega)]
  | cons x run ih =>
    rw [splice, ih]
    simp only [Array.size_setIfInBounds, List.length_cons, Array.getElem?_setIfInBounds]
    by_cases hi : start = i
    · subst hi
      have h : ¬(start + 1 ≤ start ∧ start < start + 1 + run.length ∧ start < entries.size) := by
        omega
      rw [if_neg h, if_pos rfl]
      by_cases hs : start < entries.size <;> simp [hs]
    · by_cases h : start + 1 ≤ i ∧ i < start + 1 + run.length ∧ i < entries.size
      · have h' : start ≤ i ∧ i < start + (run.length + 1) ∧ i < entries.size := by omega
        rw [if_pos h, if_pos h', show i - start = i - (start + 1) + 1 by omega]
        simp
      · have h' : ¬(start ≤ i ∧ i < start + (run.length + 1) ∧ i < entries.size) := by omega
        rw [if_neg h, if_neg h', if_neg hi]

theorem toList_splice {α : Type} (entries : Array α) (start : Nat) (run : List α)
    (h : start + run.length ≤ entries.size) :
    (splice entries start run).toList =
      entries.toList.take start ++ run ++ entries.toList.drop (start + run.length) := by
  apply List.ext_getElem?
  intro i
  rw [Array.getElem?_toList, getElem?_splice]
  by_cases h1 : i < start
  · have : ¬(start ≤ i ∧ i < start + run.length ∧ i < entries.size) := by omega
    rw [if_neg this, List.append_assoc, List.getElem?_append_left (by simp; omega)]
    simp [h1]
  · by_cases h2 : i < start + run.length
    · rw [if_pos ⟨by omega, h2, by omega⟩, List.append_assoc,
        List.getElem?_append_right (by simp; omega), List.getElem?_append_left (by simp; omega)]
      congr 1
      simp
      omega
    · have : ¬(start ≤ i ∧ i < start + run.length ∧ i < entries.size) := by omega
      rw [if_neg this, List.getElem?_append_right (by simp; omega), List.getElem?_drop]
      simp only [Array.getElem?_toList]
      congr 1
      simp
      omega

theorem splice_append {α : Type} (entries : Array α) (start : Nat) (xs ys : List α) :
    splice entries start (xs ++ ys) = splice (splice entries start xs) (start + xs.length) ys := by
  induction xs generalizing entries start with
  | nil => rfl
  | cons x xs ih =>
    simp only [List.cons_append, splice, List.length_cons, ih]
    rw [Nat.add_assoc, Nat.add_comm 1]

end ArrayStore
