/-
Records numbered per key: appended to one list, each under a key, the n-th
record of a key having the number n. Such a list is what appending "the
largest number of the key, plus one" builds, and it can be counted, searched
for its largest number, and read by number, with the same answer.
-/
import Mathlib.Data.List.Basic
import Mathlib.Data.List.Induction
import Mathlib.Data.List.Pairwise

namespace Numbering

variable {α κ : Type} {num : α → Int} {l : List α} {a : α}

/-! ## One key -/

/-- The records have the numbers 1, 2, ... in list order. -/
def Numbered (num : α → Int) (l : List α) : Prop := ∀ i (h : i < l.length), num l[i] = i + 1

theorem numbered_nil : Numbered num [] := by
  intro i h
  cases h

/-- What holds of each record and its place holds after appending one. -/
theorem forall_append {P : α → Nat → Prop} (h : ∀ i (hi : i < l.length), P l[i] i) (ha : P a l.length) :
    ∀ i (hi : i < (l ++ [a]).length), P (l ++ [a])[i] i := by
  intro i hi
  by_cases hl : i < l.length
  · rw [List.getElem_append_left hl]
    exact h i hl
  · have hil : i = l.length := by
      simp only [List.length_append, List.length_cons, List.length_nil] at hi
      omega
    subst hil
    simpa using ha

theorem Numbered.append (h : Numbered num l) (ha : num a = l.length + 1) : Numbered num (l ++ [a]) :=
  forall_append (P := fun a i => num a = i + 1) h ha

theorem Numbered.of_append {l' : List α} (h : Numbered num (l ++ l')) : Numbered num l := by
  intro i hi
  have := h i (by simp only [List.length_append]; omega)
  rwa [List.getElem_append_left hi] at this

/-- The search for the largest number. -/
def maxNum (num : α → Int) (l : List α) : Int := l.foldl (fun m a => if m < num a then num a else m) 0

theorem Numbered.maxNum_eq (h : Numbered num l) : maxNum num l = l.length := by
  induction l using List.reverseRecOn with
  | nil => rfl
  | append_singleton l a ih =>
    have ha := h l.length (by simp)
    rw [List.getElem_append_right (Nat.le_refl _)] at ha
    simp only [Nat.sub_self, List.getElem_cons_zero] at ha
    have ihl : maxNum num l = l.length := ih h.of_append
    simp only [maxNum, List.foldl_append, List.foldl_cons, List.foldl_nil] at ihl ⊢
    rw [ihl, if_pos (by omega), ha]
    simp

/-- Reading by number gives the record with that place in the list. -/
theorem Numbered.find?_eq (h : Numbered num l) (k : Int) :
    l.find? (fun a => num a == k) = if 1 ≤ k then l[(k - 1).toNat]? else none := by
  split
  · rename_i hk
    by_cases hlt : (k - 1).toNat < l.length
    · have hnum := h _ hlt
      rw [List.getElem?_eq_getElem hlt, List.find?_eq_some_iff_getElem]
      refine ⟨by simp only [hnum, beq_iff_eq]; omega, _, hlt, rfl, fun j hj => ?_⟩
      have := h j (by omega)
      simp only [this, Bool.not_eq_true', beq_eq_false_iff_ne, ne_eq]
      omega
    · rw [List.getElem?_eq_none (by omega), List.find?_eq_none]
      intro b hb
      obtain ⟨i, hi, rfl⟩ := List.getElem_of_mem hb
      simp only [h i hi, beq_iff_eq]
      omega
  · rename_i hk
    rw [List.find?_eq_none]
    intro b hb
    obtain ⟨i, hi, rfl⟩ := List.getElem_of_mem hb
    simp only [h i hi, beq_iff_eq]
    omega

theorem Numbered.increasing (h : Numbered num l) : l.Pairwise fun a b => num a < num b := by
  rw [List.pairwise_iff_getElem]
  intro i j hi hj hij
  rw [h i hi, h j hj]
  omega

theorem Numbered.pairwise (h : Numbered num l) : l.Pairwise fun a b => num a ≠ num b :=
  h.increasing.imp Int.ne_of_lt

/-! ## Numbers within the count -/

/-- No record has a number above its place, whether or not two have the same. -/
def Within (num : α → Int) (l : List α) : Prop := ∀ i (h : i < l.length), num l[i] ≤ i + 1

theorem within_nil : Within num [] := by
  intro i h
  cases h

theorem Within.append (h : Within num l) (ha : num a ≤ l.length + 1) : Within num (l ++ [a]) :=
  forall_append (P := fun a i => num a ≤ i + 1) h ha

theorem Within.of_prefix {l' : List α} (h : Within num l) (hp : l' <+: l) : Within num l' := by
  intro i hi
  rw [hp.getElem hi]
  exact h i _

theorem Within.le_length (h : Within num l) (ha : a ∈ l) : num a ≤ l.length := by
  obtain ⟨i, hi, rfl⟩ := List.getElem_of_mem ha
  have hle := h i hi
  omega

theorem maxNum_le {b : Int} (hb : 0 ≤ b) (h : ∀ a ∈ l, num a ≤ b) : maxNum num l ≤ b := by
  induction l using List.reverseRecOn with
  | nil => exact hb
  | append_singleton l a ih =>
    have ihl : maxNum num l ≤ b := ih fun a ha => h a (by simp [ha])
    simp only [maxNum, List.foldl_append, List.foldl_cons, List.foldl_nil] at ihl ⊢
    split
    · exact h a (by simp)
    · exact ihl

theorem Within.maxNum_le (h : Within num l) : maxNum num l ≤ l.length :=
  Numbering.maxNum_le (by omega) fun _ ha => h.le_length ha

/-! ## Many keys -/

variable [DecidableEq κ] {key : α → κ}

/-- The records of one key, in list order. -/
def book (key : α → κ) (l : List α) (k : κ) : List α := l.filter fun a => key a = k

/-- Every key's records are numbered. -/
def NumberedBy (key : α → κ) (num : α → Int) (l : List α) : Prop := ∀ k, Numbered num (book key l k)

theorem numberedBy_nil : NumberedBy key num [] := fun _ => numbered_nil

theorem book_append_self : book key (l ++ [a]) (key a) = book key l (key a) ++ [a] := by
  simp [book]

theorem book_append_other {k : κ} (h : key a ≠ k) : book key (l ++ [a]) k = book key l k := by
  simp [book, h]

theorem NumberedBy.append (h : NumberedBy key num l) (ha : num a = (book key l (key a)).length + 1) :
    NumberedBy key num (l ++ [a]) := by
  intro k
  by_cases hk : key a = k
  · subst hk
    rw [book_append_self]
    exact (h _).append ha
  · rw [book_append_other hk]
    exact h k

/-- No two records of one key have the same number. -/
theorem NumberedBy.pairwise (h : NumberedBy key num l) :
    l.Pairwise fun a b => key a = key b → num a ≠ num b := by
  rw [List.pairwise_iff_getElem]
  intro i j hi hj hij hkey
  have hk := (h (key l[i])).pairwise
  rw [book, List.pairwise_filter, List.pairwise_iff_getElem] at hk
  exact hk i j hi hj hij (by simp) (by simp [hkey])

end Numbering
