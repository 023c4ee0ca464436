import Mathlib.Data.List.Basic
import RuleForest.Text.Occurrence

namespace RuleForest.Text

variable {c : Char} {s p : List Char}

theorem splitAt_ne_nil (c : Char) (s : List Char) : splitAt c s ≠ [] := by
  cases s with
  | nil => simp [splitAt]
  | cons d s =>
    simp only [splitAt]
    split
    · simp
    · split <;> simp

theorem splitAt_of_not_mem (h : c ∉ s) : splitAt c s = [s] := by
  induction s with
  | nil => rfl
  | cons d s ih =>
    have hd : d ≠ c := fun hd => h (hd ▸ List.mem_cons_self)
    rw [splitAt, if_neg hd, ih fun hs => h (List.mem_cons_of_mem d hs)]

theorem splitAt_append_of_not_mem (h : c ∉ s) (rest : List Char) :
    splitAt c (s ++ c :: rest) = s :: splitAt c rest := by
  induction s with
  | nil => exact if_pos rfl
  | cons d s ih =>
    have hd : d ≠ c := fun hd => h (hd ▸ List.mem_cons_self)
    rw [List.cons_append, splitAt, if_neg hd, ih fun hs => h (List.mem_cons_of_mem d hs)]

theorem not_mem_of_mem_splitAt (hp : p ∈ splitAt c s) : c ∉ p := by
  induction s generalizing p with
  | nil =>
    rw [List.mem_singleton.mp hp]
    exact List.not_mem_nil
  | cons d s ih =>
    obtain ⟨q, qs, hsplit⟩ := List.exists_cons_of_ne_nil (splitAt_ne_nil c s)
    simp only [splitAt, hsplit] at hp ih
    split at hp
    · rcases List.mem_cons.mp hp with rfl | hp
      · exact List.not_mem_nil
      · exact ih hp
    · next hd =>
      rcases List.mem_cons.mp hp with rfl | hp
      · exact List.not_mem_cons_of_ne_of_not_mem (Ne.symm hd) (ih List.mem_cons_self)
      · exact ih (List.mem_cons_of_mem q hp)

theorem intercalate_splitAt (c : Char) (s : List Char) : [c].intercalate (splitAt c s) = s := by
  induction s with
  | nil => rfl
  | cons d s ih =>
    obtain ⟨q, qs, hsplit⟩ := List.exists_cons_of_ne_nil (splitAt_ne_nil c s)
    rw [hsplit] at ih
    simp only [splitAt, hsplit]
    split
    · next hd => rw [List.intercalate_cons_cons, ih, hd, List.nil_append, List.singleton_append]
    · cases qs with
      | nil => simpa using ih
      | cons r rs =>
        rw [List.intercalate_cons_cons] at ih ⊢
        rw [List.cons_append, List.cons_append, ih]

theorem splitAt_intercalate {pieces : List (List Char)} (hne : pieces ≠ [])
    (h : ∀ p ∈ pieces, c ∉ p) :
    splitAt c ([c].intercalate pieces) = pieces := by
  induction pieces with
  | nil => exact absurd rfl hne
  | cons p pieces ih =>
    obtain ⟨hp, hpieces⟩ := List.forall_mem_cons.mp h
    cases pieces with
    | nil => rw [List.intercalate_singleton, splitAt_of_not_mem hp]
    | cons q qs =>
      rw [List.intercalate_cons_cons, List.append_assoc, List.singleton_append,
        splitAt_append_of_not_mem hp, ih (List.cons_ne_nil q qs) hpieces]

end RuleForest.Text
