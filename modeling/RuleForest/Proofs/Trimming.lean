import Mathlib.Data.List.TakeWhile
import RuleForest.Text.Blank

namespace RuleForest.Text

variable {cs core before after : List Char} {s : String}

theorem trimStart_eq_self : trimStart cs = cs ↔ ∀ c ∈ cs.head?, isBlank c = false := by
  cases cs with
  | nil => simp [trimStart]
  | cons c cs =>
    simp only [trimStart, List.head?_cons, Option.mem_some_iff, forall_eq']
    cases hc : isBlank c with
    | false => simp [hc]
    | true =>
      simp only [List.dropWhile_cons, hc, if_true, Bool.true_eq_false, iff_false]
      intro h
      have hlength := (List.dropWhile_suffix (l := cs) isBlank).length_le
      rw [h, List.length_cons] at hlength
      omega

theorem trimEnd_eq_self : trimEnd cs = cs ↔ ∀ c ∈ cs.getLast?, isBlank c = false := by
  rw [← List.head?_reverse, ← trimStart_eq_self, trimEnd, ← List.reverse_inj, List.reverse_reverse,
    trimStart]

theorem suffix_trimStart (cs : List Char) : trimStart cs <:+ cs := List.dropWhile_suffix isBlank

theorem prefix_trimEnd (cs : List Char) : trimEnd cs <+: cs := by
  rw [trimEnd, ← List.reverse_suffix, List.reverse_reverse]
  exact List.dropWhile_suffix isBlank

theorem trimStart_append (h : ∀ c ∈ before, isBlank c) (cs : List Char) :
    trimStart (before ++ cs) = trimStart cs :=
  List.dropWhile_append_of_pos h

theorem trimEnd_append (h : ∀ c ∈ after, isBlank c) (cs : List Char) :
    trimEnd (cs ++ after) = trimEnd cs := by
  have hreverse : ∀ c ∈ after.reverse, isBlank c := fun c hc => h c (List.mem_reverse.mp hc)
  rw [trimEnd, trimEnd, List.reverse_append, List.dropWhile_append_of_pos hreverse]

structure Trimmed (cs : List Char) : Prop where
  first : ∀ c ∈ cs.head?, isBlank c = false
  last : ∀ c ∈ cs.getLast?, isBlank c = false

theorem trimmed_iff : Trimmed cs ↔ trimChars cs = cs := by
  constructor
  · intro h
    rw [trimChars, trimStart_eq_self.mpr h.first, trimEnd_eq_self.mpr h.last]
  · intro h
    have hstart : trimStart cs = cs := by
      apply (suffix_trimStart cs).eq_of_length_le
      have hlength := (prefix_trimEnd (trimStart cs)).length_le
      rwa [show trimEnd (trimStart cs) = cs from h] at hlength
    rw [trimChars, hstart] at h
    exact ⟨trimStart_eq_self.mp hstart, trimEnd_eq_self.mp h⟩

theorem trimmed_of_forall (h : ∀ c ∈ cs, isBlank c = false) : Trimmed cs :=
  ⟨fun c hc => h c (List.mem_of_mem_head? hc), fun c hc => h c (List.mem_of_getLast? hc)⟩

theorem head?_trimStart (cs : List Char) : ∀ c ∈ (trimStart cs).head?, isBlank c = false := by
  intro c hc
  have hfirst := List.head?_dropWhile_not isBlank cs
  rwa [show (cs.dropWhile isBlank).head? = some c from hc] at hfirst

theorem trimmed_trimChars (cs : List Char) : Trimmed (trimChars cs) := by
  constructor
  · intro c hc
    obtain ⟨rest, hrest⟩ := prefix_trimEnd (trimStart cs)
    apply head?_trimStart cs
    rw [← hrest, List.head?_append, show (trimEnd (trimStart cs)).head? = some c from hc]
    rfl
  · intro c hc
    rw [trimChars, trimEnd, List.getLast?_reverse] at hc
    exact head?_trimStart (trimStart cs).reverse c hc

def Padded (core : List Char) (s : String) : Prop :=
  ∃ before after, (∀ c ∈ before ++ after, isBlank c) ∧ s.toList = before ++ core ++ after

theorem padded_trimChars (s : String) : Padded (trimChars s.toList) s := by
  refine ⟨s.toList.takeWhile isBlank, ((trimStart s.toList).reverse.takeWhile isBlank).reverse, ?_,
    ?_⟩
  · intro c hc
    rcases List.mem_append.mp hc with hc | hc
    · exact List.mem_takeWhile_imp hc
    · exact List.mem_takeWhile_imp (List.mem_reverse.mp hc)
  · rw [List.append_assoc, trimChars, trimEnd, ← List.reverse_append,
      List.takeWhile_append_dropWhile, List.reverse_reverse,
      trimStart, List.takeWhile_append_dropWhile]

theorem Padded.trimChars_eq (h : Padded core s) (ht : Trimmed core) :
    trimChars s.toList = core := by
  obtain ⟨before, after, hblank, hs⟩ := h
  obtain ⟨hbefore, hafter⟩ := List.forall_mem_append.mp hblank
  rw [hs, List.append_assoc, trimChars, trimStart_append hbefore]
  cases core with
  | nil =>
    have hnil : trimStart after = [] := List.dropWhile_eq_nil_iff.mpr hafter
    rw [List.nil_append, hnil]
    rfl
  | cons c cs =>
    have hstart : trimStart (c :: cs ++ after) = c :: cs ++ after := trimStart_eq_self.mpr ht.first
    rw [hstart, trimEnd_append hafter, trimEnd_eq_self.mpr ht.last]

theorem isBlankText_iff : isBlankText s ↔ trimChars s.toList = [] := by
  constructor
  · intro h
    have hnil : trimStart s.toList = [] := List.dropWhile_eq_nil_iff.mpr (List.all_eq_true.mp h)
    rw [trimChars, hnil]
    rfl
  · intro h
    obtain ⟨before, after, hblank, hs⟩ := padded_trimChars s
    rw [h, List.append_nil] at hs
    rw [isBlankText, hs, List.all_eq_true]
    exact hblank

end RuleForest.Text
