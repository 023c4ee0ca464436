import Mathlib.Data.List.Infix
import Mathlib.Data.List.TakeWhile
import RuleForest.Text.Pattern

namespace RuleForest.Text

variable {f s t u w : List UInt16}

section Infix

variable {α : Type} {f s w : List α}

theorem infix_of_infix_append (hw : w ≠ []) (hf : ∀ a ∈ w, a ∉ f) (h : w <:+: f ++ s) :
    w <:+: s := by
  induction f with
  | nil => exact h
  | cons a f ih =>
    rcases List.infix_cons_iff.mp h with h | h
    · obtain ⟨b, w, rfl⟩ := List.exists_cons_of_ne_nil hw
      obtain rfl := (List.cons_prefix_cons.mp h).1
      exact absurd List.mem_cons_self (hf b List.mem_cons_self)
    · exact ih (fun b hb hbf => hf b hb (List.mem_cons_of_mem a hbf)) h

end Infix

namespace Piece

variable {fold : Bool} {p q : Piece} {ps : List Piece}

structure Spans (fold : Bool) (p : Piece) (w : List UInt16) : Prop where
  nonempty : w ≠ []
  accepted : ∀ u ∈ w, p.accepts fold u
  single : p.repeats = false → w.length = 1

inductive Matches (fold : Bool) : List Piece → List UInt16 → Prop where
  | nil : Matches fold [] []
  | cons {p : Piece} {ps : List Piece} {w t : List UInt16} (first : p.Spans fold w)
      (others : Matches fold ps t) :
    Matches fold (p :: ps) (w ++ t)

theorem Matches.accepted (h : Matches fold ps w) : ∀ u ∈ w, ∃ p ∈ ps, p.accepts fold u := by
  induction h with
  | nil => simp
  | cons first others ih =>
    intro u hu
    rcases List.mem_append.mp hu with hu | hu
    · exact ⟨_, List.mem_cons_self, first.accepted u hu⟩
    · obtain ⟨p, hp, hu⟩ := ih u hu
      exact ⟨p, List.mem_cons_of_mem _ hp, hu⟩

def Separate (fold : Bool) (p q : Piece) : Prop :=
  p.repeats = true → ∀ u, p.accepts fold u → q.accepts fold u = false

theorem exists_spans {u : UInt16} (hu : p.accepts fold u) (s : List UInt16) :
    ∃ w, p.Spans fold w ∧ w ++ p.afterRun fold s = u :: s := by
  cases hp : p.repeats with
  | false =>
    refine ⟨[u], ⟨by simp, by simpa using hu, fun _ => rfl⟩, ?_⟩
    rw [afterRun, hp, if_neg Bool.false_ne_true, List.singleton_append]
  | true =>
    refine ⟨u :: s.takeWhile (p.accepts fold), ⟨by simp, ?_, by simp [hp]⟩, ?_⟩
    · exact List.forall_mem_cons.mpr ⟨hu, fun v hv => List.mem_takeWhile_imp hv⟩
    · rw [afterRun, if_pos hp, List.cons_append, List.takeWhile_append_dropWhile]

theorem exists_matches_of_rest? (h : rest? fold ps s = some t) :
    ∃ w, Matches fold ps w ∧ w ++ t = s := by
  fun_induction rest? fold ps s with
  | case1 s =>
    cases h
    exact ⟨[], .nil, rfl⟩
  | case2 => cases h
  | case3 p ps u s hu ih =>
    obtain ⟨v, hv, hrest⟩ := ih h
    obtain ⟨w, hw, hrun⟩ := p.exists_spans hu s
    refine ⟨w ++ v, .cons hw hv, ?_⟩
    rw [List.append_assoc, hrest, hrun]
  | case4 => cases h

theorem suffix_of_rest? (h : rest? fold ps s = some t) : t <:+ s := by
  obtain ⟨w, -, hs⟩ := exists_matches_of_rest? h
  exact ⟨w, hs⟩

theorem afterRun_append (hw : ∀ u ∈ w, p.accepts fold u) (hsingle : p.repeats = false → w = [])
    (ht : p.repeats = true → ∀ u ∈ t.head?, p.accepts fold u = false) :
    p.afterRun fold (w ++ t) = t := by
  cases hp : p.repeats with
  | false => simp only [afterRun, hp, Bool.false_eq_true, if_false, hsingle hp, List.nil_append]
  | true =>
    simp only [afterRun, hp, if_true]
    rw [List.dropWhile_append_of_pos hw]
    cases t with
    | nil => rfl
    | cons u t => rw [List.dropWhile_cons_of_neg (by simp [ht hp u rfl])]

theorem isSome_rest? (hps : ps.IsChain (Separate fold)) (h : Matches fold ps w) (t : List UInt16) :
    (rest? fold ps (w ++ t)).isSome := by
  induction h with
  | nil => cases t <;> rfl
  | @cons p ps w v first others ih =>
    obtain ⟨u, w, rfl⟩ := List.exists_cons_of_ne_nil first.nonempty
    obtain ⟨hu, hw⟩ := List.forall_mem_cons.mp first.accepted
    have hsingle (hp : p.repeats = false) : w = [] := by
      have hlength := first.single hp
      rw [List.length_cons] at hlength
      exact List.length_eq_zero_iff.mp (by omega)
    rw [List.append_assoc, List.cons_append, rest?, if_pos hu]
    cases others with
    | nil => rfl
    | @cons q qs x y second later =>
      obtain ⟨hseparate, hps⟩ := List.isChain_cons_cons.mp hps
      -- The run ends before the piece after it, which takes at least one unit.
      obtain ⟨a, x, rfl⟩ := List.exists_cons_of_ne_nil second.nonempty
      rw [afterRun_append hw hsingle]
      · exact ih hps
      · intro hp b hb
        obtain rfl : a = b := by simpa using hb
        cases ha : p.accepts fold a with
        | false => rfl
        | true =>
          have hq := second.accepted a List.mem_cons_self
          rw [hseparate hp a ha] at hq
          cases hq

end Piece

namespace Pattern

variable {p : Pattern}

def Matches (p : Pattern) (w : List UInt16) : Prop := Piece.Matches p.foldsCase p.pieces w

def FoundIn (p : Pattern) (s : List UInt16) : Prop := ∃ w, w <:+: s ∧ p.Matches w

def Takes (p : Pattern) (u : UInt16) : Prop := ∃ piece ∈ p.pieces, piece.accepts p.foldsCase u

/-- No run has a choice where to end, so that nothing is ever to be taken back. -/
def Direct (p : Pattern) : Prop := p.pieces.IsChain (Piece.Separate p.foldsCase)

theorem Matches.takes (h : p.Matches w) : ∀ u ∈ w, p.Takes u := Piece.Matches.accepted h

theorem Matches.ne_nil (h : p.Matches w) : w ≠ [] := by
  cases h with
  | cons first others => exact List.append_ne_nil_of_left_ne_nil first.nonempty _

theorem Direct.rest?_ne_none (hp : p.Direct) (h : p.Matches w) (hw : w <+: s) :
    p.rest? s ≠ none := by
  obtain ⟨t, rfl⟩ := hw
  exact Option.isSome_iff_ne_none.mp (Piece.isSome_rest? hp h t)

theorem replaceUnits_of_none {u : UInt16} (h : p.rest? (u :: s) = none) :
    p.replaceUnits f (u :: s) = u :: p.replaceUnits f s := by
  rw [replaceUnits]
  split
  · next ht => rw [h] at ht; cases ht
  · rfl

theorem replaceUnits_of_not_foundIn (h : ¬p.FoundIn s) : p.replaceUnits f s = s := by
  induction s with
  | nil => rw [replaceUnits]
  | cons u s ih =>
    have hrest : p.rest? (u :: s) = none := by
      apply Option.eq_none_iff_forall_ne_some.mpr
      intro t ht
      obtain ⟨w, hw, hs⟩ := Piece.exists_matches_of_rest? ht
      exact h ⟨w, ⟨[], t, hs⟩, hw⟩
    rw [replaceUnits_of_none hrest, ih]
    rintro ⟨w, hw, hmatch⟩
    exact h ⟨w, List.infix_cons hw, hmatch⟩

theorem prefix_of_prefix_replaceUnits (hf : f ≠ []) (hw : ∀ u ∈ w, u ∉ f)
    (h : w <+: p.replaceUnits f s) : w <+: s := by
  fun_induction p.replaceUnits f s generalizing w with
  | case1 => exact h
  | case2 u s t ht hlt ih =>
    obtain ⟨a, f, rfl⟩ := List.exists_cons_of_ne_nil hf
    rcases List.prefix_cons_iff.mp h with rfl | ⟨w, rfl, -⟩
    · exact List.nil_prefix
    · exact absurd List.mem_cons_self (hw a List.mem_cons_self)
  | case3 u s hnone ih =>
    rcases List.prefix_cons_iff.mp h with rfl | ⟨w, rfl, hrest⟩
    · exact List.nil_prefix
    · exact List.cons_prefix_cons.mpr ⟨rfl, ih (List.forall_mem_cons.mp hw).2 hrest⟩

theorem infix_of_infix_replaceUnits (hne : w ≠ []) (hf : f ≠ []) (hw : ∀ u ∈ w, u ∉ f)
    (h : w <:+: p.replaceUnits f s) : w <:+: s := by
  fun_induction p.replaceUnits f s with
  | case1 => exact h
  | case2 u s t ht hlt ih =>
    have hrest : w <:+: t := by
      have hrest := infix_of_infix_append hne hw h
      split at hrest
      · exact ih hrest
      · exact hrest
    exact hrest.trans (Piece.suffix_of_rest? ht).isInfix
  | case3 u s hnone ih =>
    rcases List.infix_cons_iff.mp h with h | h
    · rcases List.prefix_cons_iff.mp h with rfl | ⟨w, rfl, hrest⟩
      · exact List.nil_infix
      · have hrest := prefix_of_prefix_replaceUnits hf (List.forall_mem_cons.mp hw).2 hrest
        exact (List.cons_prefix_cons.mpr ⟨rfl, hrest⟩).isInfix
    · exact List.infix_cons_iff.mpr (.inr (ih h))

theorem not_foundIn_replaceUnits (hp : p.Direct) (heverywhere : p.everywhere = true) (hf : f ≠ [])
    (htakes : ∀ u ∈ f, ¬p.Takes u) (s : List UInt16) : ¬p.FoundIn (p.replaceUnits f s) := by
  rintro ⟨w, hw, hmatch⟩
  have hfiller : ∀ u ∈ w, u ∉ f := fun u hu huf => htakes u huf (hmatch.takes u hu)
  fun_induction p.replaceUnits f s with
  | case1 => exact hmatch.ne_nil (List.infix_nil.mp hw)
  | case2 u s t ht hlt ih =>
    have hrest := infix_of_infix_append hmatch.ne_nil hfiller hw
    rw [if_pos heverywhere] at hrest
    exact ih hrest
  | case3 u s hnone ih =>
    rcases List.infix_cons_iff.mp hw with hw | hw
    · -- A match that begins at a unit that is kept would have been found there.
      obtain ⟨a, w, rfl⟩ := List.exists_cons_of_ne_nil hmatch.ne_nil
      obtain ⟨rfl, hrest⟩ := List.cons_prefix_cons.mp hw
      have hrest := prefix_of_prefix_replaceUnits hf (List.forall_mem_cons.mp hfiller).2 hrest
      exact hp.rest?_ne_none hmatch (List.cons_prefix_cons.mpr ⟨rfl, hrest⟩) hnone
    · exact ih hw

end Pattern

end RuleForest.Text
