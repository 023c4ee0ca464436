import Mathlib.Data.List.Pairwise
import RuleForest.Proofs.Tree

namespace RuleForest.Forest

variable {H : Type} {f : Forest H} {p q c d : RuleId}

inductive Under (f : Forest H) (p : RuleId) : RuleId → Prop where
  | refl : Under f p p
  | child {q c : RuleId} (h : Under f p q) (hc : c ∈ f.childrenOf q) : Under f p c

namespace Under

theorem trans (hpq : f.Under p q) (hqc : f.Under q c) : f.Under p c := by
  induction hqc with
  | refl => exact hpq
  | child _ hd ih => exact .child ih hd

theorem of_child (hc : c ∈ f.childrenOf p) (hq : f.Under c q) :
    f.Under p q := (child refl hc).trans hq

theorem eq_or_child (h : f.Under p q) : p = q ∨ ∃ c ∈ f.childrenOf p, f.Under c q := by
  induction h with
  | refl => exact .inl rfl
  | @child q d h hd ih =>
    rcases ih with rfl | ⟨c, hc, hcq⟩
    · exact .inr ⟨d, hd, .refl⟩
    · exact .inr ⟨c, hc, .child hcq hd⟩

end Under

theorem Spans.not_under (h : f.Spans p) (hc : c ∈ f.childrenOf p) : ¬f.Under c p := by
  induction h generalizing c with
  | @intro p below ih =>
    intro hp
    rcases hp.eq_or_child with rfl | ⟨d, hd, hdp⟩
    · exact ih _ hc hc .refl
    · exact ih c hc hd (.child hdp hc)

structure Sound (f : Forest H) : Prop where
  tidy : f.Tidy
  owned {p c : RuleId} : c ∈ f.childrenOf p → f.ownerOf c = some p
  unique (p : RuleId) : (f.childrenOf p).Nodup
  spans (p : RuleId) : f.Spans p

def Apart (f : Forest H) (p q : RuleId) : Prop := ∀ c, f.Under p c → ¬f.Under q c

theorem Apart.symm (h : f.Apart p q) : f.Apart q p := fun c hq hp => h c hp hq

instance : Std.Symm f.Apart := ⟨fun _ _ => Apart.symm⟩

namespace Sound

variable (hf : f.Sound)
include hf

theorem eq_of_child (hp : c ∈ f.childrenOf p) (hq : c ∈ f.childrenOf q) : p = q :=
  Option.some.inj ((hf.owned hp).symm.trans (hf.owned hq))

theorem ne_of_under (hc : c ∈ f.childrenOf p) (hq : f.Under c q) : q ≠ p := by
  rintro rfl
  exact (hf.spans q).not_under hc hq

theorem under_or_under (hp : f.Under p c) (hq : f.Under q c) : f.Under p q ∨ f.Under q p := by
  induction hp with
  | refl => exact .inr hq
  | @child d c hd hc ih =>
    cases hq with
    | refl => exact .inl (.child hd hc)
    | child hq' hc' => exact ih (hf.eq_of_child hc' hc ▸ hq')

theorem apart_of_not_under (hpq : ¬f.Under p q) (hqp : ¬f.Under q p) : f.Apart p q :=
  fun _ hp hq => (hf.under_or_under hp hq).elim hpq hqp

theorem not_under_sibling (hc : c ∈ f.childrenOf p) (hd : d ∈ f.childrenOf p) (hne : c ≠ d) :
    ¬f.Under c d := by
  intro h
  cases h with
  | refl => exact hne rfl
  | child h hd' =>
    rw [hf.eq_of_child hd' hd] at h
    exact hf.ne_of_under hc h rfl

theorem children_apart (p : RuleId) : (f.childrenOf p).Pairwise f.Apart := by
  refine (hf.unique p).imp_of_mem ?_
  intro c d hc hd hne
  exact hf.apart_of_not_under (hf.not_under_sibling hc hd hne)
    (hf.not_under_sibling hd hc (Ne.symm hne))

end Sound

theorem Flat.sound (h : f.Flat) : f.Sound where
  tidy := h.tidy
  owned hc := by simp [h.childrenOf] at hc
  unique p := by simp [h.childrenOf]
  spans := h.spans

end RuleForest.Forest
