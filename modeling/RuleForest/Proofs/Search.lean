import RuleForest.Proofs.Course
import RuleForest.Proofs.Descent
import RuleForest.Proofs.Termination

namespace RuleForest

variable {H N : Type}

def Precedes (w : List Sign) (p q : RuleId) : Prop :=
  ∃ u v, w = u ++ v ∧ ¬Touched u q ∧ ¬Touched v p

def Forest.Ends (f : Forest H) (w : List Sign) (rule : RuleId) : Prop :=
  Reached w rule .failed ∨ f.strategyOf? rule = some .bestFirst ∧ Reached w rule .executed

/-- The rules of a batch are fired in order up to the first with which it ends, or all of them. -/
def Searched (f : Forest H) (w : List Sign) (rules : List RuleId) : Prop :=
  ∃ before after, rules = before ++ after ∧ (∀ rule ∈ before, Touched w rule) ∧
  (∀ rule ∈ after, ¬Touched w rule) ∧
    before.Pairwise (Precedes w) ∧ (∀ rule ∈ before.dropLast, ¬f.Ends w rule) ∧
    (after ≠ [] → ∃ rule, before.getLast? = some rule ∧ f.Ends w rule)

section

variable {u v w : List Sign} {rule p q : RuleId} {status : Status} {f : Forest H}
  {rules : List RuleId}

namespace Searched

theorem congr (h : Searched f u rules) (ht : ∀ q ∈ rules, Touched w q ↔ Touched u q)
    (hr : ∀ q ∈ rules, ∀ status, Reached w q status ↔ Reached u q status)
    (hp : ∀ p ∈ rules, ∀ q ∈ rules, Precedes u p q → Precedes w p q) : Searched f w rules := by
  obtain ⟨before, after, rfl, hbefore, hafter, horder, hgo, hend⟩ := h
  have hin {q : RuleId} (hq : q ∈ before) : q ∈ before ++ after := List.mem_append_left _ hq
  have hends {q : RuleId} (hq : q ∈ before) : f.Ends w q ↔ f.Ends u q := by
    simp only [Forest.Ends, hr q (hin hq)]
  refine ⟨before, after, rfl, ?_, ?_, ?_, ?_, ?_⟩
  · exact fun q hq => (ht q (hin hq)).mpr (hbefore q hq)
  · exact fun q hq hw => hafter q hq ((ht q (List.mem_append_right _ hq)).mp hw)
  · exact horder.imp_of_mem fun ha hb => hp _ (hin ha) _ (hin hb)
  · intro q hq
    rw [hends ((List.dropLast_sublist before).mem hq)]
    exact hgo q hq
  · intro hne
    obtain ⟨q, hlast, h⟩ := hend hne
    exact ⟨q, hlast, (hends (List.mem_of_getLast? hlast)).mpr h⟩

theorem append_left (h : Searched f w rules) (hu : ∀ q ∈ rules, ¬Touched u q) :
    Searched f (u ++ w) rules := by
  refine h.congr ?_ (fun q hq _ => reached_append_right (hu q hq)) ?_
  · intro q hq
    rw [touched_append]
    exact ⟨fun h => h.elim (fun h => absurd h (hu q hq)) id, .inr⟩
  · rintro p hp q hq ⟨x, y, rfl, hx, hy⟩
    refine ⟨u ++ x, y, (List.append_assoc u x y).symm, ?_, hy⟩
    rw [touched_append]
    exact fun h => h.elim (hu q hq) hx

theorem append_right (h : Searched f w rules) (hv : ∀ q ∈ rules, ¬Touched v q) :
    Searched f (w ++ v) rules := by
  refine h.congr ?_ (fun q hq _ => reached_append_left (hv q hq)) ?_
  · intro q hq
    rw [touched_append]
    exact ⟨fun h => h.elim id fun h => absurd h (hv q hq), .inl⟩
  · rintro p hp q hq ⟨x, y, rfl, hx, hy⟩
    refine ⟨x, y ++ v, List.append_assoc x y v, hx, ?_⟩
    rw [touched_append]
    exact fun h => h.elim hy (hv p hp)

theorem nil (f : Forest H) (w : List Sign) : Searched f w [] :=
  ⟨[], [], rfl, by simp, by simp, .nil, by simp, fun h => absurd rfl h⟩

theorem cons (hu : Touched u rule) (hgo : ¬f.Ends u rule) (hv : ¬Touched v rule)
    (h : Searched f v rules) (hrules : ∀ q ∈ rules, ¬Touched u q) :
    Searched f (u ++ v) (rule :: rules) := by
  obtain ⟨before, after, rfl, hbefore, hafter, horder, hgoes, hend⟩ := h.append_left hrules
  have hrule : ¬f.Ends (u ++ v) rule := by
    simp only [Forest.Ends, reached_append_left hv]
    exact hgo
  refine ⟨rule :: before, after, rfl, ?_, hafter, ?_, ?_, ?_⟩
  · intro q hq
    rcases List.mem_cons.mp hq with rfl | hq
    · exact touched_append.mpr (.inl hu)
    · exact hbefore q hq
  · refine List.pairwise_cons.mpr ⟨?_, horder⟩
    exact fun q hq => ⟨u, v, rfl, hrules q (List.mem_append_left _ hq), hv⟩
  · intro q hq
    cases before with
    | nil => simp at hq
    | cons p ps =>
      rw [List.dropLast_cons_cons] at hq
      rcases List.mem_cons.mp hq with rfl | hq
      · exact hrule
      · exact hgoes q hq
  · intro hne
    obtain ⟨q, hlast, h⟩ := hend hne
    refine ⟨q, ?_, h⟩
    rw [List.getLast?_cons, hlast]
    rfl

theorem head_touched (h : Searched f w (rule :: rules)) : Touched w rule := by
  obtain ⟨before, after, hsplit, hbefore, -, -, -, hend⟩ := h
  cases before with
  | nil =>
    obtain ⟨q, hlast, -⟩ :=
      hend (by rw [← List.nil_append after, ← hsplit]; exact List.cons_ne_nil _ _)
    simp at hlast
  | cons q qs =>
    obtain ⟨rfl, -⟩ := List.cons.inj hsplit
    exact hbefore _ List.mem_cons_self

theorem stop (hw : Touched w rule) (hrules : ∀ q ∈ rules, ¬Touched w q)
    (hend : rules ≠ [] → f.Ends w rule) :
    Searched f w (rule :: rules) := by
  refine ⟨[rule], rules, rfl, ?_, hrules, List.pairwise_singleton _ _, by simp, ?_⟩
  · intro q hq
    rwa [List.mem_singleton.mp hq]
  · exact fun hne => ⟨rule, rfl, hend hne⟩

theorem around {before after : List RuleId} (h : Searched f w (before ++ q :: after))
    (hq : Touched w q) :
    (∀ p ∈ before, Touched w p ∧ ¬f.Ends w p) ∧ (f.Ends w q → ∀ p ∈ after, ¬Touched w p) ∧
      (¬f.Ends w q → ∀ p, after.head? = some p → Touched w p) := by
  obtain ⟨fired, others, hsplit, hfired, hothers, -, hgo, hend⟩ := h
  obtain ⟨rest, rfl, rfl⟩ : ∃ rest, fired = before ++ q :: rest ∧ after = rest ++ others := by
    rcases List.append_eq_append_iff.mp hsplit with ⟨l, rfl, htail⟩ | ⟨l, rfl, rfl⟩
    · cases l with
      | nil =>
        rw [List.nil_append] at htail
        exact absurd hq (hothers q (htail ▸ List.mem_cons_self))
      | cons p ps =>
        obtain ⟨rfl, rfl⟩ := List.cons.inj htail
        exact ⟨ps, rfl, rfl⟩
    · exact absurd hq (hothers q (List.mem_append_right l List.mem_cons_self))
  rw [List.dropLast_append_cons] at hgo
  refine ⟨?_, ?_, ?_⟩
  · exact fun p hp => ⟨hfired p (List.mem_append_left _ hp), hgo p (List.mem_append_left _ hp)⟩
  · intro hends p hp
    cases rest with
    | nil => exact hothers p hp
    | cons r rs => exact absurd hends (hgo q (List.mem_append_right _ (by simp)))
  · intro hgoes p hp
    cases rest with
    | nil =>
      obtain ⟨last, hlast, hends⟩ := hend (by rintro rfl; simp at hp)
      rw [List.getLast?_append, List.getLast?_singleton, Option.some_or, Option.some.injEq] at hlast
      exact absurd (hlast ▸ hends) hgoes
    | cons r rs =>
      rw [List.cons_append, List.head?_cons, Option.some.injEq] at hp
      exact hfired p (by simp [hp])

end Searched

end

structure Exploration (f : Forest H) (binding : Binding) (rules : List RuleId) (ok : Bool)
    (w : List Sign) :
    Prop where
  within {q : RuleId} : Touched w q → ∃ p ∈ rules, f.Under p q
  batch : Searched f w rules
  below {p : RuleId} {name : String} :
    .report p name .executed ∈ w → ¬binding.Objects f (.report p name .executed) →
    Searched f w (f.childrenOf p)
  origin {q : RuleId} : Touched w q → q ∈ rules ∨ ∃ p name u v, q ∈ f.childrenOf p ∧ w = u ++ v ∧
    .report p name .executed ∈ u ∧ ¬binding.Objects f (.report p name .executed) ∧ ¬Touched u q
  once {q : RuleId} : Reached w q .skipped → ¬Reached w q .executed
  calm : ok = true ↔ ∀ q, ¬Reached w q .failed

namespace Exploration

variable {f : Forest H} {binding : Binding} {rule : RuleId} {rules : List RuleId} {ok : Bool}
variable {own lower last u v : List Sign}

theorem nil : Exploration f binding [] true [] where
  within h := absurd h (not_touched_nil _)
  batch := Searched.nil f []
  below h := by simp at h
  origin h := absurd h (not_touched_nil _)
  once h := absurd h (not_reached_nil _ _)
  calm := by simp

inductive Closes (rule : RuleId) : Bool → List Sign → Prop where
  | well : Closes rule true []
  | ill (name : String) : Closes rule false [.report rule name .failed]

theorem Closes.eq_of_touched (h : Closes rule ok last) {q : RuleId} (ht : Touched last q) :
    q = rule := by
  obtain ⟨s, hs, rfl⟩ := ht
  cases h with
  | well => simp at hs
  | ill name =>
    rw [List.mem_singleton.mp hs]
    rfl

theorem Closes.eq_failed (h : Closes rule ok last) {q : RuleId} {name : String} {status : Status}
    (hm : .report q name status ∈ last) : status = .failed := by
  cases h with
  | well => simp at hm
  | ill => exact (Sign.report.inj (List.mem_singleton.mp hm)).2.2

theorem Closes.not_reached (h : Closes rule ok last) {q : RuleId} {status : Status}
    (hne : status ≠ .failed) :
    ¬Reached last q status := by
  rintro ⟨name, hm⟩
  exact hne (h.eq_failed hm)

theorem Closes.calm (h : Closes rule ok last) : ok = true ↔ ∀ q, ¬Reached last q .failed := by
  cases h with
  | well => simp
  | ill name =>
    simp only [Bool.false_eq_true, false_iff, not_forall, not_not]
    exact ⟨rule, name, List.mem_singleton_self _⟩

theorem alone (f : Forest H) {res : Option Bool}
    (part : Part (Duty.Shows (binding.Admits f) rule) res own) (hres : res ≠ some true)
    (closes : Closes rule ok last) (ht : Touched (own ++ last) rule) :
    Exploration f binding [rule] ok (own ++ last) := by
  have hin {q : RuleId} (h : Touched (own ++ last) q) : q = rule :=
    (touched_append.mp h).elim part.eq_of_touched closes.eq_of_touched
  constructor
  case within =>
    intro q hq
    rw [hin hq]
    exact ⟨rule, List.mem_singleton_self _, .refl⟩
  case batch =>
    exact Searched.stop ht (by simp) fun h => absurd rfl h
  case below =>
    intro p name hm hno
    rcases List.mem_append.mp hm with hm | hm
    · exact absurd ((part.admits_of_executed hres hm).mpr hno) (by decide)
    · exact absurd (closes.eq_failed hm) (by simp)
  case origin =>
    intro q hq
    exact .inl (List.mem_singleton.mpr (hin hq))
  case once =>
    intro q hs hx
    rw [reached_append] at hs hx
    have hs := hs.resolve_right (closes.not_reached (by decide))
    have hx := hx.resolve_right (closes.not_reached (by decide))
    exact part.not_both q hs hx
  case calm =>
    rw [closes.calm]
    simp only [reached_append, part.not_failed, false_or]

theorem parent (hf : f.Sound) (part : Part (Duty.Shows (binding.Admits f) rule) (some true) own)
    (hlower : Exploration f binding (f.childrenOf rule) ok lower) (closes : Closes rule ok last) :
    Exploration f binding [rule] ok (own ++ lower ++ last) := by
  have hne {q : RuleId} (h : Touched lower q) : q ≠ rule := by
    obtain ⟨c, hc, hq⟩ := hlower.within h
    exact hf.ne_of_under hc hq
  have howns {q : RuleId} (h : q ≠ rule) : ¬Touched own q := fun ht => h (part.eq_of_touched ht)
  have hlasts {q : RuleId} (h : q ≠ rule) : ¬Touched last q := fun ht => h (closes.eq_of_touched ht)
  have lift {batch : List RuleId} (h : Searched f lower batch) (hb : ∀ q ∈ batch, q ≠ rule) :
      Searched f (own ++ lower ++ last) batch :=
    (h.append_left fun q hq => howns (hb q hq)).append_right fun q hq => hlasts (hb q hq)
  constructor
  case within =>
    intro q hq
    simp only [touched_append] at hq
    refine ⟨rule, List.mem_singleton_self _, ?_⟩
    rcases hq with (hq | hq) | hq
    · rw [part.eq_of_touched hq]
      exact .refl
    · obtain ⟨c, hc, hcq⟩ := hlower.within hq
      exact .of_child hc hcq
    · rw [closes.eq_of_touched hq]
      exact .refl
  case batch =>
    refine Searched.stop ?_ (by simp) fun h => absurd rfl h
    simp only [touched_append]
    exact .inl (.inl part.executes.touched)
  case below =>
    intro p name hm hno
    simp only [List.mem_append] at hm
    rcases hm with (hm | hm) | hm
    · rw [part.eq_of_touched (touched_of_report hm)]
      exact lift hlower.batch fun q hq => hf.ne_of_under hq .refl
    · obtain ⟨c, hc, hcp⟩ := hlower.within (touched_of_report hm)
      exact lift (hlower.below hm hno) fun q hq => hf.ne_of_under hc (.child hcp hq)
    · exact absurd (closes.eq_failed hm) (by simp)
  case origin =>
    intro q hq
    by_cases hqr : q = rule
    · exact .inl (List.mem_singleton.mpr hqr)
    simp only [touched_append] at hq
    right
    rcases hlower.origin ((hq.resolve_right (hlasts hqr)).resolve_left (howns hqr)) with
      hc | ⟨p, name, u, v, hc, rfl, hm, hno, hu⟩
    · obtain ⟨name, hm⟩ := part.executes
      exact ⟨rule, name, own, lower ++ last, hc, List.append_assoc _ _ _, hm,
        (part.admitted hm).mp rfl, howns hqr⟩
    · refine ⟨p, name, own ++ u, v ++ last, hc, by simp, List.mem_append_right _ hm, hno, ?_⟩
      rw [touched_append]
      exact fun h => h.elim (howns hqr) hu
  case once =>
    intro q hs hx
    rw [reached_append] at hs hx
    replace hs := hs.resolve_right (closes.not_reached (by decide))
    replace hx := hx.resolve_right (closes.not_reached (by decide))
    by_cases hq : Touched lower q
    · rw [reached_append_right (howns (hne hq))] at hs hx
      exact hlower.once hs hx
    · rw [reached_append_left hq] at hs hx
      exact part.not_both q hs hx
  case calm =>
    simp only [reached_append, part.not_failed, false_or, not_or, forall_and]
    rw [← hlower.calm, ← closes.calm, and_self]

theorem under_of_touched (h : Exploration f binding [rule] ok u) {q : RuleId} (hq : Touched u q) :
    f.Under rule q := by
  obtain ⟨p, hp, hpq⟩ := h.within hq
  rwa [List.mem_singleton.mp hp] at hpq

theorem cons (apart : ∀ q ∈ rules, f.Apart rule q) (first : Exploration f binding [rule] true u)
    (hgo : ¬f.Ends u rule) (rest : Exploration f binding rules ok v) :
    Exploration f binding (rule :: rules) ok (u ++ v) := by
  have hfirst {q : RuleId} (h : Touched u q) : f.Under rule q := first.under_of_touched h
  have hdisjoint {q : RuleId} (hu : f.Under rule q) : ¬Touched v q := by
    intro hv
    obtain ⟨p, hp, hq⟩ := rest.within hv
    exact apart p hp q hu hq
  have hother {p q : RuleId} (hp : p ∈ rules) (hq : f.Under p q) : ¬Touched u q :=
    fun h => apart p hp q (hfirst h) hq
  constructor
  case within =>
    intro q hq
    rcases touched_append.mp hq with hq | hq
    · exact ⟨rule, List.mem_cons_self, hfirst hq⟩
    · obtain ⟨p, hp, hpq⟩ := rest.within hq
      exact ⟨p, List.mem_cons_of_mem _ hp, hpq⟩
  case batch =>
    exact Searched.cons first.batch.head_touched hgo (hdisjoint .refl) rest.batch fun q hq =>
      hother hq .refl
  case below =>
    intro p name hm hno
    rcases List.mem_append.mp hm with hm | hm
    · have hp := hfirst (touched_of_report hm)
      exact (first.below hm hno).append_right fun q hq => hdisjoint (.child hp hq)
    · obtain ⟨p', hp', hunder⟩ := rest.within (touched_of_report hm)
      exact (rest.below hm hno).append_left fun q hq => hother hp' (.child hunder hq)
  case origin =>
    intro q hq
    rcases touched_append.mp hq with hq | hq
    · rcases first.origin hq with hroot | ⟨p, name, x, y, hc, rfl, hm, hno, hx⟩
      · rw [List.mem_singleton.mp hroot]
        exact .inl List.mem_cons_self
      · exact .inr ⟨p, name, x, y ++ v, hc, List.append_assoc x y v, hm, hno, hx⟩
    · obtain ⟨p', hp', hunder⟩ := rest.within hq
      rcases rest.origin hq with hroot | ⟨p, name, x, y, hc, rfl, hm, hno, hx⟩
      · exact .inl (List.mem_cons_of_mem _ hroot)
      · refine .inr ⟨p, name, u ++ x, y, hc, (List.append_assoc u x y).symm,
          List.mem_append_right _ hm, hno, ?_⟩
        rw [touched_append]
        exact fun h => h.elim (hother hp' hunder) hx
  case once =>
    intro q hs hx
    by_cases hq : Touched u q
    · rw [reached_append_left (hdisjoint (hfirst hq))] at hs hx
      exact first.once hs hx
    · rw [reached_append_right hq] at hs hx
      exact rest.once hs hx
  case calm =>
    simp only [reached_append, not_or, forall_and]
    rw [← first.calm, ← rest.calm]
    simp

theorem stop (apart : ∀ q ∈ rules, f.Apart rule q) (first : Exploration f binding [rule] ok u)
    (hend : rules ≠ [] → f.Ends u rule) : Exploration f binding (rule :: rules) ok u := by
  have hfirst {q : RuleId} (h : Touched u q) : f.Under rule q := first.under_of_touched h
  constructor
  case within =>
    exact fun hq => ⟨rule, List.mem_cons_self, hfirst hq⟩
  case batch =>
    exact Searched.stop first.batch.head_touched (fun q hq h => apart q hq q (hfirst h) .refl) hend
  case below =>
    exact first.below
  case origin =>
    intro q hq
    rcases first.origin hq with hroot | hchild
    · rw [List.mem_singleton.mp hroot]
      exact .inl List.mem_cons_self
    · exact .inr hchild
  case once =>
    exact first.once
  case calm =>
    exact first.calm

end Exploration

theorem Course.exploration {f : Forest H} {binding : Binding} {rules : List RuleId} {ok : Bool}
    {w : List Sign} (hf : f.Sound) (h : Course f (Duty.Shows (binding.Admits f)) rules ok w)
    (apart : rules.Pairwise f.Apart) :
    Exploration f binding rules ok w := by
  induction h with
  | nil => exact .nil
  | @declined rule rules own more ok part rest ih =>
    obtain ⟨hrule, hrules⟩ := List.pairwise_cons.mp apart
    have hfirst := Exploration.alone f part (by simp) .well
      (by rw [List.append_nil]; exact part.skips.touched)
    rw [List.append_nil] at hfirst
    refine .cons hrule hfirst ?_ (ih hrules)
    rintro (hfail | ⟨-, hexec⟩)
    · exact part.not_failed rule hfail
    · exact part.not_both rule part.skips hexec
  | @passed rule rules own lower more ok part below goesOn rest ihBelow ih =>
    obtain ⟨hrule, hrules⟩ := List.pairwise_cons.mp apart
    have hfirst := Exploration.parent hf part (ihBelow (hf.children_apart rule)) .well
    rw [List.append_nil] at hfirst
    refine .cons hrule hfirst ?_ (ih hrules)
    rintro (hfail | ⟨hbest, -⟩)
    · exact hfirst.calm.mp rfl rule hfail
    · exact absurd (goesOn.symm.trans hbest) (by simp)
  | @stopped rule rules own lower part below stops ih =>
    obtain ⟨hrule, hrules⟩ := List.pairwise_cons.mp apart
    have hfirst := Exploration.parent hf part (ih (hf.children_apart rule)) .well
    rw [List.append_nil] at hfirst
    exact .stop hrule hfirst fun _ => .inr ⟨stops, reached_append.mpr (.inl part.executes)⟩
  | @failed rule rules own last heard part told =>
    obtain ⟨hrule, hrules⟩ := List.pairwise_cons.mp apart
    obtain ⟨name, rfl⟩ : ∃ name, last = [.report rule name .failed] := by
      cases told with
      | tell => exact ⟨_, rfl⟩
    have hfailed : Reached (own ++ [.report rule name .failed]) rule .failed := ⟨name, by simp⟩
    have hfirst := Exploration.alone f part (by simp) (.ill name) hfailed.touched
    exact .stop hrule hfirst fun _ => .inl hfailed
  | @failedBelow rule rules own lower last heard part below told ih =>
    obtain ⟨hrule, hrules⟩ := List.pairwise_cons.mp apart
    obtain ⟨name, rfl⟩ : ∃ name, last = [.report rule name .failed] := by
      cases told with
      | tell => exact ⟨_, rfl⟩
    have hfirst := Exploration.parent hf part (ih (hf.children_apart rule)) (.ill name)
    exact .stop hrule hfirst fun _ => .inl ⟨name, by simp⟩

namespace Act

variable {b : Behavior H N} {e e' : Engine H} {request : Request} {context : ContextId}
variable {rules : List RuleId} {depth : Nat} {ending : Ending Unit} {events : List (Event N)}
variable {logger : Logger}

end Act

def pair : Engine Unit where
  forest := { rules := #[
    { strategy := .bestFirst, name := "first" }, { strategy := .chain, name := "second" }] }
  contexts := #[.empty]

end RuleForest
