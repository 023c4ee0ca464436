import RuleForest.Proofs.Signs

namespace RuleForest

variable {H N : Type}

/-- What a duty shows, and whether it goes well. `admits` tells what may become of a report. -/
inductive Duty.Shows (admits : Sign → Bool → Prop) (rule : RuleId) :
    Duty → Bool → List Sign → Prop where
  | unset (phase : Phase) : Shows admits rule (.call phase) true []
  | call (phase : Phase) (ok : Bool) : Shows admits rule (.call phase) ok [.hook rule phase]
  | tell {name : String} {status : Status} {ok : Bool} (h : admits (.report rule name status) ok) :
      Shows admits rule (.tell status) ok [.report rule name status]

def Binding.Objects (binding : Binding) (f : Forest H) : Sign → Prop
  | .hook _ _ => False
  | .report rule name status => ∃ strategy, f.strategyOf? rule = some strategy ∧
      (binding.protest name strategy (f.childrenOf rule).length status).isSome

def Binding.Admits (binding : Binding) (f : Forest H) (s : Sign) (ok : Bool) : Prop :=
  ok = true ↔ ¬binding.Objects f s

theorem Binding.admits_protest {f : Forest H} {rule : RuleId} {strategy : Strategy}
    (binding : Binding) (known : f.strategyOf? rule = some strategy) (name : String)
    (status : Status) :
    binding.Admits f (.report rule name status)
      (binding.protest name strategy (f.childrenOf rule).length status).isNone := by
  simp only [Admits, Objects, known, Option.some.injEq, exists_eq_left', Bool.not_eq_true,
    Option.isSome_eq_false_iff]

inductive Word (shows : Duty → Bool → List Sign → Prop) : List Duty → Bool → List Sign → Prop where
  | nil : Word shows [] true []
  | pass {duty : Duty} {duties : List Duty} {shown more : List Sign} {ok : Bool}
      (first : shows duty true shown) (rest : Word shows duties ok more) :
      Word shows (duty :: duties) ok (shown ++ more)
  | fail {duty : Duty} {duties : List Duty} {shown : List Sign} (first : shows duty false shown) :
      Word shows (duty :: duties) false shown

theorem Word.exists_break {shows : Duty → Bool → List Sign → Prop} {plan : List Duty}
    {w : List Sign} (h : Word shows plan false w) :
    ∃ done duty rest u v, plan = done ++ duty :: rest ∧ w = u ++ v ∧ Word shows done true u ∧
      shows duty false v := by
  generalize hok : false = ok at h
  induction h with
  | nil => exact absurd hok (by decide)
  | pass first rest ih =>
    obtain ⟨done, duty, others, u, v, rfl, rfl, hdone, hduty⟩ := ih hok
    exact ⟨_, duty, others, _, v, rfl, (List.append_assoc _ u v).symm, .pass first hdone, hduty⟩
  | @fail duty duties shown first => exact ⟨[], duty, duties, [], shown, rfl, rfl, .nil, first⟩

inductive Part (shows : Duty → Bool → List Sign → Prop) : Option Bool → List Sign → Prop where
  | declined {w : List Sign} (word : Word shows Duty.declining true w) : Part shows (some false) w
  | executed {w : List Sign} (word : Word shows Duty.executing true w) : Part shows (some true) w
  | refused : Part shows none []
  | failed {plan : List Duty} {w : List Sign}
      (planned : plan = Duty.executing ∨ plan = Duty.declining)
      (word : Word shows plan false w) : Part shows none w

def Ending.result {α : Type} : Ending α → Option α
  | .done a => some a
  | _ => none

@[simp]
theorem Ending.result_barring (objection : Option Value) :
    (Ending.barring objection).result.isSome = objection.isNone := by
  cases objection <;> rfl

namespace Act

variable {b : Behavior H N} {runs : Request → Act H N Unit} {rule : RuleId} {binding : Binding}
  {view : View}

theorem Called.signs_eq {phase : Phase} {e : Engine H} {o : Outcome H N Unit}
    (h : Called b runs rule view phase e o) :
    signs o.events = if ((e.forest.get? rule).bind fun r => r.hook? phase).isSome
      then [.hook rule phase] else [] := by
  have hcalls (hook : H) := call_signs b runs hook phase view e
  cases h with
  | unset unset => rw [unset]; rfl
  | @passed hook _ _ es set work =>
    have hes := hcalls hook
    rw [work] at hes
    rw [set, signs_invoked, hes]
    rfl
  | @returned hook _ _ _ es set work =>
    have hes := hcalls hook
    rw [work] at hes
    rw [set, signs_invoked, hes]
    rfl
  | @threw hook _ _ es set work =>
    have hes := hcalls hook
    rw [work] at hes
    rw [set, signs_invoked, hes]
    rfl

theorem Called.shows {admits : Sign → Bool → Prop} {phase : Phase} {e : Engine H}
    {o : Outcome H N Unit} (h : Called b runs rule view phase e o) :
    (Duty.call phase).Shows admits rule o.ending.result.isSome (signs o.events) := by
  have hsigns := h.signs_eq
  cases h with
  | unset unset =>
    rw [unset] at hsigns
    exact .unset phase
  | passed set =>
    rw [hsigns, set]
    exact .call phase true
  | returned set =>
    rw [hsigns, set]
    exact .call phase false
  | threw set =>
    rw [hsigns, set]
    exact .call phase false

theorem perform_shows {admits : Sign → Bool → Prop} {duty : Duty} {e : Engine H}
    (hadmits : ∀ status, admits (.report rule (e.forest.nameOf rule) status)
      (binding.protest (e.forest.nameOf rule) view.strategy (e.forest.childrenOf rule).length
        status).isNone)
    (hne : (perform b runs rule binding view duty e).ending ≠ .exhausted) :
    duty.Shows admits rule (perform b runs rule binding view duty e).ending.result.isSome
      (signs (perform b runs rule binding view duty e).events) := by
  cases duty with
  | call phase => exact (perform_called hne).shows
  | tell status =>
    rw [perform_tell, signs_telling, Ending.result_barring]
    exact .tell (hadmits status)

theorem perform_shows_of_agree {f : Forest H} {duty : Duty} {e : Engine H}
    (he : Forest.Agree Rule.shape f e.forest) (known : f.strategyOf? rule = some view.strategy)
    (hne : (perform b runs rule binding view duty e).ending ≠ .exhausted) :
    duty.Shows (binding.Admits f) rule
      (perform b runs rule binding view duty e).ending.result.isSome
      (signs (perform b runs rule binding view duty e).events) := by
  refine perform_shows (fun status => ?_) hne
  rw [he.childrenOf]
  exact binding.admits_protest known _ status

section

variable {P : Engine H → Prop} {shows : Duty → Bool → List Sign → Prop} {plan : List Duty}
variable {e e₁ : Engine H} {es : List (Event N)}

theorem Follows.word {r : Ending Unit} (h : Follows b runs rule binding view plan e r e₁ es)
    (hP : ∀ duty, (perform b runs rule binding view duty).Upholds fun e _ e' => P e → P e')
    (hshows : ∀ duty e, P e → (perform b runs rule binding view duty e).ending ≠ .exhausted →
      shows duty (perform b runs rule binding view duty e).ending.result.isSome
        (signs (perform b runs rule binding view duty e).events))
    (he : P e) : Word shows plan r.result.isSome (signs es) := by
  induction h with
  | nil => exact .nil
  | @pass duty duties e e₁ e₂ r es more first rest ih =>
    have he₁ := hP duty e he
    have hs := hshows duty e he (by rw [first]; simp)
    rw [first] at he₁ hs
    rw [signs_append]
    exact .pass hs (ih he₁)
  | @fail duty duties e e₁ x es first =>
    have hs := hshows duty e he (by rw [first]; simp)
    rw [first] at hs
    exact .fail hs

theorem Served.part {strategy : Strategy} {o : Outcome H N Bool}
    (h : Served b runs rule binding strategy e o)
    (hP : ∀ view duty, (perform b runs rule binding view duty).Upholds fun e _ e' => P e → P e')
    (hshows : ∀ view duty e, view.strategy = strategy → P e →
      (perform b runs rule binding view duty e).ending ≠ .exhausted →
      shows duty (perform b runs rule binding view duty e).ending.result.isSome
        (signs (perform b runs rule binding view duty e).events))
    (he : P e) : Part shows o.ending.result (signs o.events) := by
  cases h with
  | refused aborted => exact .refused
  | executed clear course =>
    exact .executed (course.word (hP _) (fun duty e => hshows _ duty e rfl) he)
  | declined clear course =>
    exact .declined (course.word (hP _) (fun duty e => hshows _ duty e rfl) he)
  | failed clear planned course =>
    exact .failed planned (course.word (hP _) (fun duty e => hshows _ duty e rfl) he)

end

theorem Upholds.perform {R : Engine H → List (Event N) → Engine H → Prop} (hR : Upkeep R)
    (hb : b.Obeys (Operation.Upheld R)) (hruns : ∀ request, (runs request).Upholds R)
    (rule : RuleId) (binding : Binding) (view : View) (duty : Duty) :
    (perform b runs rule binding view duty).Upholds R := by
  cases duty with
  | call phase =>
    cases phase with
    | evaluate => exact bind hR (evaluate hR hb hruns rule view) fun _ => pure hR ()
    | stage s => exact runStage hR hb hruns rule view s
  | tell status =>
    cases status with
    | executed =>
      apply bind hR (reach hR rule binding .executed)
      intro
      exact bind hR (state hR) fun e => log hR _ _
    | skipped =>
      apply bind hR (reach hR rule binding .skipped)
      intro
      exact bind hR (fun e => hR.nil e) fun name => log hR _ _
    | idle => exact reach hR rule binding .idle
    | evaluated => exact reach hR rule binding .evaluated
    | failed => exact reach hR rule binding .failed

end Act

section

variable {rule q : RuleId} {admits : Sign → Bool → Prop} {plan : List Duty} {ok : Bool}
variable {res : Option Bool} {w : List Sign} {name : String} {status : Status}

theorem Duty.Shows.rule_eq {duty : Duty} (h : duty.Shows admits rule ok w) :
    ∀ s ∈ w, s.rule = rule := by
  cases h <;> simp [Sign.rule]

theorem Duty.Shows.eq_tell {duty : Duty} (h : duty.Shows admits rule ok w)
    (hm : .report q name status ∈ w) :
    duty = .tell status ∧ admits (.report q name status) ok := by
  cases h with
  | unset => exact absurd hm List.not_mem_nil
  | call => exact absurd hm (by simp)
  | tell h =>
    obtain ⟨rfl, rfl, rfl⟩ := Sign.report.inj (List.mem_singleton.mp hm)
    exact ⟨rfl, h⟩

namespace Word

theorem rule_eq (h : Word (Duty.Shows admits rule) plan ok w) : ∀ s ∈ w, s.rule = rule := by
  induction h with
  | nil => simp
  | pass first rest ih =>
    intro s hs
    exact (List.mem_append.mp hs).elim (first.rule_eq s) (ih s)
  | fail first => exact first.rule_eq

theorem tell_mem (h : Word (Duty.Shows admits rule) plan ok w) (hm : .report q name status ∈ w) :
    .tell status ∈ plan := by
  induction h with
  | nil => simp at hm
  | pass first rest ih =>
    rcases List.mem_append.mp hm with hm | hm
    · rw [(first.eq_tell hm).1]
      exact List.mem_cons_self
    · exact List.mem_cons_of_mem _ (ih hm)
  | fail first =>
    rw [(first.eq_tell hm).1]
    exact List.mem_cons_self

theorem reached (h : Word (Duty.Shows admits rule) plan true w) (hm : .tell status ∈ plan) :
    Reached w rule status := by
  generalize hok : true = ok at h
  induction h with
  | nil => simp at hm
  | pass first rest ih =>
    rw [reached_append]
    rcases List.mem_cons.mp hm with rfl | hm
    · cases first with
      | tell h => exact .inl ⟨_, List.mem_singleton_self _⟩
    · exact .inr (ih hm hok)
  | fail => exact absurd hok (by decide)

theorem admitted (h : Word (Duty.Shows admits rule) plan true w)
    (hm : .report q name status ∈ w) : admits (.report q name status) true := by
  generalize hok : true = ok at h
  induction h with
  | nil => simp at hm
  | pass first rest ih =>
    subst hok
    rcases List.mem_append.mp hm with hm | hm
    · exact (first.eq_tell hm).2
    · exact ih hm rfl
  | fail => exact absurd hok (by decide)

end Word

theorem Duty.tell_executed_not_mem {done rest : List Duty} {duty : Duty}
    (planned : plan = executing ∨ plan = declining) (h : plan = done ++ duty :: rest) :
    .tell .executed ∉ done := by
  rcases planned with rfl | rfl
  · have hlast : executing.dropLast = done ++ (duty :: rest).dropLast := by
      rw [h, List.dropLast_append_cons]
    intro hm
    have hin : .tell .executed ∈ executing.dropLast := hlast ▸ List.mem_append_left _ hm
    simp [executing] at hin
  · intro hm
    have hin : .tell .executed ∈ declining := h ▸ List.mem_append_left _ hm
    simp [declining] at hin

namespace Part

theorem followed (h : Part (Duty.Shows admits rule) res w) :
    w = [] ∨ ∃ plan ok, (plan = Duty.executing ∨ plan = Duty.declining) ∧
      Word (Duty.Shows admits rule) plan ok w := by
  cases h with
  | declined word => exact .inr ⟨_, _, .inr rfl, word⟩
  | executed word => exact .inr ⟨_, _, .inl rfl, word⟩
  | refused => exact .inl rfl
  | failed planned word => exact .inr ⟨_, _, planned, word⟩

theorem eq_of_touched (h : Part (Duty.Shows admits rule) res w) (ht : Touched w q) : q = rule := by
  obtain ⟨s, hs, rfl⟩ := ht
  rcases h.followed with rfl | ⟨plan, ok, -, word⟩
  · simp at hs
  · exact word.rule_eq s hs

theorem not_failed (h : Part (Duty.Shows admits rule) res w) (q : RuleId) :
    ¬Reached w q .failed := by
  rintro ⟨name, hm⟩
  rcases h.followed with rfl | ⟨plan, ok, planned, word⟩
  · simp at hm
  · have htell := word.tell_mem hm
    rcases planned with rfl | rfl <;> simp [Duty.executing, Duty.declining] at htell

theorem not_both (h : Part (Duty.Shows admits rule) res w) (q : RuleId)
    (hs : Reached w q .skipped) :
    ¬Reached w q .executed := by
  rintro ⟨name, hm⟩
  obtain ⟨name', hs⟩ := hs
  rcases h.followed with rfl | ⟨plan, ok, planned, word⟩
  · simp at hm
  · have hskip := word.tell_mem hs
    have hexec := word.tell_mem hm
    rcases planned with rfl | rfl <;> simp [Duty.executing, Duty.declining] at hskip hexec

theorem skips (h : Part (Duty.Shows admits rule) (some false) w) : Reached w rule .skipped := by
  cases h with
  | declined word => exact word.reached (by simp [Duty.declining])

theorem executes (h : Part (Duty.Shows admits rule) (some true) w) : Reached w rule .executed := by
  cases h with
  | executed word => exact word.reached (by simp [Duty.executing])

theorem admitted (h : Part (Duty.Shows admits rule) (some true) w)
    (hm : .report q name status ∈ w) : admits (.report q name status) true := by
  cases h with
  | executed word => exact word.admitted hm

theorem admits_of_executed (h : Part (Duty.Shows admits rule) res w) (hres : res ≠ some true)
    (hm : .report q name .executed ∈ w) : admits (.report q name .executed) false := by
  cases h with
  | declined word => simpa [Duty.declining] using word.tell_mem hm
  | executed word => exact absurd rfl hres
  | refused => simp at hm
  | failed planned word =>
    obtain ⟨done, duty, rest, u, v, hplan, rfl, hdone, hduty⟩ := word.exists_break
    rcases List.mem_append.mp hm with hm | hm
    · exact absurd (hdone.tell_mem hm) (Duty.tell_executed_not_mem planned hplan)
    · exact (hduty.eq_tell hm).2

end Part

end

end RuleForest
