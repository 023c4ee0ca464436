import RuleForest.Proofs.Traversal

namespace RuleForest

variable {H N : Type}

namespace Engine

def failed (e : Engine H) (rules : List RuleId) : Engine H :=
  rules.foldl (fun e rule => e.marked rule .failed) e

theorem failed_append (e : Engine H) (rules more : List RuleId) :
    e.failed (rules ++ more) = (e.failed rules).failed more := by
  simp only [failed, List.foldl_append]

theorem agree_marked (e : Engine H) (rule : RuleId) (status : Status) :
    Forest.Agree Rule.design e.forest (e.marked rule status).forest :=
  Forest.Agree.design_upkeep.marked _ rule status

theorem agree_bound (e : Engine H) (binding : Binding) (rule : RuleId) :
    Forest.Agree Rule.design e.forest (e.bound binding rule).forest :=
  Forest.Agree.design_upkeep.bound _ rule binding

theorem agree_failed (e : Engine H) (rules : List RuleId) :
    Forest.Agree Rule.design e.forest (e.failed rules).forest := by
  induction rules generalizing e with
  | nil => exact .refl _
  | cons rule rules ih => exact (e.agree_marked rule .failed).trans (ih _)

end Engine

def Engine.failures (e : Engine H) (binding : Binding) (rules : List RuleId) : List (Event N) :=
  rules.map fun rule => e.report binding rule .failed

def Binding.unwound (binding : Binding) (e : Engine H) (rules : List RuleId) (x : Thrown) :
    Thrown :=
  rules.foldl (fun x rule => binding.raised (e.forest.nameOf rule) x) x

theorem Binding.unwound_cases (binding : Binding) (e : Engine H) (rules : List RuleId)
    (x : Thrown) :
    binding.unwound e rules x = x ∨ ∃ rule ∈ rules, ∃ v,
      binding.objection (e.forest.nameOf rule) .failed = some v ∧
      binding.unwound e rules x = { value := v } := by
  induction rules generalizing x with
  | nil => exact .inl rfl
  | cons rule rules ih =>
    rcases ih (binding.raised (e.forest.nameOf rule) x) with h | ⟨later, hmem, v, hv, h⟩
    · cases ho : binding.objection (e.forest.nameOf rule) .failed with
      | none =>
        left
        rw [raised, ho] at h
        simpa only [unwound, List.foldl_cons, raised, ho, Option.elim_none] using h
      | some v =>
        right
        rw [raised, ho] at h
        refine ⟨rule, by simp, v, ho, ?_⟩
        simpa only [unwound, List.foldl_cons, raised, ho, Option.elim_some] using h
    · exact .inr ⟨later, List.mem_cons_of_mem _ hmem, v, hv, h⟩

namespace Act

/-- A traversal comes to fire `target` in a certain state, `around` being the rules whose children
it has descended to, innermost first, and `before` the events so far. -/
inductive Enters (b : Behavior H N) (binding : Binding) (target : RuleId) :
    Nat → List RuleId → Engine H → List RuleId → Nat → Engine H → List (Event N) → Prop where
  | here {depth : Nat} {rules : List RuleId} {e : Engine H} :
      Enters b binding target (depth + 1) (target :: rules) e [] depth e []
  | later {depth left : Nat} {rule : RuleId} {rules around : List RuleId} {r : Rule H}
      {e e₁ e₂ : Engine H} {own before : List (Event N)} (found : e.forest.get? rule = some r)
      (served : serve b (run b depth) rule binding r.strategy (e.bound binding rule) =
        ⟨.done false, e₁, own⟩)
      (rest : Enters b binding target (depth + 1) rules e₁ around left e₂ before) :
      Enters b binding target (depth + 1) (rule :: rules) e around left e₂ (own ++ before)
  | beyond {depth left : Nat} {rule : RuleId} {rules around : List RuleId} {r : Rule H}
      {e e₁ e₂ e₃ : Engine H}
      {own lower before : List (Event N)} (found : e.forest.get? rule = some r)
      (served : serve b (run b depth) rule binding r.strategy (e.bound binding rule) =
        ⟨.done true, e₁, own⟩)
      (below : Traverses b binding depth (e₁.forest.childrenOf rule) e₁ ⟨.done (), e₂, lower⟩)
      (goesOn : r.strategy = .chain)
      (rest : Enters b binding target (depth + 1) rules e₂ around left e₃ before) :
      Enters b binding target (depth + 1) (rule :: rules) e around left e₃ (own ++ lower ++ before)
  | under {depth left : Nat} {rule : RuleId} {rules around : List RuleId} {r : Rule H}
      {e e₁ e₂ : Engine H} {own before : List (Event N)} (found : e.forest.get? rule = some r)
      (served : serve b (run b depth) rule binding r.strategy (e.bound binding rule) =
        ⟨.done true, e₁, own⟩)
      (below : Enters b binding target depth (e₁.forest.childrenOf rule) e₁ around left e₂ before) :
      Enters b binding target (depth + 1) (rule :: rules) e (around ++ [rule]) left e₂
      (own ++ before)

variable {b : Behavior H N} {binding : Binding} {depth left : Nat} {rule target : RuleId}
variable {rules around : List RuleId} {r : Rule H} {e e₀ e₁ : Engine H}
  {before own : List (Event N)} {x : Thrown}

theorem failures_append_report (e : Engine H) (binding : Binding) (rules : List RuleId)
    (rule : RuleId) :
    (e.failures binding rules ++ [(e.failed rules).report binding rule .failed] : List (Event N)) =
      e.failures binding (rules ++ [rule]) := by
  simp only [Engine.failures, Engine.report, List.map_append, List.map_cons, List.map_nil,
    (e.agree_failed rules).nameOf]

theorem raised_unwound (e : Engine H) (binding : Binding) (rules : List RuleId) (rule : RuleId)
    (x : Thrown) :
    binding.raised ((e.failed rules).forest.nameOf rule) (binding.unwound e rules x) =
      binding.unwound e (rules ++ [rule]) x := by
  rw [(e.agree_failed rules).nameOf]
  simp only [Binding.unwound, List.foldl_append, List.foldl_cons, List.foldl_nil]

theorem Enters.traverses (h : Enters b binding target depth rules e around left e₀ before)
    (found : e₀.forest.get? target = some r)
    (served : serve b (run b left) target binding r.strategy (e₀.bound binding target) =
      ⟨.thrown x, e₁, own⟩) :
    Traverses b binding depth rules e
      ⟨.thrown (binding.unwound e₁ (target :: around) x), e₁.failed (target :: around),
        before ++ own ++ e₁.failures binding (target :: around)⟩ := by
  induction h with
  | here => exact .failed found served
  | later found' served' rest ih =>
    have hfirst := Traverses.declined found' served' (ih found served)
    rwa [← List.append_assoc, ← List.append_assoc] at hfirst
  | beyond found' served' below goesOn rest ih =>
    have hfirst := Traverses.passed found' served' below goesOn (ih found served)
    rwa [← List.append_assoc, ← List.append_assoc] at hfirst
  | @under depth left rule rules around r' e e₂ e₃ own' before found' served' below ih =>
    have hbelow : Traverses b binding (depth + 1) (rule :: rules) e _ :=
      .failedBelow found' served' (ih found served)
    rw [raised_unwound, ← List.append_assoc, ← List.append_assoc, List.append_assoc,
      failures_append_report] at hbelow
    have hfailed :
        (e₁.failed (target :: around)).marked rule .failed =
        e₁.failed (target :: around ++ [rule]) := by
      rw [Engine.failed_append]
      rfl
    rwa [hfailed] at hbelow

theorem Traverses.unique {o o' : Outcome H N Unit} (h : Traverses b binding depth rules e o)
    (h' : Traverses b binding depth rules e o') (ready : Ready e rules) : o = o' :=
  (h.fireFirst_eq ready).symm.trans (h'.fireFirst_eq ready)

theorem Enters.ready (h : Enters b binding target depth rules e around left e₀ before)
    (ready : Ready e rules) :
    Ready e₀ [target] := by
  induction h with
  | here =>
    exact ⟨ready.tidy, fun q hq => by
      rw [List.mem_singleton.mp hq]; exact ready.present _ (by simp)⟩
  | later found served rest ih =>
    exact ih (ready.rest served)
  | beyond found served below goesOn rest ih =>
    have hbelow := below.fireFirst_eq (ready.below served)
    exact ih (ready.beyond served hbelow)
  | under found served below ih =>
    exact ih (ready.below served)

theorem Enters.found (h : Enters b binding target depth rules e around left e₀ before)
    (ready : Ready e rules) :
    ∃ r, e₀.forest.get? target = some r :=
  Forest.exists_get? ((h.ready ready).present target (List.mem_singleton_self _))

theorem Enters.fireFirst_eq_of_exhausted
    (h : Enters b binding target depth rules e around left e₀ before) (ready : Ready e rules)
    (fired : fire b (left + 1) target (e₀.bound binding target) = ⟨.exhausted, e₁, own⟩) :
    fireFirst (fire b depth) binding rules e = ⟨.exhausted, e₁, before ++ own⟩ := by
  induction h with
  | here => exact fireFirst_of_exhausted _ fired
  | @later depth left rule rules around r e e₂ e₃ own' before found served rest ih =>
    have hfire := fireFirst_of_goesOn rules (fire_of_declined (get?_bound found binding) rfl served)
    rw [hfire, if_pos rfl, ih (ready.rest served) fired, Outcome.after_mk, List.append_assoc]
  | @beyond depth left rule rules around r e e₂ e₃ e₄ own' lower before found served below goesOn
      rest ih =>
    have hbelow := below.fireFirst_eq (ready.below served)
    have hfire := fireFirst_of_goesOn rules
      (fire_of_executed (get?_bound found binding) rfl (ready.bound binding) served hbelow)
    rw [hfire, if_pos (decide_eq_true goesOn), ih (ready.beyond served hbelow) fired,
      Outcome.after_mk, List.append_assoc (own' ++ lower)]
  | @under depth left rule rules around r e e₂ e₃ own' before found served below ih =>
    have hbelow := ih (ready.below served) fired
    rw [fireFirst_of_exhausted rules
      (fire_of_exhaustedBelow (get?_bound found binding) rfl (ready.bound binding) served hbelow),
      List.append_assoc]

theorem ends_or_enters {e₂ : Engine H} {lower : List (Event N)} (rules : List RuleId)
    (found : e.forest.get? rule = some r)
    (served : serve b (run b depth) rule binding r.strategy (e.bound binding rule) =
      ⟨.done true, e₁, own⟩)
    (below : Traverses b binding depth (e₁.forest.childrenOf rule) e₁ ⟨.done (), e₂, lower⟩) :
    Traverses b binding (depth + 1) (rule :: rules) e ⟨.done (), e₂, own ++ lower⟩ ∨
      ∃ q, Enters b binding q (depth + 1) (rule :: rules) e [] depth e₂ (own ++ lower) := by
  cases hs : r.strategy with
  | bestFirst => exact .inl (.stopped found served below hs)
  | chain =>
    cases rules with
    | nil =>
      have hend := Traverses.passed found served below hs .nil
      rw [List.append_nil] at hend
      exact .inl hend
    | cons q rules =>
      have hhere : Enters b binding q (depth + 1) (q :: rules) e₂ [] depth e₂ [] := .here
      have hin := Enters.beyond found served below hs hhere
      rw [List.append_nil] at hin
      exact .inr ⟨q, hin⟩

theorem Enters.next {executed : Bool}
    (h : Enters b binding target depth rules e around left e₀ before)
    (found : e₀.forest.get? target = some r)
    (served : serve b (run b left) target binding r.strategy (e₀.bound binding target) =
      ⟨.done executed, e₁, own⟩) :
    Traverses b binding depth rules e ⟨.done (), e₁, before ++ own⟩ ∨
      (∃ q around' left', Enters b binding q depth rules e around' left' e₁ (before ++ own)) ∨
      left = 0 ∧ executed = true ∧ e₁.forest.childrenOf target ≠ [] := by
  induction h with
  | @here depth rules e =>
    cases executed with
    | false =>
      cases rules with
      | nil =>
        have hend := Traverses.declined found served .nil
        rw [List.append_nil] at hend
        exact .inl hend
      | cons q rules =>
        have hhere : Enters b binding q (depth + 1) (q :: rules) e₁ [] depth e₁ [] := .here
        have hin := Enters.later found served hhere
        rw [List.append_nil] at hin
        exact .inr (.inl ⟨q, _, _, hin⟩)
    | true =>
      cases hc : e₁.forest.childrenOf target with
      | nil =>
        have hbelow :
            Traverses b binding depth (e₁.forest.childrenOf target) e₁ ⟨.done (), e₁, []⟩ :=
          hc ▸ .nil
        have hends := ends_or_enters rules found served hbelow
        rw [List.append_nil] at hends
        exact hends.imp_right fun ⟨q, hin⟩ => .inl ⟨q, _, _, hin⟩
      | cons q children =>
        cases depth with
        | zero => exact .inr (.inr ⟨rfl, rfl, List.cons_ne_nil _ _⟩)
        | succ depth =>
          have hhere :
              Enters b binding q (depth + 1) (e₁.forest.childrenOf target) e₁ [] depth e₁ [] :=
            hc ▸ .here
          have hin : Enters b binding q _ (target :: rules) e _ _ _ _ := .under found served hhere
          rw [List.append_nil] at hin
          exact .inr (.inl ⟨q, _, _, hin⟩)
  | later found' served' rest ih =>
    rw [List.append_assoc]
    rcases ih found served with h | ⟨q, around', left', h⟩ | h
    · exact .inl (.declined found' served' h)
    · exact .inr (.inl ⟨q, _, _, .later found' served' h⟩)
    · exact .inr (.inr h)
  | beyond found' served' below goesOn rest ih =>
    rw [List.append_assoc]
    rcases ih found served with h | ⟨q, around', left', h⟩ | h
    · exact .inl (.passed found' served' below goesOn h)
    · exact .inr (.inl ⟨q, _, _, .beyond found' served' below goesOn h⟩)
    · exact .inr (.inr h)
  | @under depth left rule rules around r' e e₂ e₃ own' before found' served' below ih =>
    rw [List.append_assoc]
    rcases ih found served with h | ⟨q, around', left', h⟩ | h
    · exact (ends_or_enters rules found' served' h).imp_right fun ⟨q, hin⟩ => .inl ⟨q, _, _, hin⟩
    · exact .inr (.inl ⟨q, _, _, .under found' served' h⟩)
    · exact .inr (.inr h)

inductive Stems (b : Behavior H N) (binding : Binding) (depth : Nat) (rules : List RuleId)
    (e : Engine H) (a : Event N) : List (Event N) → Prop where
  | intro {target : RuleId} {around : List RuleId} {left : Nat} {r : Rule H} {e₀ e₁ : Engine H}
      {before pre post : List (Event N)} {ending : Ending Bool}
      (enters : Enters b binding target depth rules e around left e₀ before)
      (found : e₀.forest.get? target = some r)
      (served : serve b (run b left) target binding r.strategy (e₀.bound binding target) =
        ⟨ending, e₁, pre ++ a :: post⟩) :
      Stems b binding depth rules e a (before ++ pre)

section

variable {a : Event N} {u v more lower : List (Event N)} {ending : Ending Bool} {e₂ : Engine H}

theorem append_eq_append_cons (h : own ++ more = u ++ a :: v) :
    (∃ post, own = u ++ a :: post ∧ v = post ++ more) ∨
    ∃ u', u = own ++ u' ∧ more = u' ++ a :: v := by
  rcases List.append_eq_append_iff.mp h with ⟨u', hu, hmore⟩ | ⟨post, hown, hmore⟩
  · exact .inr ⟨u', hu, hmore⟩
  · rcases List.cons_eq_append_iff.mp hmore with ⟨rfl, hmore⟩ | ⟨post, rfl, hv⟩
    · exact .inr ⟨[], by rw [hown, List.append_nil, List.append_nil], hmore.symm⟩
    · exact .inl ⟨post, hown, hv⟩

theorem Stems.later (found : e.forest.get? rule = some r)
    (served : serve b (run b depth) rule binding r.strategy (e.bound binding rule) =
      ⟨.done false, e₁, own⟩)
    (h : Stems b binding (depth + 1) rules e₁ a u) :
    Stems b binding (depth + 1) (rule :: rules) e a (own ++ u) := by
  obtain ⟨enters, found', served'⟩ := h
  rw [← List.append_assoc]
  exact ⟨.later found served enters, found', served'⟩

theorem Stems.beyond (found : e.forest.get? rule = some r)
    (served : serve b (run b depth) rule binding r.strategy (e.bound binding rule) =
      ⟨.done true, e₁, own⟩)
    (below : Traverses b binding depth (e₁.forest.childrenOf rule) e₁ ⟨.done (), e₂, lower⟩)
    (goesOn : r.strategy = .chain) (h : Stems b binding (depth + 1) rules e₂ a u) :
    Stems b binding (depth + 1) (rule :: rules) e a (own ++ (lower ++ u)) := by
  obtain ⟨enters, found', served'⟩ := h
  rw [← List.append_assoc, ← List.append_assoc]
  exact ⟨.beyond found served below goesOn enters, found', served'⟩

theorem Stems.under (found : e.forest.get? rule = some r)
    (served : serve b (run b depth) rule binding r.strategy (e.bound binding rule) =
      ⟨.done true, e₁, own⟩)
    (h : Stems b binding depth (e₁.forest.childrenOf rule) e₁ a u) :
    Stems b binding (depth + 1) (rule :: rules) e a (own ++ u) := by
  obtain ⟨enters, found', served'⟩ := h
  rw [← List.append_assoc]
  exact ⟨.under found served enters, found', served'⟩

theorem Stems.of_own (found : e.forest.get? rule = some r)
    (served : serve b (run b depth) rule binding r.strategy (e.bound binding rule) =
      ⟨ending, e₁, own⟩)
    (h : own ++ more = u ++ a :: v)
    (hmore : ∀ u', more = u' ++ a :: v →
      Stems b binding (depth + 1) (rule :: rules) e a (own ++ u')) :
    Stems b binding (depth + 1) (rule :: rules) e a u := by
  rcases append_eq_append_cons h with ⟨post, rfl, -⟩ | ⟨u', rfl, hin⟩
  · exact ⟨.here, found, served⟩
  · exact hmore u' hin

theorem stems_of_fired (ready : Ready e rules)
    (hev : (fireFirst (fire b depth) binding rules e).events = u ++ a :: v)
    (silent : ∀ rule name status reported, a ≠ .reached rule name status reported) :
    Stems b binding depth rules e a u := by
  have hnil {u v : List (Event N)} (h : [] = u ++ a :: v) : False := by simp at h
  have hreport {e : Engine H} {rule : RuleId} {u v : List (Event N)}
      (h : [e.report binding rule .failed] = u ++ a :: v) : False := by
    rcases List.cons_eq_append_iff.mp h with ⟨-, hin⟩ | ⟨u', -, hin⟩
    · exact silent _ _ _ _ (List.cons.inj hin).1
    · exact hnil hin
  -- The children of a rule are one level down, the rules after it stay on this level.
  induction depth generalizing rules e u v with
  | zero =>
    cases rules with
    | nil => exact (hnil hev).elim
    | cons rule rules =>
      rw [fireFirst_of_exhausted rules rfl] at hev
      exact (hnil hev).elim
  | succ depth ihDepth =>
    induction rules generalizing e u v with
    | nil => exact (hnil hev).elim
    | cons rule rules ihRules =>
      obtain ⟨r, found⟩ := Forest.exists_get? (ready.present rule (by simp))
      have found' := get?_bound found binding
      have tidy' := ready.bound binding
      rcases served : serve b (run b depth) rule binding r.strategy (e.bound binding rule)
        with ⟨(_ | _) | x | _, e₁, own⟩
      · rw [fireFirst_of_goesOn rules (fire_of_declined found' rfl served), if_pos rfl] at hev
        exact .of_own found served hev fun u' hin =>
          .later found served (ihRules (ready.rest served) hin)
      · have hready := ready.below served
        rcases below : fireFirst (fire b depth) binding (e₁.forest.childrenOf rule) e₁
          with ⟨r', e₂, lower⟩
        have hlower {u' more v : List (Event N)} (h : lower ++ more = u' ++ a :: v)
            (hmore : ∀ u, more = u ++ a :: v →
              Stems b binding (depth + 1) (rule :: rules) e a (own ++ (lower ++ u))) :
            Stems b binding (depth + 1) (rule :: rules) e a (own ++ u') := by
          rcases append_eq_append_cons h with ⟨post, hin, -⟩ | ⟨u, rfl, hin⟩
          · exact .under found served (ihDepth hready ((congrArg Outcome.events below).trans hin))
          · exact hmore u hin
        rcases r' with ⟨⟨⟩⟩ | x | _
        · have hfire := fireFirst_of_goesOn rules (fire_of_executed found' rfl tidy' served below)
          cases hst : r.strategy with
          | chain =>
            have hbelow := fireFirst_traverses hready (by rw [below]; simp)
            rw [below] at hbelow
            have hready' := ready.beyond served below
            rw [hfire, if_pos (decide_eq_true hst), Outcome.after_events, List.append_assoc] at hev
            exact .of_own found served hev fun u' hin => hlower hin fun u hin =>
              .beyond found served hbelow hst (ihRules hready' hin)
          | bestFirst =>
            rw [hfire, if_neg (by simp [hst])] at hev
            exact .of_own found served hev fun u' hin =>
              hlower ((List.append_nil _).trans hin) fun u hin => (hnil hin).elim
        · rw [fireFirst_of_thrown rules (fire_of_failedBelow found' rfl tidy' served below)] at hev
          dsimp only at hev
          rw [List.append_assoc] at hev
          exact .of_own found served hev fun u' hin => hlower hin fun u hin => (hreport hin).elim
        · rw [fireFirst_of_exhausted rules (fire_of_exhaustedBelow found' rfl tidy' served below)]
            at hev
          exact .of_own found served hev fun u' hin =>
            hlower ((List.append_nil _).trans hin) fun u hin => (hnil hin).elim
      · rw [fireFirst_of_thrown rules (fire_of_failed found' rfl served)] at hev
        exact .of_own found served hev fun u' hin => (hreport hin).elim
      · rw [fireFirst_of_exhausted rules (fire_of_served_exhausted found' rfl served)] at hev
        exact .of_own found served ((List.append_nil _).trans hev) fun u' hin => (hnil hin).elim

end

end Act

end RuleForest
