import RuleForest.Proofs.Service

namespace RuleForest

variable {H N : Type}

structure Request.Passes (request : Request) (f : Forest H) (context : ContextId)
    (rules : List RuleId) : Prop where
  context : request.context = some context
  entries : request.rules = rules.map some
  present : ∀ rule ∈ rules, rule < f.rules.size
  strategy : rules = [] ∨ ∃ strategy, Strategy.ofValue? request.strategy = some strategy ∧
    (strategy = .chain → rules.length = 1)

def Request.binding (request : Request) (context : ContextId) (logger : Logger) : Binding :=
  { context, signal := request.signal, logger, reporter := request.reporter }

theorem Strategy.ofValue?_text (strategy : Strategy) :
    ofValue? (.text strategy.text) = some strategy := by
  cases strategy <;> decide

def Binding.raised (binding : Binding) (name : String) (x : Thrown) : Thrown :=
  (binding.objection name .failed).elim x fun v => { value := v }

namespace Engine

def report (e : Engine H) (binding : Binding) (rule : RuleId) (status : Status) : Event N :=
  .reached rule (e.forest.nameOf rule) status binding.reporter.isSome

end Engine

namespace Act

theorem presentRules_map_some {f : Forest H} {rules : List RuleId}
    (h : ∀ rule ∈ rules, rule < f.rules.size) (index : Nat) :
    presentRules f index (rules.map some) = .ok rules := by
  induction rules generalizing index with
  | nil => rfl
  | cons rule rules ih =>
    have hp : f.present? (some rule) = some rule :=
      Forest.present?_eq_some.mpr ⟨rfl, h rule (by simp)⟩
    have hrest := ih (fun r hr => h r (List.mem_cons_of_mem _ hr)) (index + 1)
    simp only [List.map_cons, presentRules, hp, hrest, Except.map]

theorem dispatch_eq_fireFirst (fires : RuleId → Act H N Bool) {request : Request} (logger : Logger)
    {e : Engine H} {context : ContextId} {rules : List RuleId}
    (h : request.Passes e.forest context rules) :
    dispatch fires request logger e = fireFirst fires (request.binding context logger) rules e := by
  obtain ⟨hcontext, hentries, hpresent, hstrategy⟩ := h
  cases rules with
  | nil =>
    simp only [dispatch, hcontext, hentries, List.map_nil, List.isEmpty_nil, if_true]
    rfl
  | cons rule rules =>
    have hne : ¬rule :: rules = [] := List.cons_ne_nil _ _
    obtain ⟨strategy, hs, hone⟩ := hstrategy.resolve_left hne
    have hp := presentRules_map_some hpresent 0
    simp only [dispatch, hcontext, hentries, List.map_cons, List.isEmpty_cons, Bool.false_eq_true,
      if_false, state_bind_apply, hs]
    rw [← List.map_cons, hp]
    cases strategy with
    | bestFirst => rfl
    | chain =>
      have hnil : rules = [] := List.length_eq_zero_iff.mp (by simpa using hone rfl)
      subst hnil
      -- A chain batch ignores the answer of its only rule, which has no rules after it.
      change (bindTo (request.binding context logger) rule >>= fun _ => fires rule >>= fun _ =>
        pure ()) e = _
      refine congrFun (congrArg (bindTo _ rule >>= ·) (funext fun _ => ?_)) e
      refine congrArg (fires rule >>= ·) (funext fun goesOn => ?_)
      cases goesOn <;> rfl

/-- The course of firing rules that comes to an end, with `depth` levels left to descend. A rule
that has executed is followed by its children and, if it is a chain rule, by the rules after it. -/
inductive Traverses (b : Behavior H N) (binding : Binding) :
    Nat → List RuleId → Engine H → Outcome H N Unit → Prop where
  | nil {depth : Nat} {e : Engine H} : Traverses b binding depth [] e ⟨.done (), e, []⟩
  | declined {depth : Nat} {rule : RuleId} {rules : List RuleId} {r : Rule H} {e e₁ e₂ : Engine H}
      {own more : List (Event N)} {ending : Ending Unit} (found : e.forest.get? rule = some r)
      (served : serve b (run b depth) rule binding r.strategy (e.bound binding rule) =
        ⟨.done false, e₁, own⟩)
      (rest : Traverses b binding (depth + 1) rules e₁ ⟨ending, e₂, more⟩) :
      Traverses b binding (depth + 1) (rule :: rules) e ⟨ending, e₂, own ++ more⟩
  | passed {depth : Nat} {rule : RuleId} {rules : List RuleId} {r : Rule H} {e e₁ e₂ e₃ : Engine H}
      {own lower more : List (Event N)} {ending : Ending Unit} (found : e.forest.get? rule = some r)
      (served : serve b (run b depth) rule binding r.strategy (e.bound binding rule) =
        ⟨.done true, e₁, own⟩)
      (below : Traverses b binding depth (e₁.forest.childrenOf rule) e₁ ⟨.done (), e₂, lower⟩)
      (goesOn : r.strategy = .chain)
      (rest : Traverses b binding (depth + 1) rules e₂ ⟨ending, e₃, more⟩) :
      Traverses b binding (depth + 1) (rule :: rules) e ⟨ending, e₃, own ++ lower ++ more⟩
  | stopped {depth : Nat} {rule : RuleId} {rules : List RuleId} {r : Rule H} {e e₁ e₂ : Engine H}
      {own lower : List (Event N)} (found : e.forest.get? rule = some r)
      (served : serve b (run b depth) rule binding r.strategy (e.bound binding rule) =
        ⟨.done true, e₁, own⟩)
      (below : Traverses b binding depth (e₁.forest.childrenOf rule) e₁ ⟨.done (), e₂, lower⟩)
      (stops : r.strategy = .bestFirst) :
      Traverses b binding (depth + 1) (rule :: rules) e ⟨.done (), e₂, own ++ lower⟩
  | failed {depth : Nat} {rule : RuleId} {rules : List RuleId} {r : Rule H} {e e₁ : Engine H}
      {own : List (Event N)} {x : Thrown} (found : e.forest.get? rule = some r)
      (served : serve b (run b depth) rule binding r.strategy (e.bound binding rule) =
        ⟨.thrown x, e₁, own⟩) :
      Traverses b binding (depth + 1) (rule :: rules) e
        ⟨.thrown (binding.raised (e₁.forest.nameOf rule) x), e₁.marked rule .failed,
          own ++ [e₁.report binding rule .failed]⟩
  | failedBelow {depth : Nat} {rule : RuleId} {rules : List RuleId} {r : Rule H}
      {e e₁ e₂ : Engine H}
      {own lower : List (Event N)} {x : Thrown} (found : e.forest.get? rule = some r)
      (served : serve b (run b depth) rule binding r.strategy (e.bound binding rule) =
        ⟨.done true, e₁, own⟩)
      (below : Traverses b binding depth (e₁.forest.childrenOf rule) e₁ ⟨.thrown x, e₂, lower⟩) :
      Traverses b binding (depth + 1) (rule :: rules) e
        ⟨.thrown (binding.raised (e₂.forest.nameOf rule) x), e₂.marked rule .failed,
          own ++ lower ++ [e₂.report binding rule .failed]⟩

variable {b : Behavior H N} {depth : Nat} {rule : RuleId} {rules : List RuleId} {r : Rule H}
  {binding : Binding}
variable {e e₁ e₂ : Engine H} {own lower : List (Event N)}

theorem serve_upholds {R : Engine H → List (Event N) → Engine H → Prop} (hR : Upkeep R)
    (hb : b.Obeys (Operation.Upheld R)) (depth : Nat) (rule : RuleId) (binding : Binding)
    (strategy : Strategy) :
    (serve b (run b depth) rule binding strategy).Upholds R :=
  .serve hR hb (run_upholds hR hb depth) rule binding strategy

theorem serve_staysTidy {strategy : Strategy} {ending : Ending Bool}
    (h : serve b (run b depth) rule binding strategy e = ⟨ending, e₁, own⟩) :
    e.forest.StaysTidy e₁.forest := by
  have hs := serve_upholds Forest.StaysTidy.forestUpkeep.upkeep
    (b.obeys_of_forall Forest.StaysTidy.upheld) depth rule binding strategy e
  rwa [h] at hs

theorem fireFirst_staysTidy {ending : Ending Unit}
    (h : fireFirst (fire b depth) binding rules e = ⟨ending, e₁, own⟩) :
    e.forest.StaysTidy e₁.forest := by
  have hs := Upholds.fireFirst Forest.StaysTidy.forestUpkeep.upkeep
    (fire_upholds Forest.StaysTidy.forestUpkeep.upkeep (b.obeys_of_forall Forest.StaysTidy.upheld)
      depth) binding rules e
  rwa [h] at hs

theorem passes_children {e : Engine H} (binding : Binding) (found : e.forest.get? rule = some r)
    (tidy : e.forest.Tidy) :
    Request.Passes
      { strategy := .text r.strategy.text, context := some binding.context,
        rules := (e.forest.childrenOf rule).map some, signal := binding.signal,
        reporter := binding.reporter }
      e.forest binding.context (e.forest.childrenOf rule) := by
  have hchildren : e.forest.childrenOf rule = r.children := by simp [Forest.childrenOf, found]
  rw [hchildren]
  refine ⟨rfl, rfl, tidy.present found, ?_⟩
  rcases Nat.eq_zero_or_pos r.children.length with hl | hl
  · exact .inl (List.length_eq_zero_iff.mp hl)
  · refine .inr ⟨r.strategy, Strategy.ofValue?_text _, fun hs => ?_⟩
    have := tidy.narrow found hs
    omega

theorem dispatch_children (fires : RuleId → Act H N Bool) (binding : Binding)
    (found : e.forest.get? rule = some r) (tidy : e.forest.Tidy) :
    dispatch fires
      { strategy := .text r.strategy.text, context := some binding.context,
        rules := (e.forest.childrenOf rule).map some, signal := binding.signal,
        reporter := binding.reporter }
      binding.logger e = fireFirst fires binding (e.forest.childrenOf rule) e :=
  dispatch_eq_fireFirst fires binding.logger (passes_children binding found tidy)

theorem fireBound_of_executed (found : e.forest.get? rule = some r) (tidy : e.forest.Tidy)
    (served : serve b (run b depth) rule binding r.strategy e = ⟨.done true, e₁, own⟩) :
    fireBound b (run b depth) (fire b depth) rule binding r.strategy e =
      ((fireFirst (fire b depth) binding (e₁.forest.childrenOf rule) >>= fun _ =>
        pure (decide (r.strategy = .chain))) e₁).after own := by
  have hs := serve_staysTidy served
  obtain ⟨r₁, found₁, hr⟩ := hs.strategy.exists_of_get? found
  have hd := dispatch_children (fire b depth) binding found₁ (hs.tidy tidy)
  rw [fireBound, bind_of_done served]
  simp only [if_true, state_bind_apply]
  rw [← hr]
  congr 1
  rcases hf : fireFirst (fire b depth) binding (e₁.forest.childrenOf rule) e₁
    with ⟨⟨⟩ | x | _, e₂, lower⟩ <;>
    rw [hf] at hd
  · rw [bind_of_done hd, bind_of_done hf]
  · rw [bind_of_thrown hd, bind_of_thrown hf]
  · rw [bind_of_exhausted hd, bind_of_exhausted hf]

section

variable (found : e.forest.get? rule = some r) (lent : r.binding = some binding)
include found lent

theorem fire_eq :
    fire b (depth + 1) rule e =
      ((fireBound b (run b depth) (fire b depth) rule binding r.strategy).attempt >>= fun
        | .ok goesOn => pure goesOn
        | .error x => do
          reach rule binding .failed
          fail x) e := by
  simp only [fire, fireOnce, state_bind_apply, found, lent]
  rfl

theorem fire_of_declined
    (served : serve b (run b depth) rule binding r.strategy e = ⟨.done false, e₁, own⟩) :
    fire b (depth + 1) rule e = ⟨.done true, e₁, own⟩ := by
  have hb :
      fireBound b (run b depth) (fire b depth) rule binding r.strategy e =
      ⟨.done true, e₁, own⟩ := by
    rw [fireBound, bind_of_done served]
    simp
  rw [fire_eq found lent, bind_of_done (attempt_of_done hb)]
  simp

theorem fire_of_bound_thrown {x : Thrown}
    (h : fireBound b (run b depth) (fire b depth) rule binding r.strategy e =
      ⟨.thrown x, e₁, own⟩) :
    fire b (depth + 1) rule e =
      ⟨.thrown (binding.raised (e₁.forest.nameOf rule) x), e₁.marked rule .failed,
        own ++ [e₁.report binding rule .failed]⟩ := by
  rw [fire_eq found lent, bind_of_done (attempt_of_thrown h)]
  have hr := reach_apply (N := N) rule binding .failed e₁
  simp only [Binding.raised, Engine.report]
  cases ho : binding.objection (e₁.forest.nameOf rule) .failed <;> rw [ho] at hr
  · simp only [Option.elim_none] at hr ⊢
    rw [bind_of_done hr]
    rfl
  · simp only [Option.elim_some] at hr ⊢
    rw [bind_of_thrown hr]
    rfl

theorem fire_of_failed {x : Thrown}
    (served : serve b (run b depth) rule binding r.strategy e = ⟨.thrown x, e₁, own⟩) :
    fire b (depth + 1) rule e =
      ⟨.thrown (binding.raised (e₁.forest.nameOf rule) x), e₁.marked rule .failed,
        own ++ [e₁.report binding rule .failed]⟩ :=
  fire_of_bound_thrown found lent (bind_of_thrown served)

theorem fire_of_served_exhausted
    (served : serve b (run b depth) rule binding r.strategy e = ⟨.exhausted, e₁, own⟩) :
    fire b (depth + 1) rule e = ⟨.exhausted, e₁, own⟩ := by
  have hb :
      fireBound b (run b depth) (fire b depth) rule binding r.strategy e = ⟨.exhausted, e₁, own⟩ :=
    bind_of_exhausted served
  rw [fire_eq found lent, bind_of_exhausted (attempt_of_exhausted hb)]

variable (tidy : e.forest.Tidy)
variable (served : serve b (run b depth) rule binding r.strategy e = ⟨.done true, e₁, own⟩)
include tidy served

theorem fire_of_executed
    (below : fireFirst (fire b depth) binding (e₁.forest.childrenOf rule) e₁ =
      ⟨.done (), e₂, lower⟩) :
    fire b (depth + 1) rule e = ⟨.done (decide (r.strategy = .chain)), e₂, own ++ lower⟩ := by
  have hb := fireBound_of_executed found tidy served
  rw [bind_of_done below] at hb
  rw [fire_eq found lent, bind_of_done (attempt_of_done hb)]
  simp

theorem fire_of_failedBelow {x : Thrown}
    (below : fireFirst (fire b depth) binding (e₁.forest.childrenOf rule) e₁ =
      ⟨.thrown x, e₂, lower⟩) :
    fire b (depth + 1) rule e =
      ⟨.thrown (binding.raised (e₂.forest.nameOf rule) x), e₂.marked rule .failed,
        own ++ lower ++ [e₂.report binding rule .failed]⟩ := by
  have hb := fireBound_of_executed found tidy served
  rw [bind_of_thrown below] at hb
  exact fire_of_bound_thrown found lent hb

theorem fire_of_exhaustedBelow
    (below : fireFirst (fire b depth) binding (e₁.forest.childrenOf rule) e₁ =
      ⟨.exhausted, e₂, lower⟩) :
    fire b (depth + 1) rule e = ⟨.exhausted, e₂, own ++ lower⟩ := by
  have hb := fireBound_of_executed found tidy served
  rw [bind_of_exhausted below] at hb
  rw [fire_eq found lent, bind_of_exhausted (attempt_of_exhausted hb)]

end

theorem get?_bound (found : e.forest.get? rule = some r) (binding : Binding) :
    (e.bound binding rule).forest.get? rule = some { r with binding := some binding } := by
  simp [Engine.bound, Engine.updateForest, found]

theorem bound_staysTidy (e : Engine H) (binding : Binding) (rule : RuleId) :
    e.forest.StaysTidy (e.bound binding rule).forest :=
  Forest.StaysTidy.forestUpkeep.bound _ rule binding

theorem fireFirst_cons (fires : RuleId → Act H N Bool) (binding : Binding) (rule : RuleId)
    (rules : List RuleId) (e : Engine H) :
    fireFirst fires binding (rule :: rules) e =
      (fires rule >>= fun goesOn => if goesOn then fireFirst fires binding rules else pure ())
        (e.bound binding rule) := rfl

theorem fireFirst_of_goesOn (rules : List RuleId) {fires : RuleId → Act H N Bool} {goesOn : Bool}
    (h : fires rule (e.bound binding rule) = ⟨.done goesOn, e₁, own⟩) :
    fireFirst fires binding (rule :: rules) e =
      (if goesOn then (fireFirst fires binding rules e₁).after own else ⟨.done (), e₁, own⟩) := by
  rw [fireFirst_cons, bind_of_done h]
  cases goesOn <;> simp

theorem fireFirst_of_thrown (rules : List RuleId) {fires : RuleId → Act H N Bool} {x : Thrown}
    (h : fires rule (e.bound binding rule) = ⟨.thrown x, e₁, own⟩) :
    fireFirst fires binding (rule :: rules) e = ⟨.thrown x, e₁, own⟩ := by
  rw [fireFirst_cons, bind_of_thrown h]

theorem fireFirst_of_exhausted (rules : List RuleId) {fires : RuleId → Act H N Bool}
    (h : fires rule (e.bound binding rule) = ⟨.exhausted, e₁, own⟩) :
    fireFirst fires binding (rule :: rules) e = ⟨.exhausted, e₁, own⟩ := by
  rw [fireFirst_cons, bind_of_exhausted h]

structure Ready (e : Engine H) (rules : List RuleId) : Prop where
  tidy : e.forest.Tidy
  present : ∀ rule ∈ rules, rule < e.forest.rules.size

theorem Ready.tail (h : Ready e (rule :: rules)) (hs : e.forest.StaysTidy e₁.forest) :
    Ready e₁ rules :=
  ⟨hs.tidy h.tidy, fun q hq => hs.size ▸ h.present q (List.mem_cons_of_mem _ hq)⟩

theorem ready_children (h : e.forest.Tidy) (rule : RuleId) :
    Ready e (e.forest.childrenOf rule) := by
  refine ⟨h, ?_⟩
  intro c hc
  cases found : e.forest.get? rule with
  | none => simp [Forest.childrenOf, found] at hc
  | some r =>
    simp only [Forest.childrenOf, found, Option.map_some, Option.getD_some] at hc
    exact h.present found c hc

theorem Ready.bound (ready : Ready e (rule :: rules)) (binding : Binding) :
    (e.bound binding rule).forest.Tidy :=
  (bound_staysTidy e binding rule).tidy ready.tidy

section

variable {strategy : Strategy} {ending : Ending Bool}
  (served : serve b (run b depth) rule binding strategy (e.bound binding rule) =
    ⟨ending, e₁, own⟩)
include served

theorem served_staysTidy : e.forest.StaysTidy e₁.forest :=
  (bound_staysTidy e binding rule).trans (serve_staysTidy served)

variable (ready : Ready e (rule :: rules))
include ready

theorem Ready.rest : Ready e₁ rules := ready.tail (served_staysTidy served)

theorem Ready.below : Ready e₁ (e₁.forest.childrenOf rule) :=
  ready_children ((served_staysTidy served).tidy ready.tidy) rule

theorem Ready.beyond {ending : Ending Unit}
    (below : fireFirst (fire b depth) binding (e₁.forest.childrenOf rule) e₁ =
      ⟨ending, e₂, lower⟩) : Ready e₂ rules :=
  ready.tail ((served_staysTidy served).trans (fireFirst_staysTidy below))

end

theorem Traverses.fireFirst_eq {o : Outcome H N Unit} (h : Traverses b binding depth rules e o)
    (ready : Ready e rules) : fireFirst (fire b depth) binding rules e = o := by
  induction h with
  | nil => rfl
  | @declined depth rule rules r e e₁ e₂ own more ending found served rest ih =>
    have hfire := fireFirst_of_goesOn rules (fire_of_declined (get?_bound found binding) rfl served)
    rw [hfire, if_pos rfl, ih (ready.rest served), Outcome.after_mk]
  | @passed depth rule rules r e e₁ e₂ e₃ own lower more ending found served below goesOn rest
      ihBelow ih =>
    have hbelow := ihBelow (ready.below served)
    have hfire := fireFirst_of_goesOn rules
      (fire_of_executed (get?_bound found binding) rfl (ready.bound binding) served hbelow)
    rw [hfire, if_pos (decide_eq_true goesOn), ih (ready.beyond served hbelow), Outcome.after_mk]
  | @stopped depth rule rules r e e₁ e₂ own lower found served below stops ih =>
    have hbelow := ih (ready.below served)
    have hfire := fireFirst_of_goesOn rules
      (fire_of_executed (get?_bound found binding) rfl (ready.bound binding) served hbelow)
    rw [hfire, if_neg (by simp [stops])]
  | @failed depth rule rules r e e₁ own x found served =>
    exact fireFirst_of_thrown _ (fire_of_failed (get?_bound found binding) rfl served)
  | @failedBelow depth rule rules r e e₁ e₂ own lower x found served below ih =>
    have hbelow := ih (ready.below served)
    exact fireFirst_of_thrown _
      (fire_of_failedBelow (get?_bound found binding) rfl (ready.bound binding) served hbelow)

theorem fireFirst_traverses (ready : Ready e rules)
    (h : (fireFirst (fire b depth) binding rules e).ending ≠ .exhausted) :
    Traverses b binding depth rules e (fireFirst (fire b depth) binding rules e) := by
  induction depth generalizing rules e with
  | zero =>
    cases rules with
    | nil => exact .nil
    | cons rule rules => exact absurd (congrArg Outcome.ending (fireFirst_of_exhausted rules rfl)) h
  | succ depth ihDepth =>
    induction rules generalizing e with
    | nil => exact .nil
    | cons rule rules ihRules =>
      obtain ⟨r, found⟩ := Forest.exists_get? (ready.present rule (by simp))
      have found' := get?_bound found binding
      rcases served : serve b (run b depth) rule binding r.strategy (e.bound binding rule)
        with ⟨(_ | _) | x | _, e₁, own⟩
      · have hfire := fireFirst_of_goesOn rules (fire_of_declined found' rfl served)
        rw [if_pos rfl] at hfire
        rw [hfire] at h ⊢
        exact .declined found served (ihRules (ready.rest served) h)
      · have tidy' := ready.bound binding
        have hready := ready.below served
        rcases below : fireFirst (fire b depth) binding (e₁.forest.childrenOf rule) e₁
          with ⟨⟨⟩ | x | _, e₂, lower⟩
        · have hbelow := ihDepth hready (by rw [below]; simp)
          rw [below] at hbelow
          have hfire := fireFirst_of_goesOn rules (fire_of_executed found' rfl tidy' served below)
          cases hst : r.strategy with
          | chain =>
            rw [if_pos (decide_eq_true hst)] at hfire
            rw [hfire] at h ⊢
            exact .passed found served hbelow hst (ihRules (ready.beyond served below) h)
          | bestFirst =>
            rw [if_neg (by simp [hst])] at hfire
            rw [hfire]
            exact .stopped found served hbelow hst
        · have hbelow := ihDepth hready (by rw [below]; simp)
          rw [below] at hbelow
          have hfire :=
            fireFirst_of_thrown rules (fire_of_failedBelow found' rfl tidy' served below)
          rw [hfire]
          exact .failedBelow found served hbelow
        · have hfire := fireFirst_of_exhausted rules
            (fire_of_exhaustedBelow found' rfl tidy' served below)
          rw [hfire] at h
          exact absurd rfl h
      · have hfire := fireFirst_of_thrown rules (fire_of_failed found' rfl served)
        rw [hfire]
        exact .failed found served
      · have hfire := fireFirst_of_exhausted rules (fire_of_served_exhausted found' rfl served)
        rw [hfire] at h
        exact absurd rfl h

end Act

def Engine.choose (e : Engine H) : Option Logger → Logger × Engine H
  | some l => (l, e)
  | none => e.demandLogger

theorem Engine.choose_keeps {e e₁ : Engine H} {given : Option Logger} {logger : Logger}
    (chosen : e.choose given = (logger, e₁)) :
    e₁.forest = e.forest ∧ e₁.signals = e.signals ∧ e₁.contexts = e.contexts := by
  cases given with
  | some l =>
    cases chosen
    exact ⟨rfl, rfl, rfl⟩
  | none =>
    simp only [choose, demandLogger] at chosen
    split at chosen <;> cases chosen <;> exact ⟨rfl, rfl, rfl⟩

namespace Request

variable (request : Request) (logger : Logger)

def started : Event N := .logged logger request.startedCall

def lastCalls : Ending Unit → List LogCall
  | .done () => [request.completedCall]
  | .thrown x => if x.value.hasText then [request.failedCall (Act.failurePayload x.value)] else []
  | .exhausted => []

def verdict : Ending Unit → Ending Unit
  | .done () => .barring (logger.objection? request.completedCall)
  | .thrown x =>
    if x.value.hasText then
      (logger.objection? (request.failedCall (Act.failurePayload x.value))).elim (.thrown x)
        fun v => .thrown { value := v }
    else
      .thrown { value := conversionError }
  | .exhausted => .exhausted

def closing (r : Ending Unit) : List (Event N) := (request.lastCalls r).map (.logged logger)

variable {request logger}

theorem closing_logged {r : Ending Unit} {event : Event N} (h : event ∈ request.closing logger r) :
    ∃ call, event = .logged logger call := by
  obtain ⟨call, -, rfl⟩ := List.mem_map.mp h
  exact ⟨call, rfl⟩

theorem verdict_thrown (request : Request) (logger : Logger) (x : Thrown) :
    ∃ y, request.verdict logger (.thrown x) = .thrown y := by
  simp only [verdict]
  split
  · cases logger.objection? (request.failedCall (Act.failurePayload x.value)) with
    | none => exact ⟨x, rfl⟩
    | some v => exact ⟨{ value := v }, rfl⟩
  · exact ⟨_, rfl⟩

theorem verdict_eq_exhausted {r : Ending Unit} :
    request.verdict logger r = .exhausted ↔ r = .exhausted := by
  rcases r with ⟨⟨⟩⟩ | x | _
  · simp only [verdict, reduceCtorEq, iff_false]
    cases logger.objection? request.completedCall <;> simp
  · obtain ⟨y, hy⟩ := verdict_thrown request logger x
    simp [hy]
  · simp [verdict]

end Request

namespace Act

variable {b : Behavior H N} {depth : Nat} {request : Request} {context : ContextId}
variable {rules : List RuleId} {e e₁ e₂ : Engine H} {logger : Logger} {es : List (Event N)}
variable {r : Ending Unit}

theorem chooseLogger_apply (given : Option Logger) (e : Engine H) :
    (chooseLogger given : Act H N Logger) e =
      ⟨.done (e.choose given).1, (e.choose given).2, []⟩ := by
  cases given <;> rfl

section

variable (chosen : e.choose request.logger = (logger, e₁))
include chosen

theorem run_eq :
    run b depth request e =
      (log logger request.startedCall >>= fun _ =>
        (dispatch (fire b depth) request logger).attempt >>= fun
          | .ok () => log logger request.completedCall
          | .error x =>
            if x.value.hasText then do
              log logger (request.failedCall (failurePayload x.value))
              fail x
            else
              fail { value := conversionError }) e₁ := by
  have hl := chooseLogger_apply (N := N) request.logger e
  rw [chosen] at hl
  simp only [run, runWith]
  rw [bind_of_done hl]
  rfl

theorem run_of_muted {v : Value} (muted : logger.objection? request.startedCall = some v) :
    run b depth request e = ⟨.thrown { value := v }, e₁, [request.started logger]⟩ := by
  have hlog := log_apply (N := N) logger request.startedCall e₁
  rw [muted] at hlog
  rw [run_eq chosen]
  exact bind_of_thrown hlog

theorem run_of_dispatched (opened : logger.objection? request.startedCall = none)
    (h : dispatch (fire b depth) request logger e₁ = ⟨r, e₂, es⟩) :
    run b depth request e =
      ⟨request.verdict logger r, e₂,
        request.started logger :: (es ++ request.closing logger r)⟩ := by
  have hlog := log_apply (N := N) logger request.startedCall e₁
  rw [opened] at hlog
  rw [run_eq chosen, bind_of_done hlog]
  rcases r with ⟨⟨⟩⟩ | x | _
  · rw [bind_of_done (attempt_of_done h)]
    dsimp only
    rw [log_apply]
    rfl
  · rw [bind_of_done (attempt_of_thrown h), Request.verdict, Request.closing, Request.lastCalls]
    by_cases ht : x.value.hasText
    · have hlast := log_apply (N := N) logger (request.failedCall (failurePayload x.value)) e₂
      simp only [ht, if_true]
      cases ho : logger.objection? (request.failedCall (failurePayload x.value)) <;>
        rw [ho] at hlast
      · rw [bind_of_done hlast]
        rfl
      · rw [bind_of_thrown hlast]
        rfl
    · simp only [ht]
      rfl
  · rw [bind_of_exhausted (attempt_of_exhausted h), Request.closing, Request.lastCalls,
      List.map_nil, List.append_nil]
    rfl

theorem run_of_fired (opened : logger.objection? request.startedCall = none)
    (passes : request.Passes e.forest context rules)
    (fired : fireFirst (fire b depth) (request.binding context logger) rules e₁ = ⟨r, e₂, es⟩) :
    run b depth request e =
      ⟨request.verdict logger r, e₂,
        request.started logger :: (es ++ request.closing logger r)⟩ := by
  rw [← (Engine.choose_keeps chosen).1] at passes
  rw [← dispatch_eq_fireFirst (fire b depth) logger passes] at fired
  exact run_of_dispatched chosen opened fired

end

theorem run_cases (passes : request.Passes e.forest context rules) (tidy : e.forest.Tidy)
    (h : (run b depth request e).ending ≠ .exhausted) :
    ∃ logger e₁, e.choose request.logger = (logger, e₁) ∧
      ((∃ v, logger.objection? request.startedCall = some v ∧
          run b depth request e = ⟨.thrown { value := v }, e₁, [request.started logger]⟩) ∨
        logger.objection? request.startedCall = none ∧ ∃ r e₂ es, r ≠ .exhausted ∧
          Traverses b (request.binding context logger) depth rules e₁ ⟨r, e₂, es⟩ ∧
          run b depth request e =
            ⟨request.verdict logger r, e₂,
              request.started logger :: (es ++ request.closing logger r)⟩) := by
  rcases chosen : e.choose request.logger with ⟨logger, e₁⟩
  refine ⟨logger, e₁, rfl, ?_⟩
  cases ho : logger.objection? request.startedCall with
  | some v => exact .inl ⟨v, rfl, run_of_muted chosen ho⟩
  | none =>
    rcases hf : fireFirst (fire b depth) (request.binding context logger) rules e₁ with ⟨r, e₂, es⟩
    have hrun := run_of_fired chosen ho passes hf
    rw [hrun] at h
    rw [← (Engine.choose_keeps chosen).1] at passes tidy
    have hr : r ≠ .exhausted := fun hr => h (Request.verdict_eq_exhausted.mpr hr)
    have ht : Traverses b (request.binding context logger) depth rules e₁ ⟨r, e₂, es⟩ := by
      rw [← hf]
      exact fireFirst_traverses ⟨tidy, passes.present⟩ (by rw [hf]; exact hr)
    exact .inr ⟨rfl, r, e₂, es, hr, ht, hrun⟩

end Act

end RuleForest
