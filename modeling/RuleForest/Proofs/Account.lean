import RuleForest.Proofs.Halting

namespace RuleForest

variable {H N α : Type}

inductive Event.Early (b : Behavior H N) (rule : RuleId) (view : View) : Event N → Prop where
  | ofHook {event : Event N} {runs : Request → Act H N Unit} {hook : H} {phase : Phase}
      {e : Engine H}
      (mem : event ∈ (b.call runs hook phase view e).events) : Early b rule view event
  | invoked (phase : Phase) : Early b rule view (.invoked rule phase view)
  | evaluated (name : String) (reported : Bool) :
      Early b rule view (.reached rule name .evaluated reported)

inductive Closing (rule : RuleId) (binding : Binding) (strategy : Strategy) :
    Ending Bool → Engine H → List (Event N) → Prop where
  | early {ending : Ending Bool} {e : Engine H} (h : ∀ executed, ending ≠ .done executed) :
      Closing rule binding strategy ending e []
  | objected {x : Thrown} {e : Engine H} {name : String} {status : Status}
      (ended : status = .executed ∨ status = .skipped)
      (objects : (binding.objection name status).isSome) :
      Closing rule binding strategy (.thrown x) e
      [.reached rule name status binding.reporter.isSome]
  | unheard {x : Thrown} {e : Engine H} {name : String} {status : Status} {call : LogCall}
      (fine : binding.objection name status = none)
      (told : status.message? name strategy (e.forest.childrenOf rule).length = some call)
      (objects : (binding.logger.objection? call).isSome) :
      Closing rule binding strategy (.thrown x) e
        [.reached rule name status binding.reporter.isSome, .logged binding.logger call]
  | ended {e : Engine H} {name : String} {executed : Bool} {status : Status} {call : LogCall}
      (which : status = if executed then .executed else .skipped)
      (fine : binding.objection name status = none)
      (told : status.message? name strategy (e.forest.childrenOf rule).length = some call)
      (heard : binding.logger.objection? call = none) :
      Closing rule binding strategy (.done executed) e
        [.reached rule name status binding.reporter.isSome, .logged binding.logger call]

def Duty.opening (proceeds : Bool) : List Duty :=
  if proceeds then
    [tell .evaluated, call (.stage .preExecute), call (.stage .execute), call (.stage .postExecute)]
  else
    [tell .evaluated]

namespace Act

variable (b : Behavior H N) (runs : Request → Act H N Unit) (rule : RuleId) (binding : Binding)
  (view : View)

theorem settle_silent (phase : Phase) (answer : Except Thrown (Option Value)) (e : Engine H) :
    (settle rule view phase answer e : Outcome H N Unit).events = [] := by
  cases answer with
  | error x => rw [settle, rethrow_apply]
  | ok error => rw [settle, refuse_apply]

theorem perform_early {duty : Duty} (h : (∃ phase, duty = .call phase) ∨ duty = .tell .evaluated)
    (e : Engine H) :
    ∀ event ∈ (perform b runs rule binding view duty e).events, event.Early b rule view := by
  rcases h with ⟨phase, rfl⟩ | rfl
  · cases hset : (e.forest.get? rule).bind fun r => r.hook? phase with
    | none =>
      rw [perform_call_unset hset]
      simp
    | some hook =>
      rw [perform_call_eq hset, Outcome.after_events, List.singleton_append, List.forall_mem_cons]
      refine ⟨.invoked phase, forall_bind ?_ fun answer e => by simp [settle_silent]⟩
      have hcall (event : Event N) (hm : event ∈ (b.call runs hook phase view e).events) :
          event.Early b rule view :=
        .ofHook hm
      rcases attempt_cases (b.call runs hook phase view) e
        with ⟨a, e₁, es, h, ho⟩ | ⟨x, e₁, es, h, ho⟩ | ⟨e₁, es, h, ho⟩ <;> rw [h] at hcall <;>
        rw [ho] <;>
        exact hcall
  · rw [perform_tell]
    intro event hm
    rcases Binding.mem_telling hm with rfl | ⟨call, hcall, -⟩
    · exact .evaluated _ _
    · cases hcall

theorem follow_early {plan : List Duty}
    (h : ∀ duty ∈ plan, (∃ phase, duty = .call phase) ∨ duty = .tell .evaluated) (e : Engine H) :
    ∀ event ∈ (follow b runs rule binding view plan e).events, event.Early b rule view := by
  induction plan generalizing e with
  | nil => simp [follow]
  | cons duty duties ih =>
    exact forall_bind (perform_early b runs rule binding view (h duty (by simp)) e)
      fun _ e => ih (fun d hd => h d (List.mem_cons_of_mem _ hd)) e

theorem follow_append (plan more : List Duty) :
    follow b runs rule binding view (plan ++ more) =
      follow b runs rule binding view plan >>= fun _ => follow b runs rule binding view more := by
  induction plan with
  | nil => simp only [List.nil_append, follow, pure_bind]
  | cons duty duties ih => simp only [List.cons_append, follow, ih, bind_assoc]

theorem follow_closing (proceeds : Bool) (e : Engine H) :
    ∃ e₁ es, (follow b runs rule binding view [.tell (if proceeds then .executed else .skipped)] e =
        ⟨.done (), e₁, es⟩ ∧ Closing rule binding view.strategy (.done proceeds) e₁ es) ∨
      ∃ x, follow b runs rule binding view [.tell (if proceeds then .executed else .skipped)] e =
        ⟨.thrown x, e₁, es⟩ ∧ Closing rule binding view.strategy (.thrown x) e₁ es := by
  generalize hstatus : (if proceeds then Status.executed else .skipped) = status
  obtain ⟨call, hcall⟩ : ∃ call, status.message? (e.forest.nameOf rule) view.strategy
      (e.forest.childrenOf rule).length = some call := by
    cases proceeds <;> cases hstatus <;> exact ⟨_, rfl⟩
  have hchildren := Forest.childrenOf_marked e rule rule status
  have hfollow : follow b runs rule binding view [.tell status] =
      perform b runs rule binding view (.tell status) := bind_pure_unit
  rw [hfollow, perform_tell, Binding.protest, Binding.telling, hcall]
  refine ⟨e.marked rule status, ?_⟩
  cases ho : binding.objection (e.forest.nameOf rule) status with
  | some v =>
    refine ⟨_, .inr ⟨{ value := v }, rfl, .objected ?_ (by rw [ho]; rfl)⟩⟩
    cases proceeds <;> cases hstatus <;> simp
  | none =>
    rw [← hchildren] at hcall
    cases hv : binding.logger.objection? call with
    | some v => exact ⟨_, .inr ⟨{ value := v }, by simp [hv], .unheard ho hcall (by rw [hv]; rfl)⟩⟩
    | none => exact ⟨_, .inl ⟨by simp [hv], .ended hstatus.symm ho hcall hv⟩⟩

theorem serve_closing (strategy : Strategy) (e : Engine H) :
    ∃ early closing, (serve b runs rule binding strategy e).events = early ++ closing ∧
      (∀ event ∈ early, event.Early b rule (binding.view e rule strategy)) ∧
      Closing rule binding strategy (serve b runs rule binding strategy e).ending
        (serve b runs rule binding strategy e).engine closing := by
  have htail (proceeds : Bool) : (if proceeds then Duty.executing.tail else Duty.declining.tail) =
      Duty.opening proceeds ++ [.tell (if proceeds then .executed else .skipped)] := by
    cases proceeds <;> rfl
  have hopening (proceeds : Bool) :
      ∀ duty ∈ Duty.opening proceeds, (∃ phase, duty = .call phase) ∨ duty = .tell .evaluated := by
    cases proceeds <;> simp [Duty.opening]
  have hask :=
    perform_early b runs rule binding (binding.view e rule strategy) (.inl ⟨.evaluate, rfl⟩) e
  rw [perform, bind_pure_events] at hask
  rw [serve_eq]
  cases (e.signal? binding.signal).bind Signal.reason? with
  | some reason => exact ⟨[], [], rfl, by simp, .early (by simp)⟩
  | none =>
    dsimp only
    rcases bind_cases (evaluate b runs rule (binding.view e rule strategy)) _ e
      with ⟨proceeds, e₁, es, hv, ho⟩ | ⟨x, e₁, es, hv, ho⟩ | ⟨e₁, es, hv, ho⟩ <;> rw [ho] <;>
      rw [hv] at hask
    · have hearly :
        ∀ event ∈ es ++ (follow b runs rule binding (binding.view e rule strategy)
            (Duty.opening proceeds) e₁).events,
          event.Early b rule (binding.view e rule strategy) :=
        fun event hm => (List.mem_append.mp hm).elim (hask event)
          (follow_early b runs rule binding (binding.view e rule strategy) (hopening proceeds) e₁
            event)
      rw [htail, follow_append, bind_assoc]
      rcases bind_cases (follow b runs rule binding (binding.view e rule strategy)
        (Duty.opening proceeds)) _ e₁
        with ⟨⟨⟩, e₂, more, hf, ho'⟩ | ⟨x, e₂, more, hf, ho'⟩ | ⟨e₂, more, hf, ho'⟩ <;> rw [ho'] <;>
        rw [hf] at hearly
      · obtain ⟨e₃, last, ⟨hl, hc⟩ | ⟨x, hl, hc⟩⟩ :=
          follow_closing b runs rule binding (binding.view e rule strategy) proceeds e₂
        · rw [bind_of_done hl]
          exact ⟨es ++ more, last, by simp, hearly, hc⟩
        · rw [bind_of_thrown hl]
          exact ⟨es ++ more, last, by simp, hearly, hc⟩
      · exact ⟨es ++ more, [], by simp, hearly, .early (by simp)⟩
      · exact ⟨es ++ more, [], by simp, hearly, .early (by simp)⟩
    · exact ⟨es, [], (List.append_nil es).symm, hask, .early (by simp)⟩
    · exact ⟨es, [], (List.append_nil es).symm, hask, .early (by simp)⟩

theorem fire_staysTidy (b : Behavior H N) (depth : Nat) (rule : RuleId) (e : Engine H) :
    e.forest.StaysTidy (fire b depth rule e).engine.forest :=
  fire_upholds Forest.StaysTidy.forestUpkeep.upkeep (b.obeys_of_forall Forest.StaysTidy.upheld)
    depth rule e

end Act

def Binding.handDown (binding : Binding) (strategy : Strategy) (children : List RuleId) :
    Request where
  strategy := .text strategy.text
  context := some binding.context
  rules := children.map some
  signal := binding.signal
  reporter := binding.reporter

/-- What a property of lists of events has to admit to hold of the events of every batch that is
fired with `binding` in a forest whose rules have the strategies of `f`. -/
structure Account (b : Behavior H N) (binding : Binding) (f : Forest H)
    (P : List (Event N) → Prop) : Prop where
  nil : P []
  append {u v : List (Event N)} : P u → P v → P (u ++ v)
  early {rule : RuleId} {view : View} {event : Event N} (h : event.Early b rule view)
    (lent : view.context = binding.context ∧ view.signal = binding.signal ∧
      view.logger = binding.logger) : P [event]
  closing {rule : RuleId} {strategy : Strategy} {ending : Ending Bool} {e : Engine H}
    {es : List (Event N)}
    (known : f.strategyOf? rule = some strategy) (h : Closing rule binding strategy ending e es)
    (hne : ending ≠ .done true) : P es
  executed {rule : RuleId} {strategy : Strategy} {name : String} {depth : Nat} {e : Engine H}
    {lower : List (Event N)}
    (known : f.strategyOf? rule = some strategy) (fine : binding.objection name .executed = none)
    (heard : binding.logger.objection?
      (executedCall name strategy (e.forest.childrenOf rule).length) = none)
    (lowered :
      lower = (Act.dispatch (Act.fire b depth)
        (binding.handDown strategy (e.forest.childrenOf rule))
      binding.logger e).events)
    (below : P lower) :
    P (.reached rule name .executed binding.reporter.isSome ::
      .logged binding.logger (executedCall name strategy (e.forest.childrenOf rule).length) ::
        lower)
  failed (e : Engine H) (rule : RuleId) : P [e.report binding rule .failed]

namespace Account

open Act

variable {b : Behavior H N} {binding : Binding} {f : Forest H} {P : List (Event N) → Prop}
variable (h : Account b binding f P)
include h

theorem of_forall {es : List (Event N)} (hes : ∀ event ∈ es, P [event]) : P es := by
  induction es with
  | nil => exact h.nil
  | cons event es ih =>
    exact h.append (hes event (by simp)) (ih fun event hm => hes event (List.mem_cons_of_mem _ hm))

section

variable {depth : Nat}
variable (hfires : ∀ (rule : RuleId) (e : Engine H), Forest.Agree Rule.strategy f e.forest →
  P (Act.fire b depth rule (e.bound binding rule)).events)
include hfires

theorem fireFirst (rules : List RuleId) {e : Engine H}
    (he : Forest.Agree Rule.strategy f e.forest) :
    P (Act.fireFirst (Act.fire b depth) binding rules e).events := by
  induction rules generalizing e with
  | nil => exact h.nil
  | cons rule rules ih =>
    have hP := hfires rule e he
    have hs :=
      (bound_staysTidy e binding rule).trans (fire_staysTidy b depth rule (e.bound binding rule))
    rcases hf : Act.fire b depth rule (e.bound binding rule) with ⟨goesOn | x | _, e₁, es⟩ <;>
      rw [hf] at hP hs
    · rw [fireFirst_of_goesOn rules hf]
      cases goesOn with
      | true => exact h.append hP (ih (he.trans hs.strategy))
      | false => exact hP
    · rw [fireFirst_of_thrown rules hf]
      exact hP
    · rw [fireFirst_of_exhausted rules hf]
      exact hP

theorem dispatch_of_fires {request : Request} {logger : Logger}
    (hbinding : ∀ context, request.context = some context →
      request.binding context logger = binding)
    {e : Engine H} (he : Forest.Agree Rule.strategy f e.forest) :
    P (Act.dispatch (Act.fire b depth) request logger e).events := by
  rcases dispatch_cases request logger e with ⟨x, -, hx⟩ | ⟨context, rules, passes⟩
  · rw [hx]
    exact h.nil
  · rw [dispatch_eq_fireFirst _ logger passes, hbinding context passes.context]
    exact h.fireFirst hfires rules he

theorem fireBound {rule : RuleId} {strategy : Strategy} {e : Engine H}
    (he : Forest.Agree Rule.strategy f e.forest) (known : f.strategyOf? rule = some strategy) :
    P (Act.fireBound b (run b depth) (Act.fire b depth) rule binding strategy e).events := by
  obtain ⟨early, closing, hev, hearly, hclosing⟩ :=
    serve_closing b (run b depth) rule binding strategy e
  have hfirst : P early := h.of_forall fun event hm => h.early (hearly event hm) ⟨rfl, rfl, rfl⟩
  rcases served : serve b (run b depth) rule binding strategy e with ⟨(_ | _) | x | _, e₁, own⟩ <;>
    rw [served] at hev hclosing <;> dsimp only at hev hclosing <;> subst hev
  · rw [Act.fireBound, bind_of_done served, Outcome.after_events]
    simpa using h.append hfirst (h.closing known hclosing (by simp))
  · have hs : e.forest.StaysTidy e₁.forest := serve_staysTidy served
    cases hclosing with
    | early hne => exact absurd rfl (hne true)
    | ended which fine told heard =>
      obtain rfl := which
      obtain rfl := Option.some.inj told
      have hbelow :
          P (Act.dispatch (Act.fire b depth) (binding.handDown strategy (e₁.forest.childrenOf rule))
          binding.logger e₁).events := by
        apply h.dispatch_of_fires hfires _ (he.trans hs.strategy)
        rintro context ⟨⟩
        rfl
      have hall := h.append hfirst (h.executed known fine heard rfl hbelow)
      rw [Act.fireBound, bind_of_done served, Outcome.after_events]
      simp only [if_true, state_bind_apply, bind_pure_events, List.append_assoc, List.cons_append,
        List.nil_append]
      exact hall
  · rw [Act.fireBound, bind_of_thrown served]
    exact h.append hfirst (h.closing known hclosing (by simp))
  · rw [Act.fireBound, bind_of_exhausted served]
    exact h.append hfirst (h.closing known hclosing (by simp))

end

theorem fire (depth : Nat) (rule : RuleId) (e : Engine H)
    (he : Forest.Agree Rule.strategy f e.forest) :
    P (Act.fire b depth rule (e.bound binding rule)).events := by
  induction depth generalizing rule e with
  | zero => exact h.nil
  | succ depth ih =>
    cases found : e.forest.get? rule with
    | none =>
      have hnone : (e.bound binding rule).forest.get? rule = none := by
        simp [Engine.bound, Engine.updateForest, found]
      simp only [Act.fire, fireOnce, state_bind_apply, hnone]
      exact h.nil
    | some r =>
      have known : f.strategyOf? rule = some r.strategy := by
        rw [Forest.strategyOf?, he rule, found, Option.map_some]
      have found' := get?_bound found binding
      have hbound := h.fireBound ih (he.trans (bound_staysTidy e binding rule).strategy) known
      rcases hb : Act.fireBound b (run b depth) (Act.fire b depth) rule binding r.strategy
        (e.bound binding rule)
        with ⟨goesOn | x | _, e₁, es⟩ <;> rw [hb] at hbound
      · rw [fire_eq found' rfl, bind_of_done (attempt_of_done hb)]
        simpa using hbound
      · rw [fire_of_bound_thrown found' rfl hb]
        exact h.append hbound (h.failed e₁ rule)
      · rw [fire_eq found' rfl, bind_of_exhausted (attempt_of_exhausted hb)]
        exact hbound

theorem dispatch (depth : Nat) {request : Request} {logger : Logger}
    (hbinding : ∀ context, request.context = some context →
      request.binding context logger = binding)
    {e : Engine H} (he : Forest.Agree Rule.strategy f e.forest) :
    P (Act.dispatch (Act.fire b depth) request logger e).events :=
  h.dispatch_of_fires (h.fire depth) hbinding he

end Account

section

variable {b : Behavior H N} {binding : Binding} {f : Forest H} {Q : Event N → Prop}

theorem Account.forall_mem
    (early : ∀ {rule : RuleId} {view : View} {event : Event N}, event.Early b rule view →
      view.context = binding.context ∧ view.signal = binding.signal ∧ view.logger = binding.logger →
    Q event)
    (reached : ∀ rule name status reported, Q (.reached rule name status reported))
    (logged : ∀ logger call, Q (.logged logger call)) :
    Account b binding f fun es => ∀ event ∈ es, Q event := by
  constructor
  case nil => simp
  case append =>
    intro u v hu hv event hm
    exact (List.mem_append.mp hm).elim (hu event) (hv event)
  case early =>
    intro rule view event h lent event' hm
    rw [List.mem_singleton.mp hm]
    exact early h lent
  case closing =>
    intro rule strategy ending e es known h hne
    cases h <;> simp [reached, logged]
  case executed =>
    intro rule strategy name depth e lower known fine heard lowered below
    simpa [reached, logged] using below
  case failed => simp [Engine.report, reached]

theorem Act.run_forall_mem {request : Request} {logger : Logger} {e e₁ : Engine H} (depth : Nat)
    (chosen : e.choose request.logger = (logger, e₁)) (logged : ∀ call, Q (.logged logger call))
    (h : ∀ context, request.context = some context →
      Account b (request.binding context logger) e₁.forest fun es => ∀ event ∈ es, Q event) :
    ∀ event ∈ (run b depth request e).events, Q event := by
  have hbatch : ∀ event ∈ (Act.dispatch (Act.fire b depth) request logger e₁).events, Q event := by
    cases hcontext : request.context with
    | none => simp [Act.dispatch, hcontext]
    | some context =>
      apply (h context hcontext).dispatch depth _ (.refl _)
      intro context' hcontext'
      rw [hcontext, Option.some.injEq] at hcontext'
      rw [hcontext']
  cases opened : logger.objection? request.startedCall with
  | some v =>
    rw [run_of_muted chosen opened]
    exact List.forall_mem_singleton.mpr (logged _)
  | none =>
    rcases dispatched : Act.dispatch (Act.fire b depth) request logger e₁ with ⟨r, e₂, es⟩
    rw [dispatched] at hbatch
    rw [run_of_dispatched chosen opened dispatched]
    simp only [List.forall_mem_cons, List.forall_mem_append]
    refine ⟨logged _, hbatch, fun event hm => ?_⟩
    obtain ⟨call, rfl⟩ := Request.closing_logged hm
    exact logged call

end

end RuleForest
