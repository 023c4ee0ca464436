import RuleForest.Proofs.Signals

namespace RuleForest

variable {H N : Type}

inductive Duty where
  | call (phase : Phase)
  | tell (status : Status)

namespace Duty

def declining : List Duty := [call .evaluate, tell .evaluated, tell .skipped]

def executing : List Duty :=
  [call .evaluate, tell .evaluated, call (.stage .preExecute), call (.stage .execute),
    call (.stage .postExecute), tell .executed]

end Duty

def Status.message? (name : String) (strategy : Strategy) (children : Nat) : Status → Option LogCall
  | .executed => some (executedCall name strategy children)
  | .skipped => some (skippedCall name strategy)
  | _ => none

def Binding.protest (binding : Binding) (name : String) (strategy : Strategy) (children : Nat)
    (status : Status) : Option Value :=
  (binding.objection name status).or
    ((status.message? name strategy children).bind binding.logger.objection?)

def Binding.telling (binding : Binding) (rule : RuleId) (name : String) (strategy : Strategy)
    (children : Nat) (status : Status) : List (Event N) :=
  .reached rule name status binding.reporter.isSome ::
    if (binding.objection name status).isSome then []
    else (status.message? name strategy children).toList.map (.logged binding.logger)

theorem Binding.mem_telling {binding : Binding} {rule : RuleId} {name : String}
    {strategy : Strategy} {children : Nat} {status : Status} {event : Event N}
    (h : event ∈ binding.telling rule name strategy children status) :
    event = .reached rule name status binding.reporter.isSome ∨
      ∃ call, status.message? name strategy children = some call ∧
        event = .logged binding.logger call := by
  rcases List.mem_cons.mp h with rfl | h
  · exact .inl rfl
  · split at h
    · exact absurd h List.not_mem_nil
    · obtain ⟨call, hcall, rfl⟩ := List.mem_map.mp h
      exact .inr ⟨call, Option.mem_toList.mp hcall, rfl⟩

theorem Forest.nameOf_marked (e : Engine H) (rule q : RuleId) (status : Status) :
    (e.marked rule status).forest.nameOf q = e.forest.nameOf q :=
  (Agree.design_upkeep.marked e.forest rule status).nameOf q

theorem Forest.childrenOf_marked (e : Engine H) (rule q : RuleId) (status : Status) :
    (e.marked rule status).forest.childrenOf q = e.forest.childrenOf q :=
  (Agree.shape_upkeep.marked e.forest rule status).childrenOf q

def Phase.fault (phase : Phase) (name : String) (cause : Value) : Fault :=
  match phase with
  | .evaluate => .evaluation name cause
  | .stage s => .execution name s cause

def Thrown.showing (v : Value) (f : Fault) : Thrown :=
  match f.showing v with
  | .ok f => .ofFault f
  | .error x => { value := x }

def Thrown.blamed (x : Thrown) (phase : Phase) (signal : Option (SignalId × Signal))
    (name : String) :
    Thrown :=
  match x.value with
  | .fault (.missingKey _) => x
  | v => (asCancellation? x signal name).getD (.showing v (phase.fault name v))

def Engine.held (e : Engine H) (signal : Option SignalId) : Option (SignalId × Signal) :=
  signal.bind fun id => (e.signals.get? id).map fun s => (id, s)

def Behavior.call (b : Behavior H N) (runs : Request → Act H N Unit) (h : H) (phase : Phase)
    (view : View) :
    Act H N (Option Value) :=
  match phase with
  | .evaluate => do return (← (b.evaluate h view).carryOut runs view).error
  | .stage s => (b.execute h s view).carryOut runs view

def Binding.view (binding : Binding) (e : Engine H) (rule : RuleId) (strategy : Strategy) : View :=
  { name := e.forest.nameOf rule, strategy, context := binding.context, signal := binding.signal,
    logger := binding.logger }

namespace Act

variable (b : Behavior H N) (runs : Request → Act H N Unit) (rule : RuleId) (binding : Binding)
  (view : View)

def perform : Duty → Act H N Unit
  | .call .evaluate => do let _ ← evaluate b runs rule view
  | .call (.stage s) => runStage b runs rule view s
  | .tell .executed => do
    reach rule binding .executed
    let f := (← state).forest
    log binding.logger (executedCall (f.nameOf rule) view.strategy (f.childrenOf rule).length)
  | .tell .skipped => do
    reach rule binding .skipped
    log binding.logger (skippedCall (← ruleName rule) view.strategy)
  | .tell status => reach rule binding status

def follow : List Duty → Act H N Unit
  | [] => pure ()
  | duty :: duties => do
    perform b runs rule binding view duty
    follow duties

inductive Follows : List Duty → Engine H → Ending Unit → Engine H → List (Event N) → Prop where
  | nil {e : Engine H} : Follows [] e (.done ()) e []
  | pass {duty : Duty} {duties : List Duty} {e e₁ e₂ : Engine H} {r : Ending Unit}
      {es more : List (Event N)}
      (first : perform b runs rule binding view duty e = ⟨.done (), e₁, es⟩)
      (rest : Follows duties e₁ r e₂ more) : Follows (duty :: duties) e r e₂ (es ++ more)
  | fail {duty : Duty} {duties : List Duty} {e e₁ : Engine H} {x : Thrown} {es : List (Event N)}
      (first : perform b runs rule binding view duty e = ⟨.thrown x, e₁, es⟩) :
      Follows (duty :: duties) e (.thrown x) e₁ es

theorem follow_follows (plan : List Duty) (e : Engine H)
    (h : (follow b runs rule binding view plan e).ending ≠ .exhausted) :
    Follows b runs rule binding view plan e (follow b runs rule binding view plan e).ending
      (follow b runs rule binding view plan e).engine
        (follow b runs rule binding view plan e).events := by
  induction plan generalizing e with
  | nil => exact .nil
  | cons duty duties ih =>
    simp only [follow] at h ⊢
    rcases bind_cases (perform b runs rule binding view duty)
      (fun _ => follow b runs rule binding view duties) e
      with ⟨⟨⟩, e₁, es, hd, ho⟩ | ⟨x, e₁, es, hd, ho⟩ | ⟨e₁, es, hd, ho⟩ <;> rw [ho] at h ⊢
    · exact .pass hd (ih e₁ h)
    · exact .fail hd
    · exact absurd rfl h

variable {b runs rule binding view}

theorem perform_tell (status : Status) (e : Engine H) :
    perform b runs rule binding view (.tell status) e =
      ⟨.barring (binding.protest (e.forest.nameOf rule) view.strategy
          (e.forest.childrenOf rule).length status),
        e.marked rule status,
        binding.telling rule (e.forest.nameOf rule) view.strategy
          (e.forest.childrenOf rule).length status⟩ := by
  have hreach := reach_apply (N := N) rule binding status e
  cases ho : binding.objection (e.forest.nameOf rule) status with
  | some v =>
    rw [ho, Ending.barring_some] at hreach
    cases status <;> simp only [perform, bind_of_thrown hreach, hreach, Binding.protest,
      Binding.telling, ho, Option.some_or, Ending.barring_some, Option.isSome_some, if_true]
  | none =>
    rw [ho, Ending.barring_none] at hreach
    cases status <;> simp only [perform, bind_of_done hreach, hreach, state_bind_apply,
      ruleName_bind_apply, log_apply, Forest.nameOf_marked, Forest.childrenOf_marked,
      Binding.protest, Binding.telling, ho, Option.none_or, Status.message?, Option.bind_some,
      Option.bind_none, Option.isSome_none, Bool.false_eq_true, if_false, Option.toList_some,
      Option.toList_none, List.map_cons, List.map_nil, Ending.barring_none, Outcome.after_mk,
      List.singleton_append]

inductive Called (b : Behavior H N) (runs : Request → Act H N Unit) (rule : RuleId) (view : View)
    (phase : Phase) (e : Engine H) : Outcome H N Unit → Prop where
  | unset (unset : ((e.forest.get? rule).bind fun r => r.hook? phase) = none) :
      Called b runs rule view phase e ⟨.done (), e, []⟩
  | passed {h : H} {error : Option Value} {e₁ : Engine H} {es : List (Event N)}
      (set : ((e.forest.get? rule).bind fun r => r.hook? phase) = some h)
      (work : b.call runs h phase view e = ⟨.done error, e₁, es⟩)
      (fine : error.filter Value.isGiven = none) :
      Called b runs rule view phase e ⟨.done (), e₁, .invoked rule phase view :: es⟩
  | returned {h : H} {error : Option Value} {v : Value} {e₁ : Engine H} {es : List (Event N)}
      (set : ((e.forest.get? rule).bind fun r => r.hook? phase) = some h)
      (work : b.call runs h phase view e = ⟨.done error, e₁, es⟩)
      (given : error.filter Value.isGiven = some v) :
      Called b runs rule view phase e
        ⟨.thrown (.showing v (phase.fault (e₁.forest.nameOf rule) v)), e₁,
          .invoked rule phase view :: es⟩
  | threw {h : H} {x : Thrown} {e₁ : Engine H} {es : List (Event N)}
      (set : ((e.forest.get? rule).bind fun r => r.hook? phase) = some h)
      (work : b.call runs h phase view e = ⟨.thrown x, e₁, es⟩) :
      Called b runs rule view phase e
        ⟨.thrown (x.blamed phase (e₁.held view.signal) (e₁.forest.nameOf rule)), e₁,
          .invoked rule phase view :: es⟩

theorem failShowing_apply {α : Type} (v : Value) (f : Fault) (e : Engine H) :
    (failShowing v f : Act H N α) e = ⟨.thrown (.showing v f), e, []⟩ := by
  simp only [failShowing, Thrown.showing]
  cases f.showing v <;> rfl

theorem rethrow_apply {α : Type} (rule : RuleId) (view : View) (x : Thrown) (phase : Phase)
    (e : Engine H) :
    (rethrow rule view x phase.fault : Act H N α) e =
      ⟨.thrown (x.blamed phase (e.held view.signal) (e.forest.nameOf rule)), e, []⟩ := by
  by_cases hk : ∃ key, x.value = .fault (.missingKey key)
  · obtain ⟨key, hk⟩ := hk
    simp only [rethrow, Thrown.blamed, hk, fail_apply]
  · have hk' (key : String) : x.value ≠ .fault (.missingKey key) := fun h => hk ⟨key, h⟩
    simp only [rethrow, Thrown.blamed, state_bind_apply]
    change _ =
      Outcome.mk (.thrown ((asCancellation? x (e.held view.signal) (e.forest.nameOf rule)).getD _))
      e []
    cases h : asCancellation? x (e.held view.signal) (e.forest.nameOf rule) <;>
      simp only [Engine.held] at h
    · simp only [h, failShowing_apply, Option.getD_none]
    · simp only [h, fail_apply, Option.getD_some]

theorem refuse_apply (rule : RuleId) (error : Option Value) (phase : Phase) (e : Engine H) :
    (refuse rule error phase.fault : Act H N Unit) e =
      ⟨(error.filter Value.isGiven).elim (.done ())
        fun v => .thrown (.showing v (phase.fault (e.forest.nameOf rule) v)), e, []⟩ := by
  cases h : error.filter Value.isGiven with
  | some v => simp only [refuse, h, ruleName_bind_apply, failShowing_apply, Option.elim_some]
  | none => simp only [refuse, h, pure_apply, Option.elim_none]

def settle (rule : RuleId) (view : View) (phase : Phase) :
    Except Thrown (Option Value) → Act H N Unit
  | .error x => rethrow rule view x phase.fault
  | .ok error => refuse rule error phase.fault

theorem called_of_settled {h : H} {phase : Phase} {e : Engine H} {o : Outcome H N Unit}
    (set : ((e.forest.get? rule).bind fun r => r.hook? phase) = some h)
    (ho : ((b.call runs h phase view).attempt >>= settle rule view phase) e = o)
    (hne : o.ending ≠ .exhausted) :
    Called b runs rule view phase e (o.after [.invoked rule phase view]) := by
  subst ho
  rcases hw : b.call runs h phase view e with ⟨error | x | _, e₁, es⟩
  · rw [bind_of_done (attempt_of_done hw), settle, refuse_apply]
    cases hg : error.filter Value.isGiven with
    | none => simpa using Called.passed set hw hg
    | some v => simpa using Called.returned set hw hg
  · rw [bind_of_done (attempt_of_thrown hw), settle, rethrow_apply]
    simpa using Called.threw set hw
  · rw [bind_of_exhausted (attempt_of_exhausted hw)] at hne
    exact absurd rfl hne

theorem evaluate_settles {h : H} {e : Engine H}
    (set : ((e.forest.get? rule).bind fun r => r.hook? .evaluate) = some h) :
    perform b runs rule binding view (.call .evaluate) e =
      (((b.call runs h .evaluate view).attempt >>= settle rule view .evaluate) e).after
        [.invoked rule .evaluate view] := by
  simp only [perform, evaluate, bind_assoc, hook?_bind_apply, set, emit_bind_apply]
  congr 1
  rcases hw : (b.evaluate h view).carryOut runs view e with ⟨verdict | x | _, e₁, es⟩
  · have hw' : b.call runs h .evaluate view e = ⟨.done verdict.error, e₁, es⟩ := by
      simp only [Behavior.call, bind_of_done hw, pure_apply, Outcome.after_mk, List.append_nil]
    rw [bind_of_done (attempt_of_done hw), bind_of_done (attempt_of_done hw'), settle]
    congr 1
    have hr := refuse_apply (N := N) rule verdict.error .evaluate e₁
    cases hg : verdict.error.filter Value.isGiven <;> rw [hg] at hr
    · have hd :
        (refuse rule verdict.error .evaluation >>= fun _ =>
          pure verdict.shouldExecute : Act H N Bool) e₁ =
          ⟨.done verdict.shouldExecute, e₁, []⟩ := bind_of_done hr
      rw [hr]
      exact bind_of_done hd
    · rw [hr]
      exact bind_of_thrown (bind_of_thrown hr)
  · have hw' : b.call runs h .evaluate view e = ⟨.thrown x, e₁, es⟩ := by
      simp only [Behavior.call, bind_of_thrown hw]
    rw [bind_of_done (attempt_of_thrown hw), bind_of_done (attempt_of_thrown hw'), settle,
      rethrow_apply]
    congr 1
    exact bind_of_thrown (rethrow_apply rule view x .evaluate e₁)
  · have hw' : b.call runs h .evaluate view e = ⟨.exhausted, e₁, es⟩ := by
      simp only [Behavior.call, bind_of_exhausted hw]
    rw [bind_of_exhausted (attempt_of_exhausted hw), bind_of_exhausted (attempt_of_exhausted hw')]

theorem perform_call_eq {h : H} {phase : Phase} {e : Engine H}
    (set : ((e.forest.get? rule).bind fun r => r.hook? phase) = some h) :
    perform b runs rule binding view (.call phase) e =
      (((b.call runs h phase view).attempt >>= settle rule view phase) e).after
        [.invoked rule phase view] := by
  cases phase with
  | evaluate => exact evaluate_settles set
  | stage s =>
    simp only [perform, runStage, hook?_bind_apply, set]
    rfl

theorem perform_call_unset {phase : Phase} {e : Engine H}
    (unset : ((e.forest.get? rule).bind fun r => r.hook? phase) = none) :
    perform b runs rule binding view (.call phase) e = ⟨.done (), e, []⟩ := by
  cases phase <;> simp only [perform, evaluate, runStage, bind_assoc, hook?_bind_apply, unset] <;>
    rfl

theorem perform_called {phase : Phase} {e : Engine H}
    (hne : (perform b runs rule binding view (.call phase) e).ending ≠ .exhausted) :
    Called b runs rule view phase e (perform b runs rule binding view (.call phase) e) := by
  cases hset : (e.forest.get? rule).bind fun r => r.hook? phase with
  | none =>
    rw [perform_call_unset hset]
    exact .unset hset
  | some h =>
    rw [perform_call_eq hset] at hne ⊢
    exact called_of_settled hset rfl hne

inductive Served (b : Behavior H N) (runs : Request → Act H N Unit) (rule : RuleId)
    (binding : Binding) (strategy : Strategy) (e : Engine H) : Outcome H N Bool → Prop where
  | refused {reason : Value} (aborted : (e.signal? binding.signal).bind Signal.reason? =
    some reason) :
      Served b runs rule binding strategy e
        ⟨.thrown
          (.ofFault (.cancelled (some (e.forest.nameOf rule)) (describeReason reason)
            (some reason))), e, []⟩
  | executed {e₁ : Engine H} {es : List (Event N)}
      (clear : (e.signal? binding.signal).bind Signal.reason? = none)
      (course : Follows b runs rule binding (binding.view e rule strategy) Duty.executing e
        (.done ()) e₁ es) : Served b runs rule binding strategy e ⟨.done true, e₁, es⟩
  | declined {e₁ : Engine H} {es : List (Event N)}
      (clear : (e.signal? binding.signal).bind Signal.reason? = none)
      (course : Follows b runs rule binding (binding.view e rule strategy) Duty.declining e
        (.done ()) e₁ es) : Served b runs rule binding strategy e ⟨.done false, e₁, es⟩
  | failed {e₁ : Engine H} {es : List (Event N)} {x : Thrown} {plan : List Duty}
      (clear : (e.signal? binding.signal).bind Signal.reason? = none)
      (planned : plan = Duty.executing ∨ plan = Duty.declining)
      (course : Follows b runs rule binding (binding.view e rule strategy) plan e
        (.thrown x) e₁ es) : Served b runs rule binding strategy e ⟨.thrown x, e₁, es⟩

theorem serve_eq (strategy : Strategy) (e : Engine H) :
    serve b runs rule binding strategy e =
      match (e.signal? binding.signal).bind Signal.reason? with
      | some reason =>
        ⟨.thrown
          (.ofFault (.cancelled (some (e.forest.nameOf rule)) (describeReason reason)
            (some reason))), e, []⟩
      | none =>
        (do
          let proceeds ← evaluate b runs rule (binding.view e rule strategy)
          follow b runs rule binding (binding.view e rule strategy)
            (if proceeds then Duty.executing.tail else Duty.declining.tail)
          return proceeds : Act H N Bool) e := by
  simp only [serve, state_bind_apply, entryFault?]
  cases (e.signal? binding.signal).bind Signal.reason? with
  | some reason => rfl
  | none =>
    refine congrFun (congrArg (evaluate b runs rule (binding.view e rule strategy) >>= ·) ?_) e
    funext proceeds
    cases proceeds <;>
      simp only [Duty.executing, Duty.declining, List.tail_cons, follow, perform, Binding.view,
        bind_assoc, pure_bind, if_true, Bool.false_eq_true, if_false]

theorem evaluate_of_done (binding : Binding) {proceeds : Bool} {e e₁ : Engine H}
    {es : List (Event N)} (h : evaluate b runs rule view e = ⟨.done proceeds, e₁, es⟩) :
    perform b runs rule binding view (.call .evaluate) e = ⟨.done (), e₁, es⟩ := by
  rw [perform, bind_of_done h, pure_apply, Outcome.after_mk, List.append_nil]

theorem serve_events {strategy : Strategy} {e : Engine H}
    (clear : (e.signal? binding.signal).bind Signal.reason? = none) :
    ∃ plan, (plan = Duty.executing ∨ plan = Duty.declining) ∧
      (serve b runs rule binding strategy e).events =
        (follow b runs rule binding (binding.view e rule strategy) plan e).events := by
  have hplan (proceeds : Bool) : ∃ plan, (plan = Duty.executing ∨ plan = Duty.declining) ∧
      plan = .call .evaluate :: if proceeds then Duty.executing.tail else Duty.declining.tail := by
    cases proceeds
    · exact ⟨_, .inr rfl, rfl⟩
    · exact ⟨_, .inl rfl, rfl⟩
  simp only [serve_eq, clear]
  rcases bind_cases (evaluate b runs rule (binding.view e rule strategy)) _ e
    with ⟨proceeds, e₁, es, hv, ho⟩ | ⟨x, e₁, es, hv, ho⟩ | ⟨e₁, es, hv, ho⟩ <;> rw [ho]
  · obtain ⟨plan, planned, hplan⟩ := hplan proceeds
    refine ⟨plan, planned, ?_⟩
    rw [hplan, follow, bind_of_done (evaluate_of_done binding hv)]
    rw [Outcome.after_events, Outcome.after_events, bind_pure_events]
  · obtain ⟨plan, planned, hplan⟩ := hplan true
    have hcall : perform b runs rule binding (binding.view e rule strategy) (.call .evaluate) e =
        ⟨.thrown x, e₁, es⟩ := by rw [perform, bind_of_thrown hv]
    exact ⟨plan, planned, by rw [hplan, follow, bind_of_thrown hcall]⟩
  · obtain ⟨plan, planned, hplan⟩ := hplan true
    have hcall : perform b runs rule binding (binding.view e rule strategy) (.call .evaluate) e =
        ⟨.exhausted, e₁, es⟩ := by rw [perform, bind_of_exhausted hv]
    exact ⟨plan, planned, by rw [hplan, follow, bind_of_exhausted hcall]⟩

theorem serve_served {strategy : Strategy} {e : Engine H}
    (h : (serve b runs rule binding strategy e).ending ≠ .exhausted) :
    Served b runs rule binding strategy e (serve b runs rule binding strategy e) := by
  rw [serve_eq] at h ⊢
  cases hr : (e.signal? binding.signal).bind Signal.reason? with
  | some reason => exact .refused hr
  | none =>
    simp only [hr] at h ⊢
    rcases bind_cases (evaluate b runs rule (binding.view e rule strategy)) _ e
      with ⟨proceeds, e₁, es, hv, ho⟩ | ⟨x, e₁, es, hv, ho⟩ | ⟨e₁, es, hv, ho⟩ <;> rw [ho] at h ⊢
    · have hcall := evaluate_of_done binding hv
      rcases bind_cases (follow b runs rule binding (binding.view e rule strategy)
          (if proceeds then Duty.executing.tail else Duty.declining.tail)) (fun _ => pure proceeds)
            e₁
        with ⟨⟨⟩, e₂, more, hf, ho'⟩ | ⟨x, e₂, more, hf, ho'⟩ | ⟨e₂, more, hf, ho'⟩ <;>
        rw [ho'] at h ⊢
      · have hrest := follow_follows b runs rule binding (binding.view e rule strategy) _ e₁
          (by rw [hf]; simp)
        rw [hf] at hrest
        simp only [pure_apply, Outcome.after_mk, List.append_nil]
        cases proceeds with
        | true => exact .executed hr (.pass hcall hrest)
        | false => exact .declined hr (.pass hcall hrest)
      · have hrest := follow_follows b runs rule binding (binding.view e rule strategy) _ e₁
          (by rw [hf]; simp)
        rw [hf] at hrest
        cases proceeds with
        | true => exact .failed hr (.inl rfl) (.pass hcall hrest)
        | false => exact .failed hr (.inr rfl) (.pass hcall hrest)
      · exact absurd rfl h
    · have hcall : perform b runs rule binding (binding.view e rule strategy) (.call .evaluate) e =
          ⟨.thrown x, e₁, es⟩ := by rw [perform, bind_of_thrown hv]
      exact .failed hr (.inl rfl) (.fail hcall)
    · exact absurd rfl h

end Act

end RuleForest
