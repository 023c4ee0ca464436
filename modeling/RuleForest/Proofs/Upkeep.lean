import RuleForest.Proofs.Outcome

namespace RuleForest

variable {H N α β : Type}

namespace Engine

def marked (e : Engine H) (rule : RuleId) (status : Status) : Engine H :=
  e.updateForest fun f => f.update rule fun r => { r with status }

def bound (e : Engine H) (binding : Binding) (rule : RuleId) : Engine H :=
  e.updateForest fun f => f.update rule fun r => { r with binding := some binding }

end Engine

def Binding.objection (binding : Binding) (name : String) (status : Status) : Option Value :=
  binding.reporter.bind fun report => report name status

namespace Act

theorem reach_apply (rule : RuleId) (binding : Binding) (status : Status) (e : Engine H) :
    (reach rule binding status : Act H N Unit) e =
      ⟨.barring (binding.objection (e.forest.nameOf rule) status), e.marked rule status,
        [.reached rule (e.forest.nameOf rule) status binding.reporter.isSome]⟩ := by
  cases h : binding.objection (e.forest.nameOf rule) status <;>
    simp only [Binding.objection] at h <;>
    simp [reach, h, Engine.marked]

def Upholds (R : Engine H → List (Event N) → Engine H → Prop) (act : Act H N α) : Prop :=
  ∀ e, R e (act e).events (act e).engine

end Act

/-- What a relation has to admit so that the engine itself never breaks it. -/
structure Upkeep (R : Engine H → List (Event N) → Engine H → Prop) : Prop where
  nil (e : Engine H) : R e [] e
  append {e e₁ e₂ : Engine H} {before after : List (Event N)} :
    R e before e₁ → R e₁ after e₂ → R e (before ++ after) e₂
  nested {e e₁ : Engine H} {events : List (Event N)} : R e events e₁ → R e [.nested events] e₁
  invoked (e : Engine H) (rule : RuleId) (phase : Phase) (view : View) :
    R e [.invoked rule phase view] e
  reached (e : Engine H) (rule : RuleId) (name : String) (status : Status) (reported : Bool) :
    R e [.reached rule name status reported] (e.marked rule status)
  logged (e : Engine H) (logger : Logger) (call : LogCall) : R e [.logged logger call] e
  bound (e : Engine H) (binding : Binding) (rule : RuleId) : R e [] (e.bound binding rule)
  logger (e : Engine H) : R e [] e.demandLogger.2

def Program.Obeys (allowed : Operation H N → Prop) : Program H N α → Prop
  | .done _ => True
  | .fail _ => True
  | .step op next => allowed op ∧ ∀ answer, (next answer).Obeys allowed

structure Behavior.Obeys (b : Behavior H N) (allowed : Operation H N → Prop) : Prop where
  evaluate (h : H) (view : View) : (b.evaluate h view).Obeys allowed
  execute (h : H) (stage : Stage) (view : View) : (b.execute h stage view).Obeys allowed

theorem Program.Obeys.mono {allowed more : Operation H N → Prop} (h : ∀ op, allowed op → more op)
    {p : Program H N α} (hp : p.Obeys allowed) : p.Obeys more := by
  induction p with
  | done a => trivial
  | fail x => trivial
  | step op next ih => exact ⟨h op hp.1, fun answer => ih answer (hp.2 answer)⟩

theorem Behavior.Obeys.mono {allowed more : Operation H N → Prop} {b : Behavior H N}
    (h : ∀ op, allowed op → more op) (hb : b.Obeys allowed) : b.Obeys more :=
  ⟨fun hook view => (hb.evaluate hook view).mono h,
    fun hook stage view => (hb.execute hook stage view).mono h⟩

theorem Program.obeys_of_forall {allowed : Operation H N → Prop} (h : ∀ op, allowed op)
    (p : Program H N α) : p.Obeys allowed := by
  induction p with
  | done a => trivial
  | fail x => trivial
  | step op next ih => exact ⟨h op, ih⟩

theorem Behavior.obeys_of_forall {allowed : Operation H N → Prop} (h : ∀ op, allowed op)
    (b : Behavior H N) : b.Obeys allowed :=
  ⟨fun _ _ => Program.obeys_of_forall h _, fun _ _ _ => Program.obeys_of_forall h _⟩

def Operation.Upheld (R : Engine H → List (Event N) → Engine H → Prop) (op : Operation H N) :
    Prop :=
  ∀ runs view, (∀ request, (runs request : Act H N Unit).Upholds R) →
  (op.perform runs view).Upholds R

variable {R : Engine H → List (Event N) → Engine H → Prop}

namespace Act.Upholds

theorem pure (hR : Upkeep R) (a : α) : (Pure.pure a : Act H N α).Upholds R := fun e => hR.nil e

theorem fail (hR : Upkeep R) (x : Thrown) : (Act.fail x : Act H N α).Upholds R := fun e => hR.nil e

theorem exhausted (hR : Upkeep R) : (Act.exhausted : Act H N α).Upholds R := fun e => hR.nil e

theorem state (hR : Upkeep R) : (Act.state : Act H N (Engine H)).Upholds R := fun e => hR.nil e

theorem bind (hR : Upkeep R) {act : Act H N α} {f : α → Act H N β} (ha : act.Upholds R)
    (hf : ∀ a, (f a).Upholds R) : (act >>= f).Upholds R := by
  intro e
  have he := ha e
  rcases Act.bind_cases act f e with ⟨a, e₁, es, h, ho⟩ | ⟨x, e₁, es, h, ho⟩ | ⟨e₁, es, h, ho⟩ <;>
    rw [h] at he <;> rw [ho]
  · exact hR.append he (hf a e₁)
  · exact he
  · exact he

theorem attempt {act : Act H N α} (ha : act.Upholds R) : act.attempt.Upholds R := by
  intro e
  have he := ha e
  rcases Act.attempt_cases act e with ⟨a, e₁, es, h, ho⟩ | ⟨x, e₁, es, h, ho⟩ | ⟨e₁, es, h, ho⟩ <;>
    rw [h] at he <;> rw [ho] <;> exact he

theorem asNested (hR : Upkeep R) {act : Act H N α} (ha : act.Upholds R) : act.asNested.Upholds R :=
  fun e => hR.nested (ha e)

theorem reach (hR : Upkeep R) (rule : RuleId) (binding : Binding) (status : Status) :
    (Act.reach rule binding status : Act H N Unit).Upholds R := by
  intro e
  rw [reach_apply]
  exact hR.reached e rule _ status _

theorem log (hR : Upkeep R) (logger : Logger) (call : LogCall) :
    (Act.log logger call : Act H N Unit).Upholds R := by
  intro e
  rw [log_apply]
  exact hR.logged e logger call

theorem failShowing (hR : Upkeep R) (v : Value) (f : Fault) :
    (Act.failShowing v f : Act H N α).Upholds R := by
  intro e
  simp only [Act.failShowing]
  cases f.showing v <;> exact hR.nil e

theorem rethrow (hR : Upkeep R) (rule : RuleId) (view : View) (x : Thrown)
    (fault : String → Value → Fault) :
    (Act.rethrow rule view x fault : Act H N α).Upholds R := by
  unfold Act.rethrow
  split
  · exact fail hR x
  · apply bind hR (state hR)
    intro e
    dsimp only
    split
    · exact fail hR _
    · exact failShowing hR _ _

theorem refuse (hR : Upkeep R) (rule : RuleId) (error : Option Value)
    (fault : String → Value → Fault) :
    (Act.refuse rule error fault : Act H N Unit).Upholds R := by
  unfold Act.refuse
  split
  · exact bind hR (fun e => hR.nil e) fun name => failShowing hR _ _
  · exact pure hR ()

theorem carryOut {runs : Request → Act H N Unit} (hR : Upkeep R)
    (hruns : ∀ request, (runs request).Upholds R) (view : View) {p : Program H N α}
    (hp : p.Obeys (Operation.Upheld R)) : (p.carryOut runs view).Upholds R := by
  induction p with
  | done a => exact pure hR a
  | fail x => exact fail hR x
  | step op next ih => exact bind hR (hp.1 runs view hruns) fun answer => ih answer (hp.2 answer)

section

variable {b : Behavior H N} {runs : Request → Act H N Unit}

theorem evaluate (hR : Upkeep R) (hb : b.Obeys (Operation.Upheld R))
    (hruns : ∀ request, (runs request).Upholds R) (rule : RuleId) (view : View) :
    (Act.evaluate b runs rule view).Upholds R := by
  apply bind hR fun e => hR.nil e
  intro hook
  cases hook with
  | none => exact pure hR true
  | some h =>
    apply bind hR fun e => hR.invoked e rule .evaluate view
    intro
    apply bind hR (carryOut hR hruns view (hb.evaluate h view)).attempt
    intro answer
    cases answer with
    | error x => exact rethrow hR rule view x _
    | ok verdict => exact bind hR (refuse hR rule _ _) fun _ => pure hR _

theorem runStage (hR : Upkeep R) (hb : b.Obeys (Operation.Upheld R))
    (hruns : ∀ request, (runs request).Upholds R) (rule : RuleId) (view : View) (stage : Stage) :
    (Act.runStage b runs rule view stage).Upholds R := by
  apply bind hR fun e => hR.nil e
  intro hook
  cases hook with
  | none => exact pure hR ()
  | some h =>
    apply bind hR fun e => hR.invoked e rule (.stage stage) view
    intro
    apply bind hR (carryOut hR hruns view (hb.execute h stage view)).attempt
    intro answer
    cases answer with
    | error x => exact rethrow hR rule view x _
    | ok error => exact refuse hR rule _ _

theorem serve (hR : Upkeep R) (hb : b.Obeys (Operation.Upheld R))
    (hruns : ∀ request, (runs request).Upholds R) (rule : RuleId) (binding : Binding)
    (strategy : Strategy) :
    (Act.serve b runs rule binding strategy).Upholds R := by
  apply bind hR (state hR)
  intro e
  dsimp only
  split
  · exact fail hR _
  · apply bind hR (evaluate hR hb hruns rule _)
    intro proceeds
    apply bind hR (reach hR rule binding .evaluated)
    intro
    split
    · apply bind hR (runStage hR hb hruns rule _ .preExecute)
      intro
      apply bind hR (runStage hR hb hruns rule _ .execute)
      intro
      apply bind hR (runStage hR hb hruns rule _ .postExecute)
      intro
      apply bind hR (reach hR rule binding .executed)
      intro
      apply bind hR (state hR)
      intro
      exact bind hR (log hR _ _) fun _ => pure hR _
    · apply bind hR (reach hR rule binding .skipped)
      intro
      apply bind hR fun e => hR.nil e
      intro
      exact bind hR (log hR _ _) fun _ => pure hR _

end

section

variable {fires : RuleId → Act H N Bool}

theorem fireFirst (hR : Upkeep R) (hfires : ∀ rule, (fires rule).Upholds R) (binding : Binding)
    (rules : List RuleId) : (Act.fireFirst fires binding rules).Upholds R := by
  induction rules with
  | nil => exact pure hR ()
  | cons rule rules ih =>
    apply bind hR fun e => hR.bound e binding rule
    intro
    apply bind hR (hfires rule)
    intro goesOn
    cases goesOn with
    | true => exact ih
    | false => exact pure hR ()

theorem dispatch (hR : Upkeep R) (hfires : ∀ rule, (fires rule).Upholds R) (request : Request)
    (logger : Logger) : (Act.dispatch fires request logger).Upholds R := by
  unfold Act.dispatch
  split
  · exact fail hR _
  · split
    · exact pure hR ()
    · apply bind hR (state hR)
      intro e
      apply bind hR
      · intro e'
        cases presentRules e.forest 0 request.rules <;> exact hR.nil e'
      · intro batch
        dsimp only
        split
        · exact failShowing hR _ _
        · apply bind hR fun e => hR.bound e _ _
          intro
          exact bind hR (hfires _) fun _ => pure hR ()
        · exact fail hR _
        · exact fireFirst hR hfires _ _

theorem runWith (hR : Upkeep R) (hfires : ∀ rule, (fires rule).Upholds R) (request : Request) :
    (Act.runWith fires request).Upholds R := by
  apply bind hR
  · intro e
    cases request.logger with
    | none => exact hR.logger e
    | some l => exact hR.nil e
  · intro logger
    apply bind hR (log hR _ _)
    intro
    apply bind hR (dispatch hR hfires request logger).attempt
    intro answer
    cases answer with
    | ok u => exact log hR _ _
    | error x =>
      dsimp only
      split
      · exact bind hR (log hR _ _) fun _ => fail hR x
      · exact fail hR _

theorem fireBound {b : Behavior H N} {runs : Request → Act H N Unit} (hR : Upkeep R)
    (hb : b.Obeys (Operation.Upheld R)) (hruns : ∀ request, (runs request).Upholds R)
    (hfires : ∀ rule, (fires rule).Upholds R) (rule : RuleId) (binding : Binding)
    (strategy : Strategy) :
    (Act.fireBound b runs fires rule binding strategy).Upholds R := by
  apply bind hR (serve hR hb hruns rule binding strategy)
  intro executed
  split
  · apply bind hR (state hR)
    intro
    exact bind hR (dispatch hR hfires _ _) fun _ => pure hR _
  · exact pure hR true

theorem fireOnce {b : Behavior H N} {runs : Request → Act H N Unit} (hR : Upkeep R)
    (hb : b.Obeys (Operation.Upheld R)) (hruns : ∀ request, (runs request).Upholds R)
    (hfires : ∀ rule, (fires rule).Upholds R) (rule : RuleId) :
    (Act.fireOnce b runs fires rule).Upholds R := by
  apply bind hR (state hR)
  intro e
  split
  · exact fail hR _
  · split
    · exact fail hR _
    · apply bind hR (fireBound hR hb hruns hfires rule _ _).attempt
      intro answer
      cases answer with
      | ok goesOn => exact pure hR goesOn
      | error x => exact bind hR (reach hR rule _ .failed) fun _ => fail hR x

end

end Act.Upholds

theorem Act.fire_upholds {b : Behavior H N} (hR : Upkeep R) (hb : b.Obeys (Operation.Upheld R))
    (depth : Nat) (rule : RuleId) : (Act.fire b depth rule).Upholds R := by
  induction depth generalizing rule with
  | zero => exact .exhausted hR
  | succ depth ih => exact .fireOnce hR hb (fun request => .runWith hR ih request) ih rule

theorem Act.run_upholds {b : Behavior H N} (hR : Upkeep R) (hb : b.Obeys (Operation.Upheld R))
    (depth : Nat) (request : Request) : (Act.run b depth request).Upholds R :=
  .runWith hR (Act.fire_upholds hR hb depth) request

end RuleForest
