import RuleForest.Proofs.Grammar

namespace RuleForest

variable {H N α α' β β' : Type}

structure Scope where
  contexts : ContextId → Prop
  signals : SignalId → Prop

namespace Scope

def all : Scope := ⟨fun _ => True, fun _ => True⟩

structure Covers (scope : Scope) (context : Option ContextId) (signal : Option SignalId) :
    Prop where
  context {id : ContextId} : context = some id → scope.contexts id
  signal {id : SignalId} : signal = some id → scope.signals id

theorem all_covers (context : Option ContextId) (signal : Option SignalId) :
    all.Covers context signal :=
  ⟨fun _ => trivial, fun _ => trivial⟩

end Scope

/-- How two runs are compared that go side by side within a scope and write to certain logs: by
their states and their events, by what rules throw that report to a reporter, by what leaves hooks
that are lent a signal, and by the errors that hooks report. If it is `lax`, the second may go on
where the first has run out of depth. -/
structure Pairing (H N : Type) where
  scope : Scope
  logs : Logger → Prop
  states : Engine H → Engine H → Prop
  events : List (Event N) → List (Event N) → Prop
  thrown : Option Reporter → Thrown → Thrown → Prop
  raised : Option SignalId → Thrown → Thrown → Prop
  reported : Value → Value → Prop
  lax : Prop

variable {P : Pairing H N} {thrown thrown' : Thrown → Thrown → Prop}

structure Pairing.Lends (P : Pairing H N) (context : Option ContextId) (signal : Option SignalId)
    (logger : Option Logger) : Prop extends P.scope.Covers context signal where
  log {l : Logger} : logger = some l → P.logs l

inductive Outcome.Paired (P : Pairing H N) (thrown : Thrown → Thrown → Prop)
    (answers : α → β → Prop) :
    Outcome H N α → Outcome H N β → Prop where
  | done {a : α} {b : β} {e e' : Engine H} {es es' : List (Event N)} (answer : answers a b)
      (state : P.states e e')
      (events : P.events es es') : Paired P thrown answers ⟨.done a, e, es⟩ ⟨.done b, e', es'⟩
  | thrown {x x' : Thrown} {e e' : Engine H} {es es' : List (Event N)} (what : thrown x x')
      (state : P.states e e')
      (events : P.events es es') : Paired P thrown answers ⟨.thrown x, e, es⟩ ⟨.thrown x', e', es'⟩
  | exhausted {e e' : Engine H} {es es' : List (Event N)} (state : P.states e e')
      (events : P.events es es') :
      Paired P thrown answers ⟨.exhausted, e, es⟩ ⟨.exhausted, e', es'⟩
  | cut {o : Outcome H N α} {o' : Outcome H N β} (lax : P.lax) (first : o.ending = .exhausted) :
      Paired P thrown answers o o'

inductive Attempted (thrown : Thrown → Thrown → Prop) (answers : α → β → Prop) :
    Except Thrown α → Except Thrown β → Prop where
  | ok {a : α} {b : β} (answer : answers a b) : Attempted thrown answers (.ok a) (.ok b)
  | error {x x' : Thrown} (what : thrown x x') : Attempted thrown answers (.error x) (.error x')

def Pairing.Keeps (P : Pairing H N) (thrown : Thrown → Thrown → Prop) (answers : α → β → Prop)
    (act : Act H N α) (act' : Act H N β) : Prop :=
  ∀ e e', P.states e e' → (act e).Paired P thrown answers (act' e')

inductive Thrown.Own (reporter : Option Reporter) (logs : Logger → Prop) : Thrown → Prop where
  | fault (f : Fault) : Own reporter logs (.ofFault f)
  | conversion : Own reporter logs { value := conversionError }
  | reported {report : Reporter} {name : String} {status : Status} {v : Value}
      (told : reporter = some report)
      (answered : report name status = some v) : Own reporter logs { value := v }
  | logged {l : Logger} {call : LogCall} {v : Value} (told : logs l)
      (answered : l.objection? call = some v) :
      Own reporter logs { value := v }

theorem Thrown.Own.showing (reporter : Option Reporter) (logs : Logger → Prop) (v : Value)
    (f : Fault) :
    Own reporter logs (.showing v f) := by
  unfold Thrown.showing Fault.showing
  split
  · next hshowing =>
    split at hshowing <;> cases hshowing
    exact .fault f
  · next hshowing =>
    split at hshowing <;> cases hshowing
    exact .conversion

theorem Thrown.Own.of_protest {binding : Binding} {logs : Logger → Prop}
    (told : logs binding.logger) {name : String} {strategy : Strategy} {children : Nat}
    {status : Status} {v : Value} (h : binding.protest name strategy children status = some v) :
    Own binding.reporter logs { value := v } := by
  rcases Option.or_eq_some_iff.mp h with h | ⟨-, h⟩
  · obtain ⟨report, told, answered⟩ := Option.bind_eq_some_iff.mp h
    exact .reported told answered
  · obtain ⟨call, -, answered⟩ := Option.bind_eq_some_iff.mp h
    exact .logged told answered

namespace Pairing

structure Composes (P : Pairing H N) : Prop where
  same (events : List (Event N)) : P.events events events
  append {before before' after after' : List (Event N)} :
    P.events before before' → P.events after after' →
    P.events (before ++ after) (before' ++ after')
  nested {events events' : List (Event N)} :
    P.events events events' → P.events [.nested events] [.nested events']

/-- A pairing that settles all that the engine itself looks at, but for the bindings and statuses of
the rules: these it only ever writes before it reads them. -/
structure Sound (P : Pairing H N) : Prop extends Composes P where
  design {e e' : Engine H} : P.states e e' → Forest.Agree Rule.design e.forest e'.forest
  logger {e e' : Engine H} : P.states e e' → e'.demandLogger.1 = e.demandLogger.1
  demanded {e e' : Engine H} : P.states e e' → P.states e.demandLogger.2 e'.demandLogger.2
  marked {e e' : Engine H} (rule : RuleId) (status : Status) : P.states e e' →
    P.states (e.marked rule status) (e'.marked rule status)
  bound {e e' : Engine H} (binding : Binding) (rule : RuleId) : P.states e e' →
    P.states (e.bound binding rule) (e'.bound binding rule)
  lent {e e' : Engine H} : P.states e e' → P.logs e.demandLogger.1
  own {reporter : Option Reporter} {x : Thrown} : x.Own reporter P.logs → P.thrown reporter x x
  refused {e e' : Engine H} {context : Option ContextId} {signal : Option SignalId} :
    P.states e e' →
    P.scope.Covers context signal → ∀ (reporter : Option Reporter) (rule : String),
      Option.Rel (fun f f' => P.thrown reporter (.ofFault f) (.ofFault f'))
      (entryFault? (e.signal? signal) (some rule))
        (entryFault? (e'.signal? signal) (some rule))
  blamed {e e' : Engine H} {context : Option ContextId} {signal : Option SignalId} {x x' : Thrown} :
    P.states e e' →
    P.scope.Covers context signal → P.raised signal x x' →
      ∀ (reporter : Option Reporter) (phase : Phase) (rule : String),
        P.thrown reporter (x.blamed phase (e.held signal) rule)
        (x'.blamed phase (e'.held signal) rule)
  given {v v' : Value} : P.reported v v' → v'.isGiven = v.isGiven
  shown {v v' : Value} :
    P.reported v v' → ∀ (reporter : Option Reporter) (phase : Phase) (rule : String),
    P.thrown reporter (.showing v (phase.fault rule v)) (.showing v' (phase.fault rule v'))
  hasText {reporter : Option Reporter} {x x' : Thrown} :
    P.thrown reporter x x' → x'.value.hasText = x.value.hasText
  payload {reporter : Option Reporter} {x x' : Thrown} :
    P.thrown reporter x x' → Act.failurePayload x'.value = Act.failurePayload x.value

end Pairing

namespace Outcome.Paired

variable {answers : α → α' → Prop} {more : β → β' → Prop} {act : Act H N α} {act' : Act H N α'}
  {e e' : Engine H}

theorem imp {more : α → α' → Prop} (hmore : ∀ a a', answers a a' → more a a') {o : Outcome H N α}
    {o' : Outcome H N α'} (h : o.Paired P thrown answers o') : o.Paired P thrown more o' := by
  cases h with
  | done answer state events => exact .done (hmore _ _ answer) state events
  | thrown what state events => exact .thrown what state events
  | exhausted state events => exact .exhausted state events
  | cut lax first => exact .cut lax first

theorem after (hP : P.Composes) {o : Outcome H N α} {o' : Outcome H N α'}
    (h : o.Paired P thrown answers o') {es es' : List (Event N)} (hevents : P.events es es') :
    (o.after es).Paired P thrown answers (o'.after es') := by
  cases h with
  | done answer state events => exact .done answer state (hP.append hevents events)
  | thrown what state events => exact .thrown what state (hP.append hevents events)
  | exhausted state events => exact .exhausted state (hP.append hevents events)
  | cut lax first => exact .cut lax first

theorem bind (hP : P.Composes) {f : α → Act H N β} {f' : α' → Act H N β'}
    (ha : (act e).Paired P thrown answers (act' e'))
    (hf : ∀ a a' e₁ e₁', answers a a' → P.states e₁ e₁' →
      (f a e₁).Paired P thrown more (f' a' e₁')) :
    ((act >>= f) e).Paired P thrown more ((act' >>= f') e') := by
  generalize ho : act e = o at ha
  generalize ho' : act' e' = o' at ha
  cases ha with
  | done answer state events =>
    rw [Act.bind_of_done ho, Act.bind_of_done ho']
    exact (hf _ _ _ _ answer state).after hP events
  | thrown what state events =>
    rw [Act.bind_of_thrown ho, Act.bind_of_thrown ho']
    exact .thrown what state events
  | exhausted state events =>
    rw [Act.bind_of_exhausted ho, Act.bind_of_exhausted ho']
    exact .exhausted state events
  | cut lax first =>
    refine .cut lax ?_
    obtain ⟨ending, e₁, es⟩ := o
    cases first
    rw [Act.bind_of_exhausted ho]

theorem attempt (h : (act e).Paired P thrown answers (act' e')) :
    (act.attempt e).Paired P thrown' (Attempted thrown answers) (act'.attempt e') := by
  generalize ho : act e = o at h
  generalize ho' : act' e' = o' at h
  cases h with
  | done answer state events =>
    rw [Act.attempt_of_done ho, Act.attempt_of_done ho']
    exact .done (.ok answer) state events
  | thrown what state events =>
    rw [Act.attempt_of_thrown ho, Act.attempt_of_thrown ho']
    exact .done (.error what) state events
  | exhausted state events =>
    rw [Act.attempt_of_exhausted ho, Act.attempt_of_exhausted ho']
    exact .exhausted state events
  | cut lax first =>
    refine .cut lax ?_
    obtain ⟨ending, e₁, es⟩ := o
    cases first
    rw [Act.attempt_of_exhausted ho]

theorem asNested (hP : P.Composes) (h : (act e).Paired P thrown answers (act' e')) :
    (act.asNested e).Paired P thrown answers (act'.asNested e') := by
  unfold Act.asNested
  generalize act e = o at h
  generalize act' e' = o' at h
  cases h with
  | done answer state events => exact .done answer state (hP.nested events)
  | thrown what state events => exact .thrown what state (hP.nested events)
  | exhausted state events => exact .exhausted state (hP.nested events)
  | cut lax first => exact .cut lax first

end Outcome.Paired

namespace Pairing

namespace Keeps

variable {answers : α → α' → Prop} {more : β → β' → Prop} {act : Act H N α} {act' : Act H N α'}

theorem bind (hP : P.Sound) {f : α → Act H N β} {f' : α' → Act H N β'}
    (ha : P.Keeps thrown answers act act')
    (hf : ∀ a a', answers a a' → P.Keeps thrown more (f a) (f' a')) :
    P.Keeps thrown more (act >>= f) (act' >>= f') :=
  fun e e' he => (ha e e' he).bind hP.toComposes fun a a' e₁ e₁' h he₁ => hf a a' h e₁ e₁' he₁

theorem attempt (h : P.Keeps thrown answers act act') :
    P.Keeps thrown' (Attempted thrown answers) act.attempt act'.attempt :=
  fun e e' he => (h e e' he).attempt

theorem asNested (hP : P.Sound) (h : P.Keeps thrown answers act act') :
    P.Keeps thrown answers act.asNested act'.asNested :=
  fun e e' he => (h e e' he).asNested hP.toComposes

theorem pure (hP : P.Sound) {a : α} {a' : α'} (h : answers a a') :
    P.Keeps thrown answers (pure a : Act H N α) (pure a') :=
  fun _ _ he => .done h he (hP.same [])

theorem fail (hP : P.Sound) {x x' : Thrown} (h : thrown x x') :
    P.Keeps thrown answers (Act.fail x : Act H N α) (Act.fail x') :=
  fun _ _ he => .thrown h he (hP.same [])

theorem emit (hP : P.Sound) (events : List (Event N)) :
    P.Keeps thrown Eq (Act.emit events : Act H N Unit) (Act.emit events) :=
  fun _ _ he => .done rfl he (hP.same events)

end Keeps

end Pairing

structure Verdict.Rel (reported : Value → Value → Prop) (verdict verdict' : Verdict) : Prop where
  shouldExecute : verdict'.shouldExecute = verdict.shouldExecute
  error : Option.Rel reported verdict.error verdict'.error

namespace Pairing

def Runs (P : Pairing H N) (runs runs' : Request → Act H N Unit) : Prop :=
  ∀ request : Request, P.Lends request.context request.signal request.logger →
    P.Keeps (P.thrown request.reporter) Eq (runs request) (runs' request)

structure Hooks (P : Pairing H N) (b b' : Behavior H N) : Prop where
  evaluate (h : H) {view : View} {runs runs' : Request → Act H N Unit} :
    P.Lends (some view.context) view.signal (some view.logger) → P.Runs runs runs' →
      P.Keeps (P.raised view.signal) (Verdict.Rel P.reported)
      ((b.evaluate h view).carryOut runs view)
        ((b'.evaluate h view).carryOut runs' view)
  execute (h : H) (stage : Stage) {view : View} {runs runs' : Request → Act H N Unit} :
    P.Lends (some view.context) view.signal (some view.logger) → P.Runs runs runs' →
      P.Keeps (P.raised view.signal) (Option.Rel P.reported)
      ((b.execute h stage view).carryOut runs view)
        ((b'.execute h stage view).carryOut runs' view)

end Pairing

theorem Forest.Agree.size_eq {aspect : Rule H → α} {f g : Forest H} (h : Agree aspect f g) :
    g.rules.size = f.rules.size := by
  refine Nat.le_antisymm (Nat.le_of_not_lt fun hlt => ?_) (Nat.le_of_not_lt fun hlt => ?_)
  · exact Nat.lt_irrefl _ (h.symm.lt_size hlt)
  · exact Nat.lt_irrefl _ (h.lt_size hlt)

theorem Act.presentRules_congr {f g : Forest H} (h : g.rules.size = f.rules.size) (index : Nat)
    (entries : List (Option RuleId)) :
    presentRules g index entries = presentRules f index entries := by
  have hp (entry : Option RuleId) : g.present? entry = f.present? entry := by
    simp only [Forest.present?, h]
  induction entries generalizing index with
  | nil => rfl
  | cons entry entries ih => simp only [presentRules, hp, ih]

theorem Forest.Agree.shape_of_design {f g : Forest H} (h : Agree Rule.design f g) :
    Agree Rule.shape f g :=
  h.map Rule.shape

namespace Pairing.Sound

open Pairing

variable {b b' : Behavior H N} {runs runs' : Request → Act H N Unit} {rule : RuleId}
  {binding : Binding} {view : View}
variable {reporter : Option Reporter} {e e' : Engine H}

section

variable (hP : P.Sound)
include hP

theorem hook? (rule : RuleId) (phase : Phase) :
    P.Keeps thrown Eq (Act.hook? rule phase : Act H N (Option H)) (Act.hook? rule phase) := by
  intro e e' he
  rw [Act.hook?_apply, Act.hook?_apply]
  exact .done ((hP.design he).hook? rule phase).symm he (hP.same [])

theorem failShowing (v : Value) (f : Fault) :
    P.Keeps (P.thrown reporter) Eq (Act.failShowing v f : Act H N α) (Act.failShowing v f) := by
  intro e e' he
  rw [Act.failShowing_apply, Act.failShowing_apply]
  exact .thrown (hP.own (.showing reporter P.logs v f)) he (hP.same [])

theorem failWith (f : Fault) :
    P.Keeps (P.thrown reporter) Eq (Act.failWith f : Act H N α) (Act.failWith f) :=
  .fail hP (hP.own (.fault f))

theorem reach (rule : RuleId) (binding : Binding) (status : Status) :
    P.Keeps (P.thrown binding.reporter) Eq (Act.reach rule binding status : Act H N Unit)
      (Act.reach rule binding status) := by
  intro e e' he
  rw [Act.reach_apply, Act.reach_apply, (hP.design he).nameOf]
  cases hobjection : binding.objection (e.forest.nameOf rule) status with
  | none => exact .done rfl (hP.marked rule status he) (hP.same _)
  | some v =>
    obtain ⟨report, told, answered⟩ := Option.bind_eq_some_iff.mp hobjection
    exact .thrown (hP.own (.reported told answered)) (hP.marked rule status he) (hP.same _)

theorem log {logger : Logger} (told : P.logs logger) (call : LogCall) :
    P.Keeps (P.thrown reporter) Eq (Act.log logger call : Act H N Unit) (Act.log logger call) := by
  intro e e' he
  rw [Act.log_apply, Act.log_apply]
  cases hobjection : logger.objection? call with
  | none => exact .done rfl he (hP.same _)
  | some v => exact .thrown (hP.own (.logged told hobjection)) he (hP.same _)

theorem refuse (rule : RuleId) {error error' : Option Value} (phase : Phase)
    (h : Option.Rel P.reported error error') :
    P.Keeps (P.thrown reporter) Eq (Act.refuse rule error phase.fault : Act H N Unit)
      (Act.refuse rule error' phase.fault) := by
  intro e e' he
  rw [Act.refuse_apply, Act.refuse_apply, (hP.design he).nameOf]
  cases h with
  | none => exact .done rfl he (hP.same [])
  | @some v v' reported =>
    rw [Option.filter_some, Option.filter_some, hP.given reported]
    split
    · exact .thrown (hP.shown reported reporter phase _) he (hP.same [])
    · exact .done rfl he (hP.same [])

section

variable (covers : P.Lends (some view.context) view.signal (some view.logger))
include covers

theorem rethrow (rule : RuleId) {x x' : Thrown} (phase : Phase) (h : P.raised view.signal x x') :
    P.Keeps (P.thrown reporter) Eq (Act.rethrow rule view x phase.fault : Act H N α)
      (Act.rethrow rule view x' phase.fault) := by
  intro e e' he
  rw [Act.rethrow_apply, Act.rethrow_apply, (hP.design he).nameOf]
  exact .thrown (hP.blamed he covers.toCovers h reporter phase _) he (hP.same [])

variable (hb : P.Hooks b b') (hruns : P.Runs runs runs')
include hb hruns

theorem evaluate (rule : RuleId) :
    P.Keeps (P.thrown reporter) Eq (Act.evaluate b runs rule view)
      (Act.evaluate b' runs' rule view) := by
  apply Keeps.bind hP (hP.hook? rule .evaluate)
  rintro hook _ rfl
  cases hook with
  | none => exact .pure hP rfl
  | some h =>
    apply Keeps.bind hP (.emit hP _)
    rintro - - -
    apply Keeps.bind hP (hb.evaluate h covers hruns).attempt
    rintro _ _ (verdicts | raised)
    · apply Keeps.bind hP (hP.refuse rule .evaluate verdicts.error)
      rintro - - -
      exact .pure hP verdicts.shouldExecute.symm
    · exact hP.rethrow covers rule .evaluate raised

theorem runStage (rule : RuleId) (stage : Stage) :
    P.Keeps (P.thrown reporter) Eq (Act.runStage b runs rule view stage)
      (Act.runStage b' runs' rule view stage) := by
  apply Keeps.bind hP (hP.hook? rule (.stage stage))
  rintro hook _ rfl
  cases hook with
  | none => exact .pure hP rfl
  | some h =>
    apply Keeps.bind hP (.emit hP _)
    rintro - - -
    apply Keeps.bind hP (hb.execute h stage covers hruns).attempt
    rintro _ _ (reported | raised)
    · exact hP.refuse rule (.stage stage) reported
    · exact hP.rethrow covers rule (.stage stage) raised

theorem perform (rule : RuleId) {binding : Binding} (told : P.logs binding.logger) (duty : Duty) :
    P.Keeps (P.thrown binding.reporter) Eq (Act.perform b runs rule binding view duty)
      (Act.perform b' runs' rule binding view duty) := by
  cases duty with
  | call phase =>
    cases phase with
    | evaluate => exact .bind hP (hP.evaluate covers hb hruns rule) fun _ _ _ => .pure hP rfl
    | stage s => exact hP.runStage covers hb hruns rule s
  | tell status =>
    intro e e' he
    rw [Act.perform_tell, Act.perform_tell, (hP.design he).nameOf,
      (hP.design he).shape_of_design.childrenOf]
    cases hp : binding.protest (e.forest.nameOf rule) view.strategy
      (e.forest.childrenOf rule).length
        status with
    | none => exact .done rfl (hP.marked rule status he) (hP.same _)
    | some v => exact .thrown (hP.own (.of_protest told hp)) (hP.marked rule status he) (hP.same _)

theorem follow (rule : RuleId) {binding : Binding} (told : P.logs binding.logger)
    (plan : List Duty) :
    P.Keeps (P.thrown binding.reporter) Eq (Act.follow b runs rule binding view plan)
      (Act.follow b' runs' rule binding view plan) := by
  induction plan with
  | nil => exact .pure hP rfl
  | cons duty duties ih =>
    exact .bind hP (hP.perform covers hb hruns rule told duty) fun _ _ _ => ih

end

theorem serve (covers : P.Lends (some binding.context) binding.signal (some binding.logger))
    (hb : P.Hooks b b') (hruns : P.Runs runs runs') (rule : RuleId) (strategy : Strategy) :
    P.Keeps (P.thrown binding.reporter) Eq (Act.serve b runs rule binding strategy)
      (Act.serve b' runs' rule binding strategy) := by
  intro e e' he
  have hname := (hP.design he).nameOf rule
  have hview : binding.view e' rule strategy = binding.view e rule strategy := by
    simp only [Binding.view, hname]
  have hrefused := hP.refused he covers.toCovers binding.reporter (e.forest.nameOf rule)
  unfold entryFault? at hrefused
  rw [Act.serve_eq, Act.serve_eq, hname, hview]
  revert hrefused
  cases (e.signal? binding.signal).bind Signal.reason? with
  | some reason =>
    cases (e'.signal? binding.signal).bind Signal.reason? with
    | some reason' =>
      rintro (refused | -)
      exact .thrown refused he (hP.same [])
    | none => rintro ⟨⟩
  | none =>
    cases (e'.signal? binding.signal).bind Signal.reason? with
    | some reason' => rintro ⟨⟩
    | none =>
      intro _
      have hlent : P.Lends (some (binding.view e rule strategy).context)
          (binding.view e rule strategy).signal
          (some (binding.view e rule strategy).logger) := covers
      refine Keeps.bind hP (hP.evaluate hlent hb hruns rule) ?_ e e' he
      rintro proceeds _ rfl
      exact .bind hP (hP.follow hlent hb hruns rule (covers.log rfl) _) fun _ _ _ => .pure hP rfl

section

variable {fires fires' : RuleId → Act H N Bool}
variable (hfires : ∀ (binding : Binding) (rule : RuleId),
  P.Lends (some binding.context) binding.signal (some binding.logger) →
  P.Keeps (P.thrown binding.reporter) Eq (do Act.bindTo binding rule; fires rule)
    (do Act.bindTo binding rule; fires' rule))
include hfires

theorem fireFirst (covers : P.Lends (some binding.context) binding.signal (some binding.logger))
    (rules : List RuleId) :
    P.Keeps (P.thrown binding.reporter) Eq (Act.fireFirst fires binding rules)
      (Act.fireFirst fires' binding rules) := by
  induction rules with
  | nil => exact .pure hP rfl
  | cons rule rules ih =>
    simp only [Act.fireFirst, ← bind_assoc]
    apply Keeps.bind hP (hfires binding rule covers)
    rintro goesOn _ rfl
    cases goesOn with
    | true => exact ih
    | false => exact .pure hP rfl

theorem dispatch {request : Request} {logger : Logger}
    (covers : P.Lends request.context request.signal (some logger)) :
    P.Keeps (P.thrown request.reporter) Eq (Act.dispatch fires request logger)
      (Act.dispatch fires' request logger) := by
  cases hcontext : request.context with
  | none =>
    simp only [Act.dispatch, hcontext]
    exact hP.failWith .contextMissing
  | some context =>
    rw [hcontext] at covers
    have hbinding : P.Lends (some (request.binding context logger).context)
        (request.binding context logger).signal (some (request.binding context logger).logger) :=
        covers
    intro e e' he
    simp only [Act.dispatch, hcontext]
    split
    · exact Keeps.pure hP rfl e e' he
    · rw [Act.state_bind_apply, Act.state_bind_apply, Act.presentRules_congr (hP.design he).size_eq]
      rcases Act.presentRules e.forest 0 request.rules with fault | batch
      · exact hP.failWith fault e e' he
      · simp only [Act.ofExcept, pure_bind]
        rcases Strategy.ofValue? request.strategy with _ | _ | _
        · exact hP.failShowing _ _ e e' he
        · rcases batch with _ | ⟨root, _ | ⟨second, others⟩⟩
          · exact hP.failWith _ e e' he
          · simp only [← bind_assoc]
            refine Keeps.bind hP (hfires (request.binding context logger) root hbinding) ?_ e e' he
            exact fun _ _ _ => .pure hP rfl
          · exact hP.failWith _ e e' he
        · exact hP.fireFirst hfires hbinding batch e e' he

theorem runLogged {request : Request} {logger : Logger}
    (covers : P.Lends request.context request.signal (some logger)) :
    P.Keeps (P.thrown request.reporter) Eq
      (do
        Act.log logger request.startedCall
        match ← (Act.dispatch fires request logger).attempt with
        | .ok () => Act.log logger request.completedCall
        | .error x =>
          if x.value.hasText then
            Act.log logger (request.failedCall (Act.failurePayload x.value))
            Act.fail x
          else
            Act.fail { value := conversionError })
      (do
        Act.log logger request.startedCall
        match ← (Act.dispatch fires' request logger).attempt with
        | .ok () => Act.log logger request.completedCall
        | .error x =>
          if x.value.hasText then
            Act.log logger (request.failedCall (Act.failurePayload x.value))
            Act.fail x
          else
            Act.fail { value := conversionError }) := by
  apply Keeps.bind hP (hP.log (covers.log rfl) _)
  rintro - - -
  apply Keeps.bind hP (hP.dispatch hfires covers).attempt
  rintro _ _ (⟨⟨⟩⟩ | what)
  · exact hP.log (covers.log rfl) _
  · dsimp only
    rw [hP.hasText what, hP.payload what]
    split
    · exact .bind hP (hP.log (covers.log rfl) _) fun _ _ _ => .fail hP what
    · exact .fail hP (hP.own .conversion)

theorem runWith {request : Request}
    (covers : P.Lends request.context request.signal request.logger) :
    P.Keeps (P.thrown request.reporter) Eq (Act.runWith fires request)
      (Act.runWith fires' request) := by
  intro e e' he
  cases hgiven : request.logger with
  | some logger =>
    rw [hgiven] at covers
    have hrun := hP.runLogged hfires covers e e' he
    simp only [Act.runWith, hgiven]
    exact hrun
  | none =>
    have hlent : P.Lends request.context request.signal (some e.demandLogger.1) :=
      { covers.toCovers with
        log := fun hl => Option.some.inj hl ▸ hP.lent he }
    have hrun := hP.runLogged hfires hlent _ _ (hP.demanded he)
    have hl := Act.chooseLogger_apply (N := N) none e
    have hl' := Act.chooseLogger_apply (N := N) none e'
    rw [show (e'.choose none).1 = e.demandLogger.1 from hP.logger he] at hl'
    rw [Act.runWith, Act.runWith, hgiven, Act.bind_of_done hl, Act.bind_of_done hl']
    exact hrun

theorem fireBound (covers : P.Lends (some binding.context) binding.signal (some binding.logger))
    (hb : P.Hooks b b') (hruns : P.Runs runs runs') (rule : RuleId) (strategy : Strategy) :
    P.Keeps (P.thrown binding.reporter) Eq (Act.fireBound b runs fires rule binding strategy)
      (Act.fireBound b' runs' fires' rule binding strategy) := by
  apply Keeps.bind hP (hP.serve covers hb hruns rule strategy)
  rintro executed _ rfl
  cases executed with
  | false => exact .pure hP rfl
  | true =>
    intro e e' he
    simp only [if_true, Act.state_bind_apply]
    rw [(hP.design he).shape_of_design.childrenOf]
    let below : Request :=
      { strategy := .text strategy.text, context := some binding.context,
        rules := (e.forest.childrenOf rule).map some, signal := binding.signal,
        reporter := binding.reporter }
    have hbelow : P.Lends below.context below.signal (some binding.logger) := covers
    exact Keeps.bind hP (hP.dispatch hfires hbelow) (fun _ _ _ => .pure hP rfl) e e' he

theorem fireOnce (covers : P.Lends (some binding.context) binding.signal (some binding.logger))
    (hb : P.Hooks b b') (hruns : P.Runs runs runs') (rule : RuleId) :
    P.Keeps (P.thrown binding.reporter) Eq
      (do Act.bindTo binding rule; Act.fireOnce b runs fires rule)
      (do Act.bindTo binding rule; Act.fireOnce b' runs' fires' rule) := by
  intro e e' he
  have hbound := hP.bound binding rule he
  change Outcome.Paired P _ Eq (Act.fireOnce b runs fires rule (e.bound binding rule))
    (Act.fireOnce b' runs' fires' rule (e'.bound binding rule))
  unfold Act.fireOnce
  simp only [Act.state_bind_apply]
  cases found : e.forest.get? rule with
  | none =>
    have found' : e'.forest.get? rule = none := by
      have := (hP.design he) rule
      rwa [found, Option.map_none, eq_comm, Option.map_eq_none_iff] at this
    have hnone {e : Engine H} (h : e.forest.get? rule = none) :
        (e.bound binding rule).forest.get? rule = none := by
      simp [Engine.bound, Engine.updateForest, h]
    simp only [hnone found, hnone found']
    exact hP.failWith .contextMissing _ _ hbound
  | some r =>
    obtain ⟨r', found', hr⟩ := (hP.design he).exists_of_get? found
    have hstrategy : r'.design.strategy = r.design.strategy := congrArg Rule.strategy hr
    change r'.strategy = r.strategy at hstrategy
    simp only [Act.get?_bound found binding, Act.get?_bound found' binding, hstrategy]
    refine Keeps.bind hP (hP.fireBound hfires covers hb hruns rule r.strategy).attempt ?_ _ _ hbound
    rintro _ _ (rfl | what)
    · exact .pure hP rfl
    · exact .bind hP (hP.reach rule binding .failed) fun _ _ _ => .fail hP what

end

theorem fire (hb : P.Hooks b b') {depth more : Nat} (hd : depth = more ∨ P.lax ∧ depth ≤ more)
    (covers : P.Lends (some binding.context) binding.signal (some binding.logger)) (rule : RuleId) :
    P.Keeps (P.thrown binding.reporter) Eq (do Act.bindTo binding rule; Act.fire b depth rule)
      (do Act.bindTo binding rule; Act.fire b' more rule) := by
  induction depth generalizing more binding rule with
  | zero =>
    intro e e' he
    rcases hd with rfl | ⟨lax, -⟩
    · exact .exhausted (hP.bound binding rule he) (hP.same [])
    · exact .cut lax rfl
  | succ depth ih =>
    obtain ⟨more, rfl⟩ : ∃ m, more = m + 1 := by
      cases more with
      | zero => omega
      | succ m => exact ⟨m, rfl⟩
    have hd : depth = more ∨ P.lax ∧ depth ≤ more := by
      rcases hd with hd | ⟨lax, hd⟩
      · exact .inl (Nat.succ.inj hd)
      · exact .inr ⟨lax, Nat.le_of_succ_le_succ hd⟩
    have hfires (binding : Binding) (rule : RuleId)
        (covers : P.Lends (some binding.context) binding.signal (some binding.logger)) :=
      ih hd covers rule
    have hruns : P.Runs (Act.run b depth) (Act.run b' more) :=
      fun _ hcovers => hP.runWith hfires hcovers
    exact hP.fireOnce hfires covers hb hruns rule

theorem run (hb : P.Hooks b b') {depth more : Nat} (hd : depth = more ∨ P.lax ∧ depth ≤ more)
    {request : Request} (covers : P.Lends request.context request.signal request.logger) :
    P.Keeps (P.thrown request.reporter) Eq (Act.run b depth request) (Act.run b' more request) :=
  hP.runWith (fun _ rule covers => hP.fire hb hd covers rule) covers

end

end Pairing.Sound

end RuleForest
