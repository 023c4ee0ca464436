import RuleForest.Engine.Perform

namespace RuleForest

variable {H N : Type}

def executedCall (name : String) (strategy : Strategy) (children : Nat) : LogCall where
  level := .debug
  message := "rule_executed"
  payload := .record
    [("rule", .string name), ("strategy", .string strategy.text), ("children", .int children)]

def skippedCall (name : String) (strategy : Strategy) : LogCall where
  level := .debug
  message := "rule_skipped"
  payload := .record [("rule", .string name), ("strategy", .string strategy.text)]

namespace Request

variable (request : Request)

def startedCall : LogCall where
  level := .debug
  message := "rule_run_started"
  payload := .record [("strategy", .ofValue request.strategy), ("roots", .int request.rules.length)]

def completedCall : LogCall where
  level := .debug
  message := "rule_run_completed"
  payload := .record [("strategy", .ofValue request.strategy)]

def failedCall (error : Value) : LogCall where
  level := .error
  message := "rule_run_failed"
  payload := .record [("strategy", .ofValue request.strategy), ("error", .ofValue error)]

end Request

namespace Act

def ruleName (rule : RuleId) : Act H N String := do return (← state).forest.nameOf rule

def log (logger : Logger) (call : LogCall) : Act H N Unit := do
  emit [.logged logger call]
  match logger.objection? call with
  | some v => fail { value := v }
  | none => pure ()

def reach (rule : RuleId) (binding : Binding) (status : Status) : Act H N Unit := do
  let name ← ruleName rule
  update fun e => e.updateForest fun f => f.update rule fun r => { r with status }
  emit [.reached rule name status binding.reporter.isSome]
  match binding.reporter.bind fun report => report name status with
  | some v => fail { value := v }
  | none => pure ()

def failShowing {α : Type} (v : Value) (f : Fault) : Act H N α :=
  match f.showing v with
  | .ok f => failWith f
  | .error x => fail { value := x }

/-- What becomes of something that a hook threw: a failed look-up and a cancellation stay what they
are, all else is the cause of a fault. -/
def rethrow {α : Type} (rule : RuleId) (view : View) (x : Thrown) (fault : String → Value → Fault) :
    Act H N α := do
  match x.value with
  | .fault (.missingKey _) => fail x
  | v =>
    let e ← state
    let name := e.forest.nameOf rule
    let signal := view.signal.bind fun id => (e.signals.get? id).map fun s => (id, s)
    match asCancellation? x signal name with
    | some y => fail y
    | none => failShowing v (fault name v)

def refuse (rule : RuleId) (error : Option Value) (fault : String → Value → Fault) :
    Act H N Unit := do
  match error.filter Value.isGiven with
  | some v => failShowing v (fault (← ruleName rule) v)
  | none => pure ()

def hook? (rule : RuleId) (phase : Phase) : Act H N (Option H) := do
  return ((← state).forest.get? rule).bind fun r => r.hook? phase

def evaluate (b : Behavior H N) (runs : Request → Act H N Unit) (rule : RuleId) (view : View) :
    Act H N Bool := do
  match ← hook? rule .evaluate with
  | none => return true
  | some h =>
    emit [.invoked rule .evaluate view]
    match ← ((b.evaluate h view).carryOut runs view).attempt with
    | .error x => rethrow rule view x .evaluation
    | .ok verdict =>
      refuse rule verdict.error .evaluation
      return verdict.shouldExecute

def runStage (b : Behavior H N) (runs : Request → Act H N Unit) (rule : RuleId) (view : View)
    (stage : Stage) :
    Act H N Unit := do
  match ← hook? rule (.stage stage) with
  | none => pure ()
  | some h =>
    emit [.invoked rule (.stage stage) view]
    match ← ((b.execute h stage view).carryOut runs view).attempt with
    | .error x => rethrow rule view x fun name cause => .execution name stage cause
    | .ok error => refuse rule error fun name cause => .execution name stage cause

def bindTo (binding : Binding) (rule : RuleId) : Act H N Unit :=
  update fun e => e.updateForest fun f => f.update rule fun r => { r with binding := some binding }

def fireFirst (fires : RuleId → Act H N Bool) (binding : Binding) : List RuleId → Act H N Unit
  | [] => pure ()
  | rule :: rules => do
    bindTo binding rule
    if ← fires rule then fireFirst fires binding rules

def presentRules (f : Forest H) : Nat → List (Option RuleId) → Except Fault (List RuleId)
  | _, [] => .ok []
  | index, entry :: entries =>
    match f.present? entry with
    | some rule => (presentRules f (index + 1) entries).map (rule :: ·)
    | none => .error (.absentRule (some (.ofInt index)))

/-- Fires a batch as its strategy says. Of several faults the first in the order context, absent
entry, strategy, number of rules is thrown; an empty batch needs nothing but a context. -/
def dispatch (fires : RuleId → Act H N Bool) (request : Request) (logger : Logger) :
    Act H N Unit := do
  match request.context with
  | none => failWith .contextMissing
  | some context =>
    if request.rules.isEmpty then
      pure ()
    else
      let batch ← ofExcept (presentRules (← state).forest 0 request.rules)
      let binding : Binding :=
        { context, signal := request.signal, logger, reporter := request.reporter }
      match Strategy.ofValue? request.strategy, batch with
      | none, _ => failShowing request.strategy (.invalidStrategy request.strategy.toText)
      | some .chain, [root] => do
        bindTo binding root
        let _ ← fires root
      | some .chain, _ => failWith (.chainArity .roots (.ofInt batch.length))
      | some .bestFirst, _ => fireFirst fires binding batch

/-- A rule's own part in its firing: entry check, evaluation and, unless it declines, the three
stages. Answers whether it has executed. -/
def serve (b : Behavior H N) (runs : Request → Act H N Unit) (rule : RuleId) (binding : Binding)
    (strategy : Strategy) : Act H N Bool := do
  let e ← state
  let name := e.forest.nameOf rule
  match entryFault? (e.signal? binding.signal) (some name) with
  | some fault => failWith fault
  | none =>
    let view : View :=
      { name, strategy, context := binding.context, signal := binding.signal,
        logger := binding.logger }
    let proceeds ← evaluate b runs rule view
    reach rule binding .evaluated
    if proceeds then
      runStage b runs rule view .preExecute
      runStage b runs rule view .execute
      runStage b runs rule view .postExecute
      reach rule binding .executed
      let f := (← state).forest
      log binding.logger (executedCall (f.nameOf rule) strategy (f.childrenOf rule).length)
      return true
    else
      reach rule binding .skipped
      log binding.logger (skippedCall (← ruleName rule) strategy)
      return false

/-- Fires a rule that is bound and, if it has executed, its children under its own strategy. Answers
whether the rules after it are to be fired too. -/
def fireBound (b : Behavior H N) (runs : Request → Act H N Unit) (fires : RuleId → Act H N Bool)
    (rule : RuleId) (binding : Binding) (strategy : Strategy) : Act H N Bool := do
  if ← serve b runs rule binding strategy then
    let children := (← state).forest.childrenOf rule
    let request : Request :=
      { strategy := .text strategy.text, context := some binding.context,
        rules := children.map some, signal := binding.signal, reporter := binding.reporter }
    dispatch fires request binding.logger
    return strategy = .chain
  else
    return true

/-- Fires a rule with the services it was last bound to. Whatever goes wrong leaves it failed. -/
def fireOnce (b : Behavior H N) (runs : Request → Act H N Unit) (fires : RuleId → Act H N Bool)
    (rule : RuleId) : Act H N Bool := do
  match (← state).forest.get? rule with
  | none => failWith .contextMissing
  | some r =>
    match r.binding with
    | none => failWith .contextMissing
    | some binding =>
      match ← (fireBound b runs fires rule binding r.strategy).attempt with
      | .ok goesOn => return goesOn
      | .error x =>
        reach rule binding .failed
        fail x

def failurePayload : Value → Value
  | .exception kind message => .record [("name", .text kind.name), ("message", .text message)]
  | .fault f => .record [("name", .text f.name), ("message", .text f.message)]
  | v => .text v.toText

def chooseLogger : Option Logger → Act H N Logger
  | some l => pure l
  | none => fun e =>
    let (l, e) := e.demandLogger
    ⟨.done l, e, []⟩

def runWith (fires : RuleId → Act H N Bool) (request : Request) : Act H N Unit := do
  let logger ← chooseLogger request.logger
  log logger request.startedCall
  match ← (dispatch fires request logger).attempt with
  | .ok () => log logger request.completedCall
  | .error x =>
    if x.value.hasText then
      log logger (request.failedCall (failurePayload x.value))
      fail x
    else
      fail { value := conversionError }

def fire (b : Behavior H N) : Nat → RuleId → Act H N Bool
  | 0, _ => exhausted
  | depth + 1, rule => fireOnce b (runWith (fire b depth)) (fire b depth) rule

def run (b : Behavior H N) (depth : Nat) (request : Request) : Act H N Unit :=
  runWith (fire b depth) request

end Act

end RuleForest
