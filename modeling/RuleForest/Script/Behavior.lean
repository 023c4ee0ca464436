import RuleForest.Script
import RuleForest.Number.Quantity

namespace RuleForest

namespace Script

def quiet : Logger.Options := { stdout := some false }

def recordingLogger (o : Logger.Options) : Logger :=
  .ofOptions { o with listener := some fun _ => none }

def RunKind.request (kind : RunKind) (context : Option ContextId) (rules : List (Option RuleId)) :
    Request :=
  match kind with
  | strategy v => { strategy := v, context, rules }
  | chain => .chain context rules.head?.join
  | bestFirst => .bestFirst context rules

def LoggerChoice.logger? (d : Directory) : LoggerChoice → Option Logger
  | recording => some (recordingLogger quiet)
  | default => none
  | named name => d.logger? name

def RunPlan.request (d : Directory) (plan : RunPlan) : Request :=
  { plan.kind.request (plan.context.bind d.context?) (d.batch plan.rules) with
    signal := plan.signal.bind d.signal?
    logger := plan.logger.logger? d
    reporter := plan.reporter }

def countsAsText : Value → Bool
  | .text _ | .list _ | .record _ | .exception _ _ | .fault _ => true
  | _ => false

def scalar? : Value → Option Number
  | .number x => some x
  | .bool b => some (.ofInt (if b then 1 else 0))
  | .null => some (.ofInt 0)
  | _ => none

def quantity? (v : Value) : Option Quantity :=
  if countsAsText v then Quantity.ofText? v.toText else (scalar? v).map .finite

def isAtLeast (v bound : Value) : Bool :=
  if countsAsText v && countsAsText bound then
    Text.unitsLe bound.toText v.toText
  else
    match quantity? v, quantity? bound with
    | some x, some y => decide (y ≤ x)
    | _, _ => false

def sum (v w : Value) : Value :=
  if countsAsText v || countsAsText w then
    .text (v.toText ++ w.toText)
  else
    match scalar? v, scalar? w with
    | some x, some y => (x.add? y).elim .undefined .number
    | _, _ => .undefined

abbrev Doing (α : Type) := Program Hook Mark α

def mark (m : Mark) : Doing Unit := Program.perform (.note m)

def look (key : String) : Doing (Option Value) := Program.perform (.get key)

def demand (key : String) : Doing Value := do
  match ← look key with
  | some v => return v
  | none => .fail (.ofFault (.missingKey key))

def combined {α : Type} (f : Value → Value → α) (v w : Value) : Doing α :=
  if v.hasText && w.hasText then return f v w else .throw conversionError

def Condition.test : Condition → Doing Bool
  | constant b => return b
  | has key => do return (← look key).isSome
  | atLeast key bound => do combined isAtLeast (← demand key) bound
  | equals key value => do return ((← look key).getD .undefined).same value
  | cancelled => Program.perform .isCancelled
  | not c => do return !(← c.test)

def withName {α : Type} (found : Option α) (f : α → Doing Unit) : Doing Unit :=
  match found with
  | some a => f a
  | none => pure ()

mutual

def Action.program (d : Directory) (v : View) : Action → Doing Unit
  | .set key value => Program.perform (.set key value)
  | .delete key => do mark (.deleted (← Program.perform (.delete key)))
  | .copy source target => do Program.perform (.set target (← demand source))
  | .increase key amount => do
    match ← look key with
    | some value => do Program.perform (.set key (← combined sum value amount))
    | none => Program.perform (.set key amount)
  | .must key => do mark (.must (← demand key))
  | .get key => do mark (.got (← look key))
  | .log call => do withName (← Program.perform (.log call)) .throw
  | .view => do mark (.view v (← Program.perform .isCancelled))
  | .cancel signal reason => withName (d.signal? signal) fun s => do
    mark (.cancelled (← Program.perform (.cancel s reason)))
  | .abort signal reason => withName (d.signal? signal) fun s => Program.perform (.abort s reason)
  | .throwIfAborted => Program.perform .throwIfAborted
  | .throwIfCancelled signal =>
    withName (d.signal? signal) fun s => Program.perform (.throwIfCancelled s)
  | .throw value => .throw value
  | .setName rule name => withName (d.rule? rule) fun r => Program.perform (.setName r name)
  | .addChildren rule batch => withName (d.rule? rule) fun r =>
    Program.perform (.addChildren r (d.batch batch))
  | .release rule => withName (d.rule? rule) fun r => Program.perform (.release r)
  | .setHook rule phase hook =>
    withName (d.rule? rule) fun r => Program.perform (.setHook r phase hook)
  | .inspect rule => withName (d.rule? rule) fun r => do
    withName (← Program.perform (.inspect r)) fun summary => mark (.info summary)
  | .when c actions => do if ← c.test then Action.programs d v actions
  | .run plan => do
    match ← Program.perform (.run (plan.request d)) with
    | some x => .fail x
    | none => pure ()
  | .tryRun plan => do mark (.ran (← Program.perform (.run (plan.request d))))

def Action.programs (d : Directory) (v : View) : List Action → Doing Unit
  | [] => pure ()
  | a :: as => do
    a.program d v
    Action.programs d v as

end

namespace Hook

def program (d : Directory) (phase : Phase) (v : View) : Hook → Doing (Bool × Option Value)
  | mk actions answer error => do
    mark (.called v.name phase)
    Action.programs d v actions
    return (← answer.test, error)

def behavior (d : Directory) : Behavior Hook Mark where
  evaluate hook v := do
    let (shouldExecute, error) ← hook.program d .evaluate v
    return { shouldExecute, error }
  execute hook stage v := do return (← hook.program d (.stage stage) v).2

end Hook

end Script

end RuleForest
