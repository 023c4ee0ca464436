import RuleForest.Hook

namespace RuleForest

namespace Script

inductive Condition where
  | constant (b : Bool)
  | has (key : String)
  | atLeast (key : String) (bound : Value)
  | equals (key : String) (value : Value)
  | cancelled
  | not (c : Condition)

inductive LoggerChoice where
  | recording
  | default
  | named (name : String)

inductive RunKind where
  | strategy (v : Value)
  | chain
  | bestFirst

structure RunPlan where
  kind : RunKind
  context : Option String
  rules : List (Option String)
  signal : Option String := none
  logger : LoggerChoice := .recording
  reporter : Option Reporter := none

mutual

inductive Action where
  | set (key : String) (value : Value)
  | delete (key : String)
  | copy (source target : String)
  | increase (key : String) (amount : Value)
  | must (key : String)
  | get (key : String)
  | log (call : LogCall)
  | view
  | cancel (signal : String) (reason : Option String)
  | abort (signal : String) (reason : Value)
  | throwIfAborted
  | throwIfCancelled (signal : String)
  | throw (value : Value)
  | setName (rule name : String)
  | addChildren (rule : String) (batch : List (Option String))
  | release (rule : String)
  | setHook (rule : String) (phase : Phase) (hook : Hook)
  | inspect (rule : String)
  | when (c : Condition) (actions : List Action)
  | run (plan : RunPlan)
  | tryRun (plan : RunPlan)

/-- Actions, then a condition that is the hook's answer where one is wanted, and the error that it
reports. -/
inductive Hook where
  | mk (actions : List Action) (answer : Condition) (error : Option Value)

end

inductive Mark where
  | called (rule : String) (phase : Phase)
  | deleted (found : Bool)
  | must (value : Value)
  | got (value : Option Value)
  | view (view : View) (cancelled : Bool)
  | cancelled (outcome : CancelOutcome)
  | info (summary : Forest.Summary)
  | ran (x : Option Thrown)

structure Directory where
  rules : List (String × RuleId) := []
  contexts : List (String × ContextId) := []
  signals : List (String × SignalId) := []
  loggers : List (String × Logger) := []

namespace Directory

def find? {α : Type} (entries : List (String × α)) (name : String) : Option α :=
  (entries.find? fun e => e.1 == name).map Prod.snd

def rule? (d : Directory) (name : String) : Option RuleId := find? d.rules name

def context? (d : Directory) (name : String) : Option ContextId := find? d.contexts name

def signal? (d : Directory) (name : String) : Option SignalId := find? d.signals name

def logger? (d : Directory) (name : String) : Option Logger := find? d.loggers name

def batch (d : Directory) (names : List (Option String)) : List (Option RuleId) :=
  names.map fun name => name.bind d.rule?

end Directory

end Script

end RuleForest
