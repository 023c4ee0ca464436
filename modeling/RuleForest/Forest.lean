import RuleForest.Cancellation
import RuleForest.Log.Logger

namespace RuleForest

inductive Strategy where
  | chain
  | bestFirst
deriving DecidableEq, Repr

namespace Strategy

def text : Strategy → String
  | chain => "chain"
  | bestFirst => "best_first"

def ofText? (s : String) : Option Strategy :=
  [chain, bestFirst].find? fun strategy => strategy.text == s

def ofValue? : Value → Option Strategy
  | .text s => ofText? s
  | _ => none

end Strategy

inductive Status where
  | idle
  | evaluated
  | executed
  | skipped
  | failed
deriving DecidableEq, Repr

def Status.text : Status → String
  | idle => "idle"
  | evaluated => "evaluated"
  | executed => "executed"
  | skipped => "skipped"
  | failed => "failed"

inductive Phase where
  | evaluate
  | stage (s : Stage)
deriving DecidableEq, Repr

abbrev RuleId := Nat

abbrev ContextId := Nat

/-- Is told of every status a rule reaches; what it answers is thrown. -/
abbrev Reporter := String → Status → Option Value

structure Binding where
  context : ContextId
  signal : Option SignalId
  logger : Logger
  reporter : Option Reporter

structure Rule (H : Type) where
  strategy : Strategy
  name : String
  owner : Option RuleId := none
  children : List RuleId := []
  evaluation : Option H := none
  preExecution : Option H := none
  execution : Option H := none
  postExecution : Option H := none
  binding : Option Binding := none
  status : Status := .idle

namespace Rule

variable {H : Type}

def hook? (r : Rule H) : Phase → Option H
  | .evaluate => r.evaluation
  | .stage .preExecute => r.preExecution
  | .stage .execute => r.execution
  | .stage .postExecute => r.postExecution

def setHook (r : Rule H) (phase : Phase) (hook : H) : Rule H :=
  match phase with
  | .evaluate => { r with evaluation := some hook }
  | .stage .preExecute => { r with preExecution := some hook }
  | .stage .execute => { r with execution := some hook }
  | .stage .postExecute => { r with postExecution := some hook }

def setName (r : Rule H) (name : String) : Rule H :=
  if Text.isBlankText name then r else { r with name }

def text (r : Rule H) : String :=
  "Rule\x7bname: " ++ r.name ++ ", strategy: " ++ r.strategy.text ++ ", children: " ++
    Text.ofNat r.children.length ++ "\x7d"

end Rule

structure Forest (H : Type) where
  rules : Array (Rule H) := #[]
  named : Nat := 0

namespace Forest

variable {H : Type}

def get? (f : Forest H) (id : RuleId) : Option (Rule H) := f.rules[id]?

def update (f : Forest H) (id : RuleId) (g : Rule H → Rule H) : Forest H :=
  { f with rules := f.rules.modify id g }

/-- An entry that names no rule of the forest counts as absent. -/
def present? (f : Forest H) (entry : Option RuleId) : Option RuleId :=
  entry.filter fun id => decide (id < f.rules.size)

def nameOf (f : Forest H) (id : RuleId) : String := ((f.get? id).map Rule.name).getD ""

def childrenOf (f : Forest H) (id : RuleId) : List RuleId := ((f.get? id).map Rule.children).getD []

def ownerOf (f : Forest H) (id : RuleId) : Option RuleId := (f.get? id).bind Rule.owner

def automaticName (strategy : Strategy) (n : Nat) : String := strategy.text ++ "-" ++ Text.ofNat n

def create (f : Forest H) (strategy : Strategy) (name : Option String) : RuleId × Forest H :=
  let given := name.filter fun n => !Text.isBlankText n
  let rule : Rule H := { strategy, name := given.getD (automaticName strategy (f.named + 1)) }
  (f.rules.size,
    { rules := f.rules.push rule, named := if given.isSome then f.named else f.named + 1 })

def discardLast (f : Forest H) : Forest H := { f with rules := f.rules.pop }

structure Summary where
  name : String
  strategy : Strategy
  status : Status
  children : List String
  text : String
deriving DecidableEq, Repr

def summary? (f : Forest H) (id : RuleId) : Option Summary :=
  (f.get? id).map fun r => {
    name := r.name
    strategy := r.strategy
    status := r.status
    children := r.children.map f.nameOf
    text := r.text }

end Forest

end RuleForest
