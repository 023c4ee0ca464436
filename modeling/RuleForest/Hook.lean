import RuleForest.Context
import RuleForest.Forest

namespace RuleForest

structure View where
  name : String
  strategy : Strategy
  context : ContextId
  signal : Option SignalId
  logger : Logger

structure Request where
  strategy : Value
  context : Option ContextId
  rules : List (Option RuleId)
  signal : Option SignalId := none
  logger : Option Logger := none
  reporter : Option Reporter := none

namespace Request

def chain (context : Option ContextId) (rule : Option RuleId) : Request :=
  { strategy := .text Strategy.chain.text, context, rules := [rule] }

def bestFirst (context : Option ContextId) (rules : List (Option RuleId)) : Request :=
  { strategy := .text Strategy.bestFirst.text, context, rules }

end Request

structure Verdict where
  shouldExecute : Bool
  error : Option Value := none

/-- A single thing that a hook does. Keys belong to the context of its view; `note` leaves a mark
for whoever reads the events. -/
inductive Operation (H N : Type) where
  | get (key : String)
  | set (key : String) (value : Value)
  | delete (key : String)
  | log (call : LogCall)
  | note (n : N)
  | isCancelled
  | throwIfAborted
  | cancel (handle : SignalId) (reason : Option String)
  | abort (controller : SignalId) (reason : Value)
  | throwIfCancelled (handle : SignalId)
  | setName (rule : RuleId) (name : String)
  | setHook (rule : RuleId) (phase : Phase) (hook : H)
  | addChildren (rule : RuleId) (batch : List (Option RuleId))
  | release (rule : RuleId)
  | inspect (rule : RuleId)
  | run (request : Request)

/-- What an operation answers. A message that is logged and a run that is started answer what they
have thrown, if anything. -/
abbrev Operation.Response {H N : Type} : Operation H N → Type
  | get _ => Option Value
  | delete _ => Bool
  | log _ => Option Value
  | isCancelled => Bool
  | cancel _ _ => CancelOutcome
  | inspect _ => Option Forest.Summary
  | run _ => Option Thrown
  | _ => Unit

inductive Program (H N α : Type) where
  | done (result : α)
  | fail (x : Thrown)
  | step (op : Operation H N) (next : op.Response → Program H N α)

namespace Program

variable {H N α β : Type}

protected def bind : Program H N α → (α → Program H N β) → Program H N β
  | done a, f => f a
  | fail x, _ => fail x
  | step op next, f => step op fun answer => (next answer).bind f

instance : Monad (Program H N) where
  pure := done
  bind := Program.bind

protected theorem bind_done (p : Program H N α) : p.bind done = p := by
  induction p with
  | done a => rfl
  | fail x => rfl
  | step op next ih => simp only [Program.bind, ih]

protected theorem bind_assoc {γ : Type} (p : Program H N α) (f : α → Program H N β)
    (g : β → Program H N γ) :
    (p.bind f).bind g = p.bind fun a => (f a).bind g := by
  induction p with
  | done a => rfl
  | fail x => rfl
  | step op next ih => simp only [Program.bind, ih]

instance : LawfulMonad (Program H N) :=
  LawfulMonad.mk' _ Program.bind_done (fun _ _ => rfl) Program.bind_assoc

def perform (op : Operation H N) : Program H N op.Response := step op done

def throw (v : Value) : Program H N α := fail { value := v }

end Program

structure Behavior (H N : Type) where
  evaluate : H → View → Program H N Verdict
  execute : H → Stage → View → Program H N (Option Value)

end RuleForest
