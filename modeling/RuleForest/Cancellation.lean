import RuleForest.Cancellation.Signal
import RuleForest.Fault
import RuleForest.Text.Blank

namespace RuleForest

structure Thrown where
  value : Value
  reasonOf : Option SignalId := none

def Thrown.ofFault (f : Fault) : Thrown := { value := .fault f }

def describeReason : Value → Option String
  | .fault (.cancelled _ reason _) => reason
  | .fault f => if Text.isBlankText f.message then none else some f.message
  | .text s => if Text.isBlankText s then none else some s
  | .exception kind message =>
    if kind.name == "AbortError" || Text.isBlankText message then none else some message
  | _ => none

def isCancellation : Value → Bool
  | .fault f => f.isCancellation
  | _ => false

def isEngineError : Value → Bool
  | .fault _ => true
  | _ => false

def isAbortError : Value → Bool
  | .exception kind _ => kind.name == "AbortError"
  | .record fields => fields.any fun f => f.1 == "name" && f.2.same (.text "AbortError")
  | _ => false

def entryFault? (signal : Option Signal) (rule : Option String) : Option Fault :=
  match signal.bind Signal.reason? with
  | some reason => some (.cancelled rule (describeReason reason) (some reason))
  | none => none

def Thrown.isReasonOf (x : Thrown) (id : SignalId) (reason : Value) : Bool :=
  x.reasonOf == some id || x.value.same reason

/-- What was thrown, seen as a cancellation: itself if it is one, and a new one if the signal is
aborted and this is its own reason or an abort error. -/
def asCancellation? (x : Thrown) (signal : Option (SignalId × Signal)) (rule : String) :
    Option Thrown :=
  if isCancellation x.value then
    some x
  else
    match signal with
    | some (id, s) =>
      match s.reason? with
      | some reason =>
        if x.isReasonOf id reason || isAbortError x.value then
          some (.ofFault (.cancelled (some rule) (describeReason reason) (some x.value)))
        else
          none
      | none => none
    | none => none

end RuleForest
