import RuleForest.Cancellation.Handle
import RuleForest.Value

namespace RuleForest

inductive Signal where
  | controller (reason : Option Value)
  | handle (h : Handle)

instance : Inhabited Signal := ⟨.controller none⟩

def abortError : Value := .exception .abort "This operation was aborted"

namespace Signal

def reason? : Signal → Option Value
  | controller reason => reason
  | handle h => h.announced.map fun a => .fault (.cancelled none a.reason none)

def aborted (s : Signal) : Bool := s.reason?.isSome

def abort (reason : Value) : Signal → Signal
  | controller none =>
    controller (some (match reason with
      | .undefined => abortError
      | v => v))
  | s => s

def dispose (id : Nat) : Signal → Signal
  | handle h => handle (h.dispose id)
  | s => s

end Signal

abbrev SignalId := Nat

structure Signals where
  all : Array Signal := #[]
  subscribed : Nat := 0

namespace Signals

def add (ss : Signals) (s : Signal) : SignalId × Signals :=
  (ss.all.size, { ss with all := ss.all.push s })

def get? (ss : Signals) (id : SignalId) : Option Signal := ss.all[id]?

def update (ss : Signals) (id : SignalId) (f : Signal → Signal) : Signals :=
  { ss with all := ss.all.modify id f }

def abort (ss : Signals) (id : SignalId) (reason : Value) : Signals :=
  ss.update id (Signal.abort reason)

def dispose (ss : Signals) (subscription : Nat) : Signals :=
  { ss with all := ss.all.map (Signal.dispose subscription) }

def subscribe (ss : Signals) (id : SignalId) (react : Announcement → List Reaction) : Signals :=
  let s : Subscription := { id := ss.subscribed, react }
  let ss := ss.update id fun
    | .handle h => .handle (h.subscribe s)
    | c => c
  { ss with subscribed := ss.subscribed + 1 }

def cancel (ss : Signals) (id : SignalId) (reason : Option String) :
    CancelOutcome × Signals × List Notice :=
  match ss.get? id with
  | some (.handle h) =>
    let (outcome, h, notices) := h.cancel reason
    let ss := ss.update id fun _ => .handle h
    let ss := notices.foldl (fun ss n => match n with
      | .disposed n => ss.dispose n
      | _ => ss) ss
    (outcome, ss, notices)
  | _ => (.alreadyCancelled, ss, [])

end Signals

end RuleForest
