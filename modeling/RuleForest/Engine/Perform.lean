import RuleForest.Engine
import RuleForest.Forest.Build

namespace RuleForest

variable {H N α : Type}

def Act.cancel (handle : SignalId) (reason : Option String) : Act H N CancelOutcome := fun e =>
  let (outcome, signals, notices) := e.signals.cancel handle reason
  let started := match outcome with
    | .requested => [.aborted handle]
    | .alreadyCancelled => []
  ⟨.done outcome, { e with signals }, started ++ notices.map .noticed⟩

def Act.abort (controller : SignalId) (reason : Value) : Act H N Unit := fun e =>
  let signals := e.signals.abort controller reason
  let started := !e.isAborted (some controller) && (signals.get? controller).any Signal.aborted
  ⟨.done (), { e with signals }, if started then [.aborted controller] else []⟩

def Act.throwIfAborted (signal : Option SignalId) : Act H N Unit := fun e =>
  match signal, (e.signal? signal).bind Signal.reason? with
  | some id, some reason => ⟨.thrown { value := reason, reasonOf := some id }, e, []⟩
  | _, _ => ⟨.done (), e, []⟩

def Act.throwIfCancelled (handle : SignalId) : Act H N Unit := fun e =>
  match entryFault? (e.signals.get? handle) none with
  | some f => ⟨.thrown (.ofFault f), e, []⟩
  | none => ⟨.done (), e, []⟩

namespace Operation

def perform (runs : Request → Act H N Unit) (view : View) :
    (op : Operation H N) → Act H N op.Response
  | .get key => do return ((← Act.state).contextOf view.context).get? key
  | .set key value => Act.update fun e => e.updateContext view.context fun c => c.set key value
  | .delete key => do
    let (found, c) := ((← Act.state).contextOf view.context).delete key
    Act.update fun e => e.updateContext view.context fun _ => c
    return found
  | .log call => do
    Act.emit [.said view.logger call]
    return view.logger.objection? call
  | .note n => Act.emit [.noted n]
  | .isCancelled => do return (← Act.state).isAborted view.signal
  | .throwIfAborted => Act.throwIfAborted view.signal
  | .cancel handle reason => Act.cancel handle reason
  | .abort controller reason => Act.abort controller reason
  | .throwIfCancelled handle => Act.throwIfCancelled handle
  | .setName rule name => Act.update fun e => e.updateForest fun f => f.setName rule name
  | .setHook rule phase hook =>
    Act.update fun e => e.updateForest fun f => f.setHook rule phase hook
  | .addChildren rule batch => do
    let f ← Act.ofExcept ((← Act.state).forest.addChildren rule batch)
    Act.update fun e => e.updateForest fun _ => f
  | .release rule => Act.update fun e => e.updateForest fun f => f.release rule
  | .inspect rule => do return (← Act.state).forest.summary? rule
  | .run request => do
    match ← ((runs request).asNested).attempt with
    | .ok () => return none
    | .error x => return some x

end Operation

namespace Program

def carryOut (runs : Request → Act H N Unit) (view : View) : Program H N α → Act H N α
  | done a => pure a
  | fail x => Act.fail x
  | step op next => do
    let answer ← op.perform runs view
    (next answer).carryOut runs view

end Program

end RuleForest
