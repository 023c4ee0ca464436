import RuleForest.Hook

namespace RuleForest

structure Engine (H : Type) where
  forest : Forest H := {}
  contexts : Array (Context Value) := #[]
  signals : Signals := {}
  defaultLogger : Option Logger := none
  environment : Environment := {}

inductive Event (N : Type) where
  | invoked (rule : RuleId) (phase : Phase) (view : View)
  | reached (rule : RuleId) (name : String) (status : Status) (reported : Bool)
  | logged (logger : Logger) (call : LogCall)
  | said (logger : Logger) (call : LogCall)
  | aborted (signal : SignalId)
  | noticed (notice : Notice)
  | noted (note : N)
  | nested (events : List (Event N))

inductive Ending (α : Type) where
  | done (a : α)
  | thrown (x : Thrown)
  | exhausted

structure Outcome (H N α : Type) where
  ending : Ending α
  engine : Engine H
  events : List (Event N)

def Act (H N α : Type) := Engine H → Outcome H N α

namespace Act

variable {H N α β : Type}

protected def pure (a : α) : Act H N α := fun e => ⟨.done a, e, []⟩

protected def bind (act : Act H N α) (f : α → Act H N β) : Act H N β := fun e =>
  match act e with
  | ⟨.done a, e, before⟩ =>
    let o := f a e
    ⟨o.ending, o.engine, before ++ o.events⟩
  | ⟨.thrown x, e, events⟩ => ⟨.thrown x, e, events⟩
  | ⟨.exhausted, e, events⟩ => ⟨.exhausted, e, events⟩

instance : Monad (Act H N) where
  pure := Act.pure
  bind := Act.bind

protected theorem bind_pure (act : Act H N α) : Act.bind act Act.pure = act := by
  funext e
  rcases h : act e with ⟨_ | _ | _, e', events⟩ <;> simp [Act.bind, Act.pure, h]

protected theorem bind_assoc {γ : Type} (act : Act H N α) (f : α → Act H N β) (g : β → Act H N γ) :
    Act.bind (Act.bind act f) g = Act.bind act fun a => Act.bind (f a) g := by
  funext e
  rcases h : act e with ⟨a | _ | _, e₁, before⟩ <;> simp only [Act.bind, h]
  rcases f a e₁ with ⟨_ | _ | _, e₂, between⟩ <;> simp [List.append_assoc]

instance : LawfulMonad (Act H N) :=
  LawfulMonad.mk' _ Act.bind_pure (fun _ _ => rfl) Act.bind_assoc

def fail (x : Thrown) : Act H N α := fun e => ⟨.thrown x, e, []⟩

def failWith (f : Fault) : Act H N α := fail (.ofFault f)

def exhausted : Act H N α := fun e => ⟨.exhausted, e, []⟩

def attempt (act : Act H N α) : Act H N (Except Thrown α) := fun e =>
  match act e with
  | ⟨.done a, e, events⟩ => ⟨.done (.ok a), e, events⟩
  | ⟨.thrown x, e, events⟩ => ⟨.done (.error x), e, events⟩
  | ⟨.exhausted, e, events⟩ => ⟨.exhausted, e, events⟩

def asNested (act : Act H N α) : Act H N α := fun e =>
  let o := act e
  { o with events := [.nested o.events] }

def state : Act H N (Engine H) := fun e => ⟨.done e, e, []⟩

def update (f : Engine H → Engine H) : Act H N Unit := fun e => ⟨.done (), f e, []⟩

def emit (events : List (Event N)) : Act H N Unit := fun e => ⟨.done (), e, events⟩

def ofExcept : Except Fault α → Act H N α
  | .ok a => pure a
  | .error f => failWith f

end Act

namespace Engine

variable {H : Type}

def contextOf (e : Engine H) (id : ContextId) : Context Value := e.contexts.getD id .empty

def updateContext (e : Engine H) (id : ContextId) (f : Context Value → Context Value) : Engine H :=
  { e with contexts := e.contexts.modify id f }

def updateForest (e : Engine H) (f : Forest H → Forest H) : Engine H :=
  { e with forest := f e.forest }

def addContext (e : Engine H) (c : Context Value) : ContextId × Engine H :=
  (e.contexts.size, { e with contexts := e.contexts.push c })

def addSignal (e : Engine H) (s : Signal) : SignalId × Engine H :=
  let (id, signals) := e.signals.add s
  (id, { e with signals })

def signal? (e : Engine H) (id : Option SignalId) : Option Signal := id.bind e.signals.get?

def isAborted (e : Engine H) (id : Option SignalId) : Bool := (e.signal? id).any Signal.aborted

def demandLogger (e : Engine H) : Logger × Engine H :=
  match e.defaultLogger with
  | some l => (l, e)
  | none =>
    let l := Logger.ofConfig (.ofEnvironment e.environment)
    (l, { e with defaultLogger := some l })

end Engine

end RuleForest
