import RuleForest.Proofs.Pairing

namespace RuleForest

variable {H N α β : Type}

/-- A relation between the states of two engines that settles all that the engine looks at, but for
the bindings and statuses of the rules: these it only ever writes before it reads them. -/
structure Likeness (scope : Scope) (S : Engine H → Engine H → Prop) : Prop where
  design {e e' : Engine H} : S e e' → Forest.Agree Rule.design e.forest e'.forest
  signal {e e' : Engine H} {id : SignalId} :
    S e e' → scope.signals id → e'.signals.get? id = e.signals.get? id
  logger {e e' : Engine H} : S e e' → e'.demandLogger.1 = e.demandLogger.1
  demanded {e e' : Engine H} : S e e' → S e.demandLogger.2 e'.demandLogger.2
  marked {e e' : Engine H} (rule : RuleId) (status : Status) :
    S e e' → S (e.marked rule status) (e'.marked rule status)
  bound {e e' : Engine H} (binding : Binding) (rule : RuleId) :
    S e e' → S (e.bound binding rule) (e'.bound binding rule)

namespace Likeness

variable {scope : Scope} {S : Engine H → Engine H → Prop}

def pairing (N : Type) (scope : Scope) (S : Engine H → Engine H → Prop) : Pairing H N where
  scope := scope
  logs _ := True
  states := S
  events := Eq
  thrown _ := Eq
  raised _ := Eq
  reported := Eq
  lax := True

theorem composes (scope : Scope) (S : Engine H → Engine H → Prop) :
    (pairing N scope S).Composes where
  same _ := rfl
  append {before before' after after'} (h : before = before') (h' : after = after') := by
    change before ++ after = before' ++ after'
    rw [h, h']
  nested {events events'} (h : events = events') := by
    change [Event.nested events] = [.nested events']
    rw [h]

theorem signal? (hS : Likeness scope S) {e e' : Engine H} (he : S e e') {context : Option ContextId}
    {signal : Option SignalId} (covers : scope.Covers context signal) :
    e'.signal? signal = e.signal? signal := by
  cases signal with
  | none => rfl
  | some id => exact hS.signal he (covers.signal rfl)

theorem held (hS : Likeness scope S) {e e' : Engine H} (he : S e e') {context : Option ContextId}
    {signal : Option SignalId} (covers : scope.Covers context signal) :
    e'.held signal = e.held signal := by
  cases signal with
  | none => rfl
  | some id => simp only [Engine.held, Option.bind_some, hS.signal he (covers.signal rfl)]

theorem sound (hS : Likeness scope S) : (pairing N scope S).Sound where
  toComposes := composes scope S
  design := hS.design
  logger := hS.logger
  demanded := hS.demanded
  marked := hS.marked
  bound := hS.bound
  lent _ := trivial
  own _ := rfl
  refused {e e' context signal} he covers reporter rule := by
    rw [hS.signal? he covers]
    cases entryFault? (e.signal? signal) (some rule) with
    | none => exact .none
    | some fault => exact .some rfl
  blamed {e e' context signal x x'} he covers h reporter phase rule := by
    obtain rfl : x = x' := h
    rw [hS.held he covers]
    rfl
  given {v v'} h := by
    obtain rfl : v = v' := h
    rfl
  shown {v v'} h reporter phase rule := by
    obtain rfl : v = v' := h
    rfl
  hasText {reporter x x'} h := by
    obtain rfl : x = x' := h
    rfl
  payload {reporter x x'} h := by
    obtain rfl : x = x' := h
    rfl

end Likeness

variable {scope : Scope} {S : Engine H → Engine H → Prop}

namespace Outcome

def Echoes (S : Engine H → Engine H → Prop) (o o' : Outcome H N α) : Prop :=
  o.ending ≠ .exhausted → ∃ e', o' = ⟨o.ending, e', o.events⟩ ∧ S o.engine e'

theorem echoes_iff_paired (scope : Scope) {o o' : Outcome H N α} :
    o.Echoes S o' ↔ o.Paired (Likeness.pairing N scope S) Eq Eq o' := by
  constructor
  · intro h
    rcases o with ⟨a | x | _, e, es⟩
    · obtain ⟨e', rfl, he⟩ := h nofun
      exact .done rfl he rfl
    · obtain ⟨e', rfl, he⟩ := h nofun
      exact .thrown rfl he rfl
    · exact .cut trivial rfl
  · intro h hne
    cases h with
    | done answer state events => exact ⟨_, by rw [answer, show _ = _ from events], state⟩
    | thrown what state events => exact ⟨_, by rw [what, show _ = _ from events], state⟩
    | exhausted => exact absurd rfl hne
    | cut lax first => exact absurd first hne

theorem echoes_of_alike {e e' : Engine H} (he : S e e') (ending : Ending α)
    (events : List (Event N)) :
    (Outcome.mk ending e events).Echoes S ⟨ending, e', events⟩ := fun _ => ⟨e', rfl, he⟩

end Outcome

namespace Act

open Outcome

variable {act act' : Act H N α} {f f' : α → Act H N β} {e e' : Engine H}

theorem echoes_bind (ha : (act e).Echoes S (act' e'))
    (hf : ∀ a e₁ e₁', S e₁ e₁' → (f a e₁).Echoes S (f' a e₁')) :
    ((act >>= f) e).Echoes S ((act' >>= f') e') := by
  rw [echoes_iff_paired .all] at ha ⊢
  apply ha.bind (Likeness.composes _ S)
  rintro a _ e₁ e₁' rfl he₁
  exact (echoes_iff_paired .all).mp (hf a e₁ e₁' he₁)

theorem echoes_attempt (ha : (act e).Echoes S (act' e')) :
    (act.attempt e).Echoes S (act'.attempt e') := by
  rw [echoes_iff_paired .all] at ha ⊢
  apply ha.attempt.imp
  rintro _ _ (rfl | rfl) <;> rfl

theorem echoes_asNested (ha : (act e).Echoes S (act' e')) :
    (act.asNested e).Echoes S (act'.asNested e') := by
  rw [echoes_iff_paired .all] at ha ⊢
  exact ha.asNested (Likeness.composes _ S)

end Act

def Operation.Echoed (scope : Scope) (S : Engine H → Engine H → Prop) (op : Operation H N) : Prop :=
  ∀ (runs runs' : Request → Act H N Unit) (view : View),
  scope.Covers (some view.context) view.signal →
    (∀ request : Request, scope.Covers request.context request.signal → ∀ e e', S e e' →
      (runs request e).Echoes S (runs' request e')) →
    ∀ e e', S e e' → (op.perform runs view e).Echoes S (op.perform runs' view e')

namespace Act

open Outcome

variable {b : Behavior H N} {runs runs' : Request → Act H N Unit} {view : View} {e e' : Engine H}

theorem echoes_carryOut (covers : scope.Covers (some view.context) view.signal)
    (hruns : ∀ request : Request, scope.Covers request.context request.signal → ∀ e e', S e e' →
      (runs request e).Echoes S (runs' request e'))
    {p : Program H N α} (hp : p.Obeys (Operation.Echoed scope S)) (he : S e e') :
    (p.carryOut runs view e).Echoes S (p.carryOut runs' view e') := by
  induction p generalizing e e' with
  | done a => exact echoes_of_alike he _ _
  | fail x => exact echoes_of_alike he _ _
  | step op next ih =>
    exact echoes_bind (hp.1 runs runs' view covers hruns e e' he) fun a _ _ => ih a (hp.2 a)

end Act

theorem Likeness.lends {context : Option ContextId} {signal : Option SignalId}
    (covers : scope.Covers context signal) (logger : Option Logger) :
    (pairing N scope S).Lends context signal logger :=
  { covers with log := fun _ => trivial }

theorem Likeness.hooks {b : Behavior H N} (hb : b.Obeys (Operation.Echoed scope S)) :
    (pairing N scope S).Hooks b b where
  evaluate h view runs runs' covers hruns := by
    intro e e' he
    have hechoes (request : Request) (hcovers : scope.Covers request.context request.signal)
        (e e' : Engine H)
        (he : S e e') := (Outcome.echoes_iff_paired scope).mpr
        (hruns request (lends hcovers _) e e' he)
    have hwork := Act.echoes_carryOut covers.toCovers hechoes (hb.evaluate h view) he
    apply ((Outcome.echoes_iff_paired scope).mp hwork).imp
    rintro verdict _ rfl
    exact ⟨rfl, by cases verdict.error <;> constructor; rfl⟩
  execute h stage view runs runs' covers hruns := by
    intro e e' he
    have hechoes (request : Request) (hcovers : scope.Covers request.context request.signal)
        (e e' : Engine H)
        (he : S e e') := (Outcome.echoes_iff_paired scope).mpr
        (hruns request (lends hcovers _) e e' he)
    have hwork := Act.echoes_carryOut covers.toCovers hechoes (hb.execute h stage view) he
    apply ((Outcome.echoes_iff_paired scope).mp hwork).imp
    rintro error _ rfl
    cases error <;> constructor
    rfl

theorem Act.echoes_run (hS : Likeness scope S) {b : Behavior H N}
    (hb : b.Obeys (Operation.Echoed scope S)) {depth more : Nat} (hd : depth ≤ more)
    {request : Request} (covers : scope.Covers request.context request.signal) {e e' : Engine H}
    (he : S e e') : (run b depth request e).Echoes S (run b more request e') :=
  (Outcome.echoes_iff_paired scope).mpr
    (hS.sound.run (Likeness.hooks hb) (.inr ⟨trivial, hd⟩) (Likeness.lends covers _) e e' he)

end RuleForest
