import RuleForest.Proofs.Likeness
import RuleForest.Proofs.Signals

namespace RuleForest

variable {H N : Type}

namespace Signals

def AgreeOn (P : SignalId → Prop) (ss ss' : Signals) : Prop := ∀ id, P id → ss'.get? id = ss.get? id

namespace AgreeOn

variable {P : SignalId → Prop} {ss ss' : Signals}

theorem update (h : AgreeOn P ss ss') (i : SignalId) (f : Signal → Signal) :
    AgreeOn P (ss.update i f) (ss'.update i f) := by
  intro id hid
  rw [get?_update, get?_update, h id hid]

theorem dispose (h : AgreeOn P ss ss') (subscription : Nat) :
    AgreeOn P (ss.dispose subscription) (ss'.dispose subscription) := by
  intro id hid
  rw [get?_dispose, get?_dispose, h id hid]

theorem foldl {β : Type} {f : Signals → β → Signals}
    (hf : ∀ b ss ss', AgreeOn P ss ss' → AgreeOn P (f ss b) (f ss' b)) (bs : List β)
    (h : AgreeOn P ss ss') :
    AgreeOn P (bs.foldl f ss) (bs.foldl f ss') := by
  induction bs generalizing ss ss' with
  | nil => exact h
  | cons b bs ih => exact ih (hf b ss ss' h)

theorem cancel (h : AgreeOn P ss ss') {handle : SignalId} (hhandle : P handle)
    (reason : Option String) :
    (ss'.cancel handle reason).1 = (ss.cancel handle reason).1 ∧
      AgreeOn P (ss.cancel handle reason).2.1 (ss'.cancel handle reason).2.1 ∧
      (ss'.cancel handle reason).2.2 = (ss.cancel handle reason).2.2 := by
  unfold Signals.cancel
  rw [h handle hhandle]
  split
  · refine ⟨rfl, foldl ?_ _ (h.update handle _), rfl⟩
    intro notice ss ss' h
    cases notice with
    | disposed subscription => exact h.dispose subscription
    | _ => exact h
  · exact ⟨rfl, h, rfl⟩

end AgreeOn

end Signals

/-- The engines are the same to rules and hooks that have to do with nothing outside the scope, but
for what runs have left in the rules: their bindings and statuses. -/
structure Engine.Alike (scope : Scope) (e e' : Engine H) : Prop where
  design : Forest.Agree Rule.design e.forest e'.forest
  contexts (id : ContextId) : scope.contexts id → e'.contexts[id]? = e.contexts[id]?
  signals : Signals.AgreeOn scope.signals e.signals e'.signals
  logger : e'.demandLogger.1 = e.demandLogger.1

namespace Engine.Alike

variable {scope : Scope} {e e' e₁ : Engine H}

theorem refl (scope : Scope) (e : Engine H) : Alike scope e e :=
  ⟨.refl _, fun _ _ => rfl, fun _ _ => rfl, rfl⟩

theorem symm (h : Alike scope e e') : Alike scope e' e :=
  ⟨h.design.symm, fun id hid => (h.contexts id hid).symm, fun id hid => (h.signals id hid).symm,
    h.logger.symm⟩

theorem trans (h : Alike scope e e') (h' : Alike scope e' e₁) : Alike scope e e₁ where
  design := h.design.trans h'.design
  contexts id hid := (h'.contexts id hid).trans (h.contexts id hid)
  signals id hid := (h'.signals id hid).trans (h.signals id hid)
  logger := h'.logger.trans h.logger

theorem contextOf (h : Alike scope e e') {id : ContextId} (hid : scope.contexts id) :
    e'.contextOf id = e.contextOf id := by
  simp only [Engine.contextOf, Array.getD_eq_getD_getElem?, h.contexts id hid]

theorem signal? (h : Alike scope e e') {context : Option ContextId} {signal : Option SignalId}
    (covers : scope.Covers context signal) : e'.signal? signal = e.signal? signal := by
  cases signal with
  | none => rfl
  | some id => exact h.signals id (covers.signal rfl)

theorem logger_congr {g g' : Engine H} (h : e'.demandLogger.1 = e.demandLogger.1)
    (hg : g.defaultLogger = e.defaultLogger ∧ g.environment = e.environment)
    (hg' : g'.defaultLogger = e'.defaultLogger ∧ g'.environment = e'.environment) :
    g'.demandLogger.1 = g.demandLogger.1 := by
  have hfirst {e g : Engine H} (hg : g.defaultLogger = e.defaultLogger ∧
    g.environment = e.environment) :
      g.demandLogger.1 = e.demandLogger.1 := by
    unfold Engine.demandLogger
    rw [hg.1, hg.2]
    cases e.defaultLogger <;> rfl
  rw [hfirst hg, hfirst hg', h]

theorem updateContext (h : Alike scope e e') (id : ContextId) (f : Context Value → Context Value) :
    Alike scope (e.updateContext id f) (e'.updateContext id f) where
  design := h.design
  contexts other hother := by
    simp only [Engine.updateContext, Array.getElem?_modify, h.contexts other hother]
  signals := h.signals
  logger := logger_congr h.logger ⟨rfl, rfl⟩ ⟨rfl, rfl⟩

theorem updateSignals (h : Alike scope e e') {ss ss' : Signals}
    (hs : Signals.AgreeOn scope.signals ss ss') :
    Alike scope { e with signals := ss } { e' with signals := ss' } where
  design := h.design
  contexts := h.contexts
  signals := hs
  logger := logger_congr h.logger ⟨rfl, rfl⟩ ⟨rfl, rfl⟩

theorem logger_self (scope : Scope) (e : Engine H) : Alike scope e e.demandLogger.2 := by
  obtain ⟨hforest, hsignals, hcontexts⟩ :=
    Engine.choose_keeps (show e.choose none = (_, e.demandLogger.2) from rfl)
  constructor
  case design => rw [hforest]; exact .refl _
  case contexts => intro id hid; rw [hcontexts]
  case signals => intro id hid; rw [hsignals]
  case logger => cases hdefault : e.defaultLogger <;> simp [Engine.demandLogger, hdefault]

theorem updateForest_self (scope : Scope) (e : Engine H) {k : Rule H → Rule H}
    (hk : ∀ r, (k r).design = r.design) (rule : RuleId) :
    Alike scope e (e.updateForest fun f => f.update rule k) where
  design := .update e.forest rule hk
  contexts _ _ := rfl
  signals _ _ := rfl
  logger := logger_congr rfl ⟨rfl, rfl⟩ ⟨rfl, rfl⟩

theorem upkeep (scope : Scope) : Upkeep (H := H) (N := N) fun e _ e' => Alike scope e e' where
  nil e := refl scope e
  append h h' := h.trans h'
  nested h := h
  invoked e _ _ _ := refl scope e
  reached e rule _ status _ :=
  updateForest_self scope e (k := fun r => { r with status }) (fun _ => rfl) rule
  logged e _ _ := refl scope e
  bound e binding rule :=
    updateForest_self scope e (k := fun r => { r with binding := some binding }) (fun _ => rfl) rule
  logger e := logger_self scope e

end Engine.Alike

theorem likeness_alike (scope : Scope) : Likeness scope (Engine.Alike (H := H) scope) where
  design h := h.design
  signal h hid := h.signals _ hid
  logger h := h.logger
  demanded {e e'} h :=
  ((Engine.Alike.logger_self scope e).symm.trans h).trans (.logger_self scope e')
  marked {e e'} rule status h := by
    have hself (e : Engine H) :=
      (Engine.Alike.upkeep (H := H) (N := Empty) scope).reached e rule "" status false
    exact ((hself e).symm.trans h).trans (hself e')
  bound {e e'} binding rule h := by
    have hself (e : Engine H) :=
      (Engine.Alike.upkeep (H := H) (N := Empty) scope).bound e binding rule
    exact ((hself e).symm.trans h).trans (hself e')

def Operation.Within (scope : Scope) : Operation H N → Prop
  | .get _ => True
  | .set _ _ => True
  | .delete _ => True
  | .log _ => True
  | .note _ => True
  | .isCancelled => True
  | .throwIfAborted => True
  | .cancel handle _ => scope.signals handle
  | .abort controller _ => scope.signals controller
  | .throwIfCancelled handle => scope.signals handle
  | _ => False

namespace Operation.Within

open Outcome

variable {scope : Scope} {op : Operation H N}

theorem keepsTree (h : op.Within scope) : op.KeepsTree := by
  cases op <;> first | exact trivial | exact h

theorem startsNoRun (h : op.Within scope) : op.StartsNoRun := by
  cases op <;> first | exact trivial | exact h

theorem echoed (h : op.Within scope) : op.Echoed scope (Engine.Alike scope) := by
  intro runs runs' view covers hruns e e' he
  have hcontext := he.contextOf (covers.context rfl)
  have hsignal := he.signal? covers
  cases op with
  | get key =>
    simp only [perform, Act.state_bind_apply, hcontext]
    exact echoes_of_alike he _ _
  | set key value => exact echoes_of_alike (he.updateContext view.context _) _ _
  | delete key =>
    simp only [perform, Act.state_bind_apply, hcontext]
    exact echoes_of_alike (he.updateContext view.context _) _ _
  | log call => exact echoes_of_alike he _ _
  | note n => exact echoes_of_alike he _ _
  | isCancelled =>
    simp only [perform, Act.state_bind_apply, Engine.isAborted, hsignal]
    exact echoes_of_alike he _ _
  | throwIfAborted =>
    simp only [perform, Act.throwIfAborted, hsignal]
    generalize (e.signal? view.signal).bind Signal.reason? = reason
    cases view.signal <;> cases reason <;> exact echoes_of_alike he _ _
  | cancel handle reason =>
    obtain ⟨houtcome, hsignals, hnotices⟩ := he.signals.cancel h reason
    simp only [perform, Act.cancel, houtcome, hnotices]
    exact echoes_of_alike (he.updateSignals hsignals) _ _
  | abort controller reason =>
    have hsignals := he.signals.update controller (Signal.abort reason)
    simp only [perform, Act.abort, Engine.isAborted, Engine.signal?, Option.bind_some,
      he.signals controller h, Signals.abort, hsignals controller h]
    exact echoes_of_alike (he.updateSignals hsignals) _ _
  | throwIfCancelled handle =>
    simp only [perform, Act.throwIfCancelled, he.signals handle h]
    cases entryFault? (e.signals.get? handle) none <;> exact echoes_of_alike he _ _
  | setName rule name => exact h.elim
  | setHook rule phase hook => exact h.elim
  | addChildren rule batch => exact h.elim
  | release rule => exact h.elim
  | inspect rule => exact h.elim
  | run request => exact h.elim

end Operation.Within

end RuleForest
