import RuleForest.Proofs.Fronts
import RuleForest.Proofs.Kinship
import RuleForest.Proofs.Pairing

namespace RuleForest

variable {H N : Type}

inductive Signals.Swapped (s : String) :
    Option (Bool × Option Value) → Option (Bool × Option Value) → Prop where
  | opened : Swapped s (some (true, none)) (some (false, none))
  | aborted : Swapped s (some (true, some (.fault (.cancelled none (some s) none))))
      (some (false, some (.text s)))

/-- The engines are the same, but that the signal `i` is a handle in the one and a controller in the
other, and but for who listens to signals. -/
structure Engine.Interchanged (i : SignalId) (s : String) (e e' : Engine H) : Prop where
  forest : e'.forest = e.forest
  contexts : e'.contexts = e.contexts
  defaultLogger : e'.defaultLogger = e.defaultLogger
  environment : e'.environment = e.environment
  swapped : Signals.Swapped s (e.signals.front? i) (e'.signals.front? i)
  others (id : SignalId) : id ≠ i → e'.signals.front? id = e.signals.front? id

theorem Signals.Swapped.reasons {s : String} {front front' : Option (Bool × Option Value)}
    (h : Swapped s front front') :
    front'.bind Prod.snd = front.bind Prod.snd ∨
      front.bind Prod.snd = some (.fault (.cancelled none (some s) none)) ∧
      front'.bind Prod.snd = some (.text s) := by
  cases h with
  | opened => exact .inl rfl
  | aborted => exact .inr ⟨rfl, rfl⟩

theorem entryFault?_get? (ss : Signals) (id : SignalId) (rule : Option String) :
    entryFault? (ss.get? id) rule =
      (ss.reason? id).map fun reason => .cancelled rule (describeReason reason) (some reason) := by
  rw [entryFault?, Signals.reason?]
  cases (ss.get? id).bind Signal.reason? <;> rfl

namespace Engine.Interchanged

variable {i : SignalId} {s : String} {e e' : Engine H}

theorem reasons (h : e.Interchanged i s e') (id : SignalId) :
    e'.signals.reason? id = e.signals.reason? id ∨
    id = i ∧ e.signals.reason? id = some (.fault (.cancelled none (some s) none)) ∧
      e'.signals.reason? id = some (.text s) := by
  simp only [Signals.reason?_eq]
  by_cases hid : id = i
  · subst hid
    exact h.swapped.reasons.imp_right fun h => ⟨rfl, h⟩
  · exact .inl (congrArg (Option.bind · Prod.snd) (h.others id hid))

theorem isSome_reason? (h : e.Interchanged i s e') (id : SignalId) :
    (e'.signals.reason? id).isSome = (e.signals.reason? id).isSome := by
  rcases h.reasons id with hid | ⟨-, hid, hid'⟩
  · rw [hid]
  · rw [hid, hid']
    rfl

theorem describeReason_eq (h : e.Interchanged i s e') (given : Text.isBlankText s = false)
    {id : SignalId} {reason reason' : Value} (hr : e.signals.reason? id = some reason)
    (hr' : e'.signals.reason? id = some reason') :
    describeReason reason' = describeReason reason := by
  rcases h.reasons id with hid | ⟨-, hid, hid'⟩
  · obtain rfl : reason' = reason := Option.some.inj (hr'.symm.trans (hid.trans hr))
    rfl
  · obtain rfl := Option.some.inj (hr.symm.trans hid)
    obtain rfl := Option.some.inj (hr'.symm.trans hid')
    rw [describeReason, describeReason, given]
    rfl

theorem entryFault? (h : e.Interchanged i s e') (given : Text.isBlankText s = false) (id : SignalId)
    (rule : Option String) :
    Option.Rel Fault.Akin (entryFault? (e.signals.get? id) rule)
      (entryFault? (e'.signals.get? id) rule) := by
  rw [entryFault?_get?, entryFault?_get?]
  rcases h.reasons id with hid | ⟨-, hid, hid'⟩
  · rw [hid]
    cases e.signals.reason? id with
    | none => exact .none
    | some reason => exact .some (.refl _)
  · have hdescribe := h.describeReason_eq given hid hid'
    rw [hid, hid', Option.map_some, Option.map_some, hdescribe]
    exact .some (Fault.akin_cancelled _ _ _ _)

theorem updateForest (h : e.Interchanged i s e') (f : Forest H → Forest H) :
    (e.updateForest f).Interchanged i s (e'.updateForest f) :=
  { h with forest := congrArg f h.forest }

theorem updateContext (h : e.Interchanged i s e') (id : ContextId)
    (f : Context Value → Context Value) :
    (e.updateContext id f).Interchanged i s (e'.updateContext id f) :=
  { h with contexts := congrArg (Array.modify · id f) h.contexts }

theorem contextOf (h : e.Interchanged i s e') (id : ContextId) :
    e'.contextOf id = e.contextOf id := by
  rw [Engine.contextOf, Engine.contextOf, h.contexts]

theorem demandLogger (h : e.Interchanged i s e') :
    e'.demandLogger.1 = e.demandLogger.1 ∧ e.demandLogger.2.Interchanged i s e'.demandLogger.2 := by
  unfold Engine.demandLogger
  rw [h.defaultLogger, h.environment]
  cases e.defaultLogger with
  | some l => exact ⟨rfl, h⟩
  | none => exact ⟨rfl, { h with defaultLogger := rfl, environment := rfl }⟩

end Engine.Interchanged

def MayThrow (reporter : Option Reporter) (v : Value) : Prop :=
  ∃ report name status, reporter = some report ∧ report name status = some v

theorem not_mayThrow_none (v : Value) : ¬MayThrow none v := by
  rintro ⟨report, -, -, htold, -⟩
  cases htold

def Logger.Withholds (s : String) (l : Logger) : Prop := ∀ call, l.objection? call ≠ some (.text s)

def Engine.LogWithholds (s : String) (e : Engine H) : Prop :=
  ∀ l, e.defaultLogger = some l → l.Withholds s

theorem Logger.withholds_of_unheard {l : Logger} (h : l.listener = none) (s : String) :
    l.Withholds s := by
  intro call
  simp [objection?, h]

theorem Engine.LogWithholds.demandLogger {s : String} {e : Engine H} (h : e.LogWithholds s) :
    e.demandLogger.1.Withholds s ∧ e.demandLogger.2.LogWithholds s := by
  unfold Engine.demandLogger
  cases hl : e.defaultLogger with
  | some l => exact ⟨h l hl, h⟩
  | none =>
    have hnew := Logger.withholds_of_unheard (l := .ofConfig (.ofEnvironment e.environment)) rfl s
    refine ⟨hnew, ?_⟩
    rintro l ⟨⟩
    exact hnew

mutual

def Event.withoutNotices : Event N → List (Event N)
  | .noticed _ => []
  | .nested events => [.nested (RuleForest.withoutNotices events)]
  | event => [event]

def withoutNotices : List (Event N) → List (Event N)
  | [] => []
  | event :: events => event.withoutNotices ++ withoutNotices events

end

theorem withoutNotices_append (before after : List (Event N)) :
    withoutNotices (before ++ after) = withoutNotices before ++ withoutNotices after := by
  induction before with
  | nil => rfl
  | cons event events ih =>
    rw [List.cons_append, withoutNotices, withoutNotices, ih, List.append_assoc]

theorem withoutNotices_noticed (notices : List Notice) :
    withoutNotices (notices.map .noticed : List (Event N)) = [] := by
  induction notices with
  | nil => rfl
  | cons notice notices ih =>
    rw [List.map_cons, withoutNotices, Event.withoutNotices, ih, List.nil_append]

def interchange (H N : Type) (i : SignalId) (s : String) : Pairing H N where
  scope := .all
  logs := Logger.Withholds s
  states e e' := e.Interchanged i s e' ∧ e.LogWithholds s
  events es es' := withoutNotices es' = withoutNotices es
  thrown reporter x x' := x.Akin x' ∧ (x'.value = .text s → MayThrow reporter (.text s))
  raised signal x x' := x.Akin x' ∧ (signal = some i → x'.value ≠ .text s)
  reported := Value.Akin
  lax := False

theorem Thrown.Own.mayThrow {s : String} {reporter : Option Reporter} {x : Thrown}
    (h : x.Own reporter (Logger.Withholds s)) (hx : x.value = .text s) :
    MayThrow reporter (.text s) := by
  cases h with
  | fault => cases hx
  | conversion => cases hx
  | @reported report name status v told answered =>
    obtain rfl : v = .text s := hx
    exact ⟨report, name, status, told, answered⟩
  | @logged l call v withholds answered =>
    obtain rfl : v = .text s := hx
    exact absurd answered (withholds call)

theorem Thrown.ofFault_ne_text (f : Fault) (s : String) : (ofFault f).value ≠ .text s := by
  intro hx
  cases hx

theorem Thrown.Lasts.ne_text {x : Thrown} (h : x.Lasts) (s : String) : x.value ≠ .text s := by
  intro hx
  rcases h with ⟨key, hkey⟩ | hcancellation
  · rw [hx] at hkey
    cases hkey
  · rw [hx] at hcancellation
    cases hcancellation

theorem Thrown.showing_ne_text (v : Value) (f : Fault) (s : String) :
    (showing v f).value ≠ .text s := by
  rcases showing_cases v f with ⟨-, hx⟩ | ⟨-, hx⟩ <;> rw [hx]
  · exact ofFault_ne_text f s
  · intro hx
    cases hx

section

variable {i : SignalId} {s : String} {e e' : Engine H}

theorem Thrown.cancels_some {x : Thrown} {id : SignalId} {reason : Value} :
    x.Cancels e (some id) reason ↔
    e.signals.reason? id = some reason ∧ (x.isReasonOf id reason ∨ isAbortError x.value) := by
  constructor
  · rintro ⟨_, hid, h⟩
    cases hid
    exact h
  · exact fun h => ⟨id, rfl, h⟩

theorem Thrown.Akin.isReasonOf_swapped {x x' : Thrown} (h : x.Akin x')
    (foreign : x'.value ≠ .text s) (id : SignalId) (f : Fault) :
    x'.isReasonOf id (.text s) = x.isReasonOf id (.fault f) := by
  have hfault : x.value.same (.fault f) = false := by cases x.value <;> rfl
  have htext : x'.value.same (.text s) = false := by
    cases hx : x'.value with
    | text t =>
      rw [Value.same, beq_eq_false_iff_ne]
      rintro rfl
      exact foreign hx
    | _ => rfl
  rw [Thrown.isReasonOf, Thrown.isReasonOf, h.reasonOf, hfault, htext]

theorem Engine.Interchanged.cancels_iff (h : e.Interchanged i s e') {signal : Option SignalId}
    {x x' : Thrown} (akin : x.Akin x') (foreign : signal = some i → x'.value ≠ .text s) :
    (∃ reason, x'.Cancels e' signal reason) ↔ ∃ reason, x.Cancels e signal reason := by
  cases signal with
  | none =>
    constructor
    · rintro ⟨reason, _, hid, -⟩
      cases hid
    · rintro ⟨reason, _, hid, -⟩
      cases hid
  | some id =>
    simp only [Thrown.cancels_some, akin.value.isAbortError]
    rcases h.reasons id with hid | ⟨rfl, hid, hid'⟩
    · simp only [hid, akin.isReasonOf]
    · have hown := akin.isReasonOf_swapped (foreign rfl) id (.cancelled none (some s) none)
      rw [hid, hid']
      constructor
      · rintro ⟨_, hr, hx⟩
        cases hr
        exact ⟨_, rfl, hown ▸ hx⟩
      · rintro ⟨_, hr, hx⟩
        cases hr
        exact ⟨_, rfl, hown ▸ hx⟩

theorem Engine.Interchanged.blamed (h : e.Interchanged i s e') (given : Text.isBlankText s = false)
    {signal : Option SignalId} {x x' : Thrown} (akin : x.Akin x')
    (foreign : signal = some i → x'.value ≠ .text s) (phase : Phase) (rule : String) :
    (x.blamed phase (e.held signal) rule).Akin (x'.blamed phase (e'.held signal) rule) ∧
      (x'.blamed phase (e'.held signal) rule).value ≠ .text s := by
  have hcancels := h.cancels_iff akin foreign
  rcases x.blamed_cases phase e signal rule with
    ⟨lasts, hy⟩ | ⟨foreign, reason, cancels, hy⟩ | ⟨foreign, other, hy⟩ <;>
    rcases x'.blamed_cases phase e' signal rule with
      ⟨lasts', hy'⟩ | ⟨foreign', reason', cancels', hy'⟩ | ⟨foreign', other', hy'⟩ <;>
    rw [hy, hy']
  · exact ⟨akin, lasts'.ne_text s⟩
  · exact absurd (akin.lasts.mpr lasts) foreign'
  · exact absurd (akin.lasts.mpr lasts) foreign'
  · exact absurd (akin.lasts.mp lasts') foreign
  · obtain ⟨id, rfl, hr, -⟩ := cancels
    obtain ⟨hr', -⟩ := Thrown.cancels_some.mp cancels'
    rw [h.describeReason_eq given hr hr']
    exact ⟨.ofFault (Fault.akin_cancelled _ _ _ _), Thrown.ofFault_ne_text _ s⟩
  · exact absurd (hcancels.mpr ⟨reason, cancels⟩) (not_exists.mpr other')
  · exact absurd (akin.lasts.mp lasts') foreign
  · exact absurd (hcancels.mp ⟨reason', cancels'⟩) (not_exists.mpr other)
  · exact ⟨akin.value.showing (akin.value.phase phase rule), Thrown.showing_ne_text _ _ s⟩

theorem interchange_sound (given : Text.isBlankText s = false) : (interchange H N i s).Sound where
  same _ := rfl
  append {before before' after after'} h h' := by
    change withoutNotices (before' ++ after') = withoutNotices (before ++ after)
    rw [withoutNotices_append, withoutNotices_append, h, h']
  nested {events events'} h := by
    change [Event.nested (withoutNotices events')] ++ [] = [.nested (withoutNotices events)] ++ []
    rw [h]
  design h := h.1.forest ▸ .refl _
  logger h := h.1.demandLogger.1
  demanded h := ⟨h.1.demandLogger.2, h.2.demandLogger.2⟩
  marked _ _ h := ⟨h.1.updateForest _, h.2⟩
  bound _ _ h := ⟨h.1.updateForest _, h.2⟩
  lent h := h.2.demandLogger.1
  own h := ⟨.refl _, h.mayThrow⟩
  refused {e e' context signal} h covers reporter rule := by
    cases signal with
    | none => exact .none
    | some id =>
      have hakin := h.1.entryFault? given id (some rule)
      change Option.Rel _ (entryFault? (e.signals.get? id) _) (entryFault? (e'.signals.get? id) _)
      generalize entryFault? (e.signals.get? id) (some rule) = f at hakin ⊢
      generalize entryFault? (e'.signals.get? id) (some rule) = f' at hakin ⊢
      cases hakin with
      | none => exact .none
      | some akin => exact .some ⟨.ofFault akin, fun hx => absurd hx (Thrown.ofFault_ne_text _ s)⟩
  blamed h covers raised reporter phase rule := by
    obtain ⟨akin, hne⟩ := h.1.blamed given raised.1 raised.2 phase rule
    exact ⟨akin, fun hx => absurd hx hne⟩
  given h := h.isGiven
  shown {v v'} h reporter phase rule :=
    ⟨h.showing (h.phase phase rule), fun hx => absurd hx (Thrown.showing_ne_text _ _ s)⟩
  hasText h := h.1.value.hasText
  payload h := h.1.value.failurePayload

end

def Operation.Spares (i : SignalId) (signal : Option SignalId) : Operation H N → Prop
  | .throwIfAborted => signal ≠ some i
  | .cancel handle _ => handle ≠ i
  | .abort controller _ => controller ≠ i
  | .run _ => False
  | .log _ => False
  | _ => True

section

variable {i : SignalId} {s : String} {e e' : Engine H} {view : View}
  {runs runs' : Request → Act H N Unit}

theorem Engine.Interchanged.updateSignals (h : e.Interchanged i s e') {ss ss' : Signals}
    (swapped : Signals.Swapped s (ss.front? i) (ss'.front? i))
    (others : ∀ id, id ≠ i → ss'.front? id = ss.front? id) :
    Engine.Interchanged i s { e with signals := ss } { e' with signals := ss' } :=
  { h with swapped, others }

theorem interchange_cancel_other (h : e.Interchanged i s e') (logs : e.LogWithholds s)
    {handle : SignalId} (hother : handle ≠ i) (reason : Option String) :
    (Act.cancel handle reason e).Paired (interchange H N i s)
      ((interchange H N i s).raised view.signal) Eq
      (Act.cancel handle reason e') := by
  have hfront := h.others handle hother
  by_cases hopen : e.signals.front? handle = some (true, none)
  · obtain ⟨ss, notices, hcancel, hss⟩ := Signals.cancel_of_front hopen reason
    obtain ⟨ss', notices', hcancel', hss'⟩ := Signals.cancel_of_front (hfront.trans hopen) reason
    simp only [Act.cancel, hcancel, hcancel']
    refine .done rfl ⟨h.updateSignals ?_ ?_, logs⟩ ?_
    · rw [hss, hss', if_neg hother, if_neg hother]
      exact h.swapped
    · intro id hid
      rw [hss, hss', h.others id hid]
    · change withoutNotices _ = withoutNotices _
      rw [withoutNotices_append, withoutNotices_append, withoutNotices_noticed,
        withoutNotices_noticed]
  · have hcancel := Signals.cancel_of_front_ne hopen reason
    have hcancel' := Signals.cancel_of_front_ne (hfront ▸ hopen) reason
    simp only [Act.cancel, hcancel, hcancel']
    exact .done rfl ⟨h, logs⟩ rfl

theorem interchange_abort_other (h : e.Interchanged i s e') (logs : e.LogWithholds s)
    {controller : SignalId} (hother : controller ≠ i) (reason : Value) :
    (Act.abort controller reason e).Paired (interchange H N i s)
      ((interchange H N i s).raised view.signal) Eq
      (Act.abort controller reason e') := by
  have hfront := h.others controller hother
  have hafter := Signals.front?_abort hfront controller reason
  rw [Act.abort_apply, Act.abort_apply, Signals.reason?_eq, Signals.reason?_eq, Signals.reason?_eq,
    Signals.reason?_eq, hfront, hafter]
  refine .done rfl ⟨h.updateSignals ?_ ?_, logs⟩ rfl
  · rw [Signals.abort, Signals.abort, Signals.front?_update, Signals.front?_update, if_neg hother,
      if_neg hother]
    exact h.swapped
  · exact fun id hid => Signals.front?_abort (h.others id hid) controller reason

theorem interchange_swapped (h : e.Interchanged i s e') (logs : e.LogWithholds s) :
    (Act.cancel i (some s) e).Paired (interchange H N i s)
      ((interchange H N i s).raised view.signal)
      (fun _ _ => True) (Act.abort i (.text s) e') := by
  have hswapped := h.swapped
  generalize hfront : e.signals.front? i = front at hswapped
  generalize hfront' : e'.signals.front? i = front' at hswapped
  have habort (given : Option Value) (hgiven : front' = some (false, given)) :=
    Signals.front?_abort_text (hfront'.trans hgiven) s
  rw [Act.abort_apply, Signals.reason?_eq, Signals.reason?_eq, hfront']
  cases hswapped with
  | opened =>
    obtain ⟨ss, notices, hcancel, hss⟩ := Signals.cancel_of_front hfront (some s)
    simp only [Act.cancel, hcancel, habort _ rfl]
    refine .done trivial ⟨h.updateSignals ?_ ?_, logs⟩ ?_
    · rw [hss, habort _ rfl, if_pos rfl, if_pos rfl]
      exact .aborted
    · intro id hid
      rw [hss, habort _ rfl, if_neg hid.symm, if_neg hid.symm]
      exact h.others id hid
    · change withoutNotices _ = withoutNotices _
      rw [withoutNotices_append, withoutNotices_noticed]
      rfl
  | aborted =>
    have hshut : e.signals.front? i ≠ some (true, none) := by rw [hfront]; simp
    simp only [Act.cancel, Signals.cancel_of_front_ne hshut, habort _ rfl]
    refine .done trivial ⟨h.updateSignals ?_ ?_, logs⟩ rfl
    · rw [hfront, habort _ rfl, if_pos rfl]
      exact .aborted
    · intro id hid
      rw [habort _ rfl, if_neg hid.symm]
      exact h.others id hid

theorem Operation.Spares.paired (given : Text.isBlankText s = false) {op : Operation H N}
    (spares : op.Spares i view.signal) :
    (interchange H N i s).Keeps ((interchange H N i s).raised view.signal) Eq (op.perform runs view)
      (op.perform runs' view) := by
  rintro e e' ⟨h, logs⟩
  cases op with
  | get key =>
    simp only [perform, Act.state_bind_apply, h.contextOf]
    exact .done rfl ⟨h, logs⟩ rfl
  | set key value => exact .done rfl ⟨h.updateContext _ _, logs⟩ rfl
  | delete key =>
    simp only [perform, Act.state_bind_apply, h.contextOf]
    exact .done rfl ⟨h.updateContext _ _, logs⟩ rfl
  | log call => exact spares.elim
  | note n => exact .done rfl ⟨h, logs⟩ rfl
  | isCancelled =>
    simp only [perform, Act.state_bind_apply]
    cases view.signal with
    | none => exact .done rfl ⟨h, logs⟩ rfl
    | some id =>
      rw [Engine.isAborted_some, Engine.isAborted_some, h.isSome_reason?]
      exact .done rfl ⟨h, logs⟩ rfl
  | throwIfAborted =>
    change view.signal ≠ some i at spares
    simp only [perform]
    generalize view.signal = signal at spares ⊢
    cases signal with
    | none => exact .done rfl ⟨h, logs⟩ rfl
    | some id =>
      have hid : id ≠ i := fun hid => spares (congrArg some hid)
      have hreason : e'.signals.reason? id = e.signals.reason? id := by
        rw [Signals.reason?_eq, Signals.reason?_eq, h.others id hid]
      rw [Act.throwIfAborted_some, Act.throwIfAborted_some, hreason]
      cases e.signals.reason? id with
      | none => exact .done rfl ⟨h, logs⟩ rfl
      | some reason => exact .thrown ⟨.refl _, fun hi => absurd hi spares⟩ ⟨h, logs⟩ rfl
  | cancel handle reason => exact interchange_cancel_other h logs spares reason
  | abort controller reason => exact interchange_abort_other h logs spares reason
  | throwIfCancelled handle =>
    have hakin := h.entryFault? given handle none
    simp only [perform, Act.throwIfCancelled]
    generalize RuleForest.entryFault? (e.signals.get? handle) none = f at hakin ⊢
    generalize RuleForest.entryFault? (e'.signals.get? handle) none = f' at hakin ⊢
    cases hakin with
    | none => exact .done rfl ⟨h, logs⟩ rfl
    | some akin => exact .thrown ⟨.ofFault akin, fun _ => Thrown.ofFault_ne_text _ s⟩ ⟨h, logs⟩ rfl
  | setName rule name => exact .done rfl ⟨h.updateForest _, logs⟩ rfl
  | setHook rule phase hook => exact .done rfl ⟨h.updateForest _, logs⟩ rfl
  | addChildren rule batch =>
    simp only [perform, Act.state_bind_apply, h.forest]
    cases e.forest.addChildren rule batch with
    | error fault => exact .thrown ⟨.refl _, fun _ => Thrown.ofFault_ne_text _ s⟩ ⟨h, logs⟩ rfl
    | ok f => exact .done rfl ⟨h.updateForest fun _ => f, logs⟩ rfl
  | release rule => exact .done rfl ⟨h.updateForest _, logs⟩ rfl
  | inspect rule =>
    simp only [perform, Act.state_bind_apply, h.forest]
    exact .done rfl ⟨h, logs⟩ rfl
  | run request => exact spares.elim

end

end RuleForest
