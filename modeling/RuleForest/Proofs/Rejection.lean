import RuleForest.Proofs.Entry
import RuleForest.Proofs.Parts

namespace RuleForest

variable {H N : Type}

def Thrown.Lasts (x : Thrown) : Prop :=
  (∃ key, x.value = .fault (.missingKey key)) ∨ isCancellation x.value

def Thrown.Cancels (x : Thrown) (e : Engine H) (signal : Option SignalId) (reason : Value) : Prop :=
  ∃ id, signal = some id ∧ e.signals.reason? id = some reason ∧
  (x.isReasonOf id reason ∨ isAbortError x.value)

inductive Thrown.Becomes (x : Thrown) (phase : Phase) (name : String) (e : Engine H)
    (signal : Option SignalId) :
    Thrown → Prop where
  | itself (lasts : x.Lasts) : Becomes x phase name e signal x
  | cancelled {reason : Value} (foreign : ¬x.Lasts) (cancels : x.Cancels e signal reason) :
      Becomes x phase name e signal
      (.ofFault (.cancelled (some name) (describeReason reason) (some x.value)))
  | blamed (foreign : ¬x.Lasts) (other : ∀ reason, ¬x.Cancels e signal reason)
      (readable : x.value.hasText) :
      Becomes x phase name e signal (.ofFault (phase.fault name x.value))

theorem asCancellation?_cases {x : Thrown} (foreign : ¬x.Lasts) (e : Engine H)
    (signal : Option SignalId) (name : String) :
    ((∀ reason, ¬x.Cancels e signal reason) ∧ asCancellation? x (e.held signal) name = none) ∨
      ∃ reason, x.Cancels e signal reason ∧ asCancellation? x (e.held signal) name =
        some (.ofFault (.cancelled (some name) (describeReason reason) (some x.value))) := by
  have hno : isCancellation x.value = false := by
    rw [← Bool.not_eq_true]
    exact fun hc => foreign (.inr hc)
  cases signal with
  | none =>
    refine .inl ⟨?_, by simp [asCancellation?, hno, Engine.held]⟩
    rintro reason ⟨id, hid, -⟩
    cases hid
  | some id =>
    cases hs : e.signals.get? id with
    | none =>
      refine .inl ⟨?_, by simp [asCancellation?, hno, Engine.held, hs]⟩
      rintro reason ⟨id', hid, hr, -⟩
      obtain rfl := Option.some.inj hid
      simp [Signals.reason?, hs] at hr
    | some s =>
      have hreason : e.signals.reason? id = s.reason? := by
        rw [Signals.reason?, hs, Option.bind_some]
      cases hr : s.reason? with
      | none =>
        refine .inl ⟨?_, by simp [asCancellation?, hno, Engine.held, hs, hr]⟩
        rintro reason ⟨id', hid, hr', -⟩
        obtain rfl := Option.some.inj hid
        exact absurd ((hreason.trans hr).symm.trans hr') (by simp)
      | some reason =>
        by_cases hcancel : x.isReasonOf id reason ∨ isAbortError x.value
        · refine .inr ⟨reason, ⟨id, rfl, hreason.trans hr, hcancel⟩, ?_⟩
          have hcond : (x.isReasonOf id reason || isAbortError x.value) = true := by
            simpa using hcancel
          simp [asCancellation?, hno, Engine.held, hs, hr, hcond]
        · refine .inl ⟨?_, ?_⟩
          · rintro reason' ⟨id', hid, hr', hcancel'⟩
            obtain rfl := Option.some.inj hid
            obtain rfl := Option.some.inj ((hreason.trans hr).symm.trans hr')
            exact hcancel hcancel'
          · simp only [not_or, Bool.not_eq_true] at hcancel
            simp [asCancellation?, hno, Engine.held, hs, hr, hcancel]

theorem Thrown.showing_cases (v : Value) (f : Fault) :
    v.hasText ∧ showing v f = .ofFault f ∨
    ¬v.hasText ∧ showing v f = { value := conversionError } := by
  by_cases h : v.hasText
  · exact .inl ⟨h, by simp only [showing, Fault.showing, h, if_true]⟩
  · exact .inr ⟨h, by simp [showing, Fault.showing, h]⟩

theorem Thrown.blamed_cases (x : Thrown) (phase : Phase) (e : Engine H) (signal : Option SignalId)
    (name : String) :
    x.Lasts ∧ x.blamed phase (e.held signal) name = x ∨
      ¬x.Lasts ∧ (∃ reason, x.Cancels e signal reason ∧ x.blamed phase (e.held signal) name =
        .ofFault (.cancelled (some name) (describeReason reason) (some x.value))) ∨
      ¬x.Lasts ∧ (∀ reason, ¬x.Cancels e signal reason) ∧
        x.blamed phase (e.held signal) name = .showing x.value (phase.fault name x.value) := by
  by_cases hkey : ∃ key, x.value = .fault (.missingKey key)
  · obtain ⟨key, hx⟩ := hkey
    exact .inl ⟨.inl ⟨key, hx⟩, by simp only [blamed, hx]⟩
  have hx : x.blamed phase (e.held signal) name =
      (asCancellation? x (e.held signal) name).getD
        (.showing x.value (phase.fault name x.value)) := by
    unfold blamed
    split
    · next key hx => exact absurd ⟨key, hx⟩ hkey
    · rfl
  rw [hx]
  by_cases hcancel : isCancellation x.value
  · exact .inl ⟨.inr hcancel, by simp [asCancellation?, hcancel]⟩
  have foreign : ¬x.Lasts := fun hl => hl.elim hkey hcancel
  rcases asCancellation?_cases foreign e signal name with ⟨hother, hno⟩ | ⟨reason, hcancels, hyes⟩
  · exact .inr (.inr ⟨foreign, hother, by rw [hno, Option.getD_none]⟩)
  · exact .inr (.inl ⟨foreign, reason, hcancels, by rw [hyes, Option.getD_some]⟩)

theorem Thrown.blamed_becomes (x : Thrown) (phase : Phase) (e : Engine H) (signal : Option SignalId)
    (name : String) :
    x.Becomes phase name e signal (x.blamed phase (e.held signal) name) ∨
      ¬x.value.hasText ∧ x.blamed phase (e.held signal) name = { value := conversionError } := by
  rcases x.blamed_cases phase e signal name with
    ⟨lasts, hy⟩ | ⟨foreign, reason, cancels, hy⟩ | ⟨foreign, other, hy⟩ <;> rw [hy]
  · exact .inl (.itself lasts)
  · exact .inl (.cancelled foreign cancels)
  · rcases showing_cases x.value (phase.fault name x.value) with ⟨readable, hy⟩ | hy
    · rw [hy]
      exact .inl (.blamed foreign other readable)
    · exact .inr hy

theorem Thrown.Becomes.isEngineError {x y : Thrown} {phase : Phase} {e : Engine H}
    {signal : Option SignalId} {name : String} (h : x.Becomes phase name e signal y) :
    RuleForest.isEngineError y.value := by
  cases h with
  | itself lasts =>
    rcases lasts with ⟨key, hx⟩ | hx
    · rw [hx]
      rfl
    · unfold isCancellation at hx
      split at hx
      · next f hf => rw [hf]; rfl
      · simp at hx
  | cancelled => rfl
  | blamed => rfl

theorem Request.verdict_thrown_cases {request : Request} {logger : Logger} {x y : Thrown}
    (h : request.verdict logger (.thrown y) = .thrown x) :
    y.value.hasText ∧ (x = y ∨ ∃ v,
        logger.objection? (request.failedCall (Act.failurePayload y.value)) = some v ∧
          x = { value := v }) ∨
      ¬y.value.hasText ∧ x = { value := conversionError } := by
  by_cases ht : y.value.hasText
  · simp only [verdict, ht, if_true] at h
    refine .inl ⟨ht, ?_⟩
    cases ho : logger.objection? (request.failedCall (Act.failurePayload y.value)) with
    | none =>
      rw [ho] at h
      exact .inl (Ending.thrown.inj h).symm
    | some v =>
      rw [ho] at h
      exact .inr ⟨v, rfl, (Ending.thrown.inj h).symm⟩
  · simp only [verdict, ht] at h
    exact .inr ⟨ht, (Ending.thrown.inj h).symm⟩

namespace Act

inductive Misfires (b : Behavior H N) (runs : Request → Act H N Unit) (rule : RuleId)
    (signal : Option SignalId) (e : Engine H) : List (Event N) → Thrown → Prop where
  | threw {h : H} {phase : Phase} {view : View} {e₀ : Engine H} {x y : Thrown}
      {before es : List (Event N)}
      (set : ((e₀.forest.get? rule).bind fun r => r.hook? phase) = some h)
      (work : b.call runs h phase view e₀ = ⟨.thrown x, e, es⟩)
      (becomes : x.Becomes phase (e.forest.nameOf rule) e signal y) :
      Misfires b runs rule signal e (before ++ .invoked rule phase view :: es) y
  | returned {h : H} {phase : Phase} {view : View} {e₀ : Engine H} {error : Option Value}
      {v : Value}
      {before es : List (Event N)} (set : ((e₀.forest.get? rule).bind fun r => r.hook? phase) =
        some h)
      (work : b.call runs h phase view e₀ = ⟨.done error, e, es⟩)
      (given : error.filter Value.isGiven = some v) (readable : v.hasText) :
      Misfires b runs rule signal e (before ++ .invoked rule phase view :: es)
        (.ofFault (phase.fault (e.forest.nameOf rule) v))

inductive Unreadable (b : Behavior H N) (runs : Request → Act H N Unit) (rule : RuleId)
    (e : Engine H) :
    List (Event N) → Prop where
  | threw {h : H} {phase : Phase} {view : View} {e₀ : Engine H} {x : Thrown}
      {before es : List (Event N)}
      (work : b.call runs h phase view e₀ = ⟨.thrown x, e, es⟩) (textless : ¬x.value.hasText) :
      Unreadable b runs rule e (before ++ .invoked rule phase view :: es)
  | returned {h : H} {phase : Phase} {view : View} {e₀ : Engine H} {v : Value}
      {before es : List (Event N)}
      (work : b.call runs h phase view e₀ = ⟨.done (some v), e, es⟩) (textless : ¬v.hasText) :
      Unreadable b runs rule e (before ++ .invoked rule phase view :: es)

inductive Objected (binding : Binding) (events : List (Event N)) (x : Thrown) : Prop where
  | reporter {rule : RuleId} {name : String} {status : Status} {reported : Bool} {v : Value}
      (mem : .reached rule name status reported ∈ events)
      (throws : binding.objection name status = some v) (value : x = { value := v })
  | log {call : LogCall} {v : Value} (mem : .logged binding.logger call ∈ events)
      (throws : binding.logger.objection? call = some v) (value : x = { value := v })

section

variable {b : Behavior H N} {runs : Request → Act H N Unit} {rule : RuleId} {binding : Binding}
  {view : View}
variable {signal : Option SignalId} {e e₁ : Engine H} {es own : List (Event N)} {x y : Thrown}

theorem Misfires.prepend (h : Misfires b runs rule signal e own y) (es : List (Event N)) :
    Misfires b runs rule signal e (es ++ own) y := by
  cases h with
  | threw set work becomes =>
    rw [← List.append_assoc]
    exact .threw set work becomes
  | returned set work given readable =>
    rw [← List.append_assoc]
    exact .returned set work given readable

theorem Unreadable.prepend (h : Unreadable b runs rule e own) (es : List (Event N)) :
    Unreadable b runs rule e (es ++ own) := by
  cases h with
  | threw work textless =>
    rw [← List.append_assoc]
    exact .threw work textless
  | returned work textless =>
    rw [← List.append_assoc]
    exact .returned work textless

theorem Objected.mono {es more : List (Event N)} (h : Objected binding es x) (hsub : es ⊆ more) :
    Objected binding more x := by
  cases h with
  | reporter mem throws value => exact .reporter (hsub mem) throws value
  | log mem throws value => exact .log (hsub mem) throws value

theorem Objected.prepend (h : Objected binding own x) (es : List (Event N)) :
    Objected binding (es ++ own) x :=
  h.mono (List.subset_append_right es own)

theorem Objected.append (h : Objected binding own x) (es : List (Event N)) :
    Objected binding (own ++ es) x :=
  h.mono (List.subset_append_left own es)

theorem objected_of_protest {name : String} {strategy : Strategy} {children : Nat} {status : Status}
    {v : Value} (h : binding.protest name strategy children status = some v) (rule : RuleId) :
    Objected binding (binding.telling rule name strategy children status : List (Event N))
      { value := v } := by
  unfold Binding.protest at h
  unfold Binding.telling
  cases ho : binding.objection name status with
  | some w =>
    rw [ho, Option.some_or, Option.some.injEq] at h
    exact .reporter List.mem_cons_self (h ▸ ho) rfl
  | none =>
    rw [ho, Option.none_or, Option.bind_eq_some_iff] at h
    obtain ⟨call, hcall, hthrows⟩ := h
    refine .log (List.mem_cons_of_mem _ ?_) hthrows rfl
    simp [hcall]

theorem Misfires.isEngineError (h : Misfires b runs rule signal e own y) :
    RuleForest.isEngineError y.value := by
  cases h with
  | threw set work becomes => exact becomes.isEngineError
  | returned => rfl

def Blames (b : Behavior H N) (runs : Request → Act H N Unit) (rule : RuleId)
    (signal : Option SignalId) (e : Engine H) (own : List (Event N)) (y : Thrown) : Prop :=
  Misfires b runs rule signal e own y ∨
    Unreadable b runs rule e own ∧ y = { value := conversionError }

theorem Blames.prepend (h : Blames b runs rule signal e own y) (es : List (Event N)) :
    Blames b runs rule signal e (es ++ own) y :=
  h.imp (·.prepend es) (And.imp_left (·.prepend es))

theorem Called.blames {phase : Phase} (h : Called b runs rule view phase e ⟨.thrown y, e₁, es⟩) :
    Blames b runs rule view.signal e₁ es y := by
  cases h with
  | @threw hook x _ es' set work =>
    rcases x.blamed_becomes phase e₁ view.signal (e₁.forest.nameOf rule) with h | ⟨textless, hy⟩
    · have hm : Misfires b runs rule view.signal e₁ ([] ++ .invoked rule phase view :: es') _ :=
        .threw set work h
      exact .inl hm
    · have hu : Unreadable b runs rule e₁ ([] ++ .invoked rule phase view :: es') :=
        .threw work textless
      exact .inr ⟨hu, hy⟩
  | @returned hook error v _ es' set work given =>
    rcases Thrown.showing_cases v (phase.fault (e₁.forest.nameOf rule) v)
      with ⟨readable, hy⟩ | ⟨textless, hy⟩
    · have hm : Misfires b runs rule view.signal e₁ ([] ++ .invoked rule phase view :: es') _ :=
        .returned set work given readable
      exact .inl (by rw [hy]; exact hm)
    · have herror : error = some v := (Option.filter_eq_some_iff.mp given).1
      have hu : Unreadable b runs rule e₁ ([] ++ .invoked rule phase view :: es') :=
        .returned (herror ▸ work) textless
      exact .inr ⟨hu, hy⟩

theorem Follows.blames {plan : List Duty} {r : Ending Unit}
    (h : Follows b runs rule binding view plan e r e₁ es) (hr : r = .thrown y) :
    Objected binding es y ∨ Blames b runs rule view.signal e₁ es y := by
  induction h with
  | nil => cases hr
  | pass first rest ih => exact (ih hr).imp (·.prepend _) (·.prepend _)
  | @fail duty duties e e₁ x es first =>
    obtain rfl := Ending.thrown.inj hr
    cases duty with
    | call phase =>
      have hc : Called b runs rule view phase e ⟨.thrown x, e₁, es⟩ := by
        rw [← first]
        exact perform_called (by rw [first]; simp)
      exact .inr hc.blames
    | tell status =>
      rw [perform_tell] at first
      cases hp : binding.protest (e.forest.nameOf rule) view.strategy
        (e.forest.childrenOf rule).length
          status with
      | none => simp [hp] at first
      | some v =>
        rw [hp, Ending.barring_some, Outcome.mk.injEq] at first
        obtain ⟨hx, -, rfl⟩ := first
        obtain rfl := Ending.thrown.inj hx
        exact .inl (objected_of_protest hp rule)

theorem serve_shows {depth : Nat} {strategy : Strategy} {ending : Ending Bool}
    (served : serve b (run b depth) rule binding strategy e = ⟨ending, e₁, own⟩)
    (hne : ending ≠ .exhausted) :
    Part (Duty.Shows (fun _ _ => True) rule) ending.result (signs own) := by
  have hs : Served b (run b depth) rule binding strategy e _ :=
    serve_served (by rw [served]; exact hne)
  rw [served] at hs
  exact hs.part (P := fun _ => True) (fun _ _ _ _ => trivial)
    (fun _ _ _ _ _ hne => perform_shows (fun _ => trivial) hne) trivial

theorem Traverses.not_failed {depth : Nat} {rules : List RuleId} {o : Outcome H N Unit}
    (h : Traverses b binding depth rules e o) (hdone : o.ending = .done ()) (q : RuleId) :
    ¬Reached (signs o.events) q .failed := by
  induction h with
  | nil => exact not_reached_nil q .failed
  | declined found served rest ih =>
    rw [signs_append, reached_append, not_or]
    exact ⟨(serve_shows served (by simp)).not_failed q, ih hdone⟩
  | passed found served below goesOn rest ihBelow ih =>
    rw [signs_append, signs_append, reached_append, reached_append, not_or, not_or]
    exact ⟨⟨(serve_shows served (by simp)).not_failed q, ihBelow rfl⟩, ih hdone⟩
  | stopped found served below stops ih =>
    rw [signs_append, reached_append, not_or]
    exact ⟨(serve_shows served (by simp)).not_failed q, ih rfl⟩
  | failed => cases hdone
  | failedBelow => cases hdone

theorem Enters.not_failed {depth left : Nat} {target : RuleId} {rules around : List RuleId}
    {e₀ : Engine H} {before : List (Event N)}
    (h : Enters b binding target depth rules e around left e₀ before) (q : RuleId) :
    ¬Reached (signs before) q .failed := by
  induction h with
  | here => exact not_reached_nil q .failed
  | later found served rest ih =>
    rw [signs_append, reached_append, not_or]
    exact ⟨(serve_shows served (by simp)).not_failed q, ih⟩
  | beyond found served below goesOn rest ih =>
    rw [signs_append, signs_append, reached_append, reached_append, not_or, not_or]
    exact ⟨⟨(serve_shows served (by simp)).not_failed q, below.not_failed rfl q⟩, ih⟩
  | under found served below ih =>
    rw [signs_append, reached_append, not_or]
    exact ⟨(serve_shows served (by simp)).not_failed q, ih⟩

theorem signs_failures (e : Engine H) (binding : Binding) (rules : List RuleId) :
    signs (e.failures binding rules : List (Event N)) =
      rules.map fun rule => .report rule (e.forest.nameOf rule) .failed := by
  simp only [signs, Engine.failures, List.filterMap_map]
  exact congrFun (List.filterMap_eq_map
    (f := fun rule => Sign.report rule (e.forest.nameOf rule) .failed)) rules

end

theorem mem_failures {e : Engine H} {binding : Binding} {rules : List RuleId} {rule : RuleId}
    (h : rule ∈ rules) : (e.report binding rule .failed : Event N) ∈ e.failures binding rules :=
  List.mem_map_of_mem h

section

variable {b : Behavior H N} {binding : Binding} {rule : RuleId} {around : List RuleId} {left : Nat}
variable {strategy : Strategy} {e e₁ : Engine H} {own : List (Event N)} {x y : Thrown}

theorem serve_blames
    (served : serve b (run b left) rule binding strategy e = ⟨.thrown y, e₁, own⟩) :
    (∃ reason, own = [] ∧ (e₁.signal? binding.signal).bind Signal.reason? = some reason ∧
        y = .ofFault (.cancelled (some (e₁.forest.nameOf rule)) (describeReason reason)
          (some reason))) ∨
      Objected binding own y ∨ Blames b (run b left) rule binding.signal e₁ own y := by
  have hs : Served b (run b left) rule binding strategy e _ := serve_served (by rw [served]; simp)
  rw [served] at hs
  cases hs with
  | @refused reason aborted => exact .inl ⟨reason, rfl, aborted, rfl⟩
  | failed clear planned course => exact .inr (course.blames rfl)

theorem verdict_unwound {request : Request} {logger : Logger} {context : ContextId}
    {rules : List RuleId}
    (h : request.verdict logger (.thrown ((request.binding context logger).unwound e rules y)) =
      .thrown x) :
    x = y ∨ ¬y.value.hasText ∨ ∃ z,
      Objected (request.binding context logger)
        (e.failures (request.binding context logger) rules ++
          request.closing logger
            (.thrown ((request.binding context logger).unwound e rules y)) : List (Event N)) z ∧
        (z.value.hasText → x = z) := by
  set w := (request.binding context logger).unwound e rules y with hw
  rcases Request.verdict_thrown_cases h with ⟨ht, rfl | ⟨v, hv, rfl⟩⟩ | ⟨ht, -⟩
  · rcases (request.binding context logger).unwound_cases e rules y with hu | ⟨q, hq, v, hv, hu⟩
    · exact .inl hu
    · refine .inr (.inr ⟨w, .reporter (List.mem_append_left _ (mem_failures hq)) hv hu,
        fun _ => rfl⟩)
  · refine .inr (.inr ⟨_, .log (List.mem_append_right _ ?_) hv rfl, fun _ => rfl⟩)
    simp [Request.closing, Request.lastCalls, ht, Request.binding]
  · rcases (request.binding context logger).unwound_cases e rules y with hu | ⟨q, hq, v, hv, hu⟩
    · exact .inr (.inl (hu ▸ ht))
    · refine .inr (.inr ⟨w, .reporter (List.mem_append_left _ (mem_failures hq)) hv hu, ?_⟩)
      exact fun ht' => absurd ht' ht

end

end Act

def failing : Behavior Unit Unit where
  evaluate _ _ := .done { shouldExecute := true }
  execute _ _ _ := .throw (.text "boom")

def lone : Engine Unit where
  forest := { rules := #[{ strategy := .chain, name := "lone", execution := some () }] }
  contexts := #[.empty]

def loneRun (reporter : Option Reporter) : Request :=
  { Request.chain (some 0) (some 0) with logger := some (.ofOptions {}), reporter }

def objectingListener : Listener := fun _ => some (.text "no")

namespace Act

end Act

end RuleForest
