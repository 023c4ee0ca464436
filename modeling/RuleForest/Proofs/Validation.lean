import RuleForest.Proofs.History
import RuleForest.Proofs.Rejection

namespace RuleForest

variable {H N : Type}

def Thrown.Proper (x : Thrown) : Prop := isEngineError x.value ∨ x = { value := conversionError }

def Request.strategyFault? (request : Request) : Option Fault :=
  match request.strategy with
  | .text "chain" =>
    if 1 < request.rules.length then some (.chainArity .roots (.ofInt request.rules.length))
      else none
  | .text "best_first" => none
  | given => some (.invalidStrategy given.toText)

def Request.fault? (f : Forest H) (request : Request) : Option Fault :=
  if request.context.isNone then
    some .contextMissing
  else if request.rules = [] then
    none
  else
    match request.rules.findIdx? fun entry => (f.present? entry).isNone with
    | some i => some (.absentRule (some (.ofInt i)))
    | none => request.strategyFault?

def Fault.isValidation : Fault → Bool
  | contextMissing => true
  | absentRule _ => true
  | invalidStrategy _ => true
  | chainArity .roots _ => true
  | _ => false

theorem Fault.not_cancellation_of_isValidation {fault : Fault} (h : fault.isValidation) :
    fault.isCancellation = false := by
  cases fault <;> first | rfl | cases h

theorem Strategy.ofValue?_eq_none {v : Value} (hchain : v ≠ .text "chain")
    (hbest : v ≠ .text "best_first") :
    ofValue? v = none := by
  cases v with
  | text s =>
    have hs (strategy : Strategy) : strategy.text ≠ s := by
      rintro rfl
      cases strategy
      · exact hchain rfl
      · exact hbest rfl
    simp [ofValue?, ofText?, hs]
  | _ => rfl

namespace Act

variable {f : Forest H} {request : Request} {e : Engine H}

theorem presentRules_of_absent {entries : List (Option RuleId)} {i : Nat} (index : Nat)
    (h : entries.findIdx? (fun entry => (f.present? entry).isNone) = some i) :
    presentRules f index entries = .error (.absentRule (some (.ofInt (index + i : Nat)))) := by
  induction entries generalizing index i with
  | nil => simp at h
  | cons entry entries ih =>
    rw [List.findIdx?_cons] at h
    rw [presentRules]
    cases hp : f.present? entry with
    | none =>
      rw [hp, Option.isNone_none, if_pos rfl] at h
      obtain rfl := Option.some.inj h
      rfl
    | some rule =>
      rw [hp, Option.isNone_some, if_neg (by simp)] at h
      obtain ⟨j, hj, rfl⟩ := Option.map_eq_some_iff.mp h
      simp only [ih (index + 1) hj, Except.map]
      rw [Nat.add_assoc, Nat.add_comm 1]

theorem presentRules_of_present {entries : List (Option RuleId)} (index : Nat)
    (h : entries.findIdx? (fun entry => (f.present? entry).isNone) = none) :
    ∃ rules, presentRules f index entries = .ok rules ∧ entries = rules.map some ∧
    ∀ rule ∈ rules, rule < f.rules.size := by
  rw [List.findIdx?_eq_none_iff] at h
  have hpresent : ∀ entry ∈ entries, f.present? entry ≠ none := by
    intro entry hmem hnone
    have hsome := h entry hmem
    rw [hnone] at hsome
    cases hsome
  obtain ⟨hentries, hlt⟩ := Forest.eq_map_some_filterMap_present? hpresent
  have hrules := presentRules_map_some hlt index
  rw [← hentries] at hrules
  exact ⟨_, hrules, hentries, hlt⟩

theorem dispatch_of_context (fires : RuleId → Act H N Bool) (logger : Logger) {context : ContextId}
    (hcontext : request.context = some context) (hrules : request.rules ≠ []) (e : Engine H) :
    dispatch fires request logger e =
      (ofExcept (presentRules e.forest 0 request.rules) >>= fun batch =>
        match Strategy.ofValue? request.strategy, batch with
        | none, _ => failShowing request.strategy (.invalidStrategy request.strategy.toText)
        | some .chain, [root] => do
          bindTo (request.binding context logger) root
          let _ ← fires root
        | some .chain, _ => failWith (.chainArity .roots (.ofInt batch.length))
        | some .bestFirst, _ => fireFirst fires (request.binding context logger) batch) e := by
  simp only [dispatch, hcontext, List.isEmpty_iff, hrules, if_false, state_bind_apply]
  rfl

theorem dispatch_of_strategyFault {fault : Fault} (h : request.strategyFault? = some fault)
    (logger : Logger) {context : ContextId} (hcontext : request.context = some context)
    {rules : List RuleId} (hempty : request.rules ≠ [])
    (hrules : presentRules e.forest 0 request.rules = .ok rules)
    (hlength : request.rules.length = rules.length) :
    ∃ x : Thrown, x.Proper ∧ (request.strategy.hasText → x = .ofFault fault) ∧
      ∀ fires : RuleId → Act H N Bool, dispatch fires request logger e = ⟨.thrown x, e, []⟩ := by
  unfold Request.strategyFault? at h
  split at h
  · next hs =>
    split at h
    · next hmany =>
      obtain rfl := Option.some.inj h
      refine ⟨_, .inl rfl, fun _ => rfl, fun fires => ?_⟩
      have hchain : Strategy.ofValue? request.strategy = some .chain :=
        hs ▸ Strategy.ofValue?_text .chain
      rw [hlength] at hmany ⊢
      simp only [dispatch_of_context fires logger hcontext hempty, hrules, ofExcept,
        pure_bind_apply, hchain]
      obtain _ | ⟨_, _ | ⟨_, _⟩⟩ := rules
      · exact absurd hmany (Nat.not_lt_zero 1)
      · exact absurd hmany (Nat.lt_irrefl 1)
      · rfl
    · cases h
  · cases h
  · next hchain hbest =>
    obtain rfl := Option.some.inj h
    have hshown := Thrown.showing_cases request.strategy (.invalidStrategy request.strategy.toText)
    refine ⟨.showing request.strategy (.invalidStrategy request.strategy.toText), ?_, ?_,
      fun fires => ?_⟩
    · rcases hshown with ⟨-, hx⟩ | ⟨-, hx⟩
      · exact .inl (hx ▸ rfl)
      · exact .inr hx
    · exact fun ht => (hshown.resolve_right fun hno => hno.1 ht).2
    · simp only [dispatch_of_context fires logger hcontext hempty, hrules, ofExcept,
        pure_bind_apply, Strategy.ofValue?_eq_none hchain hbest, failShowing_apply]

theorem dispatch_of_fault {fault : Fault} (h : request.fault? e.forest = some fault)
    (logger : Logger) :
    ∃ x : Thrown, x.Proper ∧ (request.strategy.hasText → x = .ofFault fault) ∧
      ∀ fires : RuleId → Act H N Bool, dispatch fires request logger e = ⟨.thrown x, e, []⟩ := by
  unfold Request.fault? at h
  cases hcontext : request.context with
  | none =>
    rw [hcontext, Option.isNone_none, if_pos rfl] at h
    obtain rfl := Option.some.inj h
    exact ⟨_, .inl rfl, fun _ => rfl, fun fires => by
      simp only [dispatch, hcontext, failWith_apply]⟩
  | some context =>
    rw [hcontext, Option.isNone_some, if_neg (by simp)] at h
    split at h
    · cases h
    next hempty =>
    cases habsent : request.rules.findIdx? (fun entry => (e.forest.present? entry).isNone) with
    | some i =>
      rw [habsent] at h
      obtain rfl := Option.some.inj h
      refine ⟨_, .inl rfl, fun _ => rfl, fun fires => ?_⟩
      rw [dispatch_of_context fires logger hcontext hempty, presentRules_of_absent 0 habsent,
        Nat.zero_add]
      rfl
    | none =>
      obtain ⟨rules, hrules, hentries, -⟩ := presentRules_of_present 0 habsent
      rw [habsent] at h
      exact dispatch_of_strategyFault h logger hcontext hempty hrules
        (by rw [hentries, List.length_map])

theorem strategyFault?_eq_none (hrules : request.rules ≠ []) :
    request.strategyFault? = none ↔ ∃ strategy, Strategy.ofValue? request.strategy = some strategy ∧
      (strategy = .chain → request.rules.length = 1) := by
  have hpos := List.length_pos_iff.mpr hrules
  unfold Request.strategyFault?
  split
  · next hs =>
    have hchain : Strategy.ofValue? request.strategy = some .chain :=
      hs ▸ Strategy.ofValue?_text .chain
    simp only [hchain, Option.some.injEq, exists_eq_left', forall_const, ite_eq_right_iff,
      reduceCtorEq, imp_false]
    omega
  · next hs =>
    have hbest : Strategy.ofValue? request.strategy = some .bestFirst :=
      hs ▸ Strategy.ofValue?_text .bestFirst
    simp [hbest]
  · next hchain hbest =>
    simp [Strategy.ofValue?_eq_none hchain hbest]

theorem fault?_eq_none :
    request.fault? f = none ↔ ∃ context rules, request.Passes f context rules := by
  unfold Request.fault?
  constructor
  · intro h
    cases hcontext : request.context with
    | none => simp [hcontext] at h
    | some context =>
      rw [hcontext, Option.isNone_some, if_neg (by simp)] at h
      split at h
      · next hempty => exact ⟨context, [], hcontext, hempty, by simp, .inl rfl⟩
      next hempty =>
      cases habsent : request.rules.findIdx? (fun entry => (f.present? entry).isNone) with
      | some i => simp [habsent] at h
      | none =>
        obtain ⟨rules, -, hentries, hlt⟩ := presentRules_of_present 0 habsent
        rw [habsent] at h
        obtain ⟨strategy, hs, hone⟩ := (strategyFault?_eq_none hempty).mp h
        rw [hentries, List.length_map] at hone
        exact ⟨context, rules, hcontext, hentries, hlt, .inr ⟨strategy, hs, hone⟩⟩
  · rintro ⟨context, rules, hcontext, hentries, hlt, hstrategy⟩
    rw [hcontext, Option.isNone_some, if_neg (by simp)]
    split
    · rfl
    next hempty =>
    have hpresent : request.rules.findIdx? (fun entry => (f.present? entry).isNone) = none := by
      rw [List.findIdx?_eq_none_iff, hentries]
      intro entry hmem
      obtain ⟨rule, hrule, rfl⟩ := List.mem_map.mp hmem
      rw [Forest.present?_some (hlt rule hrule), Option.isNone_some]
    have hrules : rules ≠ [] := by
      rintro rfl
      exact hempty hentries
    obtain ⟨strategy, hs, hone⟩ := hstrategy.resolve_left hrules
    rw [hpresent]
    refine (strategyFault?_eq_none hempty).mpr ⟨strategy, hs, ?_⟩
    rwa [hentries, List.length_map]

theorem dispatch_cases (request : Request) (logger : Logger) (e : Engine H) :
    (∃ x, x.Proper ∧ ∀ fires : RuleId → Act H N Bool,
      dispatch fires request logger e = ⟨.thrown x, e, []⟩) ∨
      ∃ context rules, request.Passes e.forest context rules := by
  cases h : request.fault? e.forest with
  | none => exact .inr (fault?_eq_none.mp h)
  | some fault =>
    obtain ⟨x, proper, -, hx⟩ := dispatch_of_fault h logger
    exact .inl ⟨x, proper, hx⟩

end Act

namespace Thrown

variable {x y : Thrown}

def Validates (x : Thrown) : Prop := ∃ fault, x.value = .fault fault ∧ fault.isValidation

theorem not_validates_blamed (v : Value) (phase : Phase) (name : String) :
    ¬(ofFault (phase.fault name v)).Validates := by
  rintro ⟨fault, hx, hv⟩
  cases hx
  cases phase <;> cases hv

theorem not_validates_cancelled (name : Option String) (reason : Option String)
    (cause : Option Value) :
    ¬(ofFault (.cancelled name reason cause)).Validates := by
  rintro ⟨fault, hx, hv⟩
  cases hx
  cases hv

theorem not_validates_conversion : ¬Validates { value := conversionError } := by
  rintro ⟨fault, hx, -⟩
  cases hx

theorem Becomes.not_validates {phase : Phase} {name : String} {e : Engine H}
    {signal : Option SignalId} (h : x.Becomes phase name e signal y) : ¬y.Validates := by
  cases h with
  | itself lasts =>
    rintro ⟨fault, hx, hv⟩
    rcases lasts with ⟨key, hkey⟩ | hcancel
    · rw [hx] at hkey
      cases hkey
      cases hv
    · rw [hx, RuleForest.isCancellation, Fault.not_cancellation_of_isValidation hv] at hcancel
      cases hcancel
  | cancelled => exact not_validates_cancelled _ _ _
  | blamed => exact not_validates_blamed _ phase name

end Thrown

namespace Act

section

variable {b : Behavior H N} {binding : Binding} {rule : RuleId} {e e₁ : Engine H}
  {own : List (Event N)} {y : Thrown}

theorem Misfires.not_validates {runs : Request → Act H N Unit} {signal : Option SignalId}
    (h : Misfires b runs rule signal e own y) : ¬y.Validates := by
  cases h with
  | threw set work becomes => exact becomes.not_validates
  | returned => exact Thrown.not_validates_blamed _ _ _

theorem objected_of_served {depth : Nat} {strategy : Strategy}
    (served : serve b (run b depth) rule binding strategy e = ⟨.thrown y, e₁, own⟩)
    (hy : y.Validates) :
    Objected binding own y := by
  rcases serve_blames served with ⟨reason, -, -, rfl⟩ | hobjected | hmisfires | ⟨-, rfl⟩
  · exact absurd hy (Thrown.not_validates_cancelled _ _ _)
  · exact hobjected
  · exact absurd hy hmisfires.not_validates
  · exact absurd hy Thrown.not_validates_conversion

theorem objected_of_raised {x : Thrown} (es : List (Event N)) (rule : RuleId)
    (h : (binding.raised (e.forest.nameOf rule) x).Validates)
    (hx : x.Validates → Objected binding es x) :
    Objected binding (es ++ [e.report binding rule .failed])
      (binding.raised (e.forest.nameOf rule) x) := by
  cases ho : binding.objection (e.forest.nameOf rule) .failed with
  | none =>
    rw [Binding.raised, ho] at h ⊢
    exact (hx h).append _
  | some v =>
    rw [Binding.raised, ho]
    exact .reporter (List.mem_append_right _ List.mem_cons_self) ho rfl

theorem Traverses.objected {depth : Nat} {rules : List RuleId} {o : Outcome H N Unit} {x : Thrown}
    (h : Traverses b binding depth rules e o) (hx : o.ending = .thrown x) (hv : x.Validates) :
    Objected binding o.events x := by
  induction h generalizing x with
  | nil => cases hx
  | declined found served rest ih => exact (ih hx hv).prepend _
  | passed found served below goesOn rest ihBelow ih => exact (ih hx hv).prepend _
  | stopped => cases hx
  | failed found served =>
    obtain rfl := Ending.thrown.inj hx
    exact objected_of_raised _ _ hv (objected_of_served served)
  | failedBelow found served below ih =>
    obtain rfl := Ending.thrown.inj hx
    exact objected_of_raised _ _ hv fun hy => (ih rfl hy).prepend _

end

section

variable {b : Behavior H N} {depth : Nat} {request : Request} {logger : Logger} {e e₁ : Engine H}
variable (chosen : e.choose request.logger = (logger, e₁))
include chosen

theorem run_of_fault {fault : Fault} (h : request.fault? e.forest = some fault)
    (ht : request.strategy.hasText) (opened : logger.objection? request.startedCall = none) :
    run b depth request e = ⟨request.verdict logger (.thrown (.ofFault fault)), e₁,
      request.started logger :: request.closing logger (.thrown (.ofFault fault))⟩ := by
  rw [← (Engine.choose_keeps chosen).1] at h
  obtain ⟨x, -, hx, hdispatch⟩ := dispatch_of_fault (N := N) h logger
  obtain rfl := hx ht
  exact run_of_dispatched chosen opened (hdispatch (fire b depth))

theorem objected_of_run (tidy : e.forest.Tidy) {context : ContextId} {rules : List RuleId}
    (passes : request.Passes e.forest context rules) {x : Thrown} {e' : Engine H}
    {events : List (Event N)} (hrun : run b depth request e = ⟨.thrown x, e', events⟩)
    (hv : x.Validates) :
    Objected (request.binding context logger) events x := by
  obtain ⟨l, e₀, chosen', hcases⟩ := run_cases passes tidy (by rw [hrun]; simp)
  obtain ⟨rfl, rfl⟩ := Prod.mk.inj (chosen'.symm.trans chosen)
  rw [hrun] at hcases
  rcases hcases with ⟨v, muted, heq⟩ | ⟨-, r, e₂, es, -, ht, heq⟩ <;>
    obtain ⟨hx, rfl, rfl⟩ := Outcome.mk.inj heq
  · exact .log List.mem_cons_self muted (Ending.thrown.inj hx)
  rcases r with ⟨⟨⟩⟩ | y | _
  · cases ho : l.objection? request.completedCall with
    | none => simp [Request.verdict, ho] at hx
    | some v =>
      rw [Request.verdict, ho] at hx
      refine .log ?_ ho (Ending.thrown.inj hx)
      simp [Request.closing, Request.lastCalls, Request.binding]
  · rcases Request.verdict_thrown_cases hx.symm with ⟨ht', rfl | ⟨v, ho, rfl⟩⟩ | ⟨-, rfl⟩
    · exact ((ht.objected rfl hv).append _).mono (List.subset_cons_self _ _)
    · refine .log ?_ ho rfl
      simp [Request.closing, Request.lastCalls, Request.binding, ht']
    · exact absurd hv Thrown.not_validates_conversion
  · cases hx

end

/-- A batch with a fault is refused with the first of its faults, and nothing else happens; an empty
one with a context is done at once; any other one is fired. After any steps from an engine without
rules, the children of a rule are no batch with a fault, and so none comes out of a run in the
middle of it, unless the reporter or the log throws one. A run whose log throws at its first message
does not get as far as its batch. -/
theorem refused_before_firing (e : Engine H) (steps : List (Engine.Step H N)) (given : Request)
    (strategy : String) :
    let request : Request := { given with strategy := .text strategy }
    let reached := { e with forest := {} }.after steps
    (∀ (e : Engine H) (logger : Logger) (fires : RuleId → Act H N Bool),
      (∀ fault, request.fault? e.forest = some fault →
        dispatch fires request logger e = ⟨.thrown (.ofFault fault), e, []⟩) ∧
      (request.context.isSome → request.rules = [] →
        dispatch fires request logger e = ⟨.done (), e, []⟩) ∧
      (request.fault? e.forest = none → ∃ context rules, request.Passes e.forest context rules ∧
        dispatch fires request logger e =
          fireFirst fires (request.binding context logger) rules e)) ∧
      (∀ (rule : RuleId) (r : Rule H) (binding : Binding), reached.forest.get? rule = some r →
        Request.fault? reached.forest
          { strategy := .text r.strategy.text, context := some binding.context,
            rules := (reached.forest.childrenOf rule).map some, signal := binding.signal,
            reporter := binding.reporter } = none) ∧
      ∀ (b : Behavior H N) (depth : Nat) (logger : Logger) (e₁ : Engine H),
        reached.choose request.logger = (logger, e₁) →
        (∀ v, logger.objection? request.startedCall = some v →
          run b depth request reached = ⟨.thrown { value := v }, e₁, [request.started logger]⟩) ∧
        (∀ fault, request.fault? reached.forest = some fault →
          logger.objection? request.startedCall = none → run b depth request reached =
            ⟨request.verdict logger (.thrown (.ofFault fault)), e₁,
              request.started logger :: request.closing logger (.thrown (.ofFault fault))⟩) ∧
        (request.fault? reached.forest = none → ∃ context, request.context = some context ∧
          ∀ x e' events, run b depth request reached = ⟨.thrown x, e', events⟩ → x.Validates →
            Objected (request.binding context logger) events x) := by
  intro request reached
  have tidy : reached.forest.Tidy :=
    (Engine.consistent_after (e := { e with forest := {} }) Forest.consistent_empty steps).tidy
  refine ⟨?_, ?_, ?_⟩
  · intro e logger fires
    refine ⟨?_, ?_, ?_⟩
    · intro fault h
      obtain ⟨x, -, hx, hdispatch⟩ := dispatch_of_fault (N := N) h logger
      rw [hdispatch, hx rfl]
    · intro hcontext hrules
      obtain ⟨context, hcontext⟩ := Option.isSome_iff_exists.mp hcontext
      have passes : request.Passes e.forest context [] := ⟨hcontext, hrules, by simp, .inl rfl⟩
      exact dispatch_eq_fireFirst fires logger passes
    · intro h
      obtain ⟨context, rules, passes⟩ := fault?_eq_none.mp h
      exact ⟨context, rules, passes, dispatch_eq_fireFirst fires logger passes⟩
  · intro rule r binding found
    exact fault?_eq_none.mpr ⟨_, _, passes_children binding found tidy⟩
  · intro b depth logger e₁ chosen
    refine ⟨fun v muted => run_of_muted chosen muted,
      fun fault h opened => run_of_fault chosen h rfl opened, ?_⟩
    intro h
    obtain ⟨context, rules, passes⟩ := fault?_eq_none.mp h
    exact ⟨context, passes.context, fun x e' events hrun hv =>
      objected_of_run chosen tidy passes hrun hv⟩

theorem refused_before_firing_absent :
    let request : Request := Request.bestFirst (some 0) [some 0, none]
    let reached :=
      Engine.after (N := Unit) { lone with forest := {} } [.create .chain (some "lone")]
    ∃ logger e₁, reached.choose none = (logger, e₁) ∧
      request.fault? reached.forest = some (.absentRule (some (.ofInt 1))) ∧
      logger.objection? request.startedCall = none ∧ run failing 1 request reached =
        ⟨.thrown (.ofFault (.absentRule (some (.ofInt 1)))), e₁,
          request.started logger :: request.closing logger
            (.thrown (.ofFault (.absentRule (some (.ofInt 1)))))⟩ := by
  intro request reached
  have hfault : request.fault? reached.forest = some (.absentRule (some (.ofInt 1))) := rfl
  obtain ⟨-, -, hrun⟩ :=
    refused_before_firing (N := Unit) lone [.create .chain (some "lone")] request "best_first"
  refine ⟨_, _, rfl, hfault, rfl, ?_⟩
  exact (hrun failing 1 _ _ rfl).2.1 _ hfault rfl

end Act

end RuleForest
