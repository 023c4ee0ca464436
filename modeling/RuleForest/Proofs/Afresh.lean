import RuleForest.Proofs.Account
import RuleForest.Proofs.Alike
import RuleForest.Proofs.Visits

namespace RuleForest

variable {H N : Type}

def Sign.status? (q : RuleId) : Sign → Option Status
  | hook _ _ => none
  | report rule _ status => if rule = q then some status else none

def statuses (q : RuleId) (w : List Sign) : List Status := w.filterMap (Sign.status? q)

theorem statuses_append (q : RuleId) (u v : List Sign) :
    statuses q (u ++ v) = statuses q u ++ statuses q v :=
  List.filterMap_append

theorem mem_statuses {q : RuleId} {w : List Sign} {status : Status} :
    status ∈ statuses q w ↔ Reached w q status := by
  rw [statuses, List.mem_filterMap]
  constructor
  · rintro ⟨s, hs, hstatus⟩
    cases s with
    | hook rule phase => cases hstatus
    | report rule name other =>
      simp only [Sign.status?, Option.ite_none_right_eq_some, Option.some.injEq] at hstatus
      obtain ⟨rfl, rfl⟩ := hstatus
      exact ⟨name, hs⟩
  · rintro ⟨name, hs⟩
    exact ⟨_, hs, by simp [Sign.status?]⟩

def Engine.Recalls (e : Engine H) (events : List (Event N)) (e' : Engine H) : Prop :=
  (∀ event ∈ events, event.Flat) → ∀ q, (e'.forest.get? q).map Rule.status =
    (e.forest.get? q).map fun r => (statuses q (signs events)).getLast?.getD r.status

namespace Engine.Recalls

theorem of_silent {e e' : Engine H} {events : List (Event N)}
    (silent : ∀ q, statuses q (signs events) = [])
    (h : ∀ q, (e'.forest.get? q).map Rule.status = (e.forest.get? q).map Rule.status) :
    e.Recalls events e' := by
  intro flat q
  rw [h q, silent q]
  rfl

theorem upkeep : Upkeep (Engine.Recalls (H := H) (N := N)) where
  nil e := of_silent (fun _ => rfl) fun _ => rfl
  append {e e₁ e₂ before after} h h' := by
    intro flat q
    have hbefore := h (fun event hm => flat event (List.mem_append_left _ hm)) q
    have hafter := h' (fun event hm => flat event (List.mem_append_right _ hm)) q
    rw [hafter, signs_append, statuses_append, List.getLast?_append]
    cases hfound : e.forest.get? q with
    | none =>
      rw [hfound, Option.map_none, Option.map_eq_none_iff] at hbefore
      rw [hbefore]
      rfl
    | some r =>
      rw [hfound, Option.map_some, Option.map_eq_some_iff] at hbefore
      obtain ⟨r₁, hfound₁, hstatus⟩ := hbefore
      rw [hfound₁, Option.map_some, Option.map_some, hstatus]
      cases (statuses q (signs after)).getLast? <;> rfl
  nested _ := fun flat => (flat _ (List.mem_singleton_self _)).elim
  invoked e rule phase view := of_silent (fun _ => rfl) fun _ => rfl
  reached e rule name status reported := by
    intro flat q
    simp only [Engine.marked, Engine.updateForest, Forest.get?_update, signs_reached, signs_nil,
      statuses, List.filterMap_cons, Sign.status?, List.filterMap_nil]
    by_cases hq : rule = q
    · simp [hq, Function.comp_def]
    · simp [hq]
  logged e logger call := of_silent (fun _ => rfl) fun _ => rfl
  bound e binding rule :=
    of_silent (fun _ => rfl) fun q =>
      (Forest.Agree.update (k := fun r => { r with binding := some binding }) e.forest rule
        (fun _ => rfl) q).symm
  logger e := by
    apply of_silent fun _ => rfl
    intro q
    rw [(Engine.choose_keeps (show e.choose none = (_, e.demandLogger.2) from rfl)).1]

end Engine.Recalls

theorem Operation.Within.recalls {scope : Scope} {op : Operation H N} (h : op.Within scope) :
    op.Upheld Engine.Recalls := by
  intro runs view hruns e
  have hsilent : signs (op.perform runs view e).events = [] :=
    signs_of_ofHook (Act.perform_ofHook op runs view e)
  have hforest : (op.perform runs view e).engine.forest = e.forest := by
    cases op with
    | throwIfAborted =>
      simp only [Operation.perform, Act.throwIfAborted]
      split <;> rfl
    | throwIfCancelled handle =>
      simp only [Operation.perform, Act.throwIfCancelled]
      split <;> rfl
    | setName rule name => exact h.elim
    | setHook rule phase hook => exact h.elim
    | addChildren rule batch => exact h.elim
    | release rule => exact h.elim
    | run request => exact h.elim
    | _ => rfl
  apply Engine.Recalls.of_silent
  · intro q
    rw [hsilent]
    rfl
  · intro q
    rw [hforest]

section

variable {b : Behavior H N} {request : Request} {logger : Logger} {e e₁ : Engine H}

theorem Act.run_flat (noRun : b.Obeys Operation.StartsNoRun) (depth : Nat) (request : Request)
    (e : Engine H) :
    ∀ event ∈ (run b depth request e).events, event.Flat := by
  rcases chosen : e.choose request.logger with ⟨logger, e₁⟩
  refine run_forall_mem depth chosen (fun _ => trivial) fun context hcontext => ?_
  refine Account.forall_mem ?_ (fun _ _ _ _ => trivial) fun _ _ => trivial
  intro rule view event h lent
  cases h with
  | ofHook mem => exact call_flat noRun _ _ _ _ _ _ mem
  | invoked phase => trivial
  | evaluated name reported => trivial

theorem Act.run_lends (depth : Nat) (chosen : e.choose request.logger = (logger, e₁)) :
    ∀ event ∈ (run b depth request e).events, ∀ rule phase view, event = .invoked rule phase view →
      request.context = some view.context ∧ view.signal = request.signal ∧
      view.logger = logger := by
  refine run_forall_mem depth chosen (by simp) fun context hcontext => ?_
  refine Account.forall_mem ?_ (by simp) (by simp)
  rintro rule view event h lent rule' phase' view' rfl
  cases h with
  | ofHook mem => exact (call_ofHook _ _ _ _ _ _ _ mem).elim
  | invoked phase => exact ⟨hcontext.trans (congrArg some lent.1.symm), lent.2.1, lent.2.2⟩

end

namespace Act

variable {b : Behavior H N} {binding : Binding} {depth : Nat} {rules : List RuleId} {e : Engine H}
  {q : RuleId}

theorem Traverses.mem_firings {o : Outcome H N Unit} (h : Traverses b binding depth rules e o)
    (ready : Ready e rules) :
    q ∈ firings b binding depth rules e ↔ ∃ status, Reached (signs o.events) q status := by
  have hown {rule : RuleId} {res : Option Bool} {own : List Sign} {status : Status}
      (part : Part (Duty.Shows (fun _ _ => True) rule) res own)
      (reached : Reached own rule status) :
      (∃ status, Reached own q status) ↔ q = rule := by
    constructor
    · rintro ⟨status, h⟩
      exact part.eq_of_touched h.touched
    · rintro rfl
      exact ⟨status, reached⟩
  have hreport (e : Engine H) (rule : RuleId) :
      (∃ status, Reached (signs [(e.report binding rule .failed : Event N)]) q status) ↔
      q = rule := by
    simp [Engine.report, Reached]
  induction h with
  | @nil depth e => cases depth <;> simp [firings, calls]
  | @declined depth rule rules r e e₁ e₂ own more ending found served rest ih =>
    have part := serve_shows served (by simp)
    rw [firings_of_declined rules found served]
    simp only [List.mem_cons, ih (ready.rest served), signs_append, reached_append, exists_or,
      hown part part.skips]
  | @passed depth rule rules r e e₁ e₂ e₃ own lower more ending found served below goesOn rest
      ihBelow ih =>
    have hready := ready.below served
    have hlower := below.fireFirst_eq hready
    have part := serve_shows served (by simp)
    rw [firings_of_executed ready found served hlower, if_pos goesOn]
    simp only [List.mem_append, List.mem_cons, ihBelow hready, ih (ready.beyond served hlower),
      signs_append, reached_append, exists_or, hown part part.executes]
  | @stopped depth rule rules r e e₁ e₂ own lower found served below stops ih =>
    have hready := ready.below served
    have part := serve_shows served (by simp)
    have hlower := below.fireFirst_eq hready
    rw [firings_of_executed ready found served hlower, if_neg (by simp [stops])]
    simp only [List.append_nil, List.mem_cons, ih hready, signs_append, reached_append, exists_or,
      hown part part.executes]
  | @failed depth rule rules r e e₁ own x found served =>
    have part := serve_shows served (by simp)
    have honly : (∃ status, Reached (signs own) q status) → q = rule := by
      rintro ⟨status, reached⟩
      exact part.eq_of_touched reached.touched
    rw [firings_of_failed rules found served]
    simpa [exists_or, hreport] using honly
  | @failedBelow depth rule rules r e e₁ e₂ own lower x found served below ih =>
    have hready := ready.below served
    have part := serve_shows served (by simp)
    rw [firings_of_failedBelow ready found served (below.fireFirst_eq hready)]
    simp only [List.mem_cons, ih hready, signs_append, reached_append, exists_or,
      hown part part.executes, hreport]
    exact ⟨.inl, fun h => h.elim id .inl⟩

def Fires (b : Behavior H N) (depth : Nat) (request : Request) (e : Engine H) (q : RuleId) : Prop :=
  (e.choose request.logger).1.objection? request.startedCall = none ∧
    ∃ context rules, request.Passes e.forest context rules ∧
      q ∈ firings b (request.binding context (e.choose request.logger).1) depth rules
        (e.choose request.logger).2

theorem fires_iff {request : Request} (tidy : e.forest.Tidy)
    (hne : (run b depth request e).ending ≠ .exhausted) :
    Fires b depth request e q ↔ ∃ status,
    Reached (signs (run b depth request e).events) q status := by
  rcases chosen : e.choose request.logger with ⟨logger, e₁⟩
  have hforest := (Engine.choose_keeps chosen).1
  rw [Fires, chosen]
  cases opened : logger.objection? request.startedCall with
  | some v =>
    rw [run_of_muted chosen opened]
    constructor
    · rintro ⟨⟨⟩, -⟩
    · rintro ⟨status, reached⟩
      exact absurd reached (not_reached_nil q status)
  | none =>
    rcases dispatch_cases request logger e₁ with ⟨x, -, hx⟩ | ⟨context, rules, passes⟩
    · -- What is refused fires nothing and shows nothing.
      have hrefused := hx (fire b depth)
      rw [run_of_dispatched chosen opened hrefused, signs_run]
      constructor
      · rintro ⟨-, context, rules, passes, h⟩
        rw [← hforest] at tidy passes
        have ready : Ready e₁ rules := ⟨tidy, passes.present⟩
        rw [dispatch_eq_fireFirst (fire b depth) logger passes] at hrefused
        have ht : Traverses b (request.binding context logger) depth rules e₁ _ :=
          fireFirst_traverses ready (by rw [hrefused]; simp)
        rw [hrefused] at ht
        exact (ht.mem_firings ready).mp h
      · rintro ⟨status, reached⟩
        exact absurd reached (not_reached_nil q status)
    · rw [hforest] at passes
      have ready : Ready e₁ rules := ⟨hforest ▸ tidy, hforest ▸ passes.present⟩
      rcases fired : fireFirst (fire b depth) (request.binding context logger) rules e₁
        with ⟨r, e₂, es⟩
      have ho := run_of_fired chosen opened passes fired
      rw [ho] at hne
      have ht : Traverses b (request.binding context logger) depth rules e₁ ⟨r, e₂, es⟩ := by
        rw [← fired]
        apply fireFirst_traverses ready
        rw [fired]
        exact fun hr => hne (Request.verdict_eq_exhausted.mpr hr)
      rw [ho, signs_run, ← ht.mem_firings ready]
      constructor
      · rintro ⟨-, context', rules', passes', h⟩
        obtain rfl : context' = context :=
          Option.some.inj (passes'.context.symm.trans passes.context)
        obtain rfl : rules' = rules :=
          List.map_injective_iff.mpr (fun _ _ => Option.some.inj)
            (passes'.entries.symm.trans passes.entries)
        exact h
      · exact fun h => ⟨rfl, context, rules, passes, h⟩

/-- Whatever was run before, a run with hooks that keep to the scope goes as it does in every engine
that is alike; its hooks are lent nothing but what it was given, and it leaves each rule that it
fires in the last status that the rule has reached, and every other rule as it was. -/
theorem run_afresh {scope : Scope} {b : Behavior H N} (within : b.Obeys (Operation.Within scope))
    (e₀ : Engine H) (history : List (Engine.Step H N)) {request : Request}
    (covers : scope.Covers request.context request.signal) :
    let e := { e₀ with forest := {} }.after history
    ∃ limit o, o.ending ≠ .exhausted ∧ (∀ depth, limit ≤ depth → run b depth request e = o) ∧
      (∀ e', e.Alike scope e' → ∃ e₁, o.engine.Alike scope e₁ ∧
        ∀ depth, limit ≤ depth → run b depth request e' = ⟨o.ending, e₁, o.events⟩) ∧
      (∀ rule phase view, .invoked rule phase view ∈ o.events →
        request.context = some view.context ∧
        view.signal = request.signal ∧ view.logger = (e.choose request.logger).1) ∧
      ∀ q r, e.forest.get? q = some r → ∃ r', o.engine.forest.get? q = some r' ∧
        ∀ depth, limit ≤ depth →
          (Fires b depth request e q → (statuses q (signs o.events)).getLast? = some r'.status) ∧
          (¬Fires b depth request e q → r'.status = r.status) := by
  intro e
  have hc : e.forest.Consistent :=
    Engine.consistent_after (e := { e₀ with forest := {} }) Forest.consistent_empty history
  have noRun := within.mono fun _ => Operation.Within.startsNoRun
  obtain ⟨limit, o, hne, ho⟩ := run_settles (within.mono fun _ => Operation.Within.keepsTree)
    (Behavior.halts_of_startsNoRun noRun e) request fun rule _ => hc.spans rule
  refine ⟨limit, o, hne, ho, ?_, ?_, ?_⟩
  · intro e' alike
    have hechoes := echoes_run (likeness_alike scope)
      (within.mono fun _ => Operation.Within.echoed) (Nat.le_refl limit) covers alike
    rw [ho limit (Nat.le_refl _)] at hechoes
    obtain ⟨e₁, h, alike₁⟩ := hechoes hne
    refine ⟨e₁, alike₁, ?_⟩
    intro depth hd
    rw [run_mono hd request e' (by rw [h]; exact hne), h]
  · intro rule phase view hm
    rw [← ho limit (Nat.le_refl _)] at hm
    exact run_lends limit rfl _ hm rule phase view rfl
  · intro q r found
    have hstatus :=
      run_upholds Engine.Recalls.upkeep (within.mono fun _ => Operation.Within.recalls) limit
        request e (run_flat noRun limit request e) q
    rw [ho limit (Nat.le_refl _), found, Option.map_some, Option.map_eq_some_iff] at hstatus
    obtain ⟨r', found', hr'⟩ := hstatus
    refine ⟨r', found', ?_⟩
    intro depth hd
    have hfires : Fires b depth request e q ↔ statuses q (signs o.events) ≠ [] := by
      rw [fires_iff hc.tidy (by rw [ho depth hd]; exact hne), ho depth hd, Ne,
        List.eq_nil_iff_forall_not_mem]
      simp only [mem_statuses, not_forall, not_not]
    rw [hfires, not_not]
    constructor
    · intro reached
      rw [hr', List.getLast?_eq_some_getLast reached, Option.getD_some]
    · intro unreached
      rw [hr', unreached]
      rfl

end Act

def worn : List (Engine.Step Unit Unit) :=
  [.create .chain (some "lone"), .setHook 0 (.stage .execute) (),
    .run agreeing 1 { loneRun none with context := some 1 }]

theorem Act.run_afresh_worn :
    let e₀ : Engine Unit := { contexts := #[.empty, .empty], forest := {} }
    let e := e₀.after worn
    let e' := e₀.after (worn.take 2)
    agreeing.Obeys (Operation.Within Scope.all) ∧
    Scope.all.Covers (loneRun none).context (loneRun none).signal ∧
      e.Alike Scope.all e' ∧ (e.forest.get? 0).map Rule.status = some .executed ∧
      (e'.forest.get? 0).map Rule.status = some .idle ∧
      ∃ limit o e₁, (∀ depth, limit ≤ depth → run agreeing depth (loneRun none) e = o) ∧
        ∀ depth, limit ≤ depth → run agreeing depth (loneRun none) e' =
          ⟨o.ending, e₁, o.events⟩ := by
  intro e₀ e e'
  have alike : e.Alike Scope.all e' :=
    (run_upholds (Engine.Alike.upkeep Scope.all) (agreeing_obeys _) 1
      { loneRun none with context := some 1 } e').symm
  obtain ⟨limit, o, -, ho, hechoes, -⟩ := run_afresh (agreeing_obeys (Operation.Within Scope.all))
    { contexts := #[.empty, .empty] } worn
    (Scope.all_covers (loneRun none).context (loneRun none).signal)
  obtain ⟨e₁, -, h⟩ := hechoes e' alike
  exact ⟨agreeing_obeys _, Scope.all_covers _ _, alike, by decide +kernel, by
    decide +kernel, limit, o, e₁, ho, h⟩

end RuleForest
