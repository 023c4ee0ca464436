import RuleForest.Proofs.Cancellation
import RuleForest.Proofs.Likeness
import RuleForest.Proofs.Validation

namespace RuleForest

variable {H N α β : Type}

theorem Outcome.Echoes.eq {o o' : Outcome H N α} (h : o.Echoes (· = ·) o')
    (hne : o.ending ≠ .exhausted) : o' = o := by
  obtain ⟨e', rfl, he⟩ := h hne
  rw [← he]

theorem likeness_eq : Likeness Scope.all (fun e e' : Engine H => e = e') where
  design h := h ▸ .refl _
  signal h _ := h ▸ rfl
  logger h := h ▸ rfl
  demanded h := h ▸ rfl
  marked _ _ h := h ▸ rfl
  bound _ _ h := h ▸ rfl

theorem Operation.echoed_eq (op : Operation H N) : op.Echoed Scope.all fun e e' => e = e' := by
  rintro runs runs' view - hruns e e' rfl
  cases op with
  | run request =>
    have hrun :=
      Act.echoes_attempt (Act.echoes_asNested (hruns request (Scope.all_covers _ _) e e rfl))
    refine Act.echoes_bind hrun fun answer e₁ e₁' he => ?_
    cases answer <;> exact Outcome.echoes_of_alike he _ _
  | _ => exact fun _ => ⟨_, rfl, rfl⟩

namespace Act

theorem carryOut_mono {b : Behavior H N} {depth more : Nat} (hd : depth ≤ more) (p : Program H N α)
    (view : View) (e : Engine H) (hne : (p.carryOut (run b depth) view e).ending ≠ .exhausted) :
    p.carryOut (run b more) view e = p.carryOut (run b depth) view e := by
  refine (echoes_carryOut (Scope.all_covers _ _) ?_ (p.obeys_of_forall Operation.echoed_eq) rfl).eq
    hne
  intro request covers e e' he
  exact echoes_run likeness_eq (b.obeys_of_forall Operation.echoed_eq) hd covers he

theorem run_mono {b : Behavior H N} {depth more : Nat} (hd : depth ≤ more) (request : Request)
    (e : Engine H) (hne : (run b depth request e).ending ≠ .exhausted) :
    run b more request e = run b depth request e :=
  (echoes_run likeness_eq (b.obeys_of_forall Operation.echoed_eq) hd (Scope.all_covers _ _) rfl).eq
    hne

end Act

namespace Behavior

variable {b : Behavior H N} {e e₁ e₂ : Engine H}

def Leads (b : Behavior H N) (e e' : Engine H) : Prop :=
  ∀ R : Engine H → Engine H → Prop, Upkeep (N := N) (fun e _ e' => R e e') →
    b.Obeys (Operation.Upheld fun e _ e' => R e e') → R e e'

theorem Leads.trans (h : b.Leads e e₁) (h' : b.Leads e₁ e₂) : b.Leads e e₂ :=
  fun R hR hb => @Upkeep.append _ _ _ hR _ _ _ [] [] (h R hR hb) (h' R hR hb)

theorem Leads.shape (h : b.Leads e e₁) (tree : b.Obeys Operation.KeepsTree) :
    Forest.Agree Rule.shape e.forest e₁.forest :=
  h _ Forest.Agree.shape_upkeep.upkeep (tree.mono fun _ => Forest.Agree.shape_upheld)

theorem leads_upkeep (b : Behavior H N) : Upkeep (N := N) fun e _ e' => b.Leads e e' where
  nil e _ hR _ := hR.nil e
  append h h' := h.trans h'
  nested h := h
  invoked e rule phase view _ hR _ := hR.invoked e rule phase view
  reached e rule name status reported _ hR _ := hR.reached e rule name status reported
  logged e logger call _ hR _ := hR.logged e logger call
  bound e binding rule _ hR _ := hR.bound e binding rule
  logger e _ hR _ := hR.logger e

theorem obeys_leads (b : Behavior H N) : b.Obeys (Operation.Upheld fun e _ e' => b.Leads e e') := by
  have hop {op : Operation H N} (h : ∀ R : Engine H → Engine H → Prop,
    Upkeep (N := N) (fun e _ e' => R e e') →
      b.Obeys (Operation.Upheld fun e _ e' => R e e') → op.Upheld fun e _ e' => R e e') :
      op.Upheld fun e _ e' => b.Leads e e' :=
    fun runs view hruns e R hR hb =>
      h R hR hb runs view (fun request e => hruns request e R hR hb) e
  have hprogram {α : Type} {p : Program H N α} (h : ∀ R : Engine H → Engine H → Prop,
      Upkeep (N := N) (fun e _ e' => R e e') → b.Obeys (Operation.Upheld fun e _ e' => R e e') →
      p.Obeys (Operation.Upheld fun e _ e' => R e e')) :
      p.Obeys (Operation.Upheld fun e _ e' => b.Leads e e') := by
    induction p with
    | done a => trivial
    | fail x => trivial
    | step op next ih =>
      exact ⟨hop fun R hR hb => (h R hR hb).1,
        fun answer => ih answer fun R hR hb => (h R hR hb).2 answer⟩
  exact ⟨fun hook view => hprogram fun R _ hb => hb.evaluate hook view,
    fun hook stage view => hprogram fun R _ hb => hb.execute hook stage view⟩

/-- Wherever `e` may lead, each call of a hook comes to an end, and so do the runs that it
starts. -/
def Halts (b : Behavior H N) (e : Engine H) : Prop :=
  ∀ e', b.Leads e e' → ∀ rule phase h,
  ((e'.forest.get? rule).bind fun r => r.hook? phase) = some h →
    ∀ view, ∃ depth, (b.call (Act.run b depth) h phase view e').ending ≠ .exhausted

end Behavior

namespace Act

structure Settles (I : Engine H → Prop) (acts : Nat → Act H N α) (e : Engine H) : Prop where
  settled : ∃ limit o, o.ending ≠ .exhausted ∧ ∀ depth, limit ≤ depth → acts depth e = o
  stays (depth : Nat) : I (acts depth e).engine

namespace Settles

variable {I : Engine H → Prop} {acts acts' : Nat → Act H N α} {e e' : Engine H}

theorem after (events : List (Event N)) (h : ∀ depth, acts' depth e' = (acts depth e).after events)
    (hs : Settles I acts e) : Settles I acts' e' := by
  obtain ⟨⟨limit, o, hne, ho⟩, hI⟩ := hs
  refine ⟨⟨limit, o.after events, hne, fun depth hd => ?_⟩, fun depth => ?_⟩
  · rw [h, ho depth hd]
  · rw [h]
    exact hI depth

theorem congr (h : ∀ depth, acts' depth e' = acts depth e) (hs : Settles I acts e) :
    Settles I acts' e' :=
  after [] h hs

theorem const {act : Act H N α} (hne : (act e).ending ≠ .exhausted) (hI : I (act e).engine) :
    Settles I (fun _ => act) e :=
  ⟨⟨0, act e, hne, fun _ _ => rfl⟩, fun _ => hI⟩

theorem pure (he : I e) (a : α) : Settles I (fun _ => (Pure.pure a : Act H N α)) e :=
  const (by simp) he

theorem fail (he : I e) (x : Thrown) : Settles I (fun _ => (Act.fail x : Act H N α)) e :=
  const (by simp) he

theorem of_succ (h : Settles I (fun depth => acts (depth + 1)) e) (hI : I (acts 0 e).engine) :
    Settles I acts e := by
  obtain ⟨⟨limit, o, hne, ho⟩, hstays⟩ := h
  refine ⟨⟨limit + 1, o, hne, ?_⟩, ?_⟩
  · intro depth hd
    obtain ⟨depth, rfl⟩ : ∃ d, depth = d + 1 := ⟨depth - 1, by omega⟩
    exact ho depth (by omega)
  · intro depth
    cases depth with
    | zero => exact hI
    | succ depth => exact hstays depth

theorem bind {f : Nat → α → Act H N β} (ha : Settles I acts e)
    (hf : ∀ a e, I e → Settles I (fun depth => f depth a) e) :
    Settles I (fun depth => acts depth >>= f depth) e := by
  constructor
  case settled =>
    obtain ⟨⟨limit, ⟨r, e₁, es⟩, hne, ho⟩, hI⟩ := ha
    have hI₁ := hI limit
    rw [ho limit (Nat.le_refl _)] at hI₁
    rcases r with a | x | _
    · obtain ⟨more, o', hne', ho'⟩ := (hf a e₁ hI₁).settled
      refine ⟨max limit more, o'.after es, hne', ?_⟩
      intro depth hd
      rw [bind_of_done (ho depth (by omega)), ho' depth (by omega)]
    · exact ⟨limit, ⟨.thrown x, e₁, es⟩, by simp, fun depth hd => bind_of_thrown (ho depth hd)⟩
    · exact absurd rfl hne
  case stays =>
    intro depth
    have hI := ha.stays depth
    rcases bind_cases (acts depth) (f depth) e
      with ⟨a, e₁, es, h, ho⟩ | ⟨x, e₁, es, h, ho⟩ | ⟨e₁, es, h, ho⟩ <;>
      rw [h] at hI <;> rw [ho]
    · exact (hf a e₁ hI).stays depth
    · exact hI
    · exact hI

theorem attempt (ha : Settles I acts e) : Settles I (fun depth => (acts depth).attempt) e := by
  constructor
  case settled =>
    obtain ⟨⟨limit, ⟨r, e₁, es⟩, hne, ho⟩, -⟩ := ha
    rcases r with a | x | _
    · exact ⟨limit, ⟨.done (.ok a), e₁, es⟩, by simp, fun depth hd => attempt_of_done (ho depth hd)⟩
    · exact ⟨limit, ⟨.done (.error x), e₁, es⟩, by
        simp, fun depth hd => attempt_of_thrown (ho depth hd)⟩
    · exact absurd rfl hne
  case stays =>
    intro depth
    have hI := ha.stays depth
    rcases attempt_cases (acts depth) e
      with ⟨a, e₁, es, h, ho⟩ | ⟨x, e₁, es, h, ho⟩ | ⟨e₁, es, h, ho⟩ <;>
      rw [h] at hI <;> rw [ho] <;> exact hI

section

variable {b : Behavior H N} {e₀ : Engine H} {rule : RuleId} {binding : Binding} {view : View}

theorem reach (rule : RuleId) (binding : Binding) (status : Status) (he : b.Leads e₀ e) :
    Settles (b.Leads e₀) (fun _ => (Act.reach rule binding status : Act H N Unit)) e :=
  const (Ends.reach rule binding status e)
    (he.trans (Upholds.reach b.leads_upkeep rule binding status e))

theorem log (logger : Logger) (call : LogCall) (he : b.Leads e₀ e) :
    Settles (b.Leads e₀) (fun _ => (Act.log logger call : Act H N Unit)) e :=
  const (Ends.log logger call e) (he.trans (Upholds.log b.leads_upkeep logger call e))

theorem rethrow (rule : RuleId) (view : View) (x : Thrown) (phase : Phase) (he : b.Leads e₀ e) :
    Settles (b.Leads e₀) (fun _ => (Act.rethrow rule view x phase.fault : Act H N α)) e :=
  const (Ends.rethrow rule view x phase e)
    (he.trans (Upholds.rethrow b.leads_upkeep rule view x phase.fault e))

theorem refuse (rule : RuleId) (error : Option Value) (phase : Phase) (he : b.Leads e₀ e) :
    Settles (b.Leads e₀) (fun _ => (Act.refuse rule error phase.fault : Act H N Unit)) e :=
  const (Ends.refuse rule error phase e)
    (he.trans (Upholds.refuse b.leads_upkeep rule error phase.fault e))

theorem carryOut {p : Program H N α} (hp : p.Obeys (Operation.Upheld fun e _ e' => b.Leads e e'))
    (he : b.Leads e₀ e) (halts : ∃ depth, (p.carryOut (run b depth) view e).ending ≠ .exhausted) :
    Settles (b.Leads e₀) (fun depth => p.carryOut (run b depth) view) e := by
  constructor
  case settled =>
    obtain ⟨limit, hne⟩ := halts
    exact ⟨limit, _, hne, fun depth hd => carryOut_mono hd p view e hne⟩
  case stays =>
    intro depth
    exact he.trans (Upholds.carryOut b.leads_upkeep (run_upholds b.leads_upkeep b.obeys_leads depth)
      view hp e)

section

variable {fires : Nat → RuleId → Act H N Bool}

theorem fireFirst (binding : Binding) {rules : List RuleId}
    (hfires : ∀ rule ∈ rules, ∀ e, b.Leads e₀ e →
      Settles (b.Leads e₀) (fun depth => fires depth rule) e)
    (he : b.Leads e₀ e) :
    Settles (b.Leads e₀) (fun depth => Act.fireFirst (fires depth) binding rules) e := by
  induction rules generalizing e with
  | nil => exact pure he ()
  | cons rule rules ih =>
    have hbound := he.trans (b.leads_upkeep.bound e binding rule)
    refine congr (fun depth => fireFirst_cons (fires depth) binding rule rules e)
      (bind (hfires rule (by simp) _ hbound) fun goesOn e he => ?_)
    cases goesOn with
    | true => exact ih (fun q hq => hfires q (List.mem_cons_of_mem _ hq)) he
    | false => exact pure he ()

theorem dispatch {request : Request}
    (hfires : ∀ rule, some rule ∈ request.rules → ∀ e, b.Leads e₀ e →
      Settles (b.Leads e₀) (fun depth => fires depth rule) e)
    (logger : Logger) (he : b.Leads e₀ e) :
    Settles (b.Leads e₀) (fun depth => Act.dispatch (fires depth) request logger) e := by
  rcases dispatch_cases request logger e with ⟨x, -, hx⟩ | ⟨context, rules, passes⟩
  · exact congr (fun depth => hx (fires depth)) (fail he x)
  · refine congr (fun depth => dispatch_eq_fireFirst (fires depth) logger passes)
      (fireFirst _ ?_ he)
    intro rule hr
    exact hfires rule (passes.entries ▸ List.mem_map_of_mem hr)

end

variable (halts : b.Halts e₀)
include halts

theorem evaluate (rule : RuleId) (view : View) (he : b.Leads e₀ e) :
    Settles (b.Leads e₀) (fun depth => Act.evaluate b (run b depth) rule view) e := by
  cases hset : (e.forest.get? rule).bind fun r => r.hook? .evaluate with
  | none =>
    refine congr (fun depth => ?_) (pure he true)
    simp only [Act.evaluate, hook?_bind_apply, hset]
  | some h =>
    have hcall :
        ∃ depth, ((b.evaluate h view).carryOut (run b depth) view e).ending ≠ .exhausted := by
      obtain ⟨depth, hne⟩ := halts e he rule .evaluate h hset view
      refine ⟨depth, fun hx => hne ?_⟩
      rcases hw : (b.evaluate h view).carryOut (run b depth) view e with ⟨r, e₁, es⟩
      rw [hw] at hx
      dsimp only at hx
      rw [Behavior.call, bind_of_exhausted (hx ▸ hw)]
    apply after [.invoked rule .evaluate view]
    · intro depth
      simp only [Act.evaluate, hook?_bind_apply, hset]
      rfl
    · apply bind (carryOut (b.obeys_leads.evaluate h view) he hcall).attempt
      intro answer e he
      cases answer with
      | error x => exact rethrow rule view x .evaluate he
      | ok verdict => exact bind (refuse rule verdict.error .evaluate he) fun _ e he => pure he _

theorem runStage (rule : RuleId) (view : View) (stage : Stage) (he : b.Leads e₀ e) :
    Settles (b.Leads e₀) (fun depth => Act.runStage b (run b depth) rule view stage) e := by
  cases hset : (e.forest.get? rule).bind fun r => r.hook? (.stage stage) with
  | none =>
    refine congr (fun depth => ?_) (pure he ())
    simp only [Act.runStage, hook?_bind_apply, hset]
  | some h =>
    apply after [.invoked rule (.stage stage) view]
    · intro depth
      simp only [Act.runStage, hook?_bind_apply, hset]
      rfl
    · apply bind (carryOut (b.obeys_leads.execute h stage view) he
        (halts e he rule (.stage stage) h hset view)).attempt
      intro answer e he
      cases answer with
      | error x => exact rethrow rule view x (.stage stage) he
      | ok error => exact refuse rule error (.stage stage) he

theorem perform (rule : RuleId) (binding : Binding) (view : View) (duty : Duty)
    (he : b.Leads e₀ e) :
    Settles (b.Leads e₀) (fun depth => Act.perform b (run b depth) rule binding view duty) e := by
  cases duty with
  | call phase =>
    cases phase with
    | evaluate => exact bind (evaluate halts rule view he) fun _ e he => pure he ()
    | stage s => exact runStage halts rule view s he
  | tell status =>
    have hreached :=
      b.leads_upkeep.reached e rule (e.forest.nameOf rule) status binding.reporter.isSome
    constructor
    case settled =>
      exact ⟨0, _, Ending.barring_ne_exhausted _, fun depth _ => perform_tell status e⟩
    case stays =>
      intro depth
      rw [perform_tell]
      exact he.trans hreached

theorem follow (rule : RuleId) (binding : Binding) (view : View) (plan : List Duty)
    (he : b.Leads e₀ e) :
    Settles (b.Leads e₀) (fun depth => Act.follow b (run b depth) rule binding view plan) e := by
  induction plan generalizing e with
  | nil => exact pure he ()
  | cons duty duties ih => exact bind (perform halts rule binding view duty he) fun _ e he => ih he

theorem serve (rule : RuleId) (binding : Binding) (strategy : Strategy) (he : b.Leads e₀ e) :
    Settles (b.Leads e₀) (fun depth => Act.serve b (run b depth) rule binding strategy) e := by
  cases hr : (e.signal? binding.signal).bind Signal.reason? with
  | some reason =>
    refine congr (fun depth => ?_) (fail he
      (.ofFault (.cancelled (some (e.forest.nameOf rule)) (describeReason reason) (some reason))))
    simp only [serve_eq, hr]
    rfl
  | none =>
    have hs : Settles (b.Leads e₀) (fun depth => do
        let proceeds ← Act.evaluate b (run b depth) rule (binding.view e rule strategy)
        Act.follow b (run b depth) rule binding (binding.view e rule strategy)
          (if proceeds then Duty.executing.tail else Duty.declining.tail)
        return proceeds) e := by
      refine bind (evaluate halts rule _ he) fun proceeds e he => ?_
      exact bind (follow halts rule binding _ _ he) fun _ e he => pure he proceeds
    refine congr (fun depth => ?_) hs
    simp only [serve_eq, hr]

theorem fire (tree : b.Obeys Operation.KeepsTree) {rule : RuleId} (spans : e₀.forest.Spans rule)
    (he : b.Leads e₀ e) : Settles (b.Leads e₀) (fun depth => Act.fire b depth rule) e := by
  induction spans generalizing e with
  | @intro rule below ih =>
    refine of_succ ?_ he
    rcases found : e.forest.get? rule with _ | r
    · refine congr (fun depth => ?_) (fail he (.ofFault .contextMissing))
      simp only [Act.fire, fireOnce, state_bind_apply, found, failWith_apply, fail_apply]
    rcases lent : r.binding with _ | binding
    · refine congr (fun depth => ?_) (fail he (.ofFault .contextMissing))
      simp only [Act.fire, fireOnce, state_bind_apply, found, lent, failWith_apply, fail_apply]
    have hbound : Settles (b.Leads e₀)
        (fun depth => fireBound b (run b depth) (Act.fire b depth) rule binding r.strategy) e := by
      refine bind (serve halts rule binding r.strategy he) fun executed e he => ?_
      have hchildren := (he.shape tree).childrenOf rule
      cases executed with
      | false => exact pure he true
      | true =>
        have hbatch : Settles (b.Leads e₀) (fun depth => Act.dispatch (Act.fire b depth)
            { strategy := .text r.strategy.text, context := some binding.context,
              rules := (e.forest.childrenOf rule).map some, signal := binding.signal,
              reporter := binding.reporter } binding.logger) e := by
          refine dispatch (fun child hc e he => ?_) binding.logger he
          obtain ⟨child', hc', hsome⟩ := List.mem_map.mp hc
          cases hsome
          exact ih child (hchildren ▸ hc') he
        exact congr (fun depth => state_bind_apply _ e)
          (bind hbatch fun _ e he => pure he (decide (r.strategy = .chain)))
    refine congr (fun depth => fire_eq found lent) (bind hbound.attempt fun answer e he => ?_)
    cases answer with
    | ok goesOn => exact pure he goesOn
    | error x => exact bind (reach rule binding .failed he) fun _ e he => fail he x

end

end Settles

theorem run_settles {b : Behavior H N} (tree : b.Obeys Operation.KeepsTree) {e : Engine H}
    (halts : b.Halts e) (request : Request)
    (spans : ∀ rule, some rule ∈ request.rules → e.forest.Spans rule) :
    ∃ limit o, o.ending ≠ .exhausted ∧ ∀ depth, limit ≤ depth → run b depth request e = o := by
  have hchosen : b.Leads e (e.choose request.logger).2 := by
    cases request.logger with
    | some l => exact b.leads_upkeep.nil e
    | none => exact b.leads_upkeep.logger e
  have hfires (rule : RuleId) (hr : some rule ∈ request.rules) (e₁ : Engine H)
      (he : b.Leads e e₁) :=
    Settles.fire halts tree (spans rule hr) he
  apply Settles.settled
  apply Settles.congr fun depth => run_eq rfl
  refine Settles.bind (Settles.log _ _ hchosen) fun _ e₁ he => ?_
  refine Settles.bind (Settles.dispatch hfires _ he).attempt fun answer e₂ he => ?_
  cases answer with
  | ok u => exact Settles.log _ _ he
  | error x =>
    dsimp only
    split
    · exact Settles.bind (Settles.log _ _ he) fun _ _ he => .fail he _
    · exact .fail he _

end Act

theorem Behavior.halts_of_startsNoRun {b : Behavior H N} (noRun : b.Obeys Operation.StartsNoRun)
    (e : Engine H) :
    b.Halts e := by
  intro e' _ rule phase h _ view
  refine ⟨0, ?_⟩
  cases phase with
  | stage s => exact Act.Ends.carryOut (noRun.execute h s view) _ view e'
  | evaluate =>
    exact Act.Ends.bind (Act.Ends.carryOut (noRun.evaluate h view) _ view)
      (fun _ => Act.Ends.pure _) e'

end RuleForest
