import RuleForest.Proofs.Rejection
import RuleForest.Proofs.Termination

namespace RuleForest

variable {H N : Type}

namespace Phase

def all : List Phase := [.evaluate, .stage .preExecute, .stage .execute, .stage .postExecute]

def Before (p q : Phase) : Prop := [p, q].Sublist all

instance (p q : Phase) : Decidable (p.Before q) := inferInstanceAs (Decidable ([p, q].Sublist all))

theorem Before.ne_evaluate {p q : Phase} (h : p.Before q) : q ≠ .evaluate := by
  rintro rfl
  rcases p with _ | (_ | _ | _) <;> revert h <;> decide

end Phase

def Duty.Ordered (duty later : Duty) : Prop := ∀ p q, duty = .call p → later = .call q → p.Before q

theorem Duty.ordered_of_planned {plan : List Duty} (planned : plan = executing ∨ plan = declining) :
    plan.Pairwise Ordered := by
  rcases planned with rfl | rfl
  · simp [executing, Ordered]
    decide
  · simp [declining, Ordered]

namespace Act

section

variable {b : Behavior H N} {runs : Request → Act H N Unit} {rule : RuleId} {binding : Binding}
  {view : View}
variable {e : Engine H} {id : SignalId}

theorem settle_events (rule : RuleId) (view : View) (phase : Phase)
    (answer : Except Thrown (Option Value)) (e : Engine H) :
    (settle rule view phase answer e : Outcome H N Unit).events = [] := by
  cases answer with
  | error x => rw [settle, rethrow_apply]
  | ok error => rw [settle, refuse_apply]

theorem perform_events_cases (b : Behavior H N) (runs : Request → Act H N Unit) (rule : RuleId)
    (binding : Binding) (view : View) (duty : Duty) (e : Engine H) :
    (∃ phase es, duty = .call phase ∧
        (perform b runs rule binding view duty e).events = .invoked rule phase view :: es ∧
        signs es = []) ∨
      (∀ q p, .hook q p ∉ signs (perform b runs rule binding view duty e).events) ∧
        ∀ event ∈ (perform b runs rule binding view duty e).events, ∀ id, ¬event.Aborts id := by
  cases duty with
  | call phase =>
    cases set : (e.forest.get? rule).bind fun r => r.hook? phase with
    | none =>
      rw [perform_call_unset set]
      exact .inr ⟨by simp, by simp⟩
    | some h =>
      rw [perform_call_eq set]
      refine .inl ⟨phase, _, rfl, rfl, ?_⟩
      have hcall := call_signs b runs h phase view e
      rcases attempt_cases (b.call runs h phase view) e
        with ⟨a, e₁, es, hw, ho⟩ | ⟨x, e₁, es, hw, ho⟩ | ⟨e₁, es, hw, ho⟩ <;>
        rw [hw] at hcall
      · rw [bind_of_done ho, Outcome.after_events, settle_events, List.append_nil]
        exact hcall
      · rw [bind_of_done ho, Outcome.after_events, settle_events, List.append_nil]
        exact hcall
      · rw [bind_of_exhausted ho]
        exact hcall
  | tell status =>
    rw [perform_tell]
    refine .inr ⟨by simp, ?_⟩
    intro event hmem id ha
    rcases Binding.mem_telling hmem with rfl | ⟨call, -, rfl⟩ <;> cases ha

theorem follow_hooks {plan : List Duty} {q : RuleId} {p : Phase}
    (h : .hook q p ∈ signs (follow b runs rule binding view plan e).events) :
    q = rule ∧ .call p ∈ plan := by
  induction plan generalizing e with
  | nil => simp [follow] at h
  | cons duty duties ih =>
    have hfirst {w : List Sign} (hw : w = signs (perform b runs rule binding view duty e).events)
        (hm : .hook q p ∈ w) : q = rule ∧ .call p ∈ duty :: duties := by
      subst hw
      rcases perform_events_cases b runs rule binding view duty e
        with ⟨phase, es, rfl, hes, hnone⟩ | ⟨hnone, -⟩
      · rw [hes, signs_invoked, hnone] at hm
        obtain ⟨rfl, rfl⟩ := Sign.hook.inj (List.mem_singleton.mp hm)
        exact ⟨rfl, List.mem_cons_self⟩
      · exact absurd hm (hnone q p)
    simp only [follow] at h
    rcases bind_cases (perform b runs rule binding view duty)
      (fun _ => follow b runs rule binding view duties) e
      with ⟨⟨⟩, e₁, es, hd, ho⟩ | ⟨x, e₁, es, hd, ho⟩ | ⟨e₁, es, hd, ho⟩ <;> rw [ho] at h <;>
      rw [hd] at hfirst
    · rw [Outcome.after_events, signs_append, List.mem_append] at h
      rcases h with h | h
      · exact hfirst rfl h
      · exact ⟨(ih h).1, List.mem_cons_of_mem _ (ih h).2⟩
    · exact hfirst rfl h
    · exact hfirst rfl h

theorem follow_aborts {plan : List Duty} (ordered : plan.Pairwise Duty.Ordered)
    {u v : List (Event N)} {a : Event N}
    (hev : (follow b runs rule binding view plan e).events = u ++ a :: v) (ha : a.Aborts id) :
    ∃ w phase, signs u = w ++ [.hook rule phase] ∧ ∀ q p, .hook q p ∈ signs v →
    q = rule ∧ phase.Before p := by
  induction plan generalizing e u with
  | nil => simp [follow] at hev
  | cons duty duties ih =>
    obtain ⟨hlater, ordered⟩ := List.pairwise_cons.mp ordered
    have hfirst {es post more : List (Event N)}
        (hes : es = (perform b runs rule binding view duty e).events)
        (hown : es = u ++ a :: post) (hv : v = post ++ more)
        (hmore : ∀ q p, .hook q p ∈ signs more → q = rule ∧ .call p ∈ duties) :
        ∃ w phase, signs u = w ++ [.hook rule phase] ∧ ∀ q p, .hook q p ∈ signs v →
        q = rule ∧ phase.Before p := by
      subst hes
      rcases perform_events_cases b runs rule binding view duty e
        with ⟨phase, es, rfl, hes, hnone⟩ | ⟨-, hquiet⟩
      · rw [hes] at hown
        rcases List.cons_eq_append_iff.mp hown with ⟨-, hin⟩ | ⟨u', rfl, rfl⟩
        · obtain ⟨rfl, -⟩ := List.cons.inj hin
          cases ha
        · rw [signs_append, List.append_eq_nil_iff] at hnone
          obtain ⟨hu', hpost⟩ := hnone
          refine ⟨[], phase, by rw [signs_invoked, hu', List.nil_append], ?_⟩
          intro q p hm
          have hpost' : signs post = [] := by
            rw [← List.singleton_append, signs_append, List.append_eq_nil_iff] at hpost
            exact hpost.2
          rw [hv, signs_append, hpost', List.nil_append] at hm
          obtain ⟨hq, hp⟩ := hmore q p hm
          exact ⟨hq, hlater _ hp phase p rfl rfl⟩
      · exact (hquiet a (by rw [hown]; simp) id ha).elim
    simp only [follow] at hev
    rcases bind_cases (perform b runs rule binding view duty)
      (fun _ => follow b runs rule binding view duties) e
      with ⟨⟨⟩, e₁, es, hd, ho⟩ | ⟨x, e₁, es, hd, ho⟩ | ⟨e₁, es, hd, ho⟩ <;> rw [ho] at hev <;>
      rw [hd] at hfirst
    · rcases append_eq_append_cons hev with ⟨post, hown, hv⟩ | ⟨u', rfl, hin⟩
      · exact hfirst rfl hown hv fun q p hm => follow_hooks hm
      · obtain ⟨w, phase, hu', hv⟩ := ih ordered hin
        exact ⟨signs es ++ w, phase, by rw [signs_append, hu', List.append_assoc], hv⟩
    · exact hfirst rfl hev (List.append_nil v).symm fun q p hm => by simp at hm
    · exact hfirst rfl hev (List.append_nil v).symm fun q p hm => by simp at hm

theorem serve_of_aborted (b : Behavior H N) (runs : Request → Act H N Unit) (rule : RuleId)
    (strategy : Strategy) {reason : Value} (signal : binding.signal = some id)
    (aborted : e.signals.reason? id = some reason) :
    serve b runs rule binding strategy e =
      ⟨.thrown
        (.ofFault (.cancelled (some (e.forest.nameOf rule)) (describeReason reason) (some reason))),
      e, []⟩ := by
  have h : (e.signal? binding.signal).bind Signal.reason? = some reason := by
    rw [signal]
    exact aborted
  simp only [serve_eq, h]

theorem serve_aborts {strategy : Strategy} {u v : List (Event N)} {a : Event N}
    (hev : (serve b runs rule binding strategy e).events = u ++ a :: v) (ha : a.Aborts id) :
    (e.signal? binding.signal).bind Signal.reason? = none ∧
      ∃ w phase, signs u = w ++ [.hook rule phase] ∧ ∀ q p, .hook q p ∈ signs v →
      q = rule ∧ phase.Before p := by
  cases hr : (e.signal? binding.signal).bind Signal.reason? with
  | some reason => simp [serve_eq, hr] at hev
  | none =>
    obtain ⟨plan, planned, hplan⟩ := serve_events hr
    rw [hplan] at hev
    exact ⟨rfl, follow_aborts (Duty.ordered_of_planned planned) hev ha⟩

end

/-- The rule `q`, which the run comes to in the state `e₀`, is refused: none of its hooks is
invoked, it is put down and reported as failed together with the rules around it, and what comes out
is its cancellation unless somebody throws who is told of it. -/
structure Refuses (binding : Binding) (reason : Value) (q : RuleId) (around : List RuleId)
    (e₀ : Engine H) (before : List Sign) (o : Outcome H N Unit) : Prop where
  state : o.engine = (e₀.bound binding q).failed (q :: around)
  shown : signs o.events = before ++ (q :: around).map fun rule =>
    .report rule (e₀.forest.nameOf rule) .failed
  rejects :
    o.ending = .thrown
        (.ofFault (.cancelled (some (e₀.forest.nameOf q)) (describeReason reason) (some reason))) ∨
      ∃ last x, last <:+ o.events ∧
        signs last = (q :: around).map (fun rule => .report rule (e₀.forest.nameOf rule) .failed) ∧
        Objected binding last x ∧ (x.value.hasText → o.ending = .thrown x)

section

variable {b : Behavior H N} {request : Request} {context : ContextId} {rules around : List RuleId}
  {depth left : Nat}
variable {e e₁ e₀ : Engine H} {logger : Logger} {id : SignalId} {before : List (Event N)}
  {q : RuleId}
variable {reason : Value}

theorem Enters.refuses (chosen : e.choose request.logger = (logger, e₁))
    (opened : logger.objection? request.startedCall = none)
    (passes : request.Passes e.forest context rules) (tidy : e.forest.Tidy)
    (signal : request.signal = some id)
    (enters : Enters b (request.binding context logger) q depth rules e₁ around left e₀ before)
    (aborted : e₀.signals.reason? id = some reason) :
    Refuses (request.binding context logger) reason q around e₀ (signs before)
      (run b depth request e) := by
  have hforest := (Engine.choose_keeps chosen).1
  have ready : Ready e₁ rules := ⟨hforest ▸ tidy, hforest ▸ passes.present⟩
  obtain ⟨r, found⟩ := enters.found ready
  have hname := (e₀.agree_bound (request.binding context logger) q).nameOf
  have served := serve_of_aborted b (run b left) q r.strategy
    (show (request.binding context logger).signal = some id from signal)
    (show (e₀.bound (request.binding context logger) q).signals.reason? id = some reason
      from aborted)
  rw [hname] at served
  have hrun :=
    run_of_fired chosen opened passes ((enters.traverses found served).fireFirst_eq ready)
  have hshown : signs ((e₀.bound (request.binding context logger) q).failures
        (request.binding context logger) (q :: around) : List (Event N)) =
      (q :: around).map fun rule => .report rule (e₀.forest.nameOf rule) .failed := by
    simp only [signs_failures, hname]
  refine ⟨by rw [hrun], ?_, ?_⟩
  · rw [hrun, signs_run, signs_append, signs_append, hshown, signs_nil, List.append_nil]
  · obtain ⟨y, hy⟩ := request.verdict_thrown logger
      ((request.binding context logger).unwound (e₀.bound (request.binding context logger) q)
        (q :: around)
        (.ofFault (.cancelled (some (e₀.forest.nameOf q)) (describeReason reason) (some reason))))
    rw [hrun]
    rcases verdict_unwound hy with rfl | htext | ⟨z, hz, hyz⟩
    · exact .inl hy
    · exact absurd rfl htext
    · refine .inr ⟨_, z, ?_, ?_, hz, fun h => by rw [hy, hyz h]⟩
      · rw [List.append_assoc]
        exact (List.suffix_append (before ++ []) _).trans (List.suffix_cons _ _)
      · rw [signs_append, signs_closing, List.append_nil, hshown]

/-- How a run comes to its end after the own part of `rule`, which has left the state `e₂`: it
resolves, unless the log throws at its last message, or the next rule is refused, or the part itself
fails, by a hook of the rule or because somebody throws who is told of it. Otherwise there are no
levels left. -/
inductive Aftermath (b : Behavior H N) (request : Request) (binding : Binding) (depth : Nat)
    (rules : List RuleId) (e₁ : Engine H) (reason : Value) (rule : RuleId) (around : List RuleId)
    (left : Nat) (before own : List (Event N)) (e₂ : Engine H) (o : Outcome H N Unit) :
    Ending Bool → Prop where
  | resolved {executed : Bool}
      (resolves : o.ending = .barring (binding.logger.objection? request.completedCall))
      (state : o.engine = e₂) (shown : signs o.events = signs (before ++ own)) :
      Aftermath b request binding depth rules e₁ reason rule around left before own e₂ o
      (.done executed)
  | refused {executed : Bool} {q : RuleId} {around' : List RuleId} {left' : Nat}
      (enters : Enters b binding q depth rules e₁ around' left' e₂ (before ++ own))
      (refuses : Refuses binding reason q around' e₂ (signs (before ++ own)) o) :
      Aftermath b request binding depth rules e₁ reason rule around left before own e₂ o
      (.done executed)
  | tooDeep {executed : Bool} (leaf : left = 0) (cut : o.ending = .exhausted)
      (shown : signs o.events = signs (before ++ own)) :
      Aftermath b request binding depth rules e₁ reason rule around left before own e₂ o
      (.done executed)
  | failed {x y : Thrown}
      (why : Objected binding own x ∨ Misfires b (run b left) rule binding.signal e₂ own x ∨
        Unreadable b (run b left) rule e₂ own)
      (rejects : o.ending = .thrown y)
      (shown : signs o.events = signs (before ++ own) ++
        (rule :: around).map fun rule => .report rule (e₂.forest.nameOf rule) .failed) :
      Aftermath b request binding depth rules e₁ reason rule around left before own e₂ o (.thrown x)
  | exhausted (cut : o.ending = .exhausted) (shown : signs o.events = signs (before ++ own)) :
      Aftermath b request binding depth rules e₁ reason rule around left before own e₂ o .exhausted

theorem Aftermath.hooks {binding : Binding} {rule : RuleId} {own : List (Event N)} {e₂ : Engine H}
    {ending : Ending Bool} {o : Outcome H N Unit}
    (h : Aftermath b request binding depth rules e₁ reason rule around left before own e₂ o
      ending) :
    ∃ last, signs o.events = signs (before ++ own) ++ last ∧ ∀ q p, .hook q p ∉ last := by
  cases h with
  | resolved resolves state shown => exact ⟨[], by rw [shown, List.append_nil], by simp⟩
  | refused enters refuses => exact ⟨_, refuses.shown, by simp⟩
  | tooDeep leaf cut shown => exact ⟨[], by rw [shown, List.append_nil], by simp⟩
  | failed why rejects shown => exact ⟨_, shown, by simp⟩
  | exhausted cut shown => exact ⟨[], by rw [shown, List.append_nil], by simp⟩

theorem Enters.aftermath {own : List (Event N)} {e₂ : Engine H} {ending : Ending Bool} {r : Rule H}
    (chosen : e.choose request.logger = (logger, e₁))
    (opened : logger.objection? request.startedCall = none)
    (passes : request.Passes e.forest context rules) (tidy : e.forest.Tidy)
    (signal : request.signal = some id)
    (enters : Enters b (request.binding context logger) q depth rules e₁ around left e₀ before)
    (found : e₀.forest.get? q = some r)
    (served : serve b (run b left) q (request.binding context logger) r.strategy
      (e₀.bound (request.binding context logger) q) = ⟨ending, e₂, own⟩)
    (clear : ((e₀.bound (request.binding context logger) q).signal? request.signal).bind
      Signal.reason? = none)
    (aborted : e₂.signals.reason? id = some reason) :
    Aftermath b request (request.binding context logger) depth rules e₁ reason q around left before
      own e₂
      (run b depth request e) ending := by
  have hforest := (Engine.choose_keeps chosen).1
  have ready : Ready e₁ rules := ⟨hforest ▸ tidy, hforest ▸ passes.present⟩
  have tidy₀ :=
    (bound_staysTidy e₀ (request.binding context logger) q).tidy (enters.ready ready).tidy
  have found' := get?_bound found (request.binding context logger)
  cases ending with
  | done executed =>
    rcases enters.next found served with hends | ⟨q', around', left', enters'⟩ |
      ⟨rfl, rfl, hchildren⟩
    · have hrun := run_of_fired chosen opened passes (hends.fireFirst_eq ready)
      exact .resolved (by rw [hrun]; rfl) (by rw [hrun]) (by rw [hrun, signs_run])
    · exact .refused enters' (enters'.refuses chosen opened passes tidy signal aborted)
    -- On the last level a rule that has children cannot go on to them.
    · obtain ⟨child, children, hchildren⟩ := List.exists_cons_of_ne_nil hchildren
      have hbelow : fireFirst (fire b 0) (request.binding context logger)
          (e₂.forest.childrenOf q) e₂ =
          ⟨.exhausted, e₂.bound (request.binding context logger) child, []⟩ := by
        rw [hchildren]
        exact fireFirst_of_exhausted children rfl
      have hfire := fire_of_exhaustedBelow found' rfl tidy₀ served hbelow
      have hrun := run_of_fired chosen opened passes (enters.fireFirst_eq_of_exhausted ready hfire)
      exact .tooDeep rfl (by rw [hrun]; rfl) (by rw [hrun, signs_run, List.append_nil])
  | thrown x =>
    have hrun :=
      run_of_fired chosen opened passes ((enters.traverses found served).fireFirst_eq ready)
    obtain ⟨y, hy⟩ := request.verdict_thrown logger
      ((request.binding context logger).unwound e₂ (q :: around) x)
    refine .failed ?_ (y := y) (by rw [hrun]; exact hy)
      (by rw [hrun, signs_run, signs_append, signs_failures])
    have hs : Served b (run b left) q _ r.strategy _ _ := serve_served (by rw [served]; simp)
    rw [served] at hs
    cases hs with
    | refused refused => exact absurd (clear.symm.trans refused) (by simp)
    | failed clear planned course => exact (course.blames rfl).imp_right (·.imp_right And.left)
  | exhausted =>
    have hfire := fire_of_served_exhausted found' rfl served
    have hrun := run_of_fired chosen opened passes (enters.fireFirst_eq_of_exhausted ready hfire)
    exact .exhausted (by rw [hrun]; rfl) (by rw [hrun, signs_run])

/-- At the event `a` between `u` and `v`, by which the signal is aborted, a hook of the rule that
the run has just entered is at work. Of all hooks only those of later phases of this rule follow. -/
inductive Moment (b : Behavior H N) (request : Request) (binding : Binding) (depth : Nat)
    (rules : List RuleId) (e₁ : Engine H) (id : SignalId) (u : List (Event N)) (a : Event N)
    (v : List (Event N)) (o : Outcome H N Unit) : Prop where
  | intro {rule : RuleId} {around : List RuleId} {left : Nat} {r : Rule H} {e₀ e₂ : Engine H}
      {before pre post : List (Event N)} {ending : Ending Bool} {reason : Value} {w : List Sign}
      {phase : Phase} (enters : Enters b binding rule depth rules e₁ around left e₀ before)
      (found : e₀.forest.get? rule = some r)
      (served : serve b (run b left) rule binding r.strategy (e₀.bound binding rule) =
        ⟨ending, e₂, pre ++ a :: post⟩)
      (soFar : u = request.started binding.logger :: (before ++ pre))
      (aborted : e₂.signals.reason? id = some reason) (atWork : signs u = w ++ [.hook rule phase])
      (later : ∀ q p, .hook q p ∈ signs v → q = rule ∧ phase.Before p)
      (aftermath : Aftermath b request binding depth rules e₁ reason rule around left before
        (pre ++ a :: post) e₂ o ending) :
      Moment b request binding depth rules e₁ id u a v o

theorem Moment.not_evaluate {binding : Binding} {a : Event N} {u v : List (Event N)}
    {o : Outcome H N Unit} (h : Moment b request binding depth rules e₁ id u a v o) (q : RuleId) :
    .hook q .evaluate ∉ signs v := by
  intro hm
  cases h with
  | intro enters found served soFar aborted atWork later aftermath =>
    exact (later q _ hm).2.ne_evaluate rfl

theorem run_moment {u v : List (Event N)} {a : Event N}
    (chosen : e.choose request.logger = (logger, e₁))
    (passes : request.Passes e.forest context rules) (tidy : e.forest.Tidy)
    (signal : request.signal = some id) (hev : (run b depth request e).events = u ++ a :: v)
    (ha : a.Aborts id) :
    Moment b request (request.binding context logger) depth rules e₁ id u a v
      (run b depth request e) := by
  have hforest := (Engine.choose_keeps chosen).1
  have ready : Ready e₁ rules := ⟨hforest ▸ tidy, hforest ▸ passes.present⟩
  have hlogged {call : LogCall} (h : a = .logged logger call) : False := by
    rw [h] at ha
    cases ha
  have opened : logger.objection? request.startedCall = none := by
    rw [Option.eq_none_iff_forall_ne_some]
    intro x muted
    rw [run_of_muted chosen muted] at hev
    have hmem : a ∈ [request.started logger] := by
      rw [show [request.started logger] = u ++ a :: v from hev]
      simp
    exact hlogged (List.mem_singleton.mp hmem)
  rcases fired : fireFirst (fire b depth) (request.binding context logger) rules e₁
    with ⟨r', e', es⟩
  have hrun := run_of_fired chosen opened passes fired
  have hsplit : request.started logger :: (es ++ request.closing logger r') = u ++ a :: v := by
    rw [← hev, hrun]
  rcases List.cons_eq_append_iff.mp hsplit with ⟨-, hin⟩ | ⟨u, rfl, hin⟩
  · exact (hlogged (List.cons.inj hin).1).elim
  rcases append_eq_append_cons hin with ⟨_, hes, -⟩ | ⟨u', -, hin⟩
  · have hstems := stems_of_fired ready ((congrArg Outcome.events fired).trans hes) (by
      rintro rule name status reported rfl
      cases ha)
    obtain @⟨rule, around, left, r, e₀, e₂, before, pre, post, ending, enters, found, served⟩ :=
      hstems
    obtain ⟨clear, w, phase, hw, hlater⟩ := serve_aborts (congrArg Outcome.events served) ha
    have hkeeps := serve_upholds Engine.KeepsReasons.upkeep
      (b.obeys_of_forall Engine.KeepsReasons.upheld) left rule (request.binding context logger)
      r.strategy (e₀.bound (request.binding context logger) rule)
    rw [served] at hkeeps
    obtain ⟨reason, aborted⟩ := Option.isSome_iff_exists.mp (hkeeps.aborts a (by simp) id ha)
    have aftermath := enters.aftermath chosen opened passes tidy signal found served clear aborted
    have hatWork : signs (request.started logger :: (before ++ pre)) =
        (signs before ++ w) ++ [.hook rule phase] := by
      rw [signs_started, signs_append, hw, List.append_assoc]
    refine ⟨enters, found, served, rfl, aborted, hatWork, ?_, aftermath⟩
    obtain ⟨rest, hrest, hnone⟩ := aftermath.hooks
    have htail : signs [a] ++ signs v = signs [a] ++ (signs post ++ rest) := by
      rw [← signs_append, ← List.append_assoc, ← signs_append, List.singleton_append,
        List.singleton_append]
      rw [hev, List.cons_append, signs_started, signs_append (before ++ pre),
        ← List.append_assoc before, signs_append (before ++ pre), List.append_assoc] at hrest
      exact List.append_cancel_left hrest
    intro q p hm
    rw [List.append_cancel_left htail, List.mem_append] at hm
    exact hlater q p (hm.resolve_right (hnone q p))
  · obtain ⟨call, hcall⟩ :=
      Request.closing_logged (by rw [hin]; simp : a ∈ request.closing logger r')
    exact (hlogged hcall).elim

theorem run_refuses_first {more : List RuleId} (chosen : e.choose request.logger = (logger, e₁))
    (opened : logger.objection? request.startedCall = none)
    (passes : request.Passes e.forest context (q :: more)) (tidy : e.forest.Tidy)
    (signal : request.signal = some id) (aborted : e.signals.reason? id = some reason)
    (deep : 0 < depth) :
    Refuses (request.binding context logger) reason q [] e₁ [] (run b depth request e) ∧
      (run b depth request e).engine.contexts = e.contexts ∧
      (∀ other, other ≠ q → (run b depth request e).engine.forest.get? other =
        e.forest.get? other) ∧
      ∃ r, e.forest.get? q = some r ∧ (run b depth request e).engine.forest.get? q =
        some { r with binding := some (request.binding context logger), status := .failed } := by
  obtain ⟨hforest, hsignals, hcontexts⟩ := Engine.choose_keeps chosen
  obtain ⟨depth, rfl⟩ : ∃ d, depth = d + 1 := ⟨depth - 1, by omega⟩
  have enters :
      Enters b (request.binding context logger) q (depth + 1) (q :: more) e₁ [] depth e₁ [] := .here
  have hrefuses := enters.refuses chosen opened passes tidy signal (hsignals ▸ aborted)
  obtain ⟨r, found⟩ := enters.found ⟨hforest ▸ tidy, hforest ▸ passes.present⟩
  have hget (other : RuleId) : (run b (depth + 1) request e).engine.forest.get? other =
      if q = other then (e.forest.get? other).map fun r =>
        { r with binding := some (request.binding context logger), status := .failed }
      else e.forest.get? other := by
    rw [hrefuses.state, ← hforest]
    simp only [Engine.failed, List.foldl_cons, List.foldl_nil, Engine.marked, Engine.bound,
      Engine.updateForest, Forest.get?_update]
    split
    · rw [Option.map_map]
      rfl
    · rfl
  refine ⟨hrefuses, ?_, ?_, r, hforest ▸ found, ?_⟩
  · rw [hrefuses.state]
    exact hcontexts
  · intro other hother
    rw [hget, if_neg (Ne.symm hother)]
  · rw [hget, if_pos rfl, ← hforest, found, Option.map_some]

end

/-- Once its signal is aborted, in the own part of some rule, a run invokes no hooks but those of
later phases of that rule, and the next rule that it comes to is refused. If the signal is aborted
from the start, this is the first root. A run at whose first message the log throws does nothing at
all. -/
theorem run_cancellation {b : Behavior H N} {e : Engine H} (tidy : e.forest.Tidy)
    {request : Request} {context : ContextId} {rules : List RuleId}
    (passes : request.Passes e.forest context rules) {id : SignalId}
    (signal : request.signal = some id) :
    (∀ depth, ∃ logger e₁, e.choose request.logger = (logger, e₁) ∧
      (∀ v, logger.objection? request.startedCall = some v →
        run b depth request e = ⟨.thrown { value := v }, e₁, [request.started logger]⟩) ∧
      (∀ u a v, (run b depth request e).events = u ++ a :: v → a.Aborts id →
        Moment b request (request.binding context logger) depth rules e₁ id u a v
          (run b depth request e) ∧
          ∀ q, .hook q .evaluate ∉ signs v) ∧
      (e.signals.reason? id = none → ((run b depth request e).engine.signals.reason? id).isSome →
        ∃ a ∈ (run b depth request e).events, a.Aborts id) ∧
      ∀ q more reason, rules = q :: more → e.signals.reason? id = some reason → 0 < depth →
        logger.objection? request.startedCall = none →
        Refuses (request.binding context logger) reason q [] e₁ [] (run b depth request e) ∧
          (run b depth request e).engine.contexts = e.contexts ∧
          (∀ other, other ≠ q → (run b depth request e).engine.forest.get? other =
            e.forest.get? other) ∧
          ∃ r, e.forest.get? q = some r ∧ (run b depth request e).engine.forest.get? q =
            some { r with binding := some (request.binding context logger), status := .failed }) ∧
      (b.Obeys Operation.KeepsTree → b.Obeys Operation.StartsNoRun →
        (∀ rule ∈ rules, e.forest.Spans rule) →
        ∃ limit, ∀ depth, limit ≤ depth → (run b depth request e).ending ≠ .exhausted) := by
  refine ⟨?_, fun tree noRun spans => run_ends tree noRun passes tidy spans⟩
  intro depth
  rcases chosen : e.choose request.logger with ⟨logger, e₁⟩
  refine ⟨logger, e₁, rfl, fun v muted => run_of_muted chosen muted, ?_, ?_, ?_⟩
  · intro u a v hev ha
    have hmoment := run_moment chosen passes tidy signal hev ha
    exact ⟨hmoment, hmoment.not_evaluate⟩
  · have hkeeps :=
      run_upholds Engine.KeepsReasons.upkeep (b.obeys_of_forall Engine.KeepsReasons.upheld) depth
        request e
    exact hkeeps.marks id
  · rintro q more reason rfl aborted deep opened
    exact run_refuses_first chosen opened passes tidy signal aborted deep

end Act

def aborting : Behavior Unit Unit where
  evaluate _ _ := .done { shouldExecute := true }
  execute _ _ _ := .step (.abort 0 (.text "stop")) fun _ => .done none

def watched (reason : Option Value) : Engine Unit where
  forest :=
    { rules := #[
        { strategy := .chain, name := "first", execution := some () },
        { strategy := .chain, name := "second", evaluation := some () }] }
  contexts := #[.empty]
  signals := { all := #[.controller reason] }

theorem watched_tidy (reason : Option Value) : (watched reason).forest.Tidy := by
  apply Forest.Flat.tidy
  simp [Forest.Flat, watched]

def watchedRun (reporter : Option Reporter) : Request :=
  { Request.bestFirst (some 0) [some 0, some 1] with
    signal := some 0, logger := some (.ofOptions {}), reporter }

theorem watchedRun_passes (reason : Option Value) (reporter : Option Reporter) :
    (watchedRun reporter).Passes (watched reason).forest 0 [0, 1] :=
  ⟨rfl, rfl, by
    simp [watched], .inr ⟨.bestFirst, Strategy.ofValue?_text .bestFirst, fun h => nomatch h⟩⟩

namespace Act

theorem run_cancellation_watched :
    (watched none).forest.Tidy ∧ (watchedRun none).Passes (watched none).forest 0 [0, 1] ∧
      (watchedRun none).signal = some 0 ∧
      ∃ logger e₁ u v, (run aborting 1 (watchedRun none) (watched none)).events =
        u ++ .aborted 0 :: v ∧
        Moment aborting (watchedRun none) ((watchedRun none).binding 0 logger) 1 [0, 1] e₁ 0 u
          (.aborted 0) v
          (run aborting 1 (watchedRun none) (watched none)) := by
  refine ⟨watched_tidy none, watchedRun_passes none none, rfl, ?_⟩
  obtain ⟨logger, e₁, -, -, hmoments, -⟩ :=
    (run_cancellation (watched_tidy none) (watchedRun_passes none none) rfl).1 1
  exact ⟨logger, e₁, [_, _, _], _, rfl, (hmoments [_, _, _] _ _ rfl .here).1⟩

theorem run_cancellation_needs_reporter :
    let e := watched (some (.text "stop"))
    let heard :=
      { watchedRun none with
        logger := some (.ofOptions { minLevel := some .error, listener := objectingListener }) }
    (watchedRun (some fun _ _ => some (.text "no"))).Passes e.forest 0 [0, 1] ∧
    (e.signals.reason? 0).isSome ∧
      (∃ x e' events,
        run agreeing 1 (watchedRun (some fun _ _ => some (.text "no"))) e =
          ⟨.thrown x, e', events⟩ ∧
          ∀ name reason cause, x.value ≠ .fault (.cancelled name reason cause)) ∧
      ∃ x e' events, run agreeing 1 heard e = ⟨.thrown x, e', events⟩ ∧
        ∀ name reason cause, x.value ≠ .fault (.cancelled name reason cause) := by
  intro e heard
  refine ⟨watchedRun_passes _ _, rfl, ?_, ?_⟩
  · exact ⟨{ value := .text "no" }, _, _, rfl, fun _ _ _ h => nomatch h⟩
  · exact ⟨{ value := .text "no" }, _, _, rfl, fun _ _ _ h => nomatch h⟩

end Act

end RuleForest
