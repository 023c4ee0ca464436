import RuleForest.Proofs.Traversal

namespace RuleForest

variable {H N α β : Type}

theorem Ending.done_ne_exhausted (a : α) : Ending.done a ≠ .exhausted := by simp

namespace Act

def Ends (act : Act H N α) : Prop := ∀ e, (act e).ending ≠ .exhausted

namespace Ends

theorem pure (a : α) : (Pure.pure a : Act H N α).Ends := fun _ => by simp

theorem fail (x : Thrown) : (Act.fail x : Act H N α).Ends := fun _ => by simp

theorem state : (Act.state : Act H N (Engine H)).Ends := fun _ => by simp

theorem emit (events : List (Event N)) : (Act.emit events : Act H N Unit).Ends := fun _ => by simp

theorem bind {act : Act H N α} {f : α → Act H N β} (ha : act.Ends) (hf : ∀ a, (f a).Ends) :
    (act >>= f).Ends := by
  intro e
  rcases bind_cases act f e with ⟨a, e₁, es, h, ho⟩ | ⟨x, e₁, es, h, ho⟩ | ⟨e₁, es, h, ho⟩ <;>
    rw [ho]
  · exact hf a e₁
  · simp
  · exact absurd (congrArg Outcome.ending h) (ha e)

theorem attempt {act : Act H N α} (ha : act.Ends) : act.attempt.Ends := by
  intro e
  rcases attempt_cases act e with ⟨a, e₁, es, h, ho⟩ | ⟨x, e₁, es, h, ho⟩ | ⟨e₁, es, h, ho⟩ <;>
    rw [ho]
  · simp
  · simp
  · exact absurd (congrArg Outcome.ending h) (ha e)

theorem rethrow (rule : RuleId) (view : View) (x : Thrown) (phase : Phase) :
    (Act.rethrow rule view x phase.fault : Act H N α).Ends := by
  intro e
  rw [rethrow_apply]
  simp

theorem refuse (rule : RuleId) (error : Option Value) (phase : Phase) :
    (Act.refuse rule error phase.fault : Act H N Unit).Ends := by
  intro e
  rw [refuse_apply]
  cases error.filter Value.isGiven <;> simp

theorem hook? (rule : RuleId) (phase : Phase) :
    (Act.hook? rule phase : Act H N (Option H)).Ends := by
  intro e
  rw [hook?_apply]
  simp

theorem ruleName (rule : RuleId) : (Act.ruleName rule : Act H N String).Ends := by
  intro e
  rw [ruleName_apply]
  simp

theorem reach (rule : RuleId) (binding : Binding) (status : Status) :
    (Act.reach rule binding status : Act H N Unit).Ends := by
  intro e
  rw [reach_apply]
  exact Ending.barring_ne_exhausted _

theorem log (logger : Logger) (call : LogCall) : (Act.log logger call : Act H N Unit).Ends := by
  intro e
  rw [log_apply]
  exact Ending.barring_ne_exhausted _

theorem perform {op : Operation H N} (hop : op.StartsNoRun) (runs : Request → Act H N Unit)
    (view : View) :
    (op.perform runs view).Ends := by
  cases op with
  | run request => exact hop.elim
  | addChildren rule batch =>
    intro e
    rcases h : e.forest.addChildren rule batch with fault | g <;>
      simp [Operation.perform, Act.ofExcept, h]
  | throwIfAborted =>
    intro e
    simp only [Operation.perform, Act.throwIfAborted]
    split <;> simp
  | throwIfCancelled handle =>
    intro e
    simp only [Operation.perform, Act.throwIfCancelled]
    split <;> simp
  | _ => exact fun e => Ending.done_ne_exhausted _

theorem carryOut {p : Program H N α} (hp : p.Obeys Operation.StartsNoRun)
    (runs : Request → Act H N Unit) (view : View) : (p.carryOut runs view).Ends := by
  induction p with
  | done a => exact pure a
  | fail x => exact fail x
  | step op next ih => exact bind (perform hp.1 runs view) fun answer => ih answer (hp.2 answer)

variable {b : Behavior H N} (hb : b.Obeys Operation.StartsNoRun) (runs : Request → Act H N Unit)
  (rule : RuleId)
include hb

theorem evaluate (view : View) : (Act.evaluate b runs rule view).Ends := by
  apply bind (hook? rule _)
  intro hook
  cases hook with
  | none => exact pure true
  | some h =>
    apply bind (emit _)
    intro
    apply bind (carryOut (hb.evaluate h view) runs view).attempt
    intro answer
    cases answer with
    | error x => exact rethrow rule view x .evaluate
    | ok verdict => exact bind (refuse rule verdict.error .evaluate) fun _ => pure _

theorem runStage (view : View) (stage : Stage) : (Act.runStage b runs rule view stage).Ends := by
  apply bind (hook? rule _)
  intro hook
  cases hook with
  | none => exact pure ()
  | some h =>
    apply bind (emit _)
    intro
    apply bind (carryOut (hb.execute h stage view) runs view).attempt
    intro answer
    cases answer with
    | error x => exact rethrow rule view x (.stage stage)
    | ok error => exact refuse rule error (.stage stage)

theorem serve (binding : Binding) (strategy : Strategy) :
    (Act.serve b runs rule binding strategy).Ends := by
  apply bind state
  intro e
  dsimp only
  split
  · exact fail _
  · apply bind (evaluate hb runs rule _)
    intro proceeds
    apply bind (reach rule binding .evaluated)
    intro
    split
    · apply bind (runStage hb runs rule _ .preExecute)
      intro
      apply bind (runStage hb runs rule _ .execute)
      intro
      apply bind (runStage hb runs rule _ .postExecute)
      intro
      apply bind (reach rule binding .executed)
      intro
      apply bind state
      intro
      exact bind (log _ _) fun _ => pure _
    · apply bind (reach rule binding .skipped)
      intro
      apply bind (ruleName rule)
      intro
      exact bind (log _ _) fun _ => pure _

end Ends

theorem exists_limit {p : RuleId → Nat → Prop} {rules : List RuleId}
    (h : ∀ rule ∈ rules, ∃ limit, ∀ depth, limit ≤ depth → p rule depth) :
    ∃ limit, ∀ rule ∈ rules, ∀ depth, limit ≤ depth → p rule depth := by
  induction rules with
  | nil => exact ⟨0, by simp⟩
  | cons rule rules ih =>
    obtain ⟨first, hfirst⟩ := h rule (by simp)
    obtain ⟨others, hothers⟩ := ih fun q hq => h q (List.mem_cons_of_mem _ hq)
    refine ⟨max first others, ?_⟩
    intro q hq depth hd
    rcases List.mem_cons.mp hq with rfl | hq
    · exact hfirst depth (by omega)
    · exact hothers q hq depth (by omega)

section

variable {b : Behavior H N} {f : Forest H}

theorem serve_shape (hb : b.Obeys Operation.KeepsTree) {depth : Nat} {rule : RuleId}
    {strategy : Strategy} {binding : Binding} {e e₁ : Engine H} {ending : Ending Bool}
    {own : List (Event N)}
    (served : serve b (run b depth) rule binding strategy e = ⟨ending, e₁, own⟩) :
    Forest.Agree Rule.shape e.forest e₁.forest := by
  have hs :=
    serve_upholds Forest.Agree.shape_upkeep.upkeep (hb.mono fun _ => Forest.Agree.shape_upheld)
      depth rule binding strategy e
  rwa [served] at hs

theorem fireFirst_ends (tree : b.Obeys Operation.KeepsTree) {limit : Nat} {rules : List RuleId}
    (h : ∀ rule ∈ rules, ∀ depth, limit ≤ depth → ∀ e : Engine H, e.forest.Tidy →
      Forest.Agree Rule.shape f e.forest → (fire b depth rule e).ending ≠ .exhausted)
    {depth : Nat} (hd : limit ≤ depth) (binding : Binding) {e : Engine H} (tidy : e.forest.Tidy)
    (he : Forest.Agree Rule.shape f e.forest) :
    (fireFirst (fire b depth) binding rules e).ending ≠ .exhausted := by
  induction rules generalizing e with
  | nil => simp [fireFirst]
  | cons rule rules ih =>
    have hbound := Forest.Agree.shape_upkeep.bound e.forest rule binding
    have hfire :=
      h rule (by simp) depth hd (e.bound binding rule) (tidy.of_agree hbound) (he.trans hbound)
    have hshape :=
      fire_upholds Forest.Agree.shape_upkeep.upkeep (tree.mono fun _ => Forest.Agree.shape_upheld)
        depth rule (e.bound binding rule)
    rcases hf : fire b depth rule (e.bound binding rule) with ⟨goesOn | x | _, e₁, es⟩
    · rw [hf] at hshape
      have hrest :=
        ih (fun q hq => h q (List.mem_cons_of_mem _ hq)) (tidy.of_agree (hbound.trans hshape))
          (he.trans (hbound.trans hshape))
      rw [fireFirst_of_goesOn _ hf]
      cases goesOn with
      | true => simpa using hrest
      | false => simp
    · rw [fireFirst_of_thrown _ hf]
      simp
    · exact absurd (congrArg Outcome.ending hf) hfire

theorem fire_ends (tree : b.Obeys Operation.KeepsTree) (noRun : b.Obeys Operation.StartsNoRun)
    {rule : RuleId} (spans : f.Spans rule) :
    ∃ limit, ∀ depth, limit ≤ depth → ∀ e : Engine H, e.forest.Tidy →
    Forest.Agree Rule.shape f e.forest →
      (fire b depth rule e).ending ≠ .exhausted := by
  -- One level more than the most demanding child needs.
  induction spans with
  | @intro rule below ih =>
    obtain ⟨limit, hlimit⟩ := exists_limit ih
    refine ⟨limit + 1, ?_⟩
    intro depth hd e tidy he
    obtain ⟨depth, rfl⟩ : ∃ d, depth = d + 1 := ⟨depth - 1, by omega⟩
    rcases found : e.forest.get? rule with _ | r
    · simp [fire, fireOnce, found]
    rcases lent : r.binding with _ | binding
    · simp [fire, fireOnce, found, lent]
    have hserve := Ends.serve noRun (run b depth) rule binding r.strategy e
    rcases served : serve b (run b depth) rule binding r.strategy e with ⟨(_ | _) | x | _, e₁, own⟩
    · rw [fire_of_declined found lent served]
      simp
    · have hs := serve_shape tree served
      have hbelow :=
        fireFirst_ends tree hlimit (show limit ≤ depth by omega) binding (tidy.of_agree hs)
          (he.trans hs)
      rw [← (he.trans hs).childrenOf] at hbelow
      rcases hf : fireFirst (fire b depth) binding (e₁.forest.childrenOf rule) e₁
        with ⟨⟨⟩ | x | _, e₂, lower⟩
      · rw [fire_of_executed found lent tidy served hf]
        simp
      · rw [fire_of_failedBelow found lent tidy served hf]
        simp
      · exact absurd (congrArg Outcome.ending hf) hbelow
    · rw [fire_of_failed found lent served]
      simp
    · exact absurd (congrArg Outcome.ending served) hserve

theorem run_ends (tree : b.Obeys Operation.KeepsTree) (noRun : b.Obeys Operation.StartsNoRun)
    {request : Request} {context : ContextId} {rules : List RuleId} {e : Engine H}
    (passes : request.Passes e.forest context rules) (tidy : e.forest.Tidy)
    (spans : ∀ rule ∈ rules, e.forest.Spans rule) :
    ∃ limit, ∀ depth, limit ≤ depth → (run b depth request e).ending ≠ .exhausted := by
  obtain ⟨limit, hlimit⟩ := exists_limit fun rule hr => fire_ends tree noRun (spans rule hr)
  refine ⟨limit, ?_⟩
  intro depth hd
  rcases chosen : e.choose request.logger with ⟨logger, e₁⟩
  have hforest := (Engine.choose_keeps chosen).1
  have hagree : Forest.Agree Rule.shape e.forest e₁.forest := by
    rw [hforest]
    exact .refl _
  rw [← hforest] at passes tidy
  have hends := fireFirst_ends tree hlimit hd (request.binding context logger) tidy hagree
  rw [← dispatch_eq_fireFirst _ logger passes] at hends
  cases ho : logger.objection? request.startedCall with
  | some v =>
    rw [run_of_muted chosen ho]
    simp
  | none =>
    rw [run_of_dispatched chosen ho rfl]
    exact fun h => hends (Request.verdict_eq_exhausted.mp h)

end

end Act

def agreeing : Behavior Unit Unit where
  evaluate _ _ := .done { shouldExecute := true }
  execute _ _ _ := .done none

theorem agreeing_obeys (allowed : Operation Unit Unit → Prop) : agreeing.Obeys allowed :=
  ⟨fun _ _ => trivial, fun _ _ _ => trivial⟩

end RuleForest
