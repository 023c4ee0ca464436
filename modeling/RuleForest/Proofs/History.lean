import RuleForest.Proofs.Invariants
import RuleForest.Proofs.Ownership

namespace RuleForest

variable {H N : Type}

namespace Forest

def StaysConsistent (f g : Forest H) : Prop := f.Consistent → g.Consistent

namespace StaysConsistent

theorem update (f : Forest H) (id : RuleId) {k : Rule H → Rule H} (hk : ∀ r, (k r).ties = r.ties) :
    StaysConsistent f (f.update id k) := fun hf => hf.update id hk

theorem forestUpkeep : ForestUpkeep (StaysConsistent (H := H)) where
  refl _ hf := hf
  trans hfg hgh hf := hgh (hfg hf)
  marked f rule _ := update f rule fun _ => rfl
  bound f rule _ := update f rule fun _ => rfl

theorem upheld (op : Operation H N) :
    op.Upheld fun e _ e' => StaysConsistent e.forest e'.forest := by
  cases op with
  | addChildren rule batch =>
    intro runs view hruns e
    rcases h : e.forest.addChildren rule batch with fault | g <;>
      simp only [Operation.perform, Act.ofExcept, Act.state_bind_apply, h]
    · exact forestUpkeep.refl _
    · exact fun hf => hf.addChildren h
  | release rule => exact fun runs view hruns e hf => hf.release rule
  | _ =>
    exact forestUpkeep.upheld_of_keepsTree
      (fun f rule name => update f rule fun r => r.ties_setName name)
      (fun f rule phase hook => update f rule fun r => r.ties_setHook phase hook) trivial

end StaysConsistent

end Forest

namespace Engine

/-- Something that is done with the rules of an engine. Runs and firings are steps as a whole; the
single things that happen to rules in the middle of one are steps too. -/
inductive Step (H N : Type) where
  | create (strategy : Strategy) (name : Option String)
  | build (strategy : Strategy) (options : List (BuildOption H))
  | addChildren (parent : RuleId) (batch : List (Option RuleId))
  | release (parent : RuleId)
  | setName (rule : RuleId) (name : String)
  | setHook (rule : RuleId) (phase : Phase) (hook : H)
  | run (b : Behavior H N) (depth : Nat) (request : Request)
  | fire (b : Behavior H N) (depth : Nat) (rule : RuleId)
  | operate (b : Behavior H N) (depth : Nat) (view : View) (op : Operation H N)
  | bind (binding : Binding) (rule : RuleId)
  | mark (rule : RuleId) (status : Status)
  | meanwhile (other : Engine H)

def Step.apply (e : Engine H) : Step H N → Engine H
  | create strategy name => e.updateForest fun f => (f.create strategy name).2
  | build strategy options => e.updateForest fun f => (f.build strategy options).1
  | addChildren parent batch =>
    match e.forest.addChildren parent batch with
    | .ok f => e.updateForest fun _ => f
    | .error _ => e
  | release parent => e.updateForest fun f => f.release parent
  | setName rule name => e.updateForest fun f => f.setName rule name
  | setHook rule phase hook => e.updateForest fun f => f.setHook rule phase hook
  | run b depth request => (Act.run b depth request e).engine
  | fire b depth rule => (Act.fire b depth rule e).engine
  | operate b depth view op => (op.perform (Act.run b depth) view e).engine
  | bind binding rule => e.bound binding rule
  | mark rule status => e.marked rule status
  | meanwhile other => { other with forest := e.forest }

def after (e : Engine H) (steps : List (Step H N)) : Engine H := steps.foldl Step.apply e

theorem consistent_apply {e : Engine H} (h : e.forest.Consistent) (step : Step H N) :
    (step.apply e).forest.Consistent := by
  have hR := Forest.StaysConsistent.forestUpkeep.upkeep (H := H) (N := N)
  have hb (b : Behavior H N) := b.obeys_of_forall Forest.StaysConsistent.upheld
  cases step with
  | create strategy name => exact h.create strategy name
  | build strategy options => exact h.build strategy options
  | addChildren parent batch =>
    simp only [Step.apply]
    split
    · next f hf => exact h.addChildren hf
    · exact h
  | release parent => exact h.release parent
  | setName rule name => exact h.update rule fun r => r.ties_setName name
  | setHook rule phase hook => exact h.update rule fun r => r.ties_setHook phase hook
  | run b depth request => exact Act.run_upholds hR (hb b) depth request e h
  | fire b depth rule => exact Act.fire_upholds hR (hb b) depth rule e h
  | operate b depth view op =>
    exact Forest.StaysConsistent.upheld op _ view (Act.run_upholds hR (hb b) depth) e h
  | bind binding rule => exact h.update rule fun _ => rfl
  | mark rule status => exact h.update rule fun _ => rfl
  | meanwhile other => exact h

theorem consistent_after {e : Engine H} (h : e.forest.Consistent) (steps : List (Step H N)) :
    (e.after steps).forest.Consistent := by
  induction steps generalizing e with
  | nil => exact h
  | cons step steps ih => exact ih (consistent_apply h step)

/-- After any steps from an engine without rules, a rule is among the children of its owner once and
among those of no other; its owners lead up to a rule without one, and that walk is what the check
for cycles looks at; every way down ends; and no chain has two children. -/
theorem ownership_after (e : Engine H) (steps : List (Step H N)) :
    let f := ({ e with forest := {} }.after steps).forest
    (∀ p c, (f.childrenOf p).count c = if f.ownerOf c = some p then 1 else 0) ∧
      (∀ c < f.rules.size, f.Climb c (f.lineage c)) ∧
      (∀ p, f.Spans p) ∧
      ∀ p r, f.get? p = some r → r.strategy = .chain → r.children.length ≤ 1 := by
  have h := consistent_after (e := { e with forest := {} }) Forest.consistent_empty steps
  exact ⟨h.listed, fun c hc => h.climb_lineage hc, h.spans, fun p r hr hs => h.tidy.narrow hr hs⟩

end Engine

end RuleForest
