import RuleForest.Proofs.Tree
import RuleForest.Proofs.Upkeep

namespace RuleForest

variable {H N α β : Type}

namespace Operation

def StartsNoRun : Operation H N → Prop
  | .run _ => False
  | _ => True

def KeepsTree : Operation H N → Prop
  | .addChildren _ _ => False
  | .release _ => False
  | _ => True

def KeepsRules : Operation H N → Prop
  | .setName _ _ => False
  | .setHook _ _ _ => False
  | .addChildren _ _ => False
  | .release _ => False
  | _ => True

def Plain (op : Operation H N) : Prop := op.KeepsRules ∧ op.StartsNoRun

theorem KeepsRules.keepsTree {op : Operation H N} (h : op.KeepsRules) : op.KeepsTree := by
  cases op <;> first | exact trivial | exact h

end Operation

structure ForestUpkeep (Q : Forest H → Forest H → Prop) : Prop where
  refl (f : Forest H) : Q f f
  trans {f g h : Forest H} : Q f g → Q g h → Q f h
  marked (f : Forest H) (rule : RuleId) (status : Status) :
    Q f (f.update rule fun r => { r with status })
  bound (f : Forest H) (rule : RuleId) (binding : Binding) :
    Q f (f.update rule fun r => { r with binding := some binding })

namespace ForestUpkeep

variable {Q : Forest H → Forest H → Prop}

theorem upkeep (hQ : ForestUpkeep Q) : Upkeep (N := N) fun e _ e' => Q e.forest e'.forest where
  nil e := hQ.refl _
  append h h' := hQ.trans h h'
  nested h := h
  invoked e _ _ _ := hQ.refl _
  reached e rule _ status _ := hQ.marked _ rule status
  logged e _ _ := hQ.refl _
  bound e binding rule := hQ.bound _ rule binding
  logger e := by
    unfold Engine.demandLogger
    split <;> exact hQ.refl _

theorem upheld_of_keepsRules (hQ : ForestUpkeep Q) {op : Operation H N} (hop : op.KeepsRules) :
    op.Upheld fun e _ e' => Q e.forest e'.forest := by
  intro runs view hruns
  have hR := hQ.upkeep (N := N)
  cases op with
  | get key => exact fun e => hQ.refl _
  | set key value => exact fun e => hQ.refl _
  | delete key => exact fun e => hQ.refl _
  | log call => exact fun e => hQ.refl _
  | note n => exact fun e => hQ.refl _
  | isCancelled => exact fun e => hQ.refl _
  | throwIfAborted =>
    intro e
    simp only [Operation.perform, Act.throwIfAborted]
    split <;> exact hQ.refl _
  | cancel handle reason => exact fun e => hQ.refl _
  | abort controller reason => exact fun e => hQ.refl _
  | throwIfCancelled handle =>
    intro e
    simp only [Operation.perform, Act.throwIfCancelled]
    split <;> exact hQ.refl _
  | inspect rule => exact fun e => hQ.refl _
  | run request =>
    apply Act.Upholds.bind hR (Act.Upholds.asNested hR (hruns request)).attempt
    intro answer
    cases answer <;> exact fun e => hQ.refl _
  | setName rule name => exact hop.elim
  | setHook rule phase hook => exact hop.elim
  | addChildren rule batch => exact hop.elim
  | release rule => exact hop.elim

theorem upheld_of_keepsTree (hQ : ForestUpkeep Q) (hname : ∀ f rule name, Q f (f.setName rule name))
    (hhook : ∀ f rule phase hook, Q f (f.setHook rule phase hook)) {op : Operation H N}
    (hop : op.KeepsTree) :
    op.Upheld fun e _ e' => Q e.forest e'.forest := by
  cases op with
  | setName rule name => exact fun runs view hruns e => hname _ rule name
  | setHook rule phase hook => exact fun runs view hruns e => hhook _ rule phase hook
  | _ => exact hQ.upheld_of_keepsRules hop

end ForestUpkeep

namespace Forest.Agree

theorem forestUpkeep {aspect : Rule H → α}
    (hstatus : ∀ r status, aspect { r with status } = aspect r)
    (hbinding : ∀ r binding, aspect { r with binding } = aspect r) :
    ForestUpkeep (Agree aspect) where
  refl := refl
  trans := trans
  marked f rule status := update f rule fun r => hstatus r status
  bound f rule binding := update f rule fun r => hbinding r (some binding)

theorem shape_upkeep : ForestUpkeep (Agree (Rule.shape (H := H))) :=
  forestUpkeep (fun _ _ => rfl) fun _ _ => rfl

theorem design_upkeep : ForestUpkeep (Agree (Rule.design (H := H))) :=
  forestUpkeep (fun _ _ => rfl) fun _ _ => rfl

theorem shape_upheld {op : Operation H N} (hop : op.KeepsTree) :
    op.Upheld fun e _ e' => Agree Rule.shape e.forest e'.forest :=
  shape_upkeep.upheld_of_keepsTree (fun f rule name => update f rule fun r => r.shape_setName name)
    (fun f rule phase hook => update f rule fun r => r.shape_setHook phase hook) hop

theorem design_upheld {op : Operation H N} (hop : op.KeepsRules) :
    op.Upheld fun e _ e' => Agree Rule.design e.forest e'.forest :=
  design_upkeep.upheld_of_keepsRules hop

end Forest.Agree

namespace Forest.Tidy

theorem update {f : Forest H} (hf : f.Tidy) (id : RuleId) {g : Rule H → Rule H}
    (hg : ∀ r, (g r).shape = r.shape) : (f.update id g).Tidy :=
  hf.of_agree (Agree.update f id hg)

end Forest.Tidy

structure Forest.StaysTidy (f g : Forest H) : Prop where
  size : g.rules.size = f.rules.size
  strategy : Agree Rule.strategy f g
  tidy : f.Tidy → g.Tidy

namespace Forest.StaysTidy

theorem update (f : Forest H) (id : RuleId) {g : Rule H → Rule H}
    (hg : ∀ r, (g r).shape = r.shape) :
    StaysTidy f (f.update id g) :=
  ⟨size_update f id g, Agree.update f id fun r => congrArg Prod.fst (hg r),
    fun hf => hf.update id hg⟩

theorem trans {f g h : Forest H} (hfg : StaysTidy f g) (hgh : StaysTidy g h) : StaysTidy f h :=
  ⟨hgh.size.trans hfg.size, hfg.strategy.trans hgh.strategy, fun hf => hgh.tidy (hfg.tidy hf)⟩

theorem forestUpkeep : ForestUpkeep (StaysTidy (H := H)) where
  refl _ := ⟨rfl, Agree.refl _, id⟩
  trans := trans
  marked f rule _ := update f rule fun _ => rfl
  bound f rule _ := update f rule fun _ => rfl

theorem upheld (op : Operation H N) : op.Upheld fun e _ e' => StaysTidy e.forest e'.forest := by
  cases op with
  | addChildren rule batch =>
    intro runs view hruns e
    rcases h : e.forest.addChildren rule batch with fault | g <;>
      simp only [Operation.perform, Act.ofExcept, Act.state_bind_apply, h]
    · exact forestUpkeep.refl _
    · exact ⟨size_of_addChildren h, Agree.strategy_addChildren h, fun hf => hf.addChildren h⟩
  | release rule =>
    exact fun runs view hruns e =>
      ⟨size_release _ rule, Agree.strategy_release _ rule, fun hf => hf.release rule⟩
  | _ =>
    exact forestUpkeep.upheld_of_keepsTree
      (fun f rule name => update f rule fun r => r.shape_setName name)
      (fun f rule phase hook => update f rule fun r => r.shape_setHook phase hook) trivial

end Forest.StaysTidy

end RuleForest
