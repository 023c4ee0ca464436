import RuleForest.Proofs.Parts

namespace RuleForest

variable {H N α : Type}

inductive Course (f : Forest H) (shows : RuleId → Duty → Bool → List Sign → Prop) :
    List RuleId → Bool → List Sign → Prop where
  | nil : Course f shows [] true []
  | declined {rule : RuleId} {rules : List RuleId} {own more : List Sign} {ok : Bool}
      (part : Part (shows rule) (some false) own) (rest : Course f shows rules ok more) :
      Course f shows (rule :: rules) ok (own ++ more)
  | passed {rule : RuleId} {rules : List RuleId} {own lower more : List Sign} {ok : Bool}
      (part : Part (shows rule) (some true) own)
      (below : Course f shows (f.childrenOf rule) true lower)
      (goesOn : f.strategyOf? rule = some .chain) (rest : Course f shows rules ok more) :
      Course f shows (rule :: rules) ok (own ++ lower ++ more)
  | stopped {rule : RuleId} {rules : List RuleId} {own lower : List Sign}
      (part : Part (shows rule) (some true) own)
      (below : Course f shows (f.childrenOf rule) true lower)
      (stops : f.strategyOf? rule = some .bestFirst) :
      Course f shows (rule :: rules) true (own ++ lower)
  | failed {rule : RuleId} {rules : List RuleId} {own last : List Sign} {heard : Bool}
      (part : Part (shows rule) none own) (told : shows rule (.tell .failed) heard last) :
      Course f shows (rule :: rules) false (own ++ last)
  | failedBelow {rule : RuleId} {rules : List RuleId} {own lower last : List Sign} {heard : Bool}
      (part : Part (shows rule) (some true) own)
      (below : Course f shows (f.childrenOf rule) false lower)
      (told : shows rule (.tell .failed) heard last) :
      Course f shows (rule :: rules) false (own ++ lower ++ last)

namespace Act

variable {b : Behavior H N} {binding : Binding} {f : Forest H} {aspect : Rule H → α}
variable {shows : RuleId → Duty → Bool → List Sign → Prop}

theorem serve_agrees (hQ : ForestUpkeep (Forest.Agree aspect))
    (hb : b.Obeys (Operation.Upheld fun e _ e' => Forest.Agree aspect e.forest e'.forest))
    {depth : Nat} {rule : RuleId} {strategy : Strategy} {e e₁ : Engine H} {ending : Ending Bool}
    {own : List (Event N)}
    (served : serve b (run b depth) rule binding strategy (e.bound binding rule) =
      ⟨ending, e₁, own⟩) :
    Forest.Agree aspect e.forest e₁.forest := by
  have hs := serve_upholds hQ.upkeep hb depth rule binding strategy (e.bound binding rule)
  rw [served] at hs
  exact (hQ.bound e.forest rule binding).trans hs

def ShowsAll (b : Behavior H N) (binding : Binding) (f : Forest H) (aspect : Rule H → α)
    (shows : RuleId → Duty → Bool → List Sign → Prop) : Prop :=
  ∀ runs rule view duty e, f.strategyOf? rule = some view.strategy →
  Forest.Agree aspect f e.forest →
    (perform b runs rule binding view duty e).ending ≠ .exhausted →
    shows rule duty (perform b runs rule binding view duty e).ending.result.isSome
      (signs (perform b runs rule binding view duty e).events)

theorem serve_part (hQ : ForestUpkeep (Forest.Agree aspect))
    (hb : b.Obeys (Operation.Upheld fun e _ e' => Forest.Agree aspect e.forest e'.forest))
    (hshows : ShowsAll b binding f aspect shows) {depth : Nat} {rule : RuleId} {strategy : Strategy}
    {e e₁ : Engine H} {ending : Ending Bool} {own : List (Event N)}
    (known : f.strategyOf? rule = some strategy) (he : Forest.Agree aspect f e.forest)
    (served : serve b (run b depth) rule binding strategy (e.bound binding rule) =
      ⟨ending, e₁, own⟩)
    (hne : ending ≠ .exhausted) : Part (shows rule) ending.result (signs own) := by
  have hs : Served b (run b depth) rule binding strategy (e.bound binding rule) _ :=
    serve_served (by rw [served]; exact hne)
  rw [served] at hs
  refine hs.part (P := fun e => Forest.Agree aspect f e.forest) ?_ ?_
    (he.trans (hQ.bound e.forest rule binding))
  · intro view duty e h
    exact h.trans (Upholds.perform hQ.upkeep hb (run_upholds hQ.upkeep hb depth) rule binding view
      duty e)
  · intro view duty e hview he hne
    exact hshows _ rule view duty e (by rw [hview]; exact known) he hne

theorem Traverses.course (hQ : ForestUpkeep (Forest.Agree aspect))
    (hshape : ∀ g : Forest H, Forest.Agree aspect f g → Forest.Agree Rule.shape f g)
    (hb : b.Obeys (Operation.Upheld fun e _ e' => Forest.Agree aspect e.forest e'.forest))
    (hshows : ShowsAll b binding f aspect shows) {depth : Nat} {rules : List RuleId} {e : Engine H}
    {o : Outcome H N Unit} (h : Traverses b binding depth rules e o)
    (he : Forest.Agree aspect f e.forest) :
    Course f shows rules o.ending.result.isSome (signs o.events) ∧
      Forest.Agree aspect f o.engine.forest := by
  have strategy {e : Engine H} {rule : RuleId} {r : Rule H} (he : Forest.Agree aspect f e.forest)
      (found : e.forest.get? rule = some r) : f.strategyOf? rule = some r.strategy := by
    rw [← (hshape _ he).strategyOf?, Forest.strategyOf?, found, Option.map_some]
  -- What a report shows does not depend on whether the reporter then throws.
  have told {e : Engine H} {rule : RuleId} {strategy : Strategy}
      (known : f.strategyOf? rule = some strategy)
      (he : Forest.Agree aspect f e.forest) :
      ∃ heard, shows rule (.tell .failed) heard
        (signs [(e.report binding rule .failed : Event N)]) := by
    have hs := hshows (fun _ => exhausted) rule
      ⟨"", strategy, binding.context, binding.signal, binding.logger⟩ (.tell .failed) e known he
    rw [perform_tell, signs_telling] at hs
    refine ⟨_, hs ?_⟩
    cases binding.protest (e.forest.nameOf rule) strategy (e.forest.childrenOf rule).length
      .failed <;> simp
  induction h with
  | nil => exact ⟨.nil, he⟩
  | declined found served rest ih =>
    have hpart := serve_part hQ hb hshows (strategy he found) he served (by simp)
    obtain ⟨hrest, hend⟩ := ih (he.trans (serve_agrees hQ hb served))
    rw [signs_append]
    exact ⟨.declined hpart hrest, hend⟩
  | passed found served below goesOn rest ihBelow ihRest =>
    have hpart := serve_part hQ hb hshows (strategy he found) he served (by simp)
    have he₁ := he.trans (serve_agrees hQ hb served)
    obtain ⟨hbelow, he₂⟩ := ihBelow he₁
    obtain ⟨hrest, hend⟩ := ihRest he₂
    rw [(hshape _ he₁).childrenOf] at hbelow
    rw [signs_append, signs_append]
    exact ⟨.passed hpart hbelow ((strategy he found).trans (congrArg some goesOn)) hrest, hend⟩
  | stopped found served below stops ih =>
    have hpart := serve_part hQ hb hshows (strategy he found) he served (by simp)
    have he₁ := he.trans (serve_agrees hQ hb served)
    obtain ⟨hbelow, he₂⟩ := ih he₁
    rw [(hshape _ he₁).childrenOf] at hbelow
    rw [signs_append]
    exact ⟨.stopped hpart hbelow ((strategy he found).trans (congrArg some stops)), he₂⟩
  | @failed depth rule rules r e e₁ own x found served =>
    have hpart := serve_part hQ hb hshows (strategy he found) he served (by simp)
    have he₁ := he.trans (serve_agrees hQ hb served)
    obtain ⟨heard, hlast⟩ := told (strategy he found) he₁
    rw [signs_append]
    exact ⟨.failed hpart hlast, he₁.trans (hQ.marked _ rule .failed)⟩
  | @failedBelow depth rule rules r e e₁ e₂ own lower x found served below ih =>
    have hpart := serve_part hQ hb hshows (strategy he found) he served (by simp)
    have he₁ := he.trans (serve_agrees hQ hb served)
    obtain ⟨hbelow, he₂⟩ := ih he₁
    obtain ⟨heard, hlast⟩ := told (strategy he found) he₂
    rw [(hshape _ he₁).childrenOf] at hbelow
    rw [signs_append, signs_append]
    exact ⟨.failedBelow hpart hbelow hlast, he₂.trans (hQ.marked _ rule .failed)⟩

end Act

end RuleForest
