import Mathlib.Data.List.Chain
import RuleForest.Proofs.Course
import RuleForest.Proofs.Entry
import RuleForest.Proofs.Termination

namespace RuleForest

variable {H N : Type}

namespace Forest

variable (f : Forest H) (rule : RuleId)

def called (phase : Phase) : List Sign :=
  if ((f.get? rule).bind fun r => r.hook? phase).isSome then [.hook rule phase] else []

def reported (status : Status) : Sign := .report rule (f.nameOf rule) status

def word : Duty → List Sign
  | .call phase => f.called rule phase
  | .tell status => [f.reported rule status]

def breaks (objects : Sign → Prop) : Duty → Prop
  | .call phase => f.called rule phase ≠ []
  | .tell status => objects (f.reported rule status)

def shows (objects : Sign → Prop) (duty : Duty) (ok : Bool) (shown : List Sign) : Prop :=
  shown = f.word rule duty ∧ (ok = false → f.breaks rule objects duty)

def stages : List Sign :=
  f.called rule (.stage .preExecute) ++ f.called rule (.stage .execute) ++
    f.called rule (.stage .postExecute)

def refusal : List Sign :=
  f.called rule .evaluate ++ [f.reported rule .evaluated, f.reported rule .skipped]

def execution : List Sign :=
  f.called rule .evaluate ++ [f.reported rule .evaluated] ++ f.stages rule ++
    [f.reported rule .executed]

end Forest

inductive Succeeds (f : Forest H) : List RuleId → List Sign → Prop where
  | nil : Succeeds f [] []
  | skipped {rule : RuleId} {rules : List RuleId} {more : List Sign}
      (rest : Succeeds f rules more) :
      Succeeds f (rule :: rules) (f.refusal rule ++ more)
  | executed {rule : RuleId} {rules fired : List RuleId} {lower more : List Sign}
      (first : fired <+: f.childrenOf rule) (below : Succeeds f fired lower)
      (rest : Succeeds f rules more) :
      Succeeds f (rule :: rules) (f.execution rule ++ lower ++ more)

/-- The words of a rule that fails: on entry, in its evaluation, in one of its stages, because
somebody throws who is told of a status, or below it. -/
inductive Fails (f : Forest H) (objects : Sign → Prop) : RuleId → List Sign → Prop where
  | cancelled {rule : RuleId} : Fails f objects rule [f.reported rule .failed]
  | evaluation {rule : RuleId} (set : f.called rule .evaluate ≠ []) :
      Fails f objects rule (f.called rule .evaluate ++ [f.reported rule .failed])
  | stage {rule : RuleId} {w : List Sign} (some : w ≠ []) (first : w <+: f.stages rule) :
      Fails f objects rule
        (f.called rule .evaluate ++ [f.reported rule .evaluated] ++ w ++ [f.reported rule .failed])
  | objected {rule : RuleId} {w : List Sign} {s : Sign}
      (first : w ++ [s] <+: f.execution rule ∨ w ++ [s] <+: f.refusal rule) (thrown : objects s) :
      Fails f objects rule (w ++ [s] ++ [f.reported rule .failed])
  | child {rule c : RuleId} {before : List RuleId} {u v : List Sign}
      (first : before ++ [c] <+: f.childrenOf rule)
      (well : Succeeds f before u) (ill : Fails f objects c v) :
      Fails f objects rule (f.execution rule ++ u ++ v ++ [f.reported rule .failed])

theorem Forest.Agree.hook? {f g : Forest H} (h : Agree Rule.design f g) (rule : RuleId)
    (phase : Phase) :
    ((g.get? rule).bind fun r => r.hook? phase) = (f.get? rule).bind fun r => r.hook? phase := by
  have hid := congrArg (Option.bind · fun r => r.hook? phase) (h rule)
  simpa only [Option.bind_map, Function.comp_def, Rule.hook?_design] using hid.symm

theorem Forest.perform_shows {f : Forest H} {b : Behavior H N} (binding : Binding) :
    Act.ShowsAll b binding f Rule.design fun rule => f.shows rule (binding.Objects f) := by
  intro runs rule view duty e known he hne
  have hshape : Agree Rule.shape f e.forest := he.map Rule.shape
  have hshows := Act.perform_shows_of_agree hshape known hne
  cases duty with
  | call phase =>
    have hword :
        signs (Act.perform b runs rule binding view (.call phase) e).events =
        f.called rule phase := by
      rw [(Act.perform_called hne).signs_eq, he.hook?]
      rfl
    refine ⟨hword, fun hok => ?_⟩
    rw [hok, hword] at hshows
    change f.called rule phase ≠ []
    generalize f.called rule phase = w at hshows
    cases hshows
    exact List.cons_ne_nil _ _
  | tell status =>
    have hword : signs (Act.perform b runs rule binding view (.tell status) e).events =
        [f.reported rule status] := by
      rw [Act.perform_tell, signs_telling, he.nameOf]
      rfl
    refine ⟨hword, fun hok => ?_⟩
    rw [hok, hword] at hshows
    cases hshows with
    | tell h => exact not_not.mp fun hno => absurd (h.mpr hno) (by decide)

section

variable {f : Forest H} {rule : RuleId} {objects : Sign → Prop} {w : List Sign}

theorem Word.eq_flatMap {plan : List Duty} (h : Word (f.shows rule objects) plan true w) :
    w = plan.flatMap (f.word rule) := by
  generalize hok : true = ok at h
  induction h with
  | nil => rfl
  | pass first rest ih => rw [List.flatMap_cons, first.1, ← ih hok]
  | fail => exact absurd hok (by decide)

theorem Forest.refusal_eq : f.refusal rule = Duty.declining.flatMap (f.word rule) := by
  simp [refusal, Duty.declining, word]

theorem Forest.execution_eq : f.execution rule = Duty.executing.flatMap (f.word rule) := by
  simp [execution, stages, Duty.executing, word]

theorem Part.refusal (h : Part (f.shows rule objects) (some false) w) : w = f.refusal rule := by
  cases h with
  | declined word => rw [word.eq_flatMap, Forest.refusal_eq]

theorem Part.execution (h : Part (f.shows rule objects) (some true) w) : w = f.execution rule := by
  cases h with
  | executed word => rw [word.eq_flatMap, Forest.execution_eq]

def Duty.middle : List Duty :=
  [.call (.stage .preExecute), .call (.stage .execute), .call (.stage .postExecute)]

theorem Duty.eq_of_evaluate {plan done rest : List Duty}
    (planned : plan = executing ∨ plan = declining) (h : plan = done ++ .call .evaluate :: rest) :
    done = [] := by
  rcases planned with rfl | rfl
  · rcases done with _ | ⟨d₁, _ | ⟨d₂, _ | ⟨d₃, _ | ⟨d₄, _ | ⟨d₅, _ | ⟨d₆, done⟩⟩⟩⟩⟩⟩ <;>
      simp [executing] at h ⊢
  · rcases done with _ | ⟨d₁, _ | ⟨d₂, _ | ⟨d₃, done⟩⟩⟩ <;> simp [declining] at h ⊢

theorem Duty.eq_of_stage {plan done rest : List Duty} {s : Stage}
    (planned : plan = executing ∨ plan = declining) (h : plan = done ++ .call (.stage s) :: rest) :
    ∃ before after, done = .call .evaluate :: .tell .evaluated :: before ∧
      middle = before ++ .call (.stage s) :: after := by
  rcases planned with rfl | rfl
  · rcases done with _ | ⟨d₁, _ | ⟨d₂, _ | ⟨d₃, _ | ⟨d₄, _ | ⟨d₅, _ | ⟨d₆, done⟩⟩⟩⟩⟩⟩ <;>
      simp [executing, middle] at h ⊢ <;> grind
  · rcases done with _ | ⟨d₁, _ | ⟨d₂, _ | ⟨d₃, done⟩⟩⟩ <;> simp [declining] at h

theorem Forest.stages_eq : f.stages rule = Duty.middle.flatMap (f.word rule) := by
  simp [stages, Duty.middle, word]

theorem Part.fails (h : Part (f.shows rule objects) none w) :
    Fails f objects rule (w ++ [f.reported rule .failed]) := by
  cases h with
  | refused => exact .cancelled
  | @failed plan w planned word =>
    obtain ⟨done, duty, rest, u, v, hplan, rfl, hdone, rfl, hb⟩ := word.exists_break
    have hbreaks := hb rfl
    rw [hdone.eq_flatMap]
    cases duty with
    | call phase =>
      cases phase with
      | evaluate =>
        rw [Duty.eq_of_evaluate planned hplan]
        exact .evaluation hbreaks
      | stage s =>
        obtain ⟨before, after, rfl, hmiddle⟩ := Duty.eq_of_stage planned hplan
        have hword : (Duty.call .evaluate :: .tell .evaluated :: before).flatMap (f.word rule) ++
              f.word rule (.call (.stage s)) =
            f.called rule .evaluate ++ [f.reported rule .evaluated] ++
              (before.flatMap (f.word rule) ++ f.called rule (.stage s)) := by
          simp [Forest.word]
        rw [hword]
        refine .stage (fun h => hbreaks (List.append_eq_nil_iff.mp h).2) ?_
        rw [Forest.stages_eq, hmiddle, List.flatMap_append, List.flatMap_cons, ← List.append_assoc]
        exact List.prefix_append _ _
    | tell status =>
      refine .objected ?_ hbreaks
      rcases planned with rfl | rfl
      · left
        rw [Forest.execution_eq, hplan, List.flatMap_append, List.flatMap_cons, ← List.append_assoc]
        exact List.prefix_append _ _
      · right
        rw [Forest.refusal_eq, hplan, List.flatMap_append, List.flatMap_cons, ← List.append_assoc]
        exact List.prefix_append _ _

theorem Course.succeeds {rules : List RuleId}
    (h : Course f (fun rule => f.shows rule objects) rules true w) :
    ∃ fired, fired <+: rules ∧ (rules ≠ [] → fired ≠ []) ∧ Succeeds f fired w := by
  generalize hok : true = ok at h
  induction h with
  | nil => exact ⟨[], List.prefix_rfl, fun h => h, .nil⟩
  | @declined rule rules own more ok part rest ih =>
    obtain ⟨fired, hfirst, -, hfired⟩ := ih hok
    refine ⟨rule :: fired, List.prefix_cons_inj rule |>.mpr hfirst, fun _ => List.cons_ne_nil _ _,
      ?_⟩
    rw [part.refusal]
    exact .skipped hfired
  | @passed rule rules own lower more ok part below goesOn rest ihBelow ih =>
    obtain ⟨fired, hfirst, -, hfired⟩ := ih hok
    obtain ⟨under, hunder, -, hbelow⟩ := ihBelow rfl
    refine ⟨rule :: fired, List.prefix_cons_inj rule |>.mpr hfirst, fun _ => List.cons_ne_nil _ _,
      ?_⟩
    rw [part.execution]
    exact .executed hunder hbelow hfired
  | @stopped rule rules own lower part below stops ih =>
    obtain ⟨under, hunder, -, hbelow⟩ := ih rfl
    refine ⟨[rule], ⟨rules, rfl⟩, fun _ => List.cons_ne_nil _ _, ?_⟩
    rw [part.execution, ← List.append_nil (f.execution rule ++ lower)]
    exact .executed hunder hbelow .nil
  | failed => exact absurd hok (by decide)
  | failedBelow => exact absurd hok (by decide)

theorem Course.fails {rules : List RuleId}
    (h : Course f (fun rule => f.shows rule objects) rules false w) :
    ∃ before c u v, before ++ [c] <+: rules ∧ Succeeds f before u ∧ Fails f objects c v ∧
    w = u ++ v := by
  generalize hok : false = ok at h
  induction h with
  | nil => exact absurd hok (by decide)
  | @declined rule rules own more ok part rest ih =>
    obtain ⟨before, c, u, v, hfirst, hwell, hill, rfl⟩ := ih hok
    refine ⟨rule :: before, c, _, v, List.prefix_cons_inj rule |>.mpr hfirst, .skipped hwell, hill,
      ?_⟩
    rw [part.refusal, List.append_assoc]
  | @passed rule rules own lower more ok part below goesOn rest ihBelow ih =>
    obtain ⟨before, c, u, v, hfirst, hwell, hill, rfl⟩ := ih hok
    obtain ⟨under, hunder, -, hbelow⟩ := below.succeeds
    refine ⟨rule :: before, c, _, v, List.prefix_cons_inj rule |>.mpr hfirst,
      .executed hunder hbelow hwell, hill, ?_⟩
    rw [part.execution, List.append_assoc _ u v]
  | stopped => exact absurd hok (by decide)
  | @failed rule rules own last heard part told =>
    refine ⟨[], rule, [], _, ⟨rules, rfl⟩, .nil, part.fails, ?_⟩
    rw [told.1]
    rfl
  | @failedBelow rule rules own lower last heard part below told ih =>
    obtain ⟨before, c, u, v, hfirst, hwell, hill, rfl⟩ := ih rfl
    refine ⟨[], rule, [], _, ⟨rules, rfl⟩, .nil, .child hfirst hwell hill, ?_⟩
    rw [part.execution, told.1]
    simp [Forest.word]

theorem Forest.eq_hook_of_mem_called {phase : Phase} {s : Sign} (h : s ∈ f.called rule phase) :
    s = .hook rule phase := by
  simp only [called] at h
  split at h
  · exact List.mem_singleton.mp h
  · simp at h

theorem Forest.not_failed_of_mem {s : Sign} (h : s ∈ f.execution rule ∨ s ∈ f.refusal rule)
    (q : RuleId) (name : String) : s ≠ .report q name .failed := by
  have hcalled {phase : Phase} (hs : s ∈ f.called rule phase) : s ≠ .report q name .failed := by
    rw [eq_hook_of_mem_called hs]
    simp
  simp only [execution, refusal, stages, List.mem_append, List.mem_cons, List.not_mem_nil, or_false]
    at h
  rcases h with (((h | rfl) | (h | h) | h) | rfl) | h | rfl | rfl <;>
    first | exact hcalled h | simp [reported]

theorem Forest.not_failed_of_prefix {u : List Sign}
    (h : u <+: f.execution rule ∨ u <+: f.refusal rule) (q : RuleId) (name : String) :
    Sign.report q name .failed ∉ u := by
  intro hmem
  exact not_failed_of_mem (h.imp (·.subset hmem) (·.subset hmem)) q name rfl

theorem Succeeds.not_failed {rules : List RuleId} (h : Succeeds f rules w) (q : RuleId)
    (name : String) :
    Sign.report q name .failed ∉ w := by
  induction h with
  | nil => exact List.not_mem_nil
  | skipped rest ih =>
    intro hmem
    rcases List.mem_append.mp hmem with hmem | hmem
    · exact Forest.not_failed_of_mem (.inr hmem) q name rfl
    · exact ih hmem
  | executed first below rest ihBelow ih =>
    intro hmem
    rcases List.mem_append.mp hmem with hmem | hmem
    · rcases List.mem_append.mp hmem with hmem | hmem
      · exact Forest.not_failed_of_mem (.inl hmem) q name rfl
      · exact ihBelow hmem
    · exact ih hmem

theorem Fails.path (h : Fails f objects rule w) :
    ∃ (u : List Sign) (path : List RuleId), w = u ++ path.map (f.reported · .failed) ∧
    (∀ q name, Sign.report q name .failed ∉ u) ∧
      path.getLast? = some rule ∧ path.IsChain fun c p => c ∈ f.childrenOf p := by
  induction h with
  | @cancelled rule => exact ⟨[], [rule], rfl, fun _ _ => List.not_mem_nil, rfl, .singleton _⟩
  | @evaluation rule set =>
    have hfirst : f.called rule .evaluate <+: f.refusal rule := List.prefix_append _ _
    exact ⟨_, [rule], rfl, Forest.not_failed_of_prefix (.inr hfirst), rfl, .singleton _⟩
  | @stage rule w some first =>
    have hfirst :
        f.called rule .evaluate ++ [f.reported rule .evaluated] ++ w <+: f.execution rule := by
      rw [Forest.execution, List.append_assoc _ (f.stages rule), List.prefix_append_right_inj]
      exact first.trans (List.prefix_append _ _)
    exact ⟨_, [rule], rfl, Forest.not_failed_of_prefix (.inl hfirst), rfl, .singleton _⟩
  | @objected rule w s first thrown =>
    exact ⟨_, [rule], rfl, Forest.not_failed_of_prefix first, rfl, .singleton _⟩
  | @child rule c before u v first well ill ih =>
    obtain ⟨u', path, rfl, hcalm, hlast, hchain⟩ := ih
    refine ⟨f.execution rule ++ u ++ u', path ++ [rule], by simp, ?_, by simp, ?_⟩
    · intro q name hmem
      rcases List.mem_append.mp hmem with hmem | hmem
      · rcases List.mem_append.mp hmem with hmem | hmem
        · exact Forest.not_failed_of_mem (.inl hmem) q name rfl
        · exact well.not_failed q name hmem
      · exact hcalm q name hmem
    · have hc : c ∈ f.childrenOf rule := first.subset (by simp)
      rw [List.isChain_append]
      refine ⟨hchain, .singleton _, ?_⟩
      intro x hx y hy
      rw [hlast, Option.mem_some_iff] at hx
      simp only [List.head?_cons, Option.mem_some_iff] at hy
      rw [← hx, ← hy]
      exact hc

theorem Fails.not_succeeds {rules : List RuleId} (h : Fails f objects rule w) :
    ¬Succeeds f rules w := by
  intro hs
  obtain ⟨u, path, rfl, -, hlast, -⟩ := h.path
  have hmem := List.mem_of_getLast? hlast
  exact hs.not_failed rule _ (List.mem_append_right u (List.mem_map_of_mem hmem))

end

namespace Act

theorem bound_self {e : Engine H} {rule : RuleId} {r : Rule H} {binding : Binding}
    (found : e.forest.get? rule = some r) (lent : r.binding = some binding) :
    e.bound binding rule = e := by
  have hr : { r with binding := some binding } = r := by rw [← lent]
  have hforest : (e.forest.update rule fun r => { r with binding := some binding }) = e.forest :=
    Forest.update_eq_self found hr
  rw [Engine.bound, Engine.updateForest, hforest]

/-- Every firing of a bound rule is a word of the grammar: one that succeeds if the rule does, and
one that fails if it fails. -/
theorem fire_word {b : Behavior H N} (plain : b.Obeys Operation.Plain) {e : Engine H}
    {rule : RuleId} {r : Rule H} {binding : Binding} (tidy : e.forest.Tidy)
    (spans : e.forest.Spans rule) (found : e.forest.get? rule = some r)
    (lent : r.binding = some binding) :
    ∃ limit, ∀ depth, limit ≤ depth → ∃ ending e' events,
    fire b depth rule e = ⟨ending, e', events⟩ ∧
      ((∃ goesOn, ending = .done goesOn) ∨ ∃ x, ending = .thrown x) ∧
      ((∃ goesOn, ending = .done goesOn) ↔ Succeeds e.forest [rule] (signs events)) ∧
      ((∃ x, ending = .thrown x) ↔ Fails e.forest (binding.Objects e.forest) rule (signs events)) ∧
      ((∃ x, ending = .thrown x) → ∃ (u : List Sign) (path : List RuleId),
        signs events = u ++ path.map (e.forest.reported · .failed) ∧
        (∀ q name, Sign.report q name .failed ∉ u) ∧ path.getLast? = some rule ∧
        path.IsChain fun c p => c ∈ e.forest.childrenOf p) := by
  have keepsRules := plain.mono fun _ h => h.1
  obtain ⟨limit, hlimit⟩ :=
    fire_ends (keepsRules.mono fun _ h => h.keepsTree) (plain.mono fun _ h => h.2) spans
  refine ⟨limit, ?_⟩
  intro depth hd
  have hends := hlimit depth hd e tidy (.refl _)
  have hself := bound_self found lent
  have ready : Ready e [rule] := by
    refine ⟨tidy, ?_⟩
    intro q hq
    rw [List.mem_singleton.mp hq]
    exact Forest.lt_size_of_get? found
  -- Firing a rule is traversing a batch of nothing else.
  have hcourse {o : Outcome H N Unit} (h : fireFirst (fire b depth) binding [rule] e = o)
      (hne : o.ending ≠ .exhausted) :
      Course e.forest (fun rule => e.forest.shows rule (binding.Objects e.forest)) [rule]
        o.ending.result.isSome (signs o.events) := by
    have ht := fireFirst_traverses ready (by rw [h]; exact hne)
    rw [h] at ht
    exact (ht.course Forest.Agree.design_upkeep (fun g h => h.map Rule.shape)
      (keepsRules.mono fun _ => Forest.Agree.design_upheld) (Forest.perform_shows binding)
        (.refl _)).1
  rcases hf : fire b depth rule e with ⟨goesOn | x | _, e₁, es⟩
  · have hfirst : fireFirst (fire b depth) binding [rule] e = ⟨.done (), e₁, es⟩ := by
      rw [fireFirst_of_goesOn _ (by rw [hself]; exact hf)]
      cases goesOn <;> simp [fireFirst]
    obtain ⟨fired, hprefix, hne, hsucceeds⟩ := (hcourse hfirst (by simp)).succeeds
    have hfired : fired = [rule] := by
      rcases List.prefix_cons_iff.mp hprefix with h | ⟨rest, rfl, hrest⟩
      · exact absurd h (hne (List.cons_ne_nil _ _))
      · rw [List.prefix_nil.mp hrest]
    rw [hfired] at hsucceeds
    refine ⟨_, _, _, rfl, .inl ⟨goesOn, rfl⟩, ⟨fun _ => hsucceeds, fun _ => ⟨goesOn, rfl⟩⟩, ?_, ?_⟩
    · exact ⟨by simp, fun hfails => absurd hsucceeds hfails.not_succeeds⟩
    · simp
  · have hfirst : fireFirst (fire b depth) binding [rule] e = ⟨.thrown x, e₁, es⟩ :=
      fireFirst_of_thrown _ (by rw [hself]; exact hf)
    obtain ⟨before, c, u, v, hprefix, hwell, hfails, hes⟩ := (hcourse hfirst (by simp)).fails
    have hbefore : before = [] ∧ c = rule := by
      rcases List.prefix_cons_iff.mp hprefix with h | ⟨rest, h, hrest⟩
      · simp at h
      · rw [List.prefix_nil.mp hrest] at h
        simpa [List.append_eq_singleton_iff] using h
    obtain ⟨rfl, rfl⟩ := hbefore
    cases hwell
    rw [List.nil_append] at hes
    rw [← hes] at hfails
    refine ⟨_, _, _, rfl, .inr ⟨x, rfl⟩, ?_, ⟨fun _ => hfails, fun _ => ⟨x, rfl⟩⟩,
      fun _ => hfails.path⟩
    exact ⟨by simp, fun hsucceeds => absurd hsucceeds hfails.not_succeeds⟩
  · exact absurd (congrArg Outcome.ending hf) hends

end Act

def solo (reporter : Option Reporter) (listener : Option Listener) : Engine Unit where
  forest :=
    { rules := #[
        { strategy := .chain, name := "solo", evaluation := some (),
          binding :=
            some { context := 0, signal := none, logger := .ofOptions { listener }, reporter } }] }

theorem solo_flat (reporter : Option Reporter) (listener : Option Listener) :
    (solo reporter listener).forest.Flat := by
  simp [Forest.Flat, solo]

def objecting : Reporter := fun _ status => if status = .evaluated then some (.text "no") else none

namespace Act

theorem fire_word_solo :
    let e := solo (some objecting) none
    agreeing.Obeys Operation.Plain ∧ e.forest.Tidy ∧ e.forest.Spans 0 ∧
      ∃ limit, ∀ depth, limit ≤ depth →
      ∃ ending e' events, fire agreeing depth 0 e = ⟨ending, e', events⟩ ∧
        ((∃ goesOn, ending = .done goesOn) ↔ Succeeds e.forest [0] (signs events)) := by
  intro e
  have flat := solo_flat (some objecting) none
  refine ⟨agreeing_obeys _, flat.tidy, flat.spans 0, ?_⟩
  obtain ⟨limit, h⟩ := fire_word (agreeing_obeys _) flat.tidy (flat.spans 0) rfl rfl
  refine ⟨limit, ?_⟩
  intro depth hd
  obtain ⟨ending, e', events, hfire, -, hsucceeds, -, -⟩ := h depth hd
  exact ⟨ending, e', events, hfire, hsucceeds⟩

theorem not_word_of_failed {reporter : Option Reporter} {listener : Option Listener} {w : List Sign}
    (failed : .report 0 "solo" .failed ∈ w) (long : 2 < w.length) :
    ¬(Succeeds (solo reporter listener).forest [0] w ∨
      Fails (solo reporter listener).forest (fun _ => False) 0 w) := by
  rintro (hword | hword)
  · exact hword.not_failed 0 "solo" failed
  · cases hword with
    | cancelled => exact absurd long (Nat.not_lt.mpr (Nat.le_succ 1))
    | evaluation set => exact absurd long (Nat.lt_irrefl 2)
    | stage some first => exact some (List.prefix_nil.mp first)
    | objected first thrown => exact thrown
    | child first well ill => exact absurd (List.prefix_nil.mp first) (by simp)

theorem fire_word_needs_objections :
    (¬∃ limit, ∀ depth, limit ≤ depth → ∃ ending e' events,
      fire agreeing depth 0 (solo (some objecting) none) = ⟨ending, e', events⟩ ∧
        (Succeeds (solo (some objecting) none).forest [0] (signs events) ∨
          Fails (solo (some objecting) none).forest (fun _ => False) 0 (signs events))) ∧
    ¬∃ limit, ∀ depth, limit ≤ depth → ∃ ending e' events,
      fire agreeing depth 0 (solo none (some fun _ => some (.text "no"))) = ⟨ending, e', events⟩ ∧
        (Succeeds (solo none (some fun _ => some (.text "no"))).forest [0] (signs events) ∨
          Fails (solo none (some fun _ => some (.text "no"))).forest (fun _ => False) 0
            (signs events)) := by
  constructor
  · rintro ⟨limit, h⟩
    obtain ⟨ending, e', events, hfire, hword⟩ := h (limit + 1) (Nat.le_succ _)
    have hevents :
        signs events = [.hook 0 .evaluate, .report 0 "solo" .evaluated, .report 0 "solo" .failed] :=
      congrArg (fun o => signs o.events) hfire.symm
    rw [hevents] at hword
    exact not_word_of_failed (by simp) (by decide) hword
  · rintro ⟨limit, h⟩
    obtain ⟨ending, e', events, hfire, hword⟩ := h (limit + 1) (Nat.le_succ _)
    have hevents :
        signs events = [.hook 0 .evaluate, .report 0 "solo" .evaluated, .report 0 "solo" .executed,
        .report 0 "solo" .failed] := congrArg (fun o => signs o.events) hfire.symm
    rw [hevents] at hword
    exact not_word_of_failed (by simp) (by decide) hword

end Act

end RuleForest
