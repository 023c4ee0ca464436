import RuleForest.Proofs.Adoption

namespace RuleForest

variable {H N : Type}

namespace BuildOption

def givenName? : BuildOption H → Option String
  | name s => if Text.isBlankText s then none else some s
  | _ => none

def hookFor? (phase : Phase) : BuildOption H → Option H
  | hook phase' h => if phase' = phase then some h else none
  | _ => none

def batch : BuildOption H → List (Option RuleId)
  | children batch => batch
  | _ => []

end BuildOption

structure Rule.Described (strategy : Strategy) (automatic : String) (options : List (BuildOption H))
    (r : Rule H) : Prop where
  strategy : r.strategy = strategy
  name : r.name = (options.filterMap BuildOption.givenName?).getLast?.getD automatic
  owner : r.owner = none
  children : options.flatMap BuildOption.batch = r.children.map some
  hooks (phase : Phase) : r.hook? phase = (options.filterMap (BuildOption.hookFor? phase)).getLast?
  binding : r.binding = none
  status : r.status = .idle

namespace Rule

variable {strategy : Strategy} {automatic : String} {options : List (BuildOption H)} {r : Rule H}

theorem hook?_setName (r : Rule H) (s : String) (phase : Phase) :
    (r.setName s).hook? phase = r.hook? phase := by
  unfold setName
  split
  · rfl
  · cases phase with
    | evaluate => rfl
    | stage s => cases s <;> rfl

theorem hook?_setHook (r : Rule H) (phase' : Phase) (h : H) (phase : Phase) :
    (r.setHook phase' h).hook? phase = if phase' = phase then some h else r.hook? phase := by
  rcases phase with _ | _ | _ | _ <;> rcases phase' with _ | _ | _ | _ <;> rfl

namespace Described

theorem named (h : r.Described strategy automatic options) (s : String) :
    (r.setName s).Described strategy automatic (options ++ [BuildOption.name s]) := by
  have hr : r.setName s = { r with name := if Text.isBlankText s then r.name else s } := by
    unfold setName
    split <;> rfl
  have hhooks (phase : Phase) := hook?_setName r s phase
  rw [hr] at hhooks ⊢
  refine { h with name := ?_, children := ?_, hooks := ?_ }
  · by_cases hs : Text.isBlankText s <;>
      simp [BuildOption.givenName?, hs, h.name]
  · simp [BuildOption.batch, h.children]
  · intro phase
    rw [hhooks, h.hooks]
    simp [List.filterMap_cons, BuildOption.hookFor?]

theorem hooked (h : r.Described strategy automatic options) (phase : Phase) (hook : H) :
    (r.setHook phase hook).Described strategy automatic
      (options ++ [BuildOption.hook phase hook]) := by
  have hr : r.setHook phase hook = { r with
      evaluation := (r.setHook phase hook).evaluation
      preExecution := (r.setHook phase hook).preExecution
      execution := (r.setHook phase hook).execution
      postExecution := (r.setHook phase hook).postExecution } := by
    rcases phase with _ | _ | _ | _ <;> rfl
  have hhooks (phase' : Phase) := hook?_setHook r phase hook phase'
  rw [hr] at hhooks ⊢
  refine { h with name := ?_, children := ?_, hooks := ?_ }
  · simp [List.filterMap_cons, BuildOption.givenName?, h.name]
  · simp [BuildOption.batch, h.children]
  · intro phase'
    rw [hhooks, h.hooks]
    by_cases hp : phase = phase' <;> simp [BuildOption.hookFor?, hp]

theorem extended (h : r.Described strategy automatic options) (children : List RuleId) :
    { r with children := r.children ++ children }.Described strategy automatic
      (options ++ [BuildOption.children (children.map some)]) := by
  have hhooks (phase : Phase) :
      { r with children := r.children ++ children }.hook? phase = r.hook? phase := by
    rcases phase with _ | _ | _ | _ <;> rfl
  refine { h with name := ?_, children := ?_, hooks := ?_ }
  · simp [List.filterMap_cons, BuildOption.givenName?, h.name]
  · simp [BuildOption.batch, h.children]
  · intro phase
    rw [hhooks, h.hooks]
    simp [List.filterMap_cons, BuildOption.hookFor?]

end Described

end Rule

namespace Forest

variable {f g : Forest H} {id : RuleId} {strategy : Strategy}
  {options before : List (BuildOption H)}

structure Underway (f : Forest H) (id : RuleId) (strategy : Strategy)
    (options : List (BuildOption H)) (g : Forest H) :
    Prop where
  fresh : f.rules.size = id
  growing : g.Growing id
  named : g.named = f.named + 1
  described :
    ∃ r, g.get? id = some r ∧ r.Described strategy (automaticName strategy (f.named + 1)) options
  free {c : RuleId} : c ∈ g.childrenOf id → f.ownerOf c = none
  others (i : RuleId) : i ≠ id →
    g.get? i = (f.get? i).map fun r =>
    { r with owner := if i ∈ g.childrenOf id then some id else r.owner }

theorem eq_of_rules_of_named (hrules : g.rules = f.rules) (hnamed : g.named = f.named) : g = f := by
  cases f
  cases g
  simp_all

theorem named_release (g : Forest H) (id : RuleId) : (g.release id).named = g.named := by
  have hnamed (children : List RuleId) (g : Forest H) :
      (children.foldl (fun f child => f.update child fun r => { r with owner := none }) g).named =
        g.named := by
    induction children generalizing g with
    | nil => rfl
    | cons child children ih => exact ih _
  exact hnamed (g.childrenOf id) g

namespace Underway

theorem create (hf : f.Consistent) (strategy : Strategy) :
    f.Underway f.rules.size strategy [] (f.create strategy none).2 := by
  have hchildren : (f.create strategy none).2.childrenOf f.rules.size = [] := by
    rw [childrenOf_create, childrenOf_eq_nil (Nat.le_refl _)]
  constructor
  case fresh => rfl
  case growing => exact Growing.create hf strategy none
  case named => rfl
  case described =>
    refine ⟨_, Array.getElem?_push_size, ?_⟩
    constructor <;> try rfl
    intro phase
    rcases phase with _ | _ | _ | _ <;> rfl
  case free =>
    intro c hc
    rw [hchildren] at hc
    exact absurd hc List.not_mem_nil
  case others =>
    intro i hi
    rw [get?_create f strategy none i hi, hchildren]
    simp

variable (h : f.Underway id strategy options g)
include h

theorem update {k : Rule H → Rule H} {o : BuildOption H} (hk : ∀ r, (k r).ties = r.ties)
    (hd : ∀ r, r.Described strategy (automaticName strategy (f.named + 1)) options →
      (k r).Described strategy (automaticName strategy (f.named + 1)) (options ++ [o])) :
    f.Underway id strategy (options ++ [o]) (g.update id k) := by
  have hshape : Agree Rule.shape g (g.update id k) :=
    (Agree.update g id hk).map fun t => (t.1, t.2.2)
  have hchildren := hshape.childrenOf id
  constructor
  case fresh => exact h.fresh
  case growing => exact h.growing.update hk
  case named => exact h.named
  case described =>
    obtain ⟨r, hr, hdescribed⟩ := h.described
    exact ⟨k r, by simp [hr], hd r hdescribed⟩
  case free =>
    rw [hchildren]
    exact h.free
  case others =>
    intro i hi
    rw [hchildren, get?_update, if_neg (Ne.symm hi)]
    exact h.others i hi

theorem ownerOf {c : RuleId} (hc : c ≠ id) (hfree : g.ownerOf c = none) : f.ownerOf c = none := by
  have ho :
      g.ownerOf c = (f.get? c).bind fun r => if c ∈ g.childrenOf id then some id else r.owner := by
    rw [Forest.ownerOf, h.others c hc, Option.bind_map]
    rfl
  rw [ho] at hfree
  rw [Forest.ownerOf]
  cases hr : f.get? c with
  | none => rfl
  | some r =>
    rw [hr, Option.bind_some] at hfree
    split at hfree
    · cases hfree
    · exact hfree

theorem adopted {children : List RuleId} {g' : Forest H} (hadopted : g.Adopted id children g')
    (hwelcome : g.Welcome id children) (hgrowing : g'.Growing id) :
    f.Underway id strategy (options ++ [.children (children.map some)]) g' := by
  obtain ⟨r, hr, hdescribed⟩ := h.described
  have had : g.Adoptable id children :=
    ((h.growing.consistent.welcome_iff (lt_size_of_get? hr)).mp hwelcome).2
  have hself : id ∉ children :=
    fun hmem => had.beyond hmem ((h.growing.consistent.mem_lineage (lt_size_of_get? hr)).mpr .refl)
  have hr' : g'.get? id = some { r with children := r.children ++ children } := by
    rw [hadopted.get?, hr]
    simp [hself]
  have hchildren : g'.childrenOf id = g.childrenOf id ++ children := by
    rw [childrenOf_of_get? hr', childrenOf_of_get? hr]
  constructor
  case fresh => exact h.fresh
  case growing => exact hgrowing
  case named => exact hadopted.named.trans h.named
  case described => exact ⟨_, hr', hdescribed.extended children⟩
  case free =>
    intro c hc
    rw [hchildren, List.mem_append] at hc
    rcases hc with hc | hc
    · exact h.free hc
    · exact h.ownerOf (fun hid => hself (hid ▸ hc)) (had.free hc)
  case others =>
    intro i hi
    rw [hadopted.get?, h.others i hi, Option.map_map, hchildren]
    congr 1
    funext r
    by_cases hc : i ∈ children <;> simp [hi, hc]

theorem applyOption {o : BuildOption H} {g' : Forest H} (ho : g.applyOption id o = .ok g') :
    f.Underway id strategy (options ++ [o]) g' := by
  have hgrowing := h.growing.applyOption o ho
  cases o with
  | name s =>
    cases ho
    exact h.update (fun r => r.ties_setName s) fun r hr => hr.named s
  | hook phase hook =>
    cases ho
    exact h.update (fun r => r.ties_setHook phase hook) fun r hr => hr.hooked phase hook
  | children batch =>
    obtain ⟨r, hr, -⟩ := h.described
    rcases h.growing.consistent.addChildren_cases hr batch with
      ⟨children, g₁, hg, rfl, -, hwelcome, hadopted⟩ | ⟨fault, hfault, -⟩
    · rw [Forest.applyOption, hg, Except.ok.injEq] at ho
      exact h.adopted (ho ▸ hadopted) hwelcome hgrowing
    · rw [Forest.applyOption, hfault] at ho
      cases ho

theorem applyOptions (more : List (BuildOption H)) :
    (∃ g', Forest.applyOptions id more g = (g', none) ∧
      f.Underway id strategy (options ++ more) g') ∨
      ∃ before batch after g' fault, more = before ++ .children batch :: after ∧
        Forest.applyOptions id before g = (g', none) ∧
        f.Underway id strategy (options ++ before) g' ∧
        g'.Refused id batch fault ∧ Forest.applyOptions id more g = (g', some fault) := by
  induction more generalizing options g with
  | nil => exact .inl ⟨g, rfl, by simpa using h⟩
  | cons o more ih =>
    cases ho : g.applyOption id o with
    | ok g₁ =>
      rcases ih (h.applyOption ho) with ⟨g', hmore, h'⟩ |
        ⟨before, batch, after, g', fault, rfl, hbefore, h', hrefused, hmore⟩
      · refine .inl ⟨g', by simp only [Forest.applyOptions, ho, hmore], by simpa using h'⟩
      · refine .inr ⟨o :: before, batch, after, g', fault, rfl, ?_, by simpa using h', hrefused, ?_⟩
        · simp only [Forest.applyOptions, ho, hbefore]
        · simp only [Forest.applyOptions, ho, hmore]
    | error fault =>
      cases o with
      | name s => cases ho
      | hook phase hook => cases ho
      | children batch =>
        obtain ⟨r, hr, -⟩ := h.described
        have hrefused := (h.growing.consistent.addChildren_eq_error_iff hr).mp ho
        exact .inr ⟨[], batch, more, g, fault, rfl, rfl, by simpa using h, hrefused, by
          simp only [Forest.applyOptions, ho]⟩

theorem mem_batches {c : RuleId} :
    some c ∈ options.flatMap BuildOption.batch ↔ c ∈ g.childrenOf id := by
  obtain ⟨r, hr, hdescribed⟩ := h.described
  rw [hdescribed.children, childrenOf_of_get? hr]
  simp

theorem child_lt_size {c : RuleId} (hc : c ∈ g.childrenOf id) : c < f.rules.size := by
  have ho := h.growing.consistent.mem_childrenOf.mp hc
  have hne : c ≠ id := by
    rintro rfl
    rw [h.growing.free] at ho
    cases ho
  have hlt := lt_size_of_ownerOf ho
  rw [h.growing.last] at hlt
  rw [h.fresh]
  exact Nat.lt_of_le_of_ne (Nat.le_of_lt_succ hlt) hne

theorem discard : (g.release id).discardLast = { f with named := f.named + 1 } := by
  have hsize : (g.release id).rules.size = id + 1 := (size_release g id).trans h.growing.last
  have hget (i : RuleId) : (g.release id).discardLast.get? i = f.get? i := by
    by_cases hi : i = id
    · have hold : f.get? i = none := Array.getElem?_eq_none (hi ▸ Nat.le_of_eq h.fresh)
      have hpopped : (g.release id).discardLast.rules.size ≤ i := by simp [discardLast, hsize, hi]
      rw [hold]
      exact Array.getElem?_eq_none hpopped
    · rw [get?_discardLast _ i (by rw [hsize]; simpa using hi), get?_release, h.others i hi,
        Option.map_map]
      cases hr : f.get? i with
      | none => rfl
      | some r =>
        by_cases hc : i ∈ g.childrenOf id
        · have hfree := h.free hc
          rw [Forest.ownerOf, hr, Option.bind_some] at hfree
          simp [hc, hi, ← hfree]
        · simp [hc, hi]
  have hrules : (g.release id).discardLast.rules = f.rules := Array.ext_getElem? hget
  have hnamed : (g.release id).discardLast.named = f.named + 1 := (named_release g id).trans h.named
  exact eq_of_rules_of_named hrules hnamed

end Underway

theorem Consistent.build_cases (hf : f.Consistent) (strategy : Strategy)
    (options : List (BuildOption H)) :
    (∃ g, f.build strategy options = (g, .ok f.rules.size) ∧
        Forest.applyOptions f.rules.size options (f.create strategy none).2 = (g, none) ∧
        f.Underway f.rules.size strategy options g) ∨
      ∃ before batch after g fault, options = before ++ .children batch :: after ∧
        Forest.applyOptions f.rules.size before (f.create strategy none).2 = (g, none) ∧
        f.Underway f.rules.size strategy before g ∧ g.Refused f.rules.size batch fault ∧
        f.build strategy options = ({ f with named := f.named + 1 }, .error fault) := by
  have hid : (f.create strategy none).1 = f.rules.size := rfl
  rcases (Underway.create hf strategy).applyOptions options with
    ⟨g, hall, h⟩ | ⟨before, batch, after, g, fault, rfl, hbefore, h, hrefused, hall⟩
  · exact .inl ⟨g, by simp only [Forest.build, hid, hall], hall, h⟩
  · refine .inr ⟨before, batch, after, g, fault, rfl, hbefore, h, hrefused, ?_⟩
    simp only [Forest.build, hid, hall, h.discard]

end Forest

namespace Engine

/-- After any steps from an engine without rules, a build that fails throws the fault of the first
option that fails, leaves all rules as they were, those free that it had adopted by then, and has
used up one automatic name. A build that succeeds adds the rule that its options describe and takes
nothing but the children it was given. -/
theorem build_after (e : Engine H) (steps : List (Step H N)) (strategy : Strategy)
    (options : List (BuildOption H)) :
    let f := ({ e with forest := {} }.after steps).forest
    let id := f.rules.size
    (∀ g fault, f.build strategy options = (g, .error fault) →
      g = { f with named := f.named + 1 } ∧
      ∃ before batch after partly, options = before ++ .children batch :: after ∧
        Forest.applyOptions id before (f.create strategy none).2 = (partly, none) ∧
        partly.Refused id batch fault ∧
        ∀ c, some c ∈ before.flatMap BuildOption.batch → g.ownerOf c = none ∧
          ∀ p r, g.get? p = some r → ¬g.Crowds p 1 → ¬g.Under c p →
          ∃ g', g.addChildren p [some c] = .ok g') ∧
    (∀ g id', f.build strategy options = (g, .ok id') →
      id' = id ∧ g.named = f.named + 1 ∧
      Forest.applyOptions id options (f.create strategy none).2 = (g, none) ∧
      (∃ r, g.get? id = some r ∧ r.Described strategy (Forest.automaticName strategy (f.named + 1))
        options) ∧
      ∀ i, i ≠ id → g.get? i = (f.get? i).map fun r =>
        { r with
          owner := if some i ∈ options.flatMap BuildOption.batch then some id else r.owner }) := by
  intro f id
  have hf : f.Consistent :=
    consistent_after (e := { e with forest := {} }) Forest.consistent_empty steps
  rcases hf.build_cases strategy options with
    ⟨g, hbuild, hall, h⟩ | ⟨before, batch, after, partly, fault, hoptions, hbefore, h, hrefused,
      hbuild⟩
  · refine ⟨fun g' fault hfault => ?_, fun g' id' hok => ?_⟩
    · rw [hbuild] at hfault
      cases hfault
    · rw [hbuild] at hok
      cases hok
      refine ⟨rfl, h.named, hall, h.described, ?_⟩
      intro i hi
      simp only [h.mem_batches]
      exact h.others i hi
  · refine ⟨fun g' fault' hfault => ?_, fun g' id' hok => ?_⟩
    · rw [hbuild] at hfault
      cases hfault
      have hg : { f with named := f.named + 1 }.Consistent :=
        hf.of_ties (fun _ => rfl) (fun _ => rfl) ⟨hf.tidy.present, hf.tidy.narrow⟩
      refine ⟨rfl, before, batch, after, partly, hoptions, hbefore, hrefused, ?_⟩
      intro c hc
      have hchild := h.mem_batches.mp hc
      refine ⟨h.free hchild, ?_⟩
      intro p r hr room hbelow
      exact hg.addChildren_lone hr room (h.child_lt_size hchild) (h.free hchild) hbelow
    · rw [hbuild] at hok
      cases hok

end Engine

end RuleForest
