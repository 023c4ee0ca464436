import RuleForest.Forest.Build
import Mathlib.Data.List.Basic

namespace RuleForest

namespace Forest

variable {H α : Type}

@[simp]
theorem get?_update (f : Forest H) (id i : RuleId) (g : Rule H → Rule H) :
    (f.update id g).get? i = if id = i then (f.get? i).map g else f.get? i := by
  simp only [get?, update, Array.getElem?_modify]

@[simp]
theorem size_update (f : Forest H) (id : RuleId) (g : Rule H → Rule H) :
    (f.update id g).rules.size = f.rules.size := by
  simp only [update, Array.size_modify]

theorem lt_size_of_get? {f : Forest H} {id : RuleId} {r : Rule H} (h : f.get? id = some r) :
    id < f.rules.size := by
  obtain ⟨hi, -⟩ := Array.getElem?_eq_some_iff.mp h
  exact hi

theorem exists_get? {f : Forest H} {id : RuleId} (h : id < f.rules.size) :
    ∃ r, f.get? id = some r :=
  ⟨f.rules[id], Array.getElem?_eq_getElem h⟩

theorem update_eq_self {f : Forest H} {id : RuleId} {g : Rule H → Rule H} {r : Rule H}
    (h : f.get? id = some r) (hg : g r = r) : f.update id g = f := by
  have hrules : f.rules.modify id g = f.rules := by
    apply Array.ext_getElem?
    intro i
    rw [Array.getElem?_modify]
    split
    · next hi =>
      subst hi
      have h' : f.rules[id]? = some r := h
      rw [h', Option.map_some, hg]
    · rfl
  simp only [update, hrules]

def Agree (aspect : Rule H → α) (f g : Forest H) : Prop :=
  ∀ id, (f.get? id).map aspect = (g.get? id).map aspect

namespace Agree

variable {aspect : Rule H → α} {f g h : Forest H}

theorem refl (f : Forest H) : Agree aspect f f := fun _ => rfl

theorem symm (hfg : Agree aspect f g) : Agree aspect g f := fun id => (hfg id).symm

theorem trans (hfg : Agree aspect f g) (hgh : Agree aspect g h) : Agree aspect f h :=
  fun id => (hfg id).trans (hgh id)

theorem update (f : Forest H) (id : RuleId) {k : Rule H → Rule H}
    (hk : ∀ r, aspect (k r) = aspect r) :
    Agree aspect f (f.update id k) := by
  intro i
  rw [get?_update]
  split
  · rw [Option.map_map]
    exact congrFun (congrArg Option.map (funext fun r => (hk r).symm)) (f.get? i)
  · rfl

theorem map {β : Type} (hfg : Agree aspect f g) (k : α → β) :
    Agree (fun r => k (aspect r)) f g := by
  intro id
  have hid := congrArg (Option.map k) (hfg id)
  simpa only [Option.map_map, Function.comp_def] using hid

theorem exists_of_get? (hfg : Agree aspect f g) {id : RuleId} {r : Rule H}
    (hr : f.get? id = some r) :
    ∃ r', g.get? id = some r' ∧ aspect r' = aspect r := by
  have hid := hfg id
  rw [hr, Option.map_some] at hid
  exact Option.map_eq_some_iff.mp hid.symm

end Agree

theorem get?_attach (f : Forest H) (parent child i : RuleId) :
    (f.attach parent child).get? i = (f.get? i).map fun r =>
      { r with
        owner := if i = child then some parent else r.owner
        children := if i = parent then r.children ++ [child] else r.children } := by
  simp only [attach, get?_update]
  by_cases hp : parent = i <;> by_cases hc : child = i <;> cases f.get? i <;>
    simp [hp, hc, eq_comm (a := i)]

theorem get?_attach_all (f : Forest H) (parent i : RuleId) (batch : List RuleId) :
    (batch.foldl (fun f child => f.attach parent child) f).get? i = (f.get? i).map fun r =>
      { r with
        owner := if i ∈ batch then some parent else r.owner
        children := if i = parent then r.children ++ batch else r.children } := by
  induction batch generalizing f with
  | nil => simp
  | cons child batch ih =>
    rw [List.foldl_cons, ih, get?_attach, Option.map_map]
    congr 1
    funext r
    have howner : (if i ∈ batch then some parent else if i = child then some parent else r.owner) =
        if i ∈ child :: batch then some parent else r.owner := by grind
    have hchildren :
        (if i = parent then (if i = parent then r.children ++ [child] else r.children) ++ batch
        else if i = parent then r.children ++ [child] else r.children) =
        if i = parent then r.children ++ child :: batch else r.children := by grind
    simp only [Function.comp_apply, howner, hchildren]

theorem get?_disown_all (f : Forest H) (i : RuleId) (batch : List RuleId) :
    (batch.foldl (fun f child => f.update child fun r => { r with owner := none }) f).get? i =
      (f.get? i).map fun r => { r with owner := if i ∈ batch then none else r.owner } := by
  induction batch generalizing f with
  | nil => simp
  | cons child batch ih =>
    rw [List.foldl_cons, ih, get?_update]
    by_cases hc : child = i <;> by_cases hb : i ∈ batch <;> cases f.get? i <;>
      simp [hc, hb, eq_comm (a := i)]

theorem get?_release (f : Forest H) (parent i : RuleId) :
    (f.release parent).get? i = (f.get? i).map fun r =>
      { r with
        owner := if i ∈ f.childrenOf parent then none else r.owner
        children := if i = parent then [] else r.children } := by
  rw [release, get?_update, get?_disown_all]
  by_cases hp : parent = i <;> cases f.get? i <;> simp [hp, eq_comm (a := i)]

end Forest

namespace Rule

variable {H : Type}

def shape (r : Rule H) : Strategy × List RuleId := (r.strategy, r.children)

def design (r : Rule H) : Rule H := { r with binding := none, status := .idle }

theorem hook?_design (r : Rule H) (phase : Phase) : r.design.hook? phase = r.hook? phase := by
  cases phase with
  | evaluate => rfl
  | stage s => cases s <;> rfl

theorem shape_setName (r : Rule H) (name : String) : (r.setName name).shape = r.shape := by
  unfold setName
  split <;> rfl

theorem shape_setHook (r : Rule H) (phase : Phase) (hook : H) :
    (r.setHook phase hook).shape = r.shape := by
  cases phase with
  | evaluate => rfl
  | stage s => cases s <;> rfl

end Rule

namespace Forest

variable {H α : Type}

theorem Agree.lt_size {aspect : Rule H → α} {f g : Forest H} (h : Agree aspect f g) {id : RuleId}
    (hid : id < f.rules.size) : id < g.rules.size := by
  obtain ⟨r, hr⟩ := exists_get? hid
  obtain ⟨r', hr', -⟩ := h.exists_of_get? hr
  exact lt_size_of_get? hr'

structure Tidy (f : Forest H) : Prop where
  present {p : RuleId} {r : Rule H} : f.get? p = some r → ∀ c ∈ r.children, c < f.rules.size
  narrow {p : RuleId} {r : Rule H} : f.get? p = some r → r.strategy = .chain → r.children.length ≤ 1

theorem Tidy.of_agree {f g : Forest H} (hf : f.Tidy) (h : Agree Rule.shape f g) : g.Tidy := by
  have hback {p : RuleId} {r : Rule H} (hr : g.get? p = some r) :
      ∃ r', f.get? p = some r' ∧ r'.strategy = r.strategy ∧ r'.children = r.children := by
    obtain ⟨r', hr', hs⟩ := h.symm.exists_of_get? hr
    exact ⟨r', hr', congrArg Prod.fst hs, congrArg Prod.snd hs⟩
  constructor
  case present =>
    intro p r hr c hc
    obtain ⟨r', hr', -, hch⟩ := hback hr
    exact h.lt_size (hf.present hr' c (hch ▸ hc))
  case narrow =>
    intro p r hr hs
    obtain ⟨r', hr', hst, hch⟩ := hback hr
    rw [← hch]
    exact hf.narrow hr' (hst.trans hs)

theorem present?_eq_some {f : Forest H} {entry : Option RuleId} {id : RuleId} :
    f.present? entry = some id ↔ entry = some id ∧ id < f.rules.size := by
  simp only [present?, Option.filter_eq_some_iff, decide_eq_true_eq]

theorem present?_some {f : Forest H} {id : RuleId} (h : id < f.rules.size) :
    f.present? (some id) = some id :=
  present?_eq_some.mpr ⟨rfl, h⟩

section

variable {f : Forest H} {ids : List RuleId} {entries : List (Option RuleId)}

theorem map_present?_some (h : ∀ id ∈ ids, id < f.rules.size) :
    (ids.map some).map f.present? = ids.map some := by
  rw [List.map_map]
  exact List.map_congr_left fun id hid => present?_some (h id hid)

theorem filterMap_present? (h : ∀ id ∈ ids, id < f.rules.size) :
    (ids.map some).filterMap f.present? = ids := by
  rw [List.filterMap_map]
  have hp : ∀ id ∈ ids, (f.present? ∘ some) id = some id := fun id hid => present?_some (h id hid)
  rw [List.filterMap_congr hp, List.filterMap_some]

theorem eq_map_some_of_present? (h : entries.map f.present? = ids.map some) :
    entries = ids.map some ∧ ∀ id ∈ ids, id < f.rules.size := by
  induction entries generalizing ids with
  | nil =>
    rw [List.map_nil, eq_comm, List.map_eq_nil_iff] at h
    simp [h]
  | cons entry entries ih =>
    cases ids with
    | nil => simp at h
    | cons id ids =>
      rw [List.map_cons, List.map_cons, List.cons.injEq] at h
      obtain ⟨rfl, hid⟩ := present?_eq_some.mp h.1
      obtain ⟨rfl, hrest⟩ := ih h.2
      exact ⟨rfl, List.forall_mem_cons.mpr ⟨hid, hrest⟩⟩

theorem eq_map_some_filterMap_present? (h : ∀ entry ∈ entries, f.present? entry ≠ none) :
    entries = (entries.filterMap f.present?).map some ∧
    ∀ id ∈ entries.filterMap f.present?, id < f.rules.size := by
  apply eq_map_some_of_present?
  rw [List.map_filterMap]
  induction entries with
  | nil => rfl
  | cons entry entries ih =>
    obtain ⟨hentry, hrest⟩ := List.forall_mem_cons.mp h
    obtain ⟨id, hid⟩ := Option.ne_none_iff_exists'.mp hentry
    simp [hid, ih hrest]

end

theorem checkEntries_eq_ok {f : Forest H} {parent : RuleId} {pending accepted : List RuleId}
    {entries : List (Option RuleId)} (h : f.checkEntries parent pending entries = .ok accepted) :
    ∃ added, entries = added.map some ∧ accepted = pending ++ added := by
  induction entries generalizing pending with
  | nil =>
    simp only [checkEntries, Except.ok.injEq] at h
    exact ⟨[], rfl, by simp [h]⟩
  | cons entry entries ih =>
    cases entry with
    | none => simp [checkEntries] at h
    | some child =>
      simp only [checkEntries] at h
      split at h
      · simp at h
      · obtain ⟨added, rfl, rfl⟩ := ih h
        exact ⟨child :: added, rfl, by simp⟩

theorem checkBatch_eq_ok {f : Forest H} {parent : RuleId} {batch : List (Option RuleId)}
    {accepted : List RuleId} (h : f.checkBatch parent batch = .ok accepted) :
    ∃ r, f.get? parent = some r ∧ (r.strategy = .chain → r.children.length + accepted.length ≤ 1) ∧
      ∀ c ∈ accepted, c < f.rules.size := by
  unfold checkBatch at h
  split at h
  · simp at h
  · next r hr =>
    dsimp only at h
    split at h
    · simp at h
    · next hcount =>
      obtain ⟨added, hadded, rfl⟩ := checkEntries_eq_ok h
      have hlen := congrArg List.length hadded
      simp only [List.length_map] at hlen
      refine ⟨r, hr, ?_, ?_⟩
      · intro hs
        rw [← hlen]
        exact Nat.le_of_not_lt fun hlt => hcount ⟨hs, hlt⟩
      · intro c hc
        have hmem : some c ∈ batch.map f.present? := by
          rw [hadded]
          exact List.mem_map_of_mem hc
        obtain ⟨entry, -, hentry⟩ := List.mem_map.mp hmem
        exact (present?_eq_some.mp hentry).2

theorem size_attach_all (f : Forest H) (parent : RuleId) (batch : List RuleId) :
    (batch.foldl (fun f child => f.attach parent child) f).rules.size = f.rules.size := by
  induction batch generalizing f with
  | nil => rfl
  | cons child batch ih => rw [List.foldl_cons, ih, attach, size_update, size_update]

theorem size_of_addChildren {f g : Forest H} {parent : RuleId} {batch : List (Option RuleId)}
    (h : f.addChildren parent batch = .ok g) : g.rules.size = f.rules.size := by
  unfold Forest.addChildren at h
  cases hc : f.checkBatch parent batch with
  | error fault => simp [hc, Except.map] at h
  | ok accepted =>
    simp only [hc, Except.map, Except.ok.injEq] at h
    rw [← h, size_attach_all]

theorem Tidy.addChildren {f g : Forest H} (hf : f.Tidy) {parent : RuleId}
    {batch : List (Option RuleId)} (h : f.addChildren parent batch = .ok g) : g.Tidy := by
  have hsize := size_of_addChildren h
  unfold Forest.addChildren at h
  cases hc : f.checkBatch parent batch with
  | error fault => simp [hc, Except.map] at h
  | ok accepted =>
    simp only [hc, Except.map, Except.ok.injEq] at h
    obtain ⟨owner, howner, hcount, hpresent⟩ := checkBatch_eq_ok hc
    have hget (i : RuleId) := get?_attach_all f parent i accepted
    rw [h] at hget
    constructor
    case present =>
      intro p r hr c hc
      rw [hget] at hr
      obtain ⟨r', hr', rfl⟩ := Option.map_eq_some_iff.mp hr
      rw [hsize]
      by_cases hp : p = parent
      · simp only [hp, if_true, List.mem_append] at hc
        rcases hc with hc | hc
        · exact hf.present hr' c hc
        · exact hpresent c hc
      · simp only [hp, if_false] at hc
        exact hf.present hr' c hc
    case narrow =>
      intro p r hr hs
      rw [hget] at hr
      obtain ⟨r', hr', rfl⟩ := Option.map_eq_some_iff.mp hr
      by_cases hp : p = parent
      · rw [hp, howner, Option.some.injEq] at hr'
        subst hr'
        simp only [hp, if_true, List.length_append]
        exact hcount hs
      · simp only [hp, if_false]
        exact hf.narrow hr' hs

theorem size_disown_all (f : Forest H) (batch : List RuleId) :
    (batch.foldl (fun f child => f.update child fun r => { r with owner := none }) f).rules.size =
      f.rules.size := by
  induction batch generalizing f with
  | nil => rfl
  | cons child batch ih => rw [List.foldl_cons, ih, size_update]

theorem size_release (f : Forest H) (parent : RuleId) :
    (f.release parent).rules.size = f.rules.size := by
  rw [release, size_update, size_disown_all]

theorem Tidy.release {f : Forest H} (hf : f.Tidy) (parent : RuleId) : (f.release parent).Tidy := by
  have hsize := size_release f parent
  constructor
  case present =>
    intro p r hr c hc
    rw [get?_release] at hr
    obtain ⟨r', hr', rfl⟩ := Option.map_eq_some_iff.mp hr
    rw [hsize]
    by_cases hp : p = parent
    · simp [hp] at hc
    · simp only [hp, if_false] at hc
      exact hf.present hr' c hc
  case narrow =>
    intro p r hr hs
    rw [get?_release] at hr
    obtain ⟨r', hr', rfl⟩ := Option.map_eq_some_iff.mp hr
    by_cases hp : p = parent
    · simp [hp]
    · simp only [hp, if_false]
      exact hf.narrow hr' hs

theorem Agree.of_map {aspect : Rule H → α} {f g : Forest H} {k : RuleId → Rule H → Rule H}
    (hget : ∀ id, g.get? id = (f.get? id).map (k id)) (hk : ∀ id r, aspect (k id r) = aspect r) :
    Agree aspect f g := by
  intro id
  rw [hget, Option.map_map]
  exact congrFun (congrArg Option.map (funext fun r => (hk id r).symm)) (f.get? id)

theorem Agree.strategy_addChildren {f g : Forest H} {parent : RuleId} {batch : List (Option RuleId)}
    (h : f.addChildren parent batch = .ok g) : Agree Rule.strategy f g := by
  unfold Forest.addChildren at h
  cases hc : f.checkBatch parent batch with
  | error fault => simp [hc, Except.map] at h
  | ok accepted =>
    simp only [hc, Except.map, Except.ok.injEq] at h
    rw [← h]
    exact of_map (fun id => get?_attach_all f parent id accepted) fun _ _ => rfl

theorem Agree.strategy_release (f : Forest H) (parent : RuleId) :
    Agree Rule.strategy f (f.release parent) :=
  of_map (fun id => get?_release f parent id) fun _ _ => rfl

theorem Agree.childrenOf {f g : Forest H} (h : Agree Rule.shape f g) (id : RuleId) :
    g.childrenOf id = f.childrenOf id := by
  have hid := congrArg (Option.map Prod.snd) (h id)
  simp only [Option.map_map] at hid
  exact congrArg (Option.getD · []) hid.symm

def strategyOf? (f : Forest H) (id : RuleId) : Option Strategy := (f.get? id).map Rule.strategy

theorem Agree.strategyOf? {f g : Forest H} (h : Agree Rule.shape f g) (id : RuleId) :
    g.strategyOf? id = f.strategyOf? id := by
  have hid := congrArg (Option.map Prod.fst) (h id)
  simp only [Option.map_map] at hid
  exact hid.symm

theorem Agree.nameOf {f g : Forest H} (h : Agree Rule.design f g) (id : RuleId) :
    g.nameOf id = f.nameOf id := by
  have hid := congrArg (Option.map Rule.name) (h id)
  simp only [Option.map_map] at hid
  exact congrArg (Option.getD · "") hid.symm

inductive Spans (f : Forest H) : RuleId → Prop where
  | intro {rule : RuleId} (below : ∀ c ∈ f.childrenOf rule, f.Spans c) : f.Spans rule

def Flat (f : Forest H) : Prop := ∀ r ∈ f.rules, r.children = []

namespace Flat

variable {f : Forest H}

theorem childrenOf (h : f.Flat) (id : RuleId) : f.childrenOf id = [] := by
  unfold Forest.childrenOf
  cases hr : f.get? id with
  | none => rfl
  | some r => exact h r (Array.mem_of_getElem? hr)

theorem tidy (h : f.Flat) : f.Tidy := by
  constructor
  case present =>
    intro p r hr c hc
    rw [h r (Array.mem_of_getElem? hr)] at hc
    exact absurd hc List.not_mem_nil
  case narrow =>
    intro p r hr hs
    rw [h r (Array.mem_of_getElem? hr)]
    exact Nat.zero_le 1

theorem spans (h : f.Flat) (id : RuleId) : f.Spans id := by
  constructor
  intro c hc
  rw [h.childrenOf] at hc
  exact absurd hc List.not_mem_nil

end Flat

end Forest

end RuleForest
