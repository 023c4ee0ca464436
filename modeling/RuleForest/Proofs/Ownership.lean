import Mathlib.Data.List.Nodup
import Mathlib.Data.List.Perm.Subperm
import Mathlib.Tactic.Tauto
import RuleForest.Proofs.Descent

namespace RuleForest

namespace Rule

variable {H : Type}

def ties (r : Rule H) : Strategy × Option RuleId × List RuleId := (r.strategy, r.owner, r.children)

theorem ties_setName (r : Rule H) (name : String) : (r.setName name).ties = r.ties := by
  unfold setName
  split <;> rfl

theorem ties_setHook (r : Rule H) (phase : Phase) (hook : H) :
    (r.setHook phase hook).ties = r.ties := by
  cases phase with
  | evaluate => rfl
  | stage s => cases s <;> rfl

end Rule

namespace Forest

variable {H : Type} {f g : Forest H} {a c p : RuleId} {path : List RuleId}

theorem ownerOf_eq_none (h : f.rules.size ≤ c) : f.ownerOf c = none := by
  simp [ownerOf, get?, h]

theorem childrenOf_eq_nil (h : f.rules.size ≤ p) : f.childrenOf p = [] := by
  simp [childrenOf, get?, h]

theorem lt_size_of_ownerOf (h : f.ownerOf c = some p) : c < f.rules.size := by
  apply Nat.lt_of_not_le
  intro hc
  rw [ownerOf_eq_none hc] at h
  cases h

theorem Agree.ownerOf (h : Agree Rule.ties f g) (c : RuleId) : g.ownerOf c = f.ownerOf c := by
  have hc := congrArg (Option.bind · fun t => t.2.1) (h c)
  simp only [Option.bind_map, Function.comp_def, Rule.ties] at hc
  exact hc.symm

inductive Climb (f : Forest H) : RuleId → List RuleId → Prop where
  | root {c : RuleId} (h : f.ownerOf c = none) : f.Climb c [c]
  | owned {c p : RuleId} {path : List RuleId} (h : f.ownerOf c = some p) (up : f.Climb p path) :
      f.Climb c (c :: path)

theorem Climb.ancestors_eq (h : f.Climb c path) {limit : Nat} (hl : path.length ≤ limit) :
    f.ancestors limit c = path := by
  induction h generalizing limit with
  | root ho =>
    obtain ⟨n, rfl⟩ := Nat.exists_eq_add_of_le' hl
    simp only [List.length_singleton, ancestors, ho]
  | owned ho _ ih =>
    obtain ⟨n, rfl⟩ := Nat.exists_eq_add_of_le' hl
    simp only [List.length_cons] at hl
    simp only [List.length_cons, ← Nat.add_assoc, ancestors, ho]
    rw [ih (by omega)]

structure Consistent (f : Forest H) : Prop where
  tidy : f.Tidy
  listed (p c : RuleId) : (f.childrenOf p).count c = if f.ownerOf c = some p then 1 else 0
  climbs (c : RuleId) : ∃ path, f.Climb c path

namespace Consistent

variable (hf : f.Consistent)
include hf

theorem mem_childrenOf : c ∈ f.childrenOf p ↔ f.ownerOf c = some p := by
  rw [← List.count_pos_iff, hf.listed]
  split <;> simp [*]

theorem nodup_childrenOf (p : RuleId) : (f.childrenOf p).Nodup := by
  rw [List.nodup_iff_count_le_one]
  intro c
  rw [hf.listed]
  split <;> omega

theorem owner_lt_size (h : f.ownerOf c = some p) : p < f.rules.size := by
  apply Nat.lt_of_not_le
  intro hp
  have hc := hf.mem_childrenOf.mpr h
  rw [childrenOf_eq_nil hp] at hc
  exact List.not_mem_nil hc

theorem mem_climb (h : f.Climb c path) : a ∈ path ↔ f.Under a c := by
  induction h with
  | @root c ho =>
    rw [List.mem_singleton]
    constructor
    · rintro rfl
      exact .refl
    · intro ha
      cases ha with
      | refl => rfl
      | child _ hc =>
        rw [hf.mem_childrenOf, ho] at hc
        cases hc
  | @owned c p path ho up ih =>
    rw [List.mem_cons, ih]
    constructor
    · rintro (rfl | ha)
      · exact .refl
      · exact .child ha (hf.mem_childrenOf.mpr ho)
    · intro ha
      cases ha with
      | refl => exact .inl rfl
      | child ha hc =>
        rw [hf.mem_childrenOf, ho, Option.some.injEq] at hc
        exact .inr (hc ▸ ha)

theorem not_under_owner (h : f.Climb c path) (ho : f.ownerOf c = some p) : ¬f.Under c p := by
  induction h generalizing p with
  | root hn =>
    rw [hn] at ho
    cases ho
  | @owned c q path hq up ih =>
    rw [hq, Option.some.injEq] at ho
    subst ho
    intro hc
    cases hc with
    | refl => exact ih hq .refl
    | @child r _ hc hr =>
      exact ih (hf.mem_childrenOf.mp hr) (.of_child (hf.mem_childrenOf.mpr hq) hc)

theorem nodup_climb (h : f.Climb c path) : path.Nodup := by
  induction h with
  | root ho => exact List.nodup_singleton _
  | owned ho up ih =>
    rw [List.nodup_cons, hf.mem_climb up]
    exact ⟨hf.not_under_owner (.owned ho up) ho, ih⟩

theorem lt_size_of_mem_climb (h : f.Climb c path) (hc : c < f.rules.size) (ha : a ∈ path) :
    a < f.rules.size := by
  induction h with
  | root ho =>
    rw [List.mem_singleton] at ha
    exact ha ▸ hc
  | owned ho up ih =>
    rcases List.mem_cons.mp ha with rfl | ha
    · exact hc
    · exact ih (hf.owner_lt_size ho) ha

theorem length_climb_le (h : f.Climb c path) (hc : c < f.rules.size) :
    path.length ≤ f.rules.size := by
  have hsub : path ⊆ List.range f.rules.size :=
    fun a ha => List.mem_range.mpr (hf.lt_size_of_mem_climb h hc ha)
  -- No rule comes twice on the way up, so the way is no longer than the forest has rules.
  have hlen := ((hf.nodup_climb h).subperm hsub).length_le
  rwa [List.length_range] at hlen

theorem climb_lineage (hc : c < f.rules.size) : f.Climb c (f.lineage c) := by
  obtain ⟨path, h⟩ := hf.climbs c
  rw [lineage, h.ancestors_eq (hf.length_climb_le h hc)]
  exact h

theorem mem_lineage (hc : c < f.rules.size) : a ∈ f.lineage c ↔ f.Under a c :=
  hf.mem_climb (hf.climb_lineage hc)

theorem lineage_child (hc : c ∈ f.childrenOf p) : f.lineage c = c :: f.lineage p := by
  have ho := hf.mem_childrenOf.mp hc
  have up : f.Climb c (c :: f.lineage p) := .owned ho (hf.climb_lineage (hf.owner_lt_size ho))
  rw [lineage, up.ancestors_eq (hf.length_climb_le up (lt_size_of_ownerOf ho))]

theorem spans_of_le (n : Nat) (h : f.rules.size ≤ n + (f.lineage p).length) : f.Spans p := by
  induction n generalizing p with
  | zero =>
    constructor
    intro c hc
    have hlen :=
      hf.length_climb_le (hf.climb_lineage (lt_size_of_ownerOf (hf.mem_childrenOf.mp hc)))
        (lt_size_of_ownerOf (hf.mem_childrenOf.mp hc))
    rw [hf.lineage_child hc, List.length_cons] at hlen
    omega
  | succ n ih =>
    constructor
    intro c hc
    apply ih
    rw [hf.lineage_child hc, List.length_cons]
    omega

theorem spans (p : RuleId) : f.Spans p := hf.spans_of_le f.rules.size (Nat.le_add_right _ _)

theorem sound : f.Sound where
  tidy := hf.tidy
  owned := hf.mem_childrenOf.mp
  unique := hf.nodup_childrenOf
  spans := hf.spans

theorem of_ties (ho : ∀ c, g.ownerOf c = f.ownerOf c) (hc : ∀ p, g.childrenOf p = f.childrenOf p)
    (hg : g.Tidy) :
    g.Consistent where
  tidy := hg
  listed p c := by rw [ho, hc, hf.listed]
  climbs c := by
    obtain ⟨path, h⟩ := hf.climbs c
    refine ⟨path, ?_⟩
    induction h with
    | root h => exact .root ((ho _).trans h)
    | owned h _ ih => exact .owned ((ho _).trans h) ih

theorem of_agree (h : Agree Rule.ties f g) : g.Consistent := by
  have hshape : Agree Rule.shape f g := h.map fun t => (t.1, t.2.2)
  exact hf.of_ties h.ownerOf hshape.childrenOf (hf.tidy.of_agree hshape)

theorem update (id : RuleId) {k : Rule H → Rule H} (hk : ∀ r, (k r).ties = r.ties) :
    (f.update id k).Consistent :=
  hf.of_agree (Agree.update f id hk)

end Consistent

theorem consistent_empty : ({} : Forest H).Consistent where
  tidy := Flat.tidy fun r hr => absurd hr (Array.not_mem_empty r)
  listed p c := by simp [childrenOf, ownerOf, get?]
  climbs c := ⟨[c], .root (by simp [ownerOf, get?])⟩

section

variable (f) (strategy : Strategy) (name : Option String)

theorem size_create : (f.create strategy name).2.rules.size = f.rules.size + 1 := by
  simp [create]

theorem get?_create (id : RuleId) (h : id ≠ f.rules.size) :
    (f.create strategy name).2.get? id = f.get? id := by
  simp [create, get?, Array.getElem?_push, h]

theorem get?_created :
    ∃ r, (f.create strategy name).2.get? f.rules.size = some r ∧ r.owner = none ∧
    r.children = [] := by
  simp [create, get?]

theorem ownerOf_create (c : RuleId) : (f.create strategy name).2.ownerOf c = f.ownerOf c := by
  by_cases h : c = f.rules.size
  · obtain ⟨r, hr, ho, -⟩ := get?_created f strategy name
    subst h
    rw [ownerOf_eq_none (Nat.le_refl _), ownerOf, hr, Option.bind_some, ho]
  · rw [ownerOf, get?_create f strategy name c h, ownerOf]

theorem childrenOf_create (p : RuleId) :
    (f.create strategy name).2.childrenOf p = f.childrenOf p := by
  by_cases h : p = f.rules.size
  · obtain ⟨r, hr, -, hc⟩ := get?_created f strategy name
    subst h
    rw [childrenOf_eq_nil (Nat.le_refl _), childrenOf, hr, Option.map_some, hc, Option.getD_some]
  · rw [childrenOf, get?_create f strategy name p h, childrenOf]

end

theorem Tidy.create (hf : f.Tidy) (strategy : Strategy) (name : Option String) :
    (f.create strategy name).2.Tidy := by
  obtain ⟨new, hnew, -, hchildren⟩ := get?_created f strategy name
  constructor
  case present =>
    intro p r hr c hc
    rw [size_create]
    by_cases hp : p = f.rules.size
    · rw [hp, hnew, Option.some.injEq] at hr
      simp [← hr, hchildren] at hc
    · rw [get?_create f strategy name p hp] at hr
      exact Nat.lt_succ_of_lt (hf.present hr c hc)
  case narrow =>
    intro p r hr hs
    by_cases hp : p = f.rules.size
    · rw [hp, hnew, Option.some.injEq] at hr
      simp [← hr, hchildren]
    · rw [get?_create f strategy name p hp] at hr
      exact hf.narrow hr hs

theorem Consistent.create (hf : f.Consistent) (strategy : Strategy) (name : Option String) :
    (f.create strategy name).2.Consistent :=
  hf.of_ties (ownerOf_create f strategy name) (childrenOf_create f strategy name)
    (hf.tidy.create strategy name)

structure Adoptable (f : Forest H) (parent : RuleId) (batch : List RuleId) : Prop where
  nodup : batch.Nodup
  free {c : RuleId} : c ∈ batch → f.ownerOf c = none
  beyond {c : RuleId} : c ∈ batch → c ∉ f.lineage parent

theorem adoptionFault?_eq_none {pending : List RuleId} :
    f.adoptionFault? p pending c = none ↔ f.ownerOf c = none ∧ c ∉ pending ∧ c ∉ f.lineage p := by
  unfold adoptionFault?
  split
  · next h =>
    simp only [Bool.or_eq_true, Option.isSome_iff_ne_none, List.contains_iff_mem] at h
    simp only [reduceCtorEq, false_iff]
    tauto
  · next h =>
    simp only [Bool.or_eq_true, Option.isSome_iff_ne_none, List.contains_iff_mem, not_or, not_not]
      at h
    split
    · next hl => simp_all
    · next hl => simp_all

theorem Adoptable.append_left {pending more : List RuleId} (h : f.Adoptable p (pending ++ more)) :
    f.Adoptable p pending where
  nodup := (List.nodup_append.mp h.nodup).1
  free hc := h.free (List.mem_append_left more hc)
  beyond hc := h.beyond (List.mem_append_left more hc)

theorem adoptable_concat {pending : List RuleId} :
    f.Adoptable p (pending ++ [c]) ↔ f.Adoptable p pending ∧
    f.adoptionFault? p pending c = none := by
  rw [adoptionFault?_eq_none]
  constructor
  · intro h
    have hc : c ∈ pending ++ [c] := List.mem_append_right pending (List.mem_singleton_self c)
    refine ⟨h.append_left, h.free hc, ?_, h.beyond hc⟩
    exact fun hmem => (List.nodup_append.mp h.nodup).2.2 c hmem c (List.mem_singleton_self c) rfl
  · rintro ⟨h, hfree, hnew, hbeyond⟩
    refine ⟨h.nodup.append (List.nodup_singleton c) (List.disjoint_singleton.mpr hnew), ?_, ?_⟩ <;>
      intro d hd
    · rcases List.mem_append.mp hd with hd | hd
      · exact h.free hd
      · exact List.mem_singleton.mp hd ▸ hfree
    · rcases List.mem_append.mp hd with hd | hd
      · exact h.beyond hd
      · exact List.mem_singleton.mp hd ▸ hbeyond

theorem adoptable_nil : f.Adoptable p [] where
  nodup := List.nodup_nil
  free hc := absurd hc List.not_mem_nil
  beyond hc := absurd hc List.not_mem_nil

theorem Adoptable.of_checkEntries {pending accepted : List RuleId} {entries : List (Option RuleId)}
    (hp : f.Adoptable p pending) (h : f.checkEntries p pending entries = .ok accepted) :
    f.Adoptable p accepted := by
  induction entries generalizing pending with
  | nil =>
    simp only [checkEntries, Except.ok.injEq] at h
    exact h ▸ hp
  | cons entry entries ih =>
    cases entry with
    | none => simp [checkEntries] at h
    | some child =>
      simp only [checkEntries] at h
      split at h
      · simp at h
      · next hfault => exact ih (adoptable_concat.mpr ⟨hp, hfault⟩) h

theorem Adoptable.of_checkBatch {batch : List (Option RuleId)} {accepted : List RuleId}
    (h : f.checkBatch p batch = .ok accepted) : f.Adoptable p accepted := by
  unfold checkBatch at h
  split at h
  · simp at h
  · dsimp only at h
    split at h
    · simp at h
    · exact adoptable_nil.of_checkEntries h

theorem addChildren_eq_ok {batch : List (Option RuleId)} (h : f.addChildren p batch = .ok g) :
    ∃ accepted, p < f.rules.size ∧ (∀ c ∈ accepted, c < f.rules.size) ∧ f.Adoptable p accepted ∧
      g = accepted.foldl (fun f child => f.attach p child) f := by
  unfold Forest.addChildren at h
  cases hc : f.checkBatch p batch with
  | error fault => simp [hc, Except.map] at h
  | ok accepted =>
    simp only [hc, Except.map, Except.ok.injEq] at h
    obtain ⟨r, hr, -, hpresent⟩ := checkBatch_eq_ok hc
    exact ⟨accepted, lt_size_of_get? hr, hpresent, .of_checkBatch hc, h.symm⟩

theorem ownerOf_attach_all {batch : List RuleId} (hb : ∀ c ∈ batch, c < f.rules.size) (c : RuleId) :
    (batch.foldl (fun f child => f.attach p child) f).ownerOf c = if c ∈ batch then some p
      else f.ownerOf c := by
  rw [ownerOf, get?_attach_all, ownerOf]
  cases hc : f.get? c with
  | some r => rfl
  | none =>
    have hnot : c ∉ batch := by
      intro hmem
      obtain ⟨r, hr⟩ := exists_get? (hb c hmem)
      rw [hc] at hr
      cases hr
    simp [hnot]

theorem childrenOf_attach_all (batch : List RuleId) (hp : p < f.rules.size) (q : RuleId) :
    (batch.foldl (fun f child => f.attach p child) f).childrenOf q =
      if q = p then f.childrenOf p ++ batch else f.childrenOf q := by
  rw [childrenOf, get?_attach_all]
  by_cases hq : q = p
  · obtain ⟨r, hr⟩ := exists_get? hp
    simp [childrenOf, hq, hr]
  · simp only [hq, ↓reduceIte, Option.map_map, Function.comp_def]
    rfl

namespace Consistent

variable (hf : f.Consistent)
include hf

theorem addChildren {batch : List (Option RuleId)} (h : f.addChildren p batch = .ok g) :
    g.Consistent := by
  have htidy := hf.tidy.addChildren h
  obtain ⟨accepted, hp, hpresent, had, rfl⟩ := addChildren_eq_ok h
  have howner := ownerOf_attach_all (p := p) hpresent
  have hchildren := childrenOf_attach_all accepted hp
  generalize accepted.foldl (fun f child => f.attach p child) f = g at htidy howner hchildren
  have stays {c : RuleId} (hc : c ∉ accepted) : g.ownerOf c = f.ownerOf c := by
    rw [howner, if_neg hc]
  -- None of the rules above the new owner gets an owner by the batch, so its climb stays as it was.
  have climbs_of_beyond {a : RuleId} {path : List RuleId} (ha : f.Climb a path)
      (hb : ∀ c ∈ path, c ∉ accepted) :
      g.Climb a path := by
    induction ha with
    | root ho => exact .root ((stays (hb _ List.mem_cons_self)).trans ho)
    | owned ho _ ih =>
      exact .owned ((stays (hb _ List.mem_cons_self)).trans ho)
        (ih fun c hc => hb c (List.mem_cons_of_mem _ hc))
  have hup : g.Climb p (f.lineage p) :=
    climbs_of_beyond (hf.climb_lineage hp) fun c hc hmem => had.beyond hmem hc
  constructor
  case tidy => exact htidy
  case listed =>
    intro q c
    rw [hchildren, howner]
    by_cases hc : c ∈ accepted
    · have hone : accepted.count c = 1 := List.count_eq_one_of_mem had.nodup hc
      have hzero (q : RuleId) : (f.childrenOf q).count c = 0 := by rw [hf.listed, had.free hc]; rfl
      by_cases hq : q = p
      · simp [hq, hc, hone, hzero]
      · simp [hq, Ne.symm hq, hc, hzero]
    · have hzero : accepted.count c = 0 := List.count_eq_zero_of_not_mem hc
      by_cases hq : q = p
      · simp [hq, hc, hzero, hf.listed]
      · simp [hq, hc, hf.listed]
  case climbs =>
    intro c
    obtain ⟨path, h⟩ := hf.climbs c
    induction h with
    | @root c ho =>
      by_cases hc : c ∈ accepted
      · exact ⟨_, .owned ((howner c).trans (if_pos hc)) hup⟩
      · exact ⟨_, .root ((stays hc).trans ho)⟩
    | @owned c q path ho _ ih =>
      have hc : c ∉ accepted := by
        intro hmem
        rw [had.free hmem] at ho
        cases ho
      obtain ⟨path', h'⟩ := ih
      exact ⟨_, .owned ((stays hc).trans ho) h'⟩

end Consistent

theorem ownerOf_release (f : Forest H) (p c : RuleId) :
    (f.release p).ownerOf c = if c ∈ f.childrenOf p then none else f.ownerOf c := by
  rw [ownerOf, get?_release, ownerOf]
  cases f.get? c <;> simp

theorem childrenOf_release (f : Forest H) (p q : RuleId) :
    (f.release p).childrenOf q = if q = p then [] else f.childrenOf q := by
  rw [childrenOf, get?_release]
  by_cases hq : q = p
  · cases f.get? q <;> simp [hq]
  · simp only [hq, ↓reduceIte, Option.map_map, Function.comp_def]
    rfl

theorem Consistent.release (hf : f.Consistent) (p : RuleId) : (f.release p).Consistent := by
  constructor
  case tidy => exact hf.tidy.release p
  case listed =>
    intro q c
    rw [childrenOf_release, ownerOf_release]
    have hmem : c ∈ f.childrenOf p ↔ f.ownerOf c = some p := hf.mem_childrenOf
    have hlisted := hf.listed q c
    by_cases hq : q = p
    · by_cases hc : f.ownerOf c = some p <;> simp [hq, hmem, hc]
    · by_cases hc : f.ownerOf c = some p
      · simp [hq, hmem, hc, hlisted, Ne.symm hq]
      · simp [hq, hmem, hc, hlisted]
  case climbs =>
    intro c
    obtain ⟨path, h⟩ := hf.climbs c
    induction h with
    | @root c ho =>
      refine ⟨[c], .root ?_⟩
      rw [ownerOf_release, ho, ite_self]
    | @owned c q path ho _ ih =>
      by_cases hc : c ∈ f.childrenOf p
      · exact ⟨[c], .root (by rw [ownerOf_release, if_pos hc])⟩
      · obtain ⟨path', h'⟩ := ih
        exact ⟨c :: path', .owned (by rw [ownerOf_release, if_neg hc, ho]) h'⟩

theorem get?_discardLast (f : Forest H) (id : RuleId) (h : id + 1 ≠ f.rules.size) :
    f.discardLast.get? id = f.get? id := by
  simp only [discardLast, get?, Array.getElem?_pop]
  split
  · rfl
  · next hlt =>
    rw [Array.getElem?_eq_none]
    exact Nat.le_of_not_lt fun hid => hlt (Nat.lt_sub_of_add_lt (Nat.lt_of_le_of_ne hid h))

theorem Consistent.discardLast (hf : f.Consistent) {id : RuleId} (hid : f.rules.size = id + 1)
    (ho : f.ownerOf id = none) (hc : f.childrenOf id = []) : f.discardLast.Consistent := by
  have hsize : f.discardLast.rules.size = id := by simp [Forest.discardLast, hid]
  have hget {i : RuleId} (hi : i ≠ id) : f.discardLast.get? i = f.get? i :=
    get?_discardLast f i fun h => hi (Nat.succ_inj.mp (h.trans hid))
  have hlt {i : RuleId} {r : Rule H} (hr : f.discardLast.get? i = some r) : i ≠ id :=
    Nat.ne_of_lt (hsize ▸ lt_size_of_get? hr)
  apply hf.of_ties
  case ho =>
    intro c
    by_cases hi : c = id
    · rw [hi, ho, ownerOf_eq_none (Nat.le_of_eq hsize)]
    · rw [ownerOf, hget hi, ownerOf]
  case hc =>
    intro p
    by_cases hi : p = id
    · rw [hi, hc, childrenOf_eq_nil (Nat.le_of_eq hsize)]
    · rw [childrenOf, hget hi, childrenOf]
  case hg =>
    constructor
    case present =>
      intro p r hr c hmem
      rw [hget (hlt hr)] at hr
      have hpc : f.ownerOf c = some p := hf.mem_childrenOf.mp (by simpa [childrenOf, hr] using hmem)
      have hne : c ≠ id := by
        rintro rfl
        rw [ho] at hpc
        cases hpc
      have hlt := lt_size_of_ownerOf hpc
      rw [hid] at hlt
      rw [hsize]
      exact Nat.lt_of_le_of_ne (Nat.le_of_lt_succ hlt) hne
    case narrow =>
      intro p r hr hs
      rw [hget (hlt hr)] at hr
      exact hf.tidy.narrow hr hs

structure Growing (id : RuleId) (f : Forest H) : Prop where
  consistent : f.Consistent
  last : f.rules.size = id + 1
  free : f.ownerOf id = none

namespace Growing

variable {id : RuleId}

theorem create (hf : f.Consistent) (strategy : Strategy) (name : Option String) :
    Growing (f.create strategy name).1 (f.create strategy name).2 where
  consistent := hf.create strategy name
  last := size_create f strategy name
  free := (ownerOf_create f strategy name _).trans (ownerOf_eq_none (Nat.le_refl _))

theorem update (hf : Growing id f) {k : Rule H → Rule H} (hk : ∀ r, (k r).ties = r.ties) :
    Growing id (f.update id k) where
  consistent := hf.consistent.update id hk
  last := (size_update f id k).trans hf.last
  free := ((Agree.update f id hk).ownerOf id).trans hf.free

theorem addChildren (hf : Growing id f) {batch : List (Option RuleId)}
    (h : f.addChildren id batch = .ok g) :
    Growing id g where
  consistent := hf.consistent.addChildren h
  last := (size_of_addChildren h).trans hf.last
  free := by
    obtain ⟨accepted, hp, hpresent, had, rfl⟩ := addChildren_eq_ok h
    have hself : id ∉ accepted :=
      fun hmem => had.beyond hmem ((hf.consistent.mem_lineage hp).mpr .refl)
    rw [ownerOf_attach_all hpresent, if_neg hself, hf.free]

theorem applyOption (hf : Growing id f) (o : BuildOption H) (h : f.applyOption id o = .ok g) :
    Growing id g := by
  cases o with
  | name s =>
    cases h
    exact hf.update fun r => r.ties_setName s
  | hook phase hook =>
    cases h
    exact hf.update fun r => r.ties_setHook phase hook
  | children batch => exact hf.addChildren h

theorem applyOptions (hf : Growing id f) (options : List (BuildOption H)) :
    Growing id (Forest.applyOptions id options f).1 := by
  induction options generalizing f with
  | nil => exact hf
  | cons o os ih =>
    simp only [Forest.applyOptions]
    split
    · next g h => exact ih (hf.applyOption o h)
    · exact hf

theorem discard (hf : Growing id f) : (f.release id).discardLast.Consistent := by
  apply (hf.consistent.release id).discardLast ((size_release f id).trans hf.last)
  · rw [ownerOf_release, hf.free, ite_self]
  · rw [childrenOf_release, if_pos rfl]

end Growing

theorem Consistent.build (hf : f.Consistent) (strategy : Strategy)
    (options : List (BuildOption H)) :
    (f.build strategy options).1.Consistent := by
  have hgrown := (Growing.create hf strategy none).applyOptions options
  unfold Forest.build
  rcases h : Forest.applyOptions (f.create strategy none).1 options (f.create strategy none).2
    with ⟨g, _ | fault⟩ <;>
    rw [h] at hgrown <;> simp only [h]
  · exact hgrown.consistent
  · exact hgrown.discard

end Forest

end RuleForest
