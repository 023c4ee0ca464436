import Mathlib.Data.List.Nodup
import Mathlib.Logic.Relation
import RuleForest.Proofs.History

namespace RuleForest

structure Treelike (edges : List (RuleId × RuleId)) : Prop where
  oneParent : (edges.map Prod.snd).Nodup
  acyclic (c : RuleId) : ¬Relation.TransGen (fun p c => (p, c) ∈ edges) c c

namespace Forest

variable {H : Type} {f g : Forest H} {p q c : RuleId} {pending before children : List RuleId}
  {batch : List (Option RuleId)} {fault : Fault}

def edgesWith (f : Forest H) (p : RuleId) (more : List RuleId) : List (RuleId × RuleId) :=
  ((List.range f.rules.size).flatMap fun q => (f.childrenOf q).map fun c => (q, c)) ++
    more.map fun c => (p, c)

theorem mem_edgesWith :
    (q, c) ∈ f.edgesWith p children ↔ c ∈ f.childrenOf q ∨ q = p ∧ c ∈ children := by
  have hlt (hc : c ∈ f.childrenOf q) : q < f.rules.size := by
    apply Nat.lt_of_not_le
    intro hq
    rw [childrenOf_eq_nil hq] at hc
    exact List.not_mem_nil hc
  simp only [edgesWith, List.mem_append, List.mem_flatMap, List.mem_range, List.mem_map,
    Prod.mk.injEq]
  constructor
  · rintro (⟨_, -, _, hc, rfl, rfl⟩ | ⟨_, hc, rfl, rfl⟩)
    · exact .inl hc
    · exact .inr ⟨rfl, hc⟩
  · rintro (hc | ⟨rfl, hc⟩)
    · exact .inl ⟨q, hlt hc, c, hc, rfl, rfl⟩
    · exact .inr ⟨c, hc, rfl, rfl⟩

theorem heads_edgesWith (f : Forest H) (p : RuleId) (children : List RuleId) :
    (f.edgesWith p children).map Prod.snd =
      (List.range f.rules.size).flatMap f.childrenOf ++ children := by
  simp [edgesWith, List.map_flatMap, Function.comp_def]

theorem way_down (hbeyond : ∀ c ∈ children, ¬f.Under c p)
    (h : Relation.TransGen (fun q c => (q, c) ∈ f.edgesWith p children) q c) :
    (∃ d, f.Under q d ∧ c ∈ f.childrenOf d) ∨ f.Under q p ∧ ∃ d ∈ children, f.Under d c := by
  induction h with
  | single hedge =>
    rcases mem_edgesWith.mp hedge with hc | ⟨rfl, hc⟩
    · exact .inl ⟨q, .refl, hc⟩
    · exact .inr ⟨.refl, _, hc, .refl⟩
  | tail _ hedge ih =>
    rcases mem_edgesWith.mp hedge with hc | ⟨rfl, hc⟩ <;>
      rcases ih with ⟨d, hd, hb⟩ | ⟨hq, d, hd, hb⟩
    · exact .inl ⟨_, .child hd hb, hc⟩
    · exact .inr ⟨hq, d, hd, .child hb hc⟩
    · exact .inr ⟨.child hd hb, _, hc, .refl⟩
    · exact absurd hb (hbeyond d hd)

theorem transGen_of_under (h : f.Under c q) (hne : c ≠ q) :
    Relation.TransGen (fun q c => (q, c) ∈ f.edgesWith p children) c q := by
  induction h with
  | refl => exact absurd rfl hne
  | @child q d h hd ih =>
    have hedge : (q, d) ∈ f.edgesWith p children := mem_edgesWith.mpr (.inl hd)
    by_cases hq : c = q
    · exact hq ▸ .single hedge
    · exact (ih hq).tail hedge

namespace Consistent

variable (hf : f.Consistent)
include hf

theorem mem_heads :
    c ∈ (f.edgesWith p children).map Prod.snd ↔ f.ownerOf c ≠ none ∨ c ∈ children := by
  rw [heads_edgesWith, List.mem_append, List.mem_flatMap]
  refine or_congr_left ?_
  constructor
  · rintro ⟨q, -, hc⟩ hn
    rw [hf.mem_childrenOf, hn] at hc
    cases hc
  · intro hc
    obtain ⟨q, hq⟩ := Option.ne_none_iff_exists'.mp hc
    exact ⟨q, List.mem_range.mpr (hf.owner_lt_size hq), hf.mem_childrenOf.mpr hq⟩

theorem nodup_heads : ((f.edgesWith p children).map Prod.snd).Nodup ↔
    children.Nodup ∧ ∀ c ∈ children, f.ownerOf c = none := by
  have hold : ((List.range f.rules.size).flatMap f.childrenOf).Nodup := by
    refine List.nodup_flatMap.mpr ⟨fun q _ => hf.nodup_childrenOf q, List.nodup_range.imp ?_⟩
    intro q q' hne c hc hc'
    exact hne (hf.sound.eq_of_child hc hc')
  have hmem (c : RuleId) : c ∈ (List.range f.rules.size).flatMap f.childrenOf ↔
      f.ownerOf c ≠ none := by
    have h : c ∈ (f.edgesWith p []).map Prod.snd ↔ f.ownerOf c ≠ none ∨ c ∈ [] := hf.mem_heads
    rwa [heads_edgesWith, List.append_nil, or_iff_left List.not_mem_nil] at h
  rw [heads_edgesWith, List.nodup_append']
  constructor
  · rintro ⟨-, hnew, hapart⟩
    refine ⟨hnew, fun c hc => ?_⟩
    by_contra hn
    exact hapart ((hmem c).mpr hn) hc
  · rintro ⟨hnew, hfree⟩
    exact ⟨hold, hnew, fun c hc hc' => (hmem c).mp hc (hfree c hc')⟩

theorem treelike_edgesWith (hp : p < f.rules.size) :
    Treelike (f.edgesWith p children) ↔ f.Adoptable p children := by
  constructor
  · intro h
    obtain ⟨hnodup, hfree⟩ := hf.nodup_heads.mp h.oneParent
    refine ⟨hnodup, fun hc => hfree _ hc, ?_⟩
    intro c hc hup
    have hedge : (p, c) ∈ f.edgesWith p children := mem_edgesWith.mpr (.inr ⟨rfl, hc⟩)
    have hunder : f.Under c p := (hf.mem_lineage hp).mp hup
    by_cases hcp : c = p
    · exact h.acyclic p (.single (hcp ▸ hedge))
    · exact h.acyclic c ((transGen_of_under hunder hcp).tail hedge)
  · intro h
    have hbeyond : ∀ c ∈ children, ¬f.Under c p :=
      fun c hc hup => h.beyond hc ((hf.mem_lineage hp).mpr hup)
    refine ⟨hf.nodup_heads.mpr ⟨h.nodup, fun c hc => h.free hc⟩, ?_⟩
    intro c hcycle
    rcases way_down hbeyond hcycle with ⟨d, hcd, hc⟩ | ⟨hcp, d, hd, hdc⟩
    · exact (hf.spans d).not_under hc hcd
    · exact hbeyond d hd (hdc.trans hcp)

end Consistent

theorem checkEntries_append (h : f.Adoptable p (pending ++ before)) (rest : List (Option RuleId)) :
    f.checkEntries p pending (before.map some ++ rest) =
      f.checkEntries p (pending ++ before) rest := by
  induction before generalizing pending with
  | nil => simp
  | cons c before ih =>
    have h' : f.Adoptable p (pending ++ [c] ++ before) := by simpa using h
    have hfault := (adoptable_concat.mp h'.append_left).2
    simp only [List.map_cons, List.cons_append, checkEntries, hfault, ih h']
    simp

theorem adoptable_or_first (h : f.Adoptable p pending) (entries : List (Option RuleId)) :
    (∃ added, entries = added.map some ∧ f.Adoptable p (pending ++ added)) ∨
      ∃ before entry rest, entries = before.map some ++ entry :: rest ∧
      f.Adoptable p (pending ++ before) ∧
        ∀ c, entry = some c → ¬f.Adoptable p (pending ++ before ++ [c]) := by
  induction entries generalizing pending with
  | nil => exact .inl ⟨[], rfl, by simpa using h⟩
  | cons entry entries ih =>
    by_cases hentry : ∃ c, entry = some c ∧ f.Adoptable p (pending ++ [c])
    · obtain ⟨c, rfl, hc⟩ := hentry
      rcases ih hc with ⟨added, rfl, hadded⟩ | ⟨before, entry, rest, rfl, hbefore, hno⟩
      · exact .inl ⟨c :: added, rfl, by simpa using hadded⟩
      · exact .inr ⟨c :: before, entry, rest, rfl, by simpa using hbefore, by simpa using hno⟩
    · refine .inr ⟨[], entry, entries, rfl, by simpa using h, ?_⟩
      intro c hc hno
      exact hentry ⟨c, hc, by simpa using hno⟩

def Crowds (f : Forest H) (p : RuleId) (more : Nat) : Prop :=
  ∃ r, f.get? p = some r ∧ r.strategy = .chain ∧ 1 < r.children.length + more

structure Welcome (f : Forest H) (p : RuleId) (children : List RuleId) : Prop where
  present : ∀ c ∈ children, c < f.rules.size
  treelike : Treelike (f.edgesWith p children)

/-- Why a batch is refused: it is too large for a chain, whatever else is wrong with it, or one of
its entries is the first that is absent, has a parent by then or would come above itself. -/
inductive Refused (f : Forest H) (p : RuleId) (batch : List (Option RuleId)) : Fault → Prop where
  | crowded (h : f.Crowds p batch.length) :
    f.Refused p batch
    (.chainArity .children (.ofInt ((f.childrenOf p).length + batch.length : Nat)))
  | absent {before : List RuleId} {entry : Option RuleId} {rest : List (Option RuleId)}
      (room : ¬f.Crowds p batch.length)
    (hb : batch = before.map some ++ entry :: rest) (good : f.Welcome p before)
    (h : f.present? entry = none) :
    f.Refused p batch (.absentRule (some (.ofInt before.length)))
  | owned {before : List RuleId} {c : RuleId} {rest : List (Option RuleId)}
      (room : ¬f.Crowds p batch.length)
    (hb : batch = before.map some ++ some c :: rest) (good : f.Welcome p before)
    (hc : c < f.rules.size)
    (h : c ∈ (f.edgesWith p before).map Prod.snd) :
    f.Refused p batch (.alreadyOwned (f.nameOf c) (f.nameOf p))
  | cyclic {before : List RuleId} {c : RuleId} {rest : List (Option RuleId)}
      (room : ¬f.Crowds p batch.length)
    (hb : batch = before.map some ++ some c :: rest) (good : f.Welcome p before)
    (hc : c < f.rules.size) (new : c ∉ (f.edgesWith p before).map Prod.snd)
    (h : ¬Treelike (f.edgesWith p (before ++ [c]))) :
    f.Refused p batch (.wouldCycle (f.nameOf c) (f.nameOf p))

theorem Consistent.welcome_iff (hf : f.Consistent) (hp : p < f.rules.size) :
    f.Welcome p children ↔ (∀ c ∈ children, c < f.rules.size) ∧ f.Adoptable p children := by
  rw [← hf.treelike_edgesWith hp]
  exact ⟨fun h => ⟨h.present, h.treelike⟩, fun h => ⟨h.1, h.2⟩⟩

theorem crowds_iff {r : Rule H} (hr : f.get? p = some r) (more : Nat) :
    f.Crowds p more ↔ r.strategy = .chain ∧ 1 < r.children.length + more := by
  simp [Crowds, hr]

theorem childrenOf_of_get? {r : Rule H} (hr : f.get? p = some r) : f.childrenOf p = r.children := by
  simp [childrenOf, hr]

section

variable {r : Rule H} (hr : f.get? p = some r)
include hr

theorem checkBatch_of_crowds (h : f.Crowds p batch.length) :
    f.checkBatch p batch = .error (.chainArity .children
      (.ofInt ((f.childrenOf p).length + batch.length : Nat))) := by
  have hcount := (crowds_iff hr _).mp h
  simp only [checkBatch, hr, hcount, and_self, ↓reduceIte, childrenOf_of_get? hr]

theorem checkBatch_of_room (h : ¬f.Crowds p batch.length) :
    f.checkBatch p batch = f.checkEntries p [] (batch.map f.present?) := by
  have hcount := mt (crowds_iff hr _).mpr h
  simp only [checkBatch, hr, hcount, ↓reduceIte]

theorem Consistent.checkBatch_append (hf : f.Consistent) (rest : List (Option RuleId))
    (good : f.Welcome p before) (h : ¬f.Crowds p (before.map some ++ rest).length) :
    f.checkBatch p (before.map some ++ rest) = f.checkEntries p before (rest.map f.present?) := by
  obtain ⟨hpresent, had⟩ := (hf.welcome_iff (lt_size_of_get? hr)).mp good
  rw [checkBatch_of_room hr h, List.map_append, map_present?_some hpresent,
    checkEntries_append (by simpa using had), List.nil_append]

theorem Consistent.checkBatch_of_welcome (hf : f.Consistent) (room : ¬f.Crowds p children.length)
    (h : f.Welcome p children) : f.checkBatch p (children.map some) = .ok children := by
  have hcheck := hf.checkBatch_append hr [] h (by simpa using room)
  rwa [List.append_nil, List.map_nil, checkEntries] at hcheck

theorem Consistent.checkBatch_of_refused (hf : f.Consistent) (h : f.Refused p batch fault) :
    f.checkBatch p batch = .error fault := by
  cases h with
  | crowded h => exact checkBatch_of_crowds hr h
  | absent room hb good h =>
    subst hb
    rw [hf.checkBatch_append hr _ good room, List.map_cons, h, checkEntries]
  | @owned before c rest room hb good hc h =>
    subst hb
    have hfault : f.adoptionFault? p before c = some (.alreadyOwned (f.nameOf c) (f.nameOf p)) := by
      unfold adoptionFault?
      rw [if_pos]
      simpa [Option.isSome_iff_ne_none] using hf.mem_heads.mp h
    rw [hf.checkBatch_append hr _ good room, List.map_cons, present?_some hc, checkEntries, hfault]
  | @cyclic before c rest room hb good hc new h =>
    subst hb
    have hp := lt_size_of_get? hr
    rw [hf.mem_heads, not_or, not_not] at new
    have hup : c ∈ f.lineage p := by
      by_contra hbeyond
      have had := ((hf.welcome_iff hp).mp good).2
      exact h ((hf.treelike_edgesWith hp).mpr
        (adoptable_concat.mpr ⟨had, adoptionFault?_eq_none.mpr ⟨new.1, new.2, hbeyond⟩⟩))
    have hfault : f.adoptionFault? p before c = some (.wouldCycle (f.nameOf c) (f.nameOf p)) := by
      unfold adoptionFault?
      rw [if_neg (by simp [new.1, new.2]), if_pos (by simpa using hup)]
    rw [hf.checkBatch_append hr _ good room, List.map_cons, present?_some hc, checkEntries, hfault]

theorem Consistent.welcome_or_refused (hf : f.Consistent) (batch : List (Option RuleId)) :
    (∃ children, batch = children.map some ∧ ¬f.Crowds p batch.length ∧ f.Welcome p children) ∨
      ∃ fault, f.Refused p batch fault := by
  have hp := lt_size_of_get? hr
  by_cases hcrowd : f.Crowds p batch.length
  · exact .inr ⟨_, .crowded hcrowd⟩
  · rcases adoptable_or_first (f := f) (p := p) adoptable_nil (batch.map f.present?) with
      ⟨children, hmap, had⟩ | ⟨before, entry, rest, hmap, had, hno⟩
    · obtain ⟨rfl, hpresent⟩ := eq_map_some_of_present? hmap
      exact .inl ⟨children, rfl, hcrowd, (hf.welcome_iff hp).mpr ⟨hpresent, by simpa using had⟩⟩
    · obtain ⟨first, last, rfl, hfirst, hlast⟩ := List.map_eq_append_iff.mp hmap
      obtain ⟨given, rest, rfl, rfl, rfl⟩ := List.map_eq_cons_iff.mp hlast
      obtain ⟨rfl, hpresent⟩ := eq_map_some_of_present? hfirst
      have good : f.Welcome p before := (hf.welcome_iff hp).mpr ⟨hpresent, by simpa using had⟩
      cases hgiven : f.present? given with
      | none => exact .inr ⟨_, .absent hcrowd rfl good hgiven⟩
      | some c =>
        obtain ⟨rfl, hc⟩ := present?_eq_some.mp hgiven
        by_cases hhead : c ∈ (f.edgesWith p before).map Prod.snd
        · exact .inr ⟨_, .owned hcrowd rfl good hc hhead⟩
        · refine .inr ⟨_, .cyclic hcrowd rfl good hc hhead ?_⟩
          rw [hf.treelike_edgesWith hp]
          simpa using hno c hgiven

end

structure Adopted (f : Forest H) (p : RuleId) (children : List RuleId) (g : Forest H) : Prop where
  named : g.named = f.named
  get? (id : RuleId) : g.get? id = (f.get? id).map fun r =>
    { r with
      owner := if id ∈ children then some p else r.owner
      children := if id = p then r.children ++ children else r.children }

theorem named_attach_all (f : Forest H) (p : RuleId) (children : List RuleId) :
    (children.foldl (fun f child => f.attach p child) f).named = f.named := by
  induction children generalizing f with
  | nil => rfl
  | cons child children ih => rw [List.foldl_cons, ih]; rfl

theorem Consistent.addChildren_of_welcome (hf : f.Consistent) {r : Rule H} (hr : f.get? p = some r)
    (room : ¬f.Crowds p children.length) (h : f.Welcome p children) :
    f.addChildren p (children.map some) =
      .ok (children.foldl (fun f child => f.attach p child) f) := by
  rw [Forest.addChildren, hf.checkBatch_of_welcome hr room h]
  rfl

theorem Consistent.addChildren_cases (hf : f.Consistent) {r : Rule H} (hr : f.get? p = some r)
    (batch : List (Option RuleId)) :
    (∃ children g, f.addChildren p batch = .ok g ∧ batch = children.map some ∧
      ¬f.Crowds p batch.length ∧
        f.Welcome p children ∧ f.Adopted p children g) ∨
      ∃ fault, f.addChildren p batch = .error fault ∧ f.Refused p batch fault := by
  rcases hf.welcome_or_refused hr batch with ⟨children, rfl, room, hwelcome⟩ | ⟨fault, hfault⟩
  · have hg := hf.addChildren_of_welcome hr (by simpa using room) hwelcome
    refine .inl ⟨children, _, hg, rfl, room, hwelcome, ?_⟩
    exact ⟨named_attach_all f p children, fun id => get?_attach_all f p id children⟩
  · exact .inr ⟨fault, by rw [Forest.addChildren, hf.checkBatch_of_refused hr hfault]; rfl, hfault⟩

theorem Consistent.addChildren_eq_error_iff (hf : f.Consistent) {r : Rule H}
    (hr : f.get? p = some r) :
    f.addChildren p batch = .error fault ↔ f.Refused p batch fault := by
  constructor
  · intro h
    rcases hf.addChildren_cases hr batch with ⟨_, g, hg, -⟩ | ⟨fault', hfault, hrefused⟩
    · rw [hg] at h
      cases h
    · rw [hfault, Except.error.injEq] at h
      exact h ▸ hrefused
  · intro h
    rw [Forest.addChildren, hf.checkBatch_of_refused hr h]
    rfl

theorem Consistent.exists_addChildren_iff (hf : f.Consistent) {r : Rule H}
    (hr : f.get? p = some r) :
    (∃ g, f.addChildren p batch = .ok g) ↔
    (∀ entry ∈ batch, f.present? entry ≠ none) ∧ ¬f.Crowds p batch.length ∧
      Treelike (f.edgesWith p (batch.filterMap f.present?)) := by
  constructor
  · rintro ⟨g, hg⟩
    rcases hf.addChildren_cases hr batch
      with ⟨children, -, -, rfl, room, hwelcome, -⟩ | ⟨fault, hfault, -⟩
    · refine ⟨?_, room, ?_⟩
      · intro entry hentry
        obtain ⟨c, hc, rfl⟩ := List.mem_map.mp hentry
        simp [present?_some (hwelcome.present c hc)]
      · rw [filterMap_present? hwelcome.present]
        exact hwelcome.treelike
    · rw [hfault] at hg
      cases hg
  · rintro ⟨hall, room, htree⟩
    obtain ⟨hbatch, hpresent⟩ := eq_map_some_filterMap_present? hall
    have hg :=
      hf.addChildren_of_welcome hr (by rwa [hbatch, List.length_map] at room) ⟨hpresent, htree⟩
    rw [← hbatch] at hg
    exact ⟨_, hg⟩

theorem Consistent.addChildren_lone (hf : f.Consistent) {r : Rule H} (hr : f.get? p = some r)
    (room : ¬f.Crowds p 1) (hc : c < f.rules.size) (hfree : f.ownerOf c = none)
    (hbelow : ¬f.Under c p) :
    ∃ g, f.addChildren p [some c] = .ok g := by
  have hp := lt_size_of_get? hr
  have had : f.Adoptable p ([] ++ [c]) := by
    apply adoptable_concat.mpr
    refine ⟨adoptable_nil, adoptionFault?_eq_none.mpr ⟨hfree, List.not_mem_nil, ?_⟩⟩
    rwa [hf.mem_lineage hp]
  have hwelcome : f.Welcome p [c] := (hf.welcome_iff hp).mpr ⟨by simpa using hc, had⟩
  exact ⟨_, hf.addChildren_of_welcome hr (by simpa using room) hwelcome⟩

end Forest

namespace Engine

variable {H N : Type}

theorem perform_addChildren (p : RuleId) (batch : List (Option RuleId))
    (runs : Request → Act H N Unit) (view : View) (e : Engine H) :
    (Operation.addChildren p batch).perform runs view e =
      match e.forest.addChildren p batch with
      | .ok g => ⟨.done (), e.updateForest fun _ => g, []⟩
      | .error fault => ⟨.thrown (.ofFault fault), e, []⟩ := by
  rcases h : e.forest.addChildren p batch with fault | g <;>
    simp only [Operation.perform, Act.ofExcept, Act.state_bind_apply, h] <;> rfl

/-- After any steps from an engine without rules, a batch comes under a rule exactly if it has no
absent entry, does not crowd a chain and leaves the edges those of a forest. Then it is appended to
the children, its rules get their owner, and nothing else changes. Otherwise nothing changes, and
what is thrown is why the batch is refused. -/
theorem adoption_after (e : Engine H) (steps : List (Step H N)) {p : RuleId} {r : Rule H}
    (hr : ({ e with forest := {} }.after steps).forest.get? p = some r)
    (batch : List (Option RuleId)) (runs : Request → Act H N Unit) (view : View) :
    let e' := { e with forest := {} }.after steps
    let f := e'.forest
    let o := (Operation.addChildren p batch).perform runs view e'
    (o.ending = .done () ↔ (∀ entry ∈ batch, f.present? entry ≠ none) ∧ ¬f.Crowds p batch.length ∧
        Treelike (f.edgesWith p (batch.filterMap f.present?))) ∧
      (o.ending = .done () → ∃ children g,
        batch = children.map some ∧ o.engine = e'.updateForest (fun _ => g) ∧
        f.Adopted p children g) ∧
      (o.ending ≠ .done () → o.engine = e' ∧ ∃ fault, o.ending = .thrown (.ofFault fault)) ∧
      (∀ fault, o.ending = .thrown (.ofFault fault) ↔ f.Refused p batch fault) ∧
      o.events = [] := by
  intro e' f o
  have hf : f.Consistent :=
    consistent_after (e := { e with forest := {} }) Forest.consistent_empty steps
  have ho : o = _ := perform_addChildren p batch runs view e'
  rcases hf.addChildren_cases hr batch
    with ⟨children, g, hg, hbatch, -, -, hadopted⟩ | ⟨fault, hfault, hrefused⟩
  · have ho : o = ⟨.done (), e'.updateForest fun _ => g, []⟩ := by rw [ho, hg]
    have hcond := (hf.exists_addChildren_iff hr).mp ⟨g, hg⟩
    rw [ho]
    refine ⟨iff_of_true rfl hcond, fun _ => ⟨children, g, hbatch, rfl, hadopted⟩,
      fun hne => absurd rfl hne, ?_, rfl⟩
    intro fault
    have hnot : ¬f.Refused p batch fault := by
      rw [← hf.addChildren_eq_error_iff hr, hg]
      exact nofun
    exact iff_of_false nofun hnot
  · have ho : o = ⟨.thrown (.ofFault fault), e', []⟩ := by rw [ho, hfault]
    have hnone : ¬∃ g, f.addChildren p batch = .ok g := by simp [hfault]
    have hcond := mt (hf.exists_addChildren_iff hr).mpr hnone
    rw [ho]
    refine ⟨iff_of_false nofun hcond, nofun, fun _ => ⟨rfl, fault, rfl⟩, ?_, rfl⟩
    intro fault'
    rw [← hf.addChildren_eq_error_iff hr, hfault]
    simp [Thrown.ofFault]

def grove : List (Step Unit Unit) :=
  [.create .bestFirst none, .create .bestFirst none, .create .chain none, .create .chain none,
    .addChildren 0 [some 1]]

theorem adoption_after_grove :
    let e := { ({} : Engine Unit) with forest := {} }.after grove
    (∃ r, e.forest.get? 1 = some r) ∧ Treelike (e.forest.edgesWith 1 [2, 3]) ∧
      e.forest.Refused 1 [some 2, some 0, none]
        (.wouldCycle (e.forest.nameOf 0) (e.forest.nameOf 1)) := by
  intro e
  obtain ⟨r, hr⟩ : ∃ r, e.forest.get? 1 = some r := ⟨_, rfl⟩
  have h (batch : List (Option RuleId)) :=
    adoption_after {} grove hr batch (fun _ => pure ()) ⟨"", .chain, 0, none, .ofOptions {}⟩
  exact ⟨⟨r, hr⟩, ((h [some 2, some 3]).1.mp rfl).2.2,
    ((h [some 2, some 0, none]).2.2.2.1 _).mp rfl⟩

end Engine

end RuleForest
