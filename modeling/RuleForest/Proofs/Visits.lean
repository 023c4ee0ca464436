import RuleForest.Proofs.Halting
import RuleForest.Proofs.History
import RuleForest.Proofs.Preorder
import RuleForest.Proofs.Rejection
import RuleForest.Proofs.Search

namespace RuleForest

variable {H N : Type}

def visited (w : List Sign) : List RuleId := (w.map Sign.rule).eraseDups

section

variable {u v w : List Sign} {rule q : RuleId}

theorem visited_append_of_apart (h : ∀ q, Touched u q → ¬Touched v q) :
    visited (u ++ v) = visited u ++ visited v := by
  have hkeep : (v.map Sign.rule).removeAll (u.map Sign.rule) = v.map Sign.rule := by
    refine List.filter_eq_self.mpr fun q hq => ?_
    have hv : Touched v q := List.mem_map.mp hq
    simpa using fun s hs hsq => h q ⟨s, hs, hsq⟩ hv
  rw [visited, List.map_append, List.eraseDups_append, hkeep]
  rfl

theorem visited_append_of_touched (h : ∀ q, Touched v q → Touched u q) :
    visited (u ++ v) = visited u := by
  have hdrop : (v.map Sign.rule).removeAll (u.map Sign.rule) = [] := by
    refine List.filter_eq_nil_iff.mpr fun q hq => ?_
    obtain ⟨t, ht, htq⟩ := h q (List.mem_map.mp hq)
    simpa using ⟨t, ht, htq⟩
  rw [visited, List.map_append, List.eraseDups_append, hdrop]
  exact List.append_nil _

theorem visited_eq_singleton (hw : Touched w rule) (h : ∀ q, Touched w q → q = rule) :
    visited w = [rule] := by
  obtain ⟨s, w, rfl⟩ : ∃ s v, w = s :: v := by
    obtain ⟨s, hs, -⟩ := hw
    exact List.exists_cons_of_ne_nil (List.ne_nil_of_mem hs)
  have hs : s.rule = rule := h _ ⟨s, by simp, rfl⟩
  have hrest : visited ([s] ++ w) = visited [s] := by
    refine visited_append_of_touched fun q ⟨t, ht, htq⟩ => ⟨s, by simp, hs.trans (h q ?_).symm⟩
    exact ⟨t, List.mem_cons_of_mem _ ht, htq⟩
  rw [List.singleton_append] at hrest
  rw [hrest, visited, List.map_singleton, hs]
  rfl

end

def Sign.mark : Sign → RuleId × (Phase ⊕ Status)
  | hook rule phase => (rule, .inl phase)
  | report rule _ status => (rule, .inr status)

def Duty.mark? : Duty → Option (Phase ⊕ Status)
  | call phase => some (.inl phase)
  | tell status => some (.inr status)

theorem Sign.mark_fst (s : Sign) : s.mark.1 = s.rule := by cases s <;> rfl

section

variable {H : Type} {f : Forest H} {binding : Binding} {admits : Sign → Bool → Prop} {rule : RuleId}
variable {rules : List RuleId} {plan : List Duty} {ok : Bool} {res : Option Bool}
  {u v w : List Sign}

theorem Word.marks_sublist (h : Word (Duty.Shows admits rule) plan ok w) :
    (w.map Sign.mark).Sublist ((plan.filterMap Duty.mark?).map fun mark => (rule, mark)) := by
  have hshown {duty : Duty} {ok : Bool} {shown : List Sign} (h : duty.Shows admits rule ok shown) :
      (shown.map Sign.mark).Sublist ((duty.mark?.toList).map fun mark => (rule, mark)) := by
    cases h with
    | unset => exact List.nil_sublist _
    | _ => exact List.Sublist.refl _
  have hcons (duty : Duty) (duties : List Duty) :
      (duty :: duties).filterMap Duty.mark? = duty.mark?.toList ++ duties.filterMap Duty.mark? := by
    cases duty <;> rfl
  induction h with
  | nil => exact List.nil_sublist _
  | pass first rest ih =>
    rw [List.map_append, hcons, List.map_append]
    exact (hshown first).append ih
  | fail first =>
    rw [hcons, List.map_append]
    exact (hshown first).trans (List.sublist_append_left _ _)

theorem Part.nodup_marks (h : Part (Duty.Shows admits rule) res w) : (w.map Sign.mark).Nodup := by
  rcases h.followed with rfl | ⟨plan, ok, planned, word⟩
  · exact List.nodup_nil
  · refine word.marks_sublist.nodup ((List.nodup_map_iff fun a b h => (Prod.mk.inj h).2).mpr ?_)
    rcases planned with rfl | rfl <;> decide

theorem nodup_marks_append (hu : (u.map Sign.mark).Nodup) (hv : (v.map Sign.mark).Nodup)
    (h : ∀ q, Touched u q → ¬Touched v q) : ((u ++ v).map Sign.mark).Nodup := by
  rw [List.map_append, List.nodup_append]
  refine ⟨hu, hv, ?_⟩
  rintro mark hm _ hm' rfl
  obtain ⟨s, hs, rfl⟩ := List.mem_map.mp hm
  obtain ⟨t, ht, hst⟩ := List.mem_map.mp hm'
  have hrule : t.rule = s.rule := by rw [← Sign.mark_fst, ← Sign.mark_fst, hst]
  exact h s.rule ⟨s, hs, rfl⟩ ⟨t, ht, hrule⟩

theorem nodup_marks_failed (hw : (w.map Sign.mark).Nodup) (h : ¬Reached w rule .failed)
    (name : String) :
    ((w ++ [Sign.report rule name .failed]).map Sign.mark).Nodup := by
  rw [List.map_append, List.nodup_append]
  refine ⟨hw, List.nodup_singleton _, ?_⟩
  rintro mark hm _ hm' rfl
  obtain ⟨s, hs, hmark⟩ := List.mem_map.mp hm
  rw [List.mem_singleton.mp hm'] at hmark
  cases s with
  | hook q phase => cases (Prod.mk.inj hmark).2
  | report q other status =>
    obtain ⟨rfl, hstatus⟩ := Prod.mk.inj hmark
    cases hstatus
    exact h ⟨other, hs⟩

theorem Course.nodup_marks (hf : f.Sound) (h : Course f (Duty.Shows (binding.Admits f)) rules ok w)
    (apart : rules.Pairwise f.Apart) : (w.map Sign.mark).Nodup := by
  have hbelow {rule : RuleId} {ok : Bool} {own lower : List Sign}
      (part : Part (Duty.Shows (binding.Admits f) rule) (some true) own)
      (below : Course f (Duty.Shows (binding.Admits f)) (f.childrenOf rule) ok lower)
      (hl : (lower.map Sign.mark).Nodup) :
      ((own ++ lower).map Sign.mark).Nodup ∧ ∀ q, Touched (own ++ lower) q → f.Under rule q := by
    have hwithin {q : RuleId} (hq : Touched lower q) : ∃ c ∈ f.childrenOf rule, f.Under c q :=
      (below.exploration hf (hf.children_apart rule)).within hq
    refine ⟨nodup_marks_append part.nodup_marks hl fun q hq hq' => ?_, fun q hq => ?_⟩
    · obtain ⟨c, hc, hunder⟩ := hwithin hq'
      exact (hf.spans rule).not_under hc (part.eq_of_touched hq ▸ hunder)
    · rcases touched_append.mp hq with hq | hq
      · rw [part.eq_of_touched hq]
        exact .refl
      · obtain ⟨c, hc, hunder⟩ := hwithin hq
        exact .of_child hc hunder
  have hreport {rule : RuleId} {heard : Bool} {last : List Sign}
      (told : (Duty.tell .failed).Shows (binding.Admits f) rule heard last) :
      ∃ name, last = [.report rule name .failed] := by
    cases told
    exact ⟨_, rfl⟩
  induction h with
  | nil => exact List.nodup_nil
  | declined part rest ih =>
    obtain ⟨hrule, hrules⟩ := List.pairwise_cons.mp apart
    refine nodup_marks_append part.nodup_marks (ih hrules) fun q hq hm => ?_
    obtain ⟨p, hp, hunder⟩ := (rest.exploration hf hrules).within hm
    exact hrule p hp q (part.eq_of_touched hq ▸ .refl) hunder
  | @passed rule rules own lower more ok part below goesOn rest ihBelow ih =>
    obtain ⟨hrule, hrules⟩ := List.pairwise_cons.mp apart
    obtain ⟨hfirst, hunder⟩ := hbelow part below (ihBelow (hf.children_apart rule))
    refine nodup_marks_append hfirst (ih hrules) fun q hq hm => ?_
    obtain ⟨p, hp, hpq⟩ := (rest.exploration hf hrules).within hm
    exact hrule p hp q (hunder q hq) hpq
  | @stopped rule rules own lower part below stops ih =>
    exact (hbelow part below (ih (hf.children_apart rule))).1
  | @failed rule rules own last heard part told =>
    obtain ⟨name, rfl⟩ := hreport told
    exact nodup_marks_failed part.nodup_marks (part.not_failed rule) name
  | @failedBelow rule rules own lower last heard part below told ih =>
    obtain ⟨name, rfl⟩ := hreport told
    refine nodup_marks_failed (hbelow part below (ih (hf.children_apart rule))).1 ?_ name
    rw [reached_append, not_or]
    refine ⟨part.not_failed rule, fun h => ?_⟩
    obtain ⟨c, hc, hunder⟩ := (below.exploration hf (hf.children_apart rule)).within h.touched
    exact (hf.spans rule).not_under hc hunder

end

theorem Forest.Agree.children_apart {f g : Forest H} (h : Forest.Agree Rule.shape f g)
    (hf : f.Sound) (rule : RuleId) : (g.childrenOf rule).Pairwise f.Apart :=
  h.childrenOf rule ▸ hf.children_apart rule

namespace Act

def calls (fires : RuleId → Act H N Bool) (binding : Binding) :
    List RuleId → Engine H → List (RuleId × Engine H)
  | [], _ => []
  | rule :: rules, e =>
    (rule, e.bound binding rule) ::
      match fires rule (e.bound binding rule) with
      | ⟨.done true, e, _⟩ => calls fires binding rules e
      | _ => []

/-- All rules that are fired because of a batch, in order of firing: those of the batch, and after
each that executes those that are fired because of its children. -/
def firings (b : Behavior H N) (binding : Binding) : Nat → List RuleId → Engine H → List RuleId
  | 0, rules, _ => rules.take 1
  | depth + 1, rules, e =>
    (calls (fire b (depth + 1)) binding rules e).flatMap fun (rule, e) =>
      rule :: match e.forest.strategyOf? rule with
        | none => []
        | some strategy =>
          match serve b (run b depth) rule binding strategy e with
          | ⟨.done true, e, _⟩ => firings b binding depth (e.forest.childrenOf rule) e
          | _ => []

variable {b : Behavior H N} {binding : Binding} {depth : Nat} {rule : RuleId} {rules : List RuleId}
  {r : Rule H}
variable {e : Engine H} {f : Forest H}

theorem firings_cons (found : e.forest.get? rule = some r) (rules : List RuleId) :
    firings b binding (depth + 1) (rule :: rules) e =
      rule :: (match serve b (run b depth) rule binding r.strategy (e.bound binding rule) with
        | ⟨.done true, e₁, _⟩ => firings b binding depth (e₁.forest.childrenOf rule) e₁
        | _ => []) ++
      match fire b (depth + 1) rule (e.bound binding rule) with
      | ⟨.done true, e₁, _⟩ => firings b binding (depth + 1) rules e₁
      | _ => [] := by
  have hstrategy : (e.bound binding rule).forest.strategyOf? rule = some r.strategy := by
    rw [Forest.strategyOf?, get?_bound found, Option.map_some]
  simp only [firings, calls, List.flatMap_cons, hstrategy]
  congr 1
  rcases fire b (depth + 1) rule (e.bound binding rule) with ⟨(_ | _) | x | _, e₁, es⟩ <;> rfl

section

variable {e₁ e₂ : Engine H} {own lower : List (Event N)} {x : Thrown}

theorem firings_of_declined (rules : List RuleId) (found : e.forest.get? rule = some r)
    (served : serve b (run b depth) rule binding r.strategy (e.bound binding rule) =
      ⟨.done false, e₁, own⟩) :
    firings b binding (depth + 1) (rule :: rules) e =
      rule :: firings b binding (depth + 1) rules e₁ := by
  rw [firings_cons found, served, fire_of_declined (get?_bound found binding) rfl served]
  rfl

theorem firings_of_failed (rules : List RuleId) (found : e.forest.get? rule = some r)
    (served : serve b (run b depth) rule binding r.strategy (e.bound binding rule) =
      ⟨.thrown x, e₁, own⟩) : firings b binding (depth + 1) (rule :: rules) e = [rule] := by
  rw [firings_cons found, served, fire_of_failed (get?_bound found binding) rfl served]
  rfl

variable (ready : Ready e (rule :: rules)) (found : e.forest.get? rule = some r)
  (served : serve b (run b depth) rule binding r.strategy (e.bound binding rule) =
    ⟨.done true, e₁, own⟩)
include ready found served

theorem firings_of_executed
    (below : fireFirst (fire b depth) binding (e₁.forest.childrenOf rule) e₁ =
      ⟨.done (), e₂, lower⟩) :
    firings b binding (depth + 1) (rule :: rules) e =
      rule :: firings b binding depth (e₁.forest.childrenOf rule) e₁ ++
        if r.strategy = .chain then firings b binding (depth + 1) rules e₂ else [] := by
  rw [firings_cons found, served,
    fire_of_executed (get?_bound found binding) rfl (ready.bound binding) served below]
  cases r.strategy <;> rfl

theorem firings_of_failedBelow
    (below : fireFirst (fire b depth) binding (e₁.forest.childrenOf rule) e₁ =
      ⟨.thrown x, e₂, lower⟩) :
    firings b binding (depth + 1) (rule :: rules) e =
      rule :: firings b binding depth (e₁.forest.childrenOf rule) e₁ := by
  rw [firings_cons found, served,
    fire_of_failedBelow (get?_bound found binding) rfl (ready.bound binding) served below]
  exact List.append_nil _

end

theorem agree_served (tree : b.Obeys Operation.KeepsTree) (he : Forest.Agree Rule.shape f e.forest)
    {strategy : Strategy} {ending : Ending Bool} {e₁ : Engine H} {own : List (Event N)}
    (served : serve b (run b depth) rule binding strategy (e.bound binding rule) =
      ⟨ending, e₁, own⟩) :
    Forest.Agree Rule.shape f e₁.forest :=
  (he.trans (Forest.Agree.shape_upkeep.bound _ rule binding)).trans (serve_shape tree served)

theorem firings_sublist (tree : b.Obeys Operation.KeepsTree) (hf : f.Consistent)
    (present : ∀ rule ∈ rules, rule < f.rules.size) (he : Forest.Agree Rule.shape f e.forest) :
    (firings b binding depth rules e).Sublist (f.preorder rules) := by
  have hR := Forest.Agree.shape_upkeep (H := H)
  have hb := tree.mono fun _ => Forest.Agree.shape_upheld
  induction depth generalizing rules e with
  | zero =>
    cases rules with
    | nil => exact List.nil_sublist _
    | cons rule rules =>
      rw [hf.preorder_cons (present rule (by simp))]
      exact (List.nil_sublist _).cons_cons rule
  | succ depth ihDepth =>
    induction rules generalizing e with
    | nil => exact List.nil_sublist _
    | cons rule rules ih =>
      have hrule := present rule (by simp)
      obtain ⟨r, found⟩ := Forest.exists_get? (he.lt_size hrule)
      have hbound := he.trans (hR.bound e.forest rule binding)
      rw [firings_cons found, hf.preorder_cons hrule]
      refine ((List.Sublist.append ?_ ?_)).cons_cons rule
      · rcases served : serve b (run b depth) rule binding r.strategy (e.bound binding rule)
          with ⟨(_ | _) | x | _, e₁, es⟩ <;> try exact List.nil_sublist _
        have he₁ := agree_served tree he served
        dsimp only
        rw [he₁.childrenOf]
        exact ihDepth (fun c hc => hf.lt_size_of_child hc) he₁
      · have hfire := fire_upholds hR.upkeep hb (depth + 1) rule (e.bound binding rule)
        rcases fired : fire b (depth + 1) rule (e.bound binding rule)
          with ⟨(_ | _) | x | _, e₁, es⟩ <;>
          try exact List.nil_sublist _
        rw [fired] at hfire
        exact ih (fun q hq => present q (List.mem_cons_of_mem _ hq)) (hbound.trans hfire)

theorem Traverses.shape_course {o : Outcome H N Unit} (tree : b.Obeys Operation.KeepsTree)
    (h : Traverses b binding depth rules e o) (he : Forest.Agree Rule.shape f e.forest) :
    Course f (Duty.Shows (binding.Admits f)) rules o.ending.result.isSome (signs o.events) ∧
      Forest.Agree Rule.shape f o.engine.forest :=
  h.course Forest.Agree.shape_upkeep (fun _ h => h) (tree.mono fun _ => Forest.Agree.shape_upheld)
    (fun _ _ _ _ _ known he hne => perform_shows_of_agree he known hne) he

theorem Traverses.within {o : Outcome H N Unit} (tree : b.Obeys Operation.KeepsTree) (hf : f.Sound)
    (h : Traverses b binding depth rules e o) (he : Forest.Agree Rule.shape f e.forest)
    (apart : rules.Pairwise f.Apart) {q : RuleId} (hq : Touched (signs o.events) q) :
    ∃ p ∈ rules, f.Under p q := by
  exact ((h.shape_course tree he).1.exploration hf apart).within hq

section

variable {e₁ : Engine H} {o : Outcome H N Unit} {own : List (Event N)}

theorem visited_of_executed (tree : b.Obeys Operation.KeepsTree) (hf : f.Sound)
    (he : Forest.Agree Rule.shape f e.forest) {strategy : Strategy}
    (served : serve b (run b depth) rule binding strategy (e.bound binding rule) =
      ⟨.done true, e₁, own⟩)
    (below : Traverses b binding depth (e₁.forest.childrenOf rule) e₁ o) :
    visited (signs own ++ signs o.events) = rule :: visited (signs o.events) := by
  have he₁ := agree_served tree he served
  have part := serve_shows served (by simp)
  rw [he₁.childrenOf] at below
  rw [visited_append_of_apart,
    visited_eq_singleton part.executes.touched fun q hq => part.eq_of_touched hq,
    List.singleton_append]
  -- What the children of a rule show is not about the rule itself.
  intro q hq hl
  obtain ⟨c, hc, hunder⟩ := below.within tree hf he₁ (hf.children_apart rule) hl
  exact (hf.spans rule).not_under hc (part.eq_of_touched hq ▸ hunder)

theorem under_of_executed (tree : b.Obeys Operation.KeepsTree) (hf : f.Sound)
    (he : Forest.Agree Rule.shape f e.forest) {strategy : Strategy}
    (served : serve b (run b depth) rule binding strategy (e.bound binding rule) =
      ⟨.done true, e₁, own⟩)
    (below : Traverses b binding depth (e₁.forest.childrenOf rule) e₁ o) {q : RuleId}
    (hq : Touched (signs own ++ signs o.events) q) : f.Under rule q := by
  have he₁ := agree_served tree he served
  rw [he₁.childrenOf] at below
  rcases touched_append.mp hq with hq | hq
  · rw [(serve_shows served (by simp)).eq_of_touched hq]
    exact .refl
  · obtain ⟨c, hc, hcq⟩ := below.within tree hf he₁ (hf.children_apart rule) hq
    exact .of_child hc hcq

end

theorem Traverses.visited_eq {o : Outcome H N Unit} (tree : b.Obeys Operation.KeepsTree)
    (hf : f.Sound) (h : Traverses b binding depth rules e o) (ready : Ready e rules)
    (he : Forest.Agree Rule.shape f e.forest) (apart : rules.Pairwise f.Apart) :
    visited (signs o.events) = firings b binding depth rules e := by
  induction h with
  | @nil depth e => cases depth <;> rfl
  | @declined depth rule rules r e e₁ e₂ own more ending found served rest ih =>
    obtain ⟨hrule, hrules⟩ := List.pairwise_cons.mp apart
    have he₁ := agree_served tree he served
    have part := serve_shows served (by simp)
    rw [firings_of_declined rules found served, signs_append, visited_append_of_apart,
      ih (ready.rest served) he₁ hrules,
      visited_eq_singleton part.skips.touched fun q hq => part.eq_of_touched hq]
    · rfl
    · intro q hq hm
      obtain ⟨p, hp, hunder⟩ := rest.within tree hf he₁ hrules hm
      rw [part.eq_of_touched hq] at hunder
      exact hrule p hp rule .refl hunder
  | @passed depth rule rules r e e₁ e₂ e₃ own lower more ending found served below goesOn rest
      ihBelow ih =>
    obtain ⟨hrule, hrules⟩ := List.pairwise_cons.mp apart
    have he₁ := agree_served tree he served
    have hready := ready.below served
    have hlower := below.fireFirst_eq hready
    have hcourse := (below.shape_course tree he₁).2
    have hchildren := ihBelow hready he₁ (he₁.children_apart hf rule)
    rw [firings_of_executed ready found served hlower, if_pos goesOn, signs_append, signs_append,
      visited_append_of_apart, ih (ready.beyond served hlower) hcourse hrules,
      visited_of_executed tree hf he served below, hchildren]
    intro q hq hm
    obtain ⟨p, hp, hunder⟩ := rest.within tree hf hcourse hrules hm
    exact hrule p hp q (under_of_executed tree hf he served below hq) hunder
  | @stopped depth rule rules r e e₁ e₂ own lower found served below stops ih =>
    have he₁ := agree_served tree he served
    have hready := ready.below served
    have hchildren := ih hready he₁ (he₁.children_apart hf rule)
    have hlower := below.fireFirst_eq hready
    rw [firings_of_executed ready found served hlower, if_neg (by simp [stops]),
      signs_append, visited_of_executed tree hf he served below, hchildren, List.append_nil]
  | @failed depth rule rules r e e₁ own x found served =>
    have part := serve_shows served (by simp)
    rw [firings_of_failed rules found served, signs_append, visited_eq_singleton]
    · exact touched_append.mpr (.inr ⟨_, List.mem_singleton_self _, rfl⟩)
    · intro q hq
      rcases touched_append.mp hq with hq | ⟨s, hs, rfl⟩
      · exact part.eq_of_touched hq
      · rw [List.mem_singleton.mp hs]
        rfl
  | @failedBelow depth rule rules r e e₁ e₂ own lower x found served below ih =>
    have he₁ := agree_served tree he served
    have hready := ready.below served
    have part := serve_shows served (by simp)
    have hchildren := ih hready he₁ (he₁.children_apart hf rule)
    rw [firings_of_failedBelow ready found served (below.fireFirst_eq hready), signs_append,
      visited_append_of_touched, signs_append, visited_of_executed tree hf he served below,
      hchildren]
    rintro q ⟨s, hs, rfl⟩
    rw [List.mem_singleton.mp hs, signs_append]
    exact touched_append.mpr (.inl part.executes.touched)

theorem present?_filterMap {request : Request} {context : ContextId}
    (passes : request.Passes f context rules) :
    request.rules.filterMap f.present? = rules := by
  rw [passes.entries]
  exact Forest.filterMap_present? passes.present

theorem run_fires (tree : b.Obeys Operation.KeepsTree) (hc : e.forest.Consistent)
    {request : Request} {context : ContextId} (passes : request.Passes e.forest context rules)
    (apart : rules.Pairwise e.forest.Apart) {logger : Logger} {e₁ : Engine H}
    (chosen : e.choose request.logger = (logger, e₁))
    (opened : logger.objection? request.startedCall = none)
    (hne : (run b depth request e).ending ≠ .exhausted) :
    ((signs (run b depth request e).events).map Sign.mark).Nodup ∧
      firings b (request.binding context logger) depth rules e₁ =
        visited (signs (run b depth request e).events) ∧
      (firings b (request.binding context logger) depth rules e₁).Sublist
        (e.forest.preorder rules) := by
  have he₁ : Forest.Agree Rule.shape e.forest e₁.forest := by
    rw [(Engine.choose_keeps chosen).1]
    exact .refl _
  have ready : Ready e₁ rules :=
    ⟨hc.tidy.of_agree he₁, fun rule hr => he₁.lt_size (passes.present rule hr)⟩
  rcases fired : fireFirst (fire b depth) (request.binding context logger) rules e₁ with ⟨r, e₂, es⟩
  have ho := run_of_fired chosen opened passes fired
  rw [ho] at hne
  have ht : Traverses b (request.binding context logger) depth rules e₁ ⟨r, e₂, es⟩ := by
    rw [← fired]
    apply fireFirst_traverses ready
    rw [fired]
    exact fun hr => hne (Request.verdict_eq_exhausted.mpr hr)
  rw [ho, signs_run]
  exact ⟨(ht.shape_course tree he₁).1.nodup_marks hc.sound apart,
    (ht.visited_eq tree hc.sound ready he₁ apart).symm, firings_sublist tree hc passes.present he₁⟩

theorem run_visited (depth : Nat) (tree : b.Obeys Operation.KeepsTree) (hc : e.forest.Consistent)
    {request : Request} (hrules : request.rules.filterMap e.forest.present? = rules)
    (apart : rules.Pairwise e.forest.Apart) {logger : Logger} {e₁ : Engine H}
    (chosen : e.choose request.logger = (logger, e₁))
    (hne : (run b depth request e).ending ≠ .exhausted) :
    let w := signs (run b depth request e).events
    (w.map Sign.mark).Nodup ∧ (visited w).Sublist (e.forest.preorder rules) ∧
      ∀ context, request.Passes e.forest context rules →
        ((logger.objection? request.startedCall).isSome → visited w = []) ∧
          (logger.objection? request.startedCall = none →
            firings b (request.binding context logger) depth rules e₁ = visited w) := by
  intro w
  cases opened : logger.objection? request.startedCall with
  | some v =>
    have hw : w = [] := by
      change signs _ = []
      rw [run_of_muted chosen opened]
      rfl
    rw [hw]
    exact ⟨List.nodup_nil, List.nil_sublist _, fun _ _ => ⟨fun _ => rfl, nofun⟩⟩
  | none =>
    have hfires (context : ContextId) (passes : request.Passes e.forest context rules) :=
      run_fires tree hc passes apart chosen opened hne
    by_cases hpasses : ∃ context, request.Passes e.forest context rules
    · obtain ⟨context, passes⟩ := hpasses
      obtain ⟨hmarks, hvisited, hsub⟩ := hfires context passes
      exact ⟨hmarks, hvisited ▸ hsub, fun context passes =>
        ⟨nofun, fun _ => (hfires context passes).2.1⟩⟩
    · -- A request that does not pass is refused before anything is fired.
      have hw : w = [] := by
        rcases dispatch_cases request logger e₁ with ⟨x, -, hx⟩ | ⟨context, rules', passes⟩
        · change signs _ = []
          rw [run_of_dispatched chosen opened (hx (fire b depth)), signs_run, signs_nil]
        · rw [(Engine.choose_keeps chosen).1] at passes
          rw [present?_filterMap passes] at hrules
          exact absurd ⟨context, hrules ▸ passes⟩ hpasses
      rw [hw]
      exact ⟨List.nodup_nil, List.nil_sublist _,
        fun context passes => absurd ⟨context, passes⟩ hpasses⟩

/-- A run over any forest that has come about step by step, whose roots are apart and whose hooks
halt and leave the tree alone: it comes to an end, no hook of a rule is invoked twice, and the rules
that it fires, none of them twice, follow each other as in the trees under its roots. If the log
throws at its first message it fires none. -/
theorem run_visits {b : Behavior H N} (tree : b.Obeys Operation.KeepsTree) (e₀ : Engine H)
    (steps : List (Engine.Step H N)) (request : Request) :
    let e := Engine.after { e₀ with forest := {} } steps
    let roots := request.rules.filterMap e.forest.present?
    (roots.Pairwise fun p q => ¬e.forest.Under p q ∧ ¬e.forest.Under q p) → b.Halts e →
    ∃ limit o, o.ending ≠ .exhausted ∧ (∀ depth, limit ≤ depth → run b depth request e = o) ∧
      ((signs o.events).map Sign.mark).Nodup ∧
      (visited (signs o.events)).Sublist (e.forest.preorder roots) ∧
      (e.forest.preorder roots).Nodup ∧
      (∀ q, q ∈ e.forest.preorder roots ↔ ∃ p ∈ roots, e.forest.Under p q) ∧
      ∀ depth, limit ≤ depth → ∀ context logger e₁, e.choose request.logger = (logger, e₁) →
        request.Passes e.forest context roots →
        ((logger.objection? request.startedCall).isSome → visited (signs o.events) = []) ∧
          (logger.objection? request.startedCall = none →
            firings b (request.binding context logger) depth roots e₁ =
              visited (signs o.events)) := by
  intro e roots free halts
  have hc : e.forest.Consistent :=
    Engine.consistent_after (e := { e₀ with forest := {} }) Forest.consistent_empty steps
  have apart : roots.Pairwise e.forest.Apart :=
    free.imp fun h => hc.sound.apart_of_not_under h.1 h.2
  have present : ∀ p ∈ roots, p < e.forest.rules.size := by
    intro p hp
    obtain ⟨entry, -, hentry⟩ := List.mem_filterMap.mp hp
    exact (Forest.present?_eq_some.mp hentry).2
  obtain ⟨limit, o, hne, ho⟩ := run_settles tree halts request fun rule _ => hc.spans rule
  have hvisited (depth : Nat) (hd : limit ≤ depth) {logger : Logger} {e₁ : Engine H}
      (chosen : e.choose request.logger = (logger, e₁)) := by
    have hrun := run_visited depth tree hc rfl apart chosen (by rw [ho depth hd]; exact hne)
    rw [ho depth hd] at hrun
    exact hrun
  obtain ⟨hmarks, hsub, -⟩ := hvisited limit (Nat.le_refl _) rfl
  refine ⟨limit, o, hne, ho, hmarks, hsub, hc.sound.nodup_preorder apart,
    fun q => hc.mem_preorder present, ?_⟩
  exact fun depth hd context logger e₁ chosen passes =>
    (hvisited depth hd chosen).2.2 context passes

end Act

def family : List (Engine.Step Unit Unit) :=
  [.create .bestFirst none, .create .chain none, .create .chain none,
    .addChildren 0 [some 1, some 2],
    .setHook 1 .evaluate ()]

theorem Act.run_visits_family :
    let e := Engine.after { contexts := #[.empty], forest := {} } family
    ([0].Pairwise fun p q => ¬e.forest.Under p q ∧ ¬e.forest.Under q p) ∧ agreeing.Halts e ∧
      ∃ limit o, o.ending ≠ .exhausted ∧
        (∀ depth, limit ≤ depth → run agreeing depth (.bestFirst (some 0) [some 0]) e = o) ∧
        ((signs o.events).map Sign.mark).Nodup ∧ (visited (signs o.events)).Sublist [0, 1, 2] := by
  intro e
  have halts : agreeing.Halts e := Behavior.halts_of_startsNoRun (agreeing_obeys _) e
  refine ⟨List.pairwise_singleton _ _, halts, ?_⟩
  obtain ⟨limit, o, hne, ho, hmarks, hsub, -⟩ :=
    run_visits (agreeing_obeys _) { contexts := #[.empty] } family
      (.bestFirst (some 0) [some 0]) (List.pairwise_singleton _ _) halts
  exact ⟨limit, o, hne, ho, hmarks, hsub⟩

end RuleForest
