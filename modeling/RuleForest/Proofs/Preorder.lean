import RuleForest.Proofs.Ownership

namespace RuleForest.Forest

variable {H : Type} {f : Forest H} {p q : RuleId} {roots : List RuleId} {limit more : Nat}

def outline (f : Forest H) : Nat → RuleId → List RuleId
  | 0, _ => []
  | limit + 1, rule => rule :: (f.childrenOf rule).flatMap (f.outline limit)

/-- The trees under some rules one after the other; no way down is longer than the forest is
large. -/
def preorder (f : Forest H) (roots : List RuleId) : List RuleId :=
  roots.flatMap (f.outline f.rules.size)

theorem under_of_mem_outline (h : q ∈ f.outline limit p) : f.Under p q := by
  induction limit generalizing p with
  | zero => exact absurd h List.not_mem_nil
  | succ limit ih =>
    rcases List.mem_cons.mp h with rfl | h
    · exact .refl
    · obtain ⟨c, hc, h⟩ := List.mem_flatMap.mp h
      exact .of_child hc (ih h)

theorem child_mem_outline {c : RuleId} (h : q ∈ f.outline limit p) (hc : c ∈ f.childrenOf q) :
    c ∈ f.outline (limit + 1) p := by
  induction limit generalizing p with
  | zero => exact absurd h List.not_mem_nil
  | succ limit ih =>
    apply List.mem_cons_of_mem
    rcases List.mem_cons.mp h with rfl | h
    · exact List.mem_flatMap.mpr ⟨c, hc, List.mem_cons_self⟩
    · obtain ⟨d, hd, h⟩ := List.mem_flatMap.mp h
      exact List.mem_flatMap.mpr ⟨d, hd, ih h⟩

theorem nodup_flatMap_outline (apart : roots.Pairwise f.Apart)
    (h : ∀ p ∈ roots, (f.outline limit p).Nodup) :
    (roots.flatMap (f.outline limit)).Nodup := by
  refine List.nodup_flatMap.mpr ⟨h, apart.imp fun hpq => ?_⟩
  exact fun c hp hq => hpq c (under_of_mem_outline hp) (under_of_mem_outline hq)

theorem Sound.nodup_outline (hf : f.Sound) (limit : Nat) (p : RuleId) :
    (f.outline limit p).Nodup := by
  induction limit generalizing p with
  | zero => exact List.nodup_nil
  | succ limit ih =>
    refine List.nodup_cons.mpr ⟨?_, nodup_flatMap_outline (hf.children_apart p) fun c _ => ih c⟩
    intro h
    obtain ⟨c, hc, h⟩ := List.mem_flatMap.mp h
    exact (hf.spans p).not_under hc (under_of_mem_outline h)

theorem Sound.nodup_preorder (hf : f.Sound) (apart : roots.Pairwise f.Apart) :
    (f.preorder roots).Nodup :=
  nodup_flatMap_outline apart fun p _ => hf.nodup_outline _ p

theorem lineage_pos (hp : p < f.rules.size) : 0 < (f.lineage p).length := by
  obtain ⟨n, hn⟩ := Nat.exists_eq_succ_of_ne_zero (Nat.ne_zero_of_lt hp)
  rw [lineage, hn]
  simp [ancestors]

namespace Consistent

variable (hf : f.Consistent)
include hf

theorem lt_size_of_child {c : RuleId} (hc : c ∈ f.childrenOf p) : c < f.rules.size :=
  lt_size_of_ownerOf (hf.mem_childrenOf.mp hc)

theorem outline_eq (hp : p < f.rules.size) (hlimit : f.rules.size < limit + (f.lineage p).length)
    (hmore : f.rules.size < more + (f.lineage p).length) :
    f.outline limit p = f.outline more p := by
  have hlength {p : RuleId} (hp : p < f.rules.size) : (f.lineage p).length ≤ f.rules.size :=
    hf.length_climb_le (hf.climb_lineage hp) hp
  induction limit generalizing p more with
  | zero =>
    have := hlength hp
    omega
  | succ limit ih =>
    have := hlength hp
    obtain ⟨more, rfl⟩ : ∃ m, more = m + 1 := ⟨more - 1, by omega⟩
    simp only [outline, List.cons.injEq, true_and]
    refine List.flatMap_congr fun c hc => ?_
    have hl := congrArg List.length (hf.lineage_child hc)
    rw [List.length_cons] at hl
    exact ih (hf.lt_size_of_child hc) (by omega) (by omega)

theorem mem_preorder (hroots : ∀ p ∈ roots, p < f.rules.size) :
    q ∈ f.preorder roots ↔ ∃ p ∈ roots, f.Under p q := by
  constructor
  · intro h
    obtain ⟨p, hp, h⟩ := List.mem_flatMap.mp h
    exact ⟨p, hp, under_of_mem_outline h⟩
  · rintro ⟨p, hp, h⟩
    apply List.mem_flatMap.mpr
    refine ⟨p, hp, ?_⟩
    have hpos := lineage_pos (hroots p hp)
    induction h with
    | refl =>
      obtain ⟨n, hn⟩ := Nat.exists_eq_succ_of_ne_zero (Nat.ne_zero_of_lt (hroots p hp))
      rw [hn]
      exact List.mem_cons_self
    | child h hc ih =>
      have hlimit : f.outline f.rules.size p = f.outline (f.rules.size + 1) p :=
        hf.outline_eq (hroots p hp) (by omega) (by omega)
      rw [hlimit]
      exact child_mem_outline ih hc

theorem preorder_cons (hp : p < f.rules.size) (roots : List RuleId) :
    f.preorder (p :: roots) = p :: f.preorder (f.childrenOf p) ++ f.preorder roots := by
  obtain ⟨n, hn⟩ := Nat.exists_eq_succ_of_ne_zero (Nat.ne_zero_of_lt hp)
  have hpos := lineage_pos hp
  have hbelow : (f.childrenOf p).flatMap (f.outline n) = f.preorder (f.childrenOf p) := by
    refine List.flatMap_congr fun c hc => ?_
    have hl := congrArg List.length (hf.lineage_child hc)
    rw [List.length_cons] at hl
    exact hf.outline_eq (hf.lt_size_of_child hc) (by omega) (by omega)
  rw [← hbelow]
  simp only [preorder, List.flatMap_cons, hn, outline]

end Consistent

end RuleForest.Forest
