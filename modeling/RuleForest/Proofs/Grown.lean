import RuleForest.Proofs.FileTree

namespace RuleForest

namespace FileTree

variable {t : FileTree} {p q up source target : Path} {name : String} {entry : Entry}

def Grown (t : FileTree) : Prop := ∀ name up, t.entryAt (name :: up) ≠ none → t.HasDirectory up

theorem grown_empty : Grown {} := fun _ _ h => absurd rfl h

def contentAt (t : FileTree) (p : Path) : Path → Option Entry := fun inner => t.entryAt (inner ++ p)

theorem Grown.nothing_inside (h : t.Grown) (hp : p ≠ []) (hd : t.entryAt p ≠ some .directory)
    {inner : Path} (hinner : inner ≠ []) : t.contentAt p inner = none := by
  induction inner with
  | nil => exact absurd rfl hinner
  | cons name inner ih =>
    by_contra hsome
    rcases h name (inner ++ p) hsome with hroot | hup
    · exact hp (List.append_eq_nil_iff.mp hroot).2
    · cases inner with
      | nil => exact hd hup
      | cons name' inner =>
        have hnone : t.entryAt (name' :: inner ++ p) = none := ih (List.cons_ne_nil _ _)
        rw [hnone] at hup
        cases hup

theorem not_suffix_of_free (h : ∀ inner, t.contentAt p inner = none) :
    ∀ e ∈ t.entries, ¬p <:+ e.1 := by
  rintro e he ⟨inner, hinner⟩
  exact entryAt_eq_none.mp (h inner) e he hinner.symm

namespace Grown

variable (h : t.Grown)
include h

theorem put (hup : t.HasDirectory up)
    (hentry : entry = .directory ∨ t.entryAt (name :: up) ≠ some .directory) :
    (t.put (name :: up) entry).Grown := by
  have hnot : up ≠ name :: up := (List.cons_ne_self name up).symm
  intro n q hq
  rw [entryAt_put] at hq
  split at hq
  · next hself =>
    obtain ⟨-, rfl⟩ := List.cons.inj hself
    rwa [HasDirectory, entryAt_put, if_neg hnot]
  · rw [HasDirectory, entryAt_put]
    by_cases hqp : q = name :: up
    · rw [if_pos hqp]
      rcases hentry with hdir | hfile
      · exact .inr (congrArg some hdir)
      · rcases h n q hq with hroot | hdir
        · exact .inl hroot
        · exact absurd (hqp ▸ hdir) hfile
    · rw [if_neg hqp]
      exact h n q hq

theorem erase (hinside : ∀ inner, inner ≠ [] → t.contentAt p inner = none) : (t.erase p).Grown := by
  intro n q hq
  rw [entryAt_erase] at hq
  split at hq
  · exact absurd rfl hq
  · have hqp : q ≠ p := by
      rintro rfl
      exact hq (hinside [n] (List.cons_ne_nil _ _))
    rw [HasDirectory, entryAt_erase, if_neg hqp]
    exact h n q hq

theorem removeAll (p : Path) : (t.removeAll p).Grown := by
  intro n q hq
  rw [entryAt_removeAll] at hq
  split at hq
  · exact absurd rfl hq
  · next hnot =>
    have hq' : ¬p.place <:+ q := fun hs => hnot (hs.trans (List.suffix_cons n q))
    rw [HasDirectory, entryAt_removeAll, if_neg hq']
    exact h n q hq

theorem move (hsource : source ≠ []) (hnot : ¬source <:+ name :: up) (hup : t.HasDirectory up)
    (hfree : ∀ inner, t.contentAt (name :: up) inner = none) :
    (t.move source (name :: up)).Grown := by
  have hfree := not_suffix_of_free hfree
  have hself := Path.cons_not_suffix name up
  intro n q hq
  by_cases hin : (name :: up) <:+ n :: q
  · -- The directory of what has moved has moved as well, unless it is the one moved into.
    rcases List.suffix_cons_iff.mp hin with heq | ⟨inner, rfl⟩
    · obtain ⟨-, rfl⟩ := List.cons.inj heq
      rcases hup with hroot | hdir
      · exact .inl hroot
      · right
        rw [entryAt_move_beside t source hself, if_neg, hdir]
        exact fun hs => hnot (hs.trans (List.suffix_cons _ _))
    · have hq' : t.entryAt (n :: inner ++ source) ≠ none := by
        rw [← entryAt_move_inside hfree]
        exact hq
      rcases h n (inner ++ source) hq' with hroot | hdir
      · exact absurd (List.append_eq_nil_iff.mp hroot).2 hsource
      · right
        rwa [entryAt_move_inside hfree]
  · have hin' : ¬(name :: up) <:+ q := fun hs => hin (hs.trans (List.suffix_cons n q))
    rw [entryAt_move_beside t source hin] at hq
    rw [HasDirectory, entryAt_move_beside t source hin']
    split at hq
    · exact absurd rfl hq
    · next hout =>
      have hout' : ¬source <:+ q := fun hs => hout (hs.trans (List.suffix_cons n q))
      rw [if_neg hout']
      exact h n q hq

end Grown

theorem move_erase (t : FileTree) (source target : Path) :
    (t.erase target).move source target = t.move source target := by
  have htwice : (t.erase target).erase target = t.erase target := by
    simp only [erase, List.filter_filter, Bool.and_self]
  simp only [move, htwice]

theorem moveOver_eq_ok {t' : FileTree} (h : t.moveOver entry source target = .ok t') :
    t' = t ∨ (t' = t.move source target ∧ ¬source <:+ target ∧
      (t.lookup target ≠ some .directory ∨ t.isEmptyAt target = true)) := by
  unfold moveOver at h
  split at h
  · exact .inl (Except.ok.inj h).symm
  · split at h
    · cases h
    · next hs =>
      rw [List.isSuffixOf_iff_suffix] at hs
      split at h
      case h_1 hl => exact .inr ⟨(Except.ok.inj h).symm, hs, .inl (by rw [hl]; simp)⟩
      case h_2 hl => exact .inr ⟨(Except.ok.inj h).symm, hs, .inl (by rw [hl]; simp)⟩
      case h_3 => cases h
      case h_4 => cases h
      case h_5 =>
        split at h
        · next he => exact .inr ⟨(Except.ok.inj h).symm, hs, .inr he⟩
        · cases h

theorem nothing_inside_of_isEmptyAt (h : t.isEmptyAt p = true) {inner : Path}
    (hinner : inner ≠ []) :
    t.contentAt p inner = none := by
  apply entryAt_eq_none.mpr
  intro e he heq
  simp only [isEmptyAt, List.all_eq_true, Bool.or_eq_true, beq_iff_eq, Bool.not_eq_true'] at h
  rcases h e he with hself | hout
  · rw [heq] at hself
    exact hinner (List.append_left_eq_self.mp hself)
  · rw [heq, List.isSuffixOf_iff_suffix.mpr (List.suffix_append _ _)] at hout
    cases hout

variable [FileSystem]

theorem exists_place_of_lookup (hpath : t.pathError? p = none) (hl : t.lookup p ≠ some .directory) :
    ∃ name up, p.place = name :: up ∧ t.HasDirectory up := by
  cases p with
  | nil => exact absurd rfl hl
  | cons name up =>
    obtain ⟨-, hdir⟩ := allowed_of_pathError? hpath
    exact ⟨name, Path.place up, Path.place_of_isName (isName_of_lookup hdir hl) up,
      hasDirectory_of_mem_route hdir (Path.place_mem_route up)⟩

theorem rename_eq_ok {t' : FileTree} (h : t.rename source target = .ok t') :
    ∃ entry, t.stat source = .ok entry ∧ t.pathError? target = none ∧
      t.moveOver entry source.place target.place = .ok t' := by
  unfold rename at h
  split at h
  case h_1 => cases h
  case h_2 => cases h
  case h_3 => cases h
  case h_4 hs ht => exact ⟨_, hs, ht, h⟩

theorem write_eq_ok {content : String} {t' : FileTree} (h : t.write p content = .ok t') :
    t.pathError? p = none ∧ t.lookup p ≠ some .directory ∧ t' = t.put p.place (.file content) := by
  unfold write at h
  split at h
  case h_1 => cases h
  case h_2 => cases h
  case h_3 hpath hl => exact ⟨hpath, hl, (Except.ok.inj h).symm⟩

theorem stat_write {content : String} {t' : FileTree} (h : t.write p content = .ok t') :
    t'.stat p = .ok (.file content) := by
  obtain ⟨hpath, hl, rfl⟩ := write_eq_ok h
  cases p with
  | nil => exact absurd rfl hl
  | cons name up =>
    obtain ⟨hwhole, hdir, hname⟩ := pathError?_eq_none.mp hpath
    have hroot : Path.place (name :: up) ≠ [] := fun hroot => hl (if_pos hroot)
    rw [lookup_eq, if_neg hroot] at hl
    refine stat_eq_ok.mpr ⟨pathError?_eq_none.mpr ⟨hwhole, ?_, hname⟩, ?_⟩
    · apply directoryError?_mono hdir
      intro q _ hq
      have hne : q ≠ Path.place (name :: up) := by
        rintro rfl
        exact hl (hq.resolve_left hroot)
      rwa [HasDirectory, entryAt_put, if_neg hne]
    · rw [lookup_eq, if_neg hroot, entryAt_put, if_pos rfl]

theorem append_eq_ok {line : String} {t' : FileTree} (h : t.append p line = .ok t') :
    ∃ old, t.write p (old ++ line) = .ok t' ∧ (old = "" ∨ t.lookup p = some (.file old)) := by
  unfold append at h
  split at h
  · next old hold => exact ⟨old, h, .inr (stat_eq_ok.mp hold).2⟩
  · exact ⟨"", by rwa [String.empty_append], .inl rfl⟩

theorem append_eq_put {line : String} {t' : FileTree} (h : t.append p line = .ok t') :
    ∃ old, t.pathError? p = none ∧ t.lookup p ≠ some .directory ∧
      t' = t.put p.place (.file (old ++ line)) ∧ (old = "" ∨ t.lookup p = some (.file old)) := by
  obtain ⟨old, hwrite, hold⟩ := append_eq_ok h
  obtain ⟨hpath, hl, hput⟩ := write_eq_ok hwrite
  exact ⟨old, hpath, hl, hput, hold⟩

theorem remove_eq_ok {t' : FileTree} (h : t.remove p = .ok t') :
    t' = t ∨ (t' = t.erase p.place ∧ ∃ s, t.stat p = .ok (.file s)) := by
  unfold remove at h
  split at h
  case h_1 s hs => exact .inr ⟨(Except.ok.inj h).symm, s, hs⟩
  case h_2 => cases h
  case h_3 => exact .inl (Except.ok.inj h).symm
  case h_4 => cases h

namespace Grown

variable {t' : FileTree} (h : t.Grown)
include h

theorem write {content : String} (hw : t.write p content = .ok t') : t'.Grown := by
  obtain ⟨hpath, hl, rfl⟩ := write_eq_ok hw
  obtain ⟨name, up, hplace, hdir⟩ := exists_place_of_lookup hpath hl
  rw [lookup_eq, hplace, if_neg (List.cons_ne_nil name up)] at hl
  rw [hplace]
  exact h.put hdir (.inr hl)

theorem append {content : String} (ha : t.append p content = .ok t') : t'.Grown := by
  obtain ⟨old, hw, -⟩ := append_eq_ok ha
  exact h.write hw

theorem remove (hr : t.remove p = .ok t') : t'.Grown := by
  rcases remove_eq_ok hr with rfl | ⟨rfl, s, hs⟩
  · exact h
  · obtain ⟨hpath, hl⟩ := stat_eq_ok.mp hs
    obtain ⟨name, up, hplace, -⟩ := exists_place_of_lookup hpath (by rw [hl]; simp)
    rw [lookup_eq, hplace, if_neg (List.cons_ne_nil name up)] at hl
    rw [hplace]
    apply h.erase
    intro inner hinner
    exact h.nothing_inside (List.cons_ne_nil name up) (by rw [hl]; simp) hinner

theorem place_of_rename (hs : t.stat source = .ok entry) (hpath : t.pathError? target = none)
    (hnot : ¬source.place <:+ target.place)
    (hfree : t.lookup target ≠ some .directory ∨ t.isEmptyAt target.place = true) :
    ∃ name up, target.place = name :: up ∧ t.HasDirectory up ∧
      ∀ inner, inner ≠ [] → t.contentAt target.place inner = none := by
  obtain ⟨-, hl⟩ := stat_eq_ok.mp hs
  by_cases hd : t.lookup target = some .directory
  · have hempty := hfree.resolve_left (not_not_intro hd)
    cases hplace : target.place with
    | nil =>
      -- All that there is stands in the root, so nothing can be moved over that.
      have hsource : source.place ≠ [] := fun hroot => hnot (hroot ▸ List.nil_suffix)
      have hnone := nothing_inside_of_isEmptyAt hempty hsource
      rw [contentAt, hplace, List.append_nil] at hnone
      rw [lookup_eq, if_neg hsource, hnone] at hl
      cases hl
    | cons name up =>
      rw [lookup_eq, hplace, if_neg (List.cons_ne_nil name up)] at hd
      refine ⟨name, up, rfl, h name up (by rw [hd]; simp), fun inner hinner => ?_⟩
      exact hplace ▸ nothing_inside_of_isEmptyAt hempty hinner
  · obtain ⟨name, up, hplace, hdir⟩ := exists_place_of_lookup hpath hd
    rw [lookup_eq, hplace, if_neg (List.cons_ne_nil name up)] at hd
    refine ⟨name, up, hplace, hdir, fun inner hinner => ?_⟩
    rw [hplace]
    exact h.nothing_inside (List.cons_ne_nil name up) hd hinner

theorem rename (hr : t.rename source target = .ok t') : t'.Grown := by
  obtain ⟨entry, hs, hpath, hover⟩ := rename_eq_ok hr
  rcases moveOver_eq_ok hover with rfl | ⟨rfl, hnot, hfree⟩
  · exact h
  · have hfree : t.lookup target ≠ some .directory ∨ t.isEmptyAt target.place = true := by
      rwa [lookup_eq, Path.place_place, ← lookup_eq] at hfree
    obtain ⟨name, up, hplace, hdir, hinside⟩ := h.place_of_rename hs hpath hnot hfree
    rw [hplace] at hnot hinside ⊢
    have hsource : source.place ≠ [] := fun hroot => hnot (hroot ▸ List.nil_suffix)
    rw [← move_erase]
    apply (h.erase hinside).move hsource hnot
    · rwa [HasDirectory, entryAt_erase, if_neg (List.cons_ne_self name up).symm]
    · intro inner
      rw [contentAt, entryAt_erase]
      split
      · rfl
      · next hne => exact hinside inner fun hnil => hne (by rw [hnil, List.nil_append])

end Grown

theorem directoryError?_eq_missing (hdir : t.directoryError? up = none)
    (hmissing : t.directoryError? (name :: up) = some .missing) :
    Path.place (name :: up) = name :: up.place ∧ t.HasDirectory up.place := by
  have hl : t.lookup (name :: up) = none := by
    simp only [directoryError?, hdir] at hmissing
    split at hmissing
    · cases hmissing
    · split at hmissing
      case h_1 => cases hmissing
      case h_2 => cases hmissing
      case h_3 hl => exact hl
  exact ⟨Path.place_of_isName (isName_of_lookup hdir (by rw [hl]; simp)) up,
    hasDirectory_of_mem_route hdir (Path.place_mem_route up)⟩

theorem Grown.makeInside (h : t.Grown) (p : Path) :
    (t.makeInside p).1.Grown ∧
      ((t.makeInside p).2 = none → (t.makeInside p).1.directoryError? p = none) := by
  induction p with
  | nil => exact ⟨h, fun _ => rfl⟩
  | cons name up ih =>
    obtain ⟨hgrown, hmade⟩ := ih
    rw [FileTree.makeInside]
    rcases hmake : t.makeInside up with ⟨t₁, _ | e⟩
    case some => simpa [hmake] using hgrown
    case none =>
      rw [hmake] at hgrown hmade
      have hdir : t₁.directoryError? up = none := hmade rfl
      simp only
      split
      case h_2 e he => exact ⟨hgrown, fun hnone => hnone⟩
      case h_1 hmissing =>
        obtain ⟨hplace, hup⟩ := directoryError?_eq_missing hdir hmissing
        have hname : Path.nameTooLong name = false := by
          cases hname : Path.nameTooLong name with
          | false => rfl
          | true => simp [directoryError?, hdir, hname] at hmissing
        refine ⟨hplace ▸ hgrown.put hup (.inl rfl), fun _ => ?_⟩
        rw [directoryError?_cons hname]
        · exact .inr (by rw [entryAt_put, if_pos rfl])
        · exact directoryError?_mono hdir fun q _ hq => hq.put_directory _

theorem Grown.makeDirectories (h : t.Grown) (p : Path) : (t.makeDirectories p).1.Grown := by
  unfold FileTree.makeDirectories
  split
  · exact h
  · exact (h.makeInside p).1

end FileTree

end RuleForest
