import RuleForest.Proofs.Grown

namespace RuleForest

namespace FileTree

inductive Change where
  | write (path : Path) (content : String)
  | makeDirectory (path : Path)
  | remove (path : Path)

def Change.uproots (p : Path) : Change → Bool
  | remove q => p.around.any q.place.isSuffixOf
  | _ => false

def Change.Spares (p : Path) : Change → Prop
  | write q _ => (q.place = [] ∨ q.place ∉ p.around) ∧ p.place ∉ q.parent.route
  | makeDirectory q => p.place ∉ q.route
  | remove _ => True

structure Unobstructed (p : Path) (t : FileTree) : Prop where
  place : t.entryAt p.place ≠ some .directory
  around (q : Path) (s : String) : q ∈ p.around → t.entryAt q ≠ some (.file s)

variable {t t₁ : FileTree} {name content : String} {up p q d : Path}

theorem unobstructed_empty (p : Path) : Unobstructed p {} where
  place h := by cases h
  around q s _ h := by cases h

theorem Unobstructed.mono (h : t.Unobstructed p)
    (hplace : t₁.entryAt p.place = some .directory → t.entryAt p.place = some .directory)
    (haround : ∀ q ∈ p.around, ∀ s, t₁.entryAt q = some (.file s) →
      t.entryAt q = some (.file s)) : t₁.Unobstructed p where
  place hp := h.place (hplace hp)
  around q s hq hf := h.around q s hq (haround q hq s hf)

theorem Change.Spares.not_around (hc : (write q content).Spares p) (hroot : q.place ≠ [])
    (hd : d ∈ p.around) : d ≠ q.place := by
  rintro rfl
  exact hc.1.resolve_left hroot hd

variable [FileSystem]

def Change.apply (t : FileTree) : Change → FileTree
  | write p content =>
    let made := (t.makeDirectories p.parent).1
    (made.write p content).toOption.getD made
  | makeDirectory p => (t.makeDirectories p).1
  | remove p => t.removeAll p

theorem entryAt_makeDirectories (t : FileTree) (p q : Path) :
    (t.makeDirectories p).1.entryAt q = t.entryAt q ∨
      q ∈ p.route ∧ (t.makeDirectories p).1.entryAt q = some .directory := by
  unfold makeDirectories
  split
  · exact .inl rfl
  · exact t.entryAt_makeInside p q

theorem HasDirectory.makeDirectories (h : t.HasDirectory q) (p : Path) :
    (t.makeDirectories p).1.HasDirectory q := by
  unfold HasDirectory
  rcases t.entryAt_makeDirectories p q with hsame | ⟨-, hdir⟩
  · rwa [hsame]
  · exact .inr hdir

theorem Unobstructed.makeDirectories (h : t.Unobstructed p) (hq : p.place ∉ q.route) :
    (t.makeDirectories q).1.Unobstructed p := by
  apply h.mono
  · intro hp
    rcases t.entryAt_makeDirectories q p.place with hsame | ⟨hmem, -⟩
    · rwa [hsame] at hp
    · exact absurd hmem hq
  · intro d _ s hf
    rcases t.entryAt_makeDirectories q d with hsame | ⟨-, hdir⟩
    · rwa [hsame] at hf
    · rw [hdir] at hf
      cases hf

theorem append_of_directory (hname : Path.IsName name) (hallowed : Path.Allowed (name :: up))
    (hdir : t.directoryError? up = none)
    (hplace : t.entryAt (Path.place (name :: up)) ≠ some .directory) (line : String) :
    ∃ t₁, t.append (name :: up) line = .ok t₁ := by
  have hpath := pathError?_of_allowed hallowed hdir
  rw [Path.place_of_isName hname, ← lookup_cons hname] at hplace
  cases hentry : t.lookup (name :: up) with
  | none =>
    refine ⟨t.put (Path.place (name :: up)) (.file line), ?_⟩
    simp only [append, stat_of_missing hpath hentry, write, hpath, hentry]
  | some entry =>
    cases entry with
    | directory => exact absurd hentry hplace
    | file s =>
      refine ⟨t.put (Path.place (name :: up)) (.file (s ++ line)), ?_⟩
      simp only [append, stat_eq_ok.mpr ⟨hpath, hentry⟩, write, hpath, hentry]

namespace Change

variable {c : Change}

theorem apply_write_cases (t : FileTree) (p : Path) (content : String) :
    let made := (t.makeDirectories p.parent).1
    (write p content).apply t = made ∨
      p.place ≠ [] ∧ (write p content).apply t = made.put p.place (.file content) := by
  intro made
  cases hw : made.write p content with
  | ok t₁ =>
    obtain ⟨-, hl, rfl⟩ := write_eq_ok hw
    refine .inr ⟨fun hroot => hl (if_pos hroot), ?_⟩
    simp only [apply, made, hw, Except.toOption, Option.getD_some]
  | error e => exact .inl (by simp only [apply, made, hw, Except.toOption, Option.getD_none])

theorem grown_apply (h : t.Grown) (c : Change) : (c.apply t).Grown := by
  cases c with
  | write q content =>
    have hmade := h.makeDirectories q.parent
    rw [apply]
    cases hw : (t.makeDirectories q.parent).1.write q content with
    | ok t₁ => exact hmade.write hw
    | error e => exact hmade
  | makeDirectory q => exact h.makeDirectories q
  | remove q => exact h.removeAll q

theorem Spares.unobstructed (hc : c.Spares p) (h : t.Unobstructed p) :
    (c.apply t).Unobstructed p := by
  cases c with
  | write q content =>
    have hmade := h.makeDirectories hc.2
    rcases apply_write_cases t q content with hw | ⟨hroot, hw⟩ <;> rw [hw]
    · exact hmade
    · apply hmade.mono
      · intro hdir
        rw [entryAt_put] at hdir
        split at hdir
        · cases hdir
        · exact hdir
      · intro d hd s hf
        rwa [entryAt_put, if_neg (hc.not_around hroot hd)] at hf
  | makeDirectory q => exact h.makeDirectories hc
  | remove q =>
    have hkept {d : Path} {entry : Entry} (hd : ((remove q).apply t).entryAt d = some entry) :
        t.entryAt d = some entry := by
      rw [apply, entryAt_removeAll] at hd
      split at hd
      · cases hd
      · exact hd
    exact h.mono hkept fun d _ s hf => hkept hf

theorem Spares.directoryError? (hc : c.Spares p) (hkept : c.uproots p = false)
    (h : t.directoryError? p.tail = none) : (c.apply t).directoryError? p.tail = none := by
  apply directoryError?_mono h
  intro d hd hdir
  cases c with
  | write q content =>
    have hmade := hdir.makeDirectories q.parent
    rcases apply_write_cases t q content with hw | ⟨hroot, hw⟩ <;> rw [hw]
    · exact hmade
    · rwa [HasDirectory, entryAt_put, if_neg (hc.not_around hroot hd)]
  | makeDirectory q => exact hdir.makeDirectories q
  | remove q =>
    have hout : ¬q.place <:+ d := by
      simp only [uproots, List.any_eq_false, List.isSuffixOf_iff_suffix] at hkept
      exact hkept d hd
    rwa [HasDirectory, apply, entryAt_removeAll, if_neg hout]

end Change

end FileTree

end RuleForest
