import RuleForest.Log.Mirror
import RuleForest.Proofs.Grown

namespace RuleForest

namespace FileTree

variable {S : Path → Prop} {t t₁ t₂ : FileTree} {p q source target : Path}

/-- The second tree comes of the first by removing and moving what is at the places `S`, and by
making directories there. -/
inductive Rearranged (S : Path → Prop) (t : FileTree) : FileTree → Prop where
  | refl : Rearranged S t t
  | erase {t₁ : FileTree} {p : Path} (before : Rearranged S t t₁) (place : S p) :
      Rearranged S t (t₁.erase p)
  | move {t₁ : FileTree} {source target : Path} (before : Rearranged S t t₁) (taken : S source)
    (given : S target) : Rearranged S t (t₁.move source target)
  | make {t₁ : FileTree} {p : Path} (before : Rearranged S t t₁) (place : S p) :
      Rearranged S t (t₁.put p .directory)

def Entry.text? : Entry → Option String
  | file content => some content
  | directory => none

theorem Entry.text?_eq_some {entry : Entry} {s : String} :
    entry.text? = some s ↔ entry = .file s := by
  cases entry <;> simp [text?]

def fileTexts (t : FileTree) : List String := t.entries.filterMap fun e => e.2.text?

theorem fileTexts_put_directory (t : FileTree) (p : Path) :
    (t.put p .directory).fileTexts.Sublist t.fileTexts := by
  obtain ⟨es⟩ := t
  unfold put fileTexts
  induction es with
  | nil => exact List.Sublist.refl []
  | cons e es ih =>
    simp only [putEntry, List.filterMap_cons]
    split
    · cases e.2 with
      | file content => exact List.sublist_cons_self content _
      | directory => exact List.Sublist.refl _
    · rw [List.filterMap_cons]
      cases e.2 with
      | file content => exact ih.cons_cons content
      | directory => exact ih

theorem fileTexts_erase (t : FileTree) (p : Path) : (t.erase p).fileTexts.Sublist t.fileTexts :=
  List.filter_sublist.filterMap _

theorem fileTexts_move (t : FileTree) (source target : Path) :
    (t.move source target).fileTexts.Sublist t.fileTexts := by
  have hmoved : (t.move source target).fileTexts = (t.erase target).fileTexts := by
    simp only [fileTexts, move, List.filterMap_map]
    rfl
  rw [hmoved]
  exact t.fileTexts_erase target

namespace Rearranged

theorem trans (h : Rearranged S t t₁) (h' : Rearranged S t₁ t₂) : Rearranged S t t₂ := by
  induction h' with
  | refl => exact h
  | erase _ place ih => exact ih.erase place
  | move _ taken given ih => exact ih.move taken given
  | make _ place ih => exact ih.make place

theorem fileTexts_sublist (h : Rearranged S t t₁) : t₁.fileTexts.Sublist t.fileTexts := by
  induction h with
  | refl => exact List.Sublist.refl _
  | erase _ _ ih => exact (fileTexts_erase _ _).trans ih
  | move _ _ _ ih => exact (fileTexts_move _ _ _).trans ih
  | make _ _ ih => exact (fileTexts_put_directory _ _).trans ih

theorem entryAt_eq (h : Rearranged S t t₁) (hq : ∀ p, S p → ¬p <:+ q) :
    t₁.entryAt q = t.entryAt q := by
  have hne {p : Path} (hp : S p) : q ≠ p := by
    rintro rfl
    exact hq _ hp (List.suffix_refl _)
  induction h with
  | refl => rfl
  | erase _ place ih => rw [entryAt_erase, if_neg (hne place), ih]
  | move _ taken given ih => rw [entryAt_move_beside _ _ (hq _ given), if_neg (hq _ taken), ih]
  | make _ place ih => rw [entryAt_put, if_neg (hne place), ih]

variable [FileSystem]

theorem makeInside (t : FileTree) (p : Path) (hS : ∀ q ∈ p.route, S q) :
    Rearranged S t (t.makeInside p).1 := by
  induction p with
  | nil => exact .refl
  | cons name up ih =>
    obtain ⟨hplace, hS⟩ := List.forall_mem_cons.mp hS
    have ih := ih hS
    rw [FileTree.makeInside]
    rcases hmake : t.makeInside up with ⟨t₁, _ | e⟩ <;> rw [hmake] at ih
    · simp only
      split
      · exact ih.make hplace
      · exact ih
    · exact ih

theorem makeDirectories (t : FileTree) (p : Path) (hS : ∀ q ∈ p.route, S q) :
    Rearranged S t (t.makeDirectories p).1 := by
  unfold FileTree.makeDirectories
  split
  · exact .refl
  · exact makeInside t p hS

theorem remove (h : Rearranged S t t₁) (hp : S p.place) (hr : t₁.remove p = .ok t₂) :
    Rearranged S t t₂ := by
  rcases remove_eq_ok hr with rfl | ⟨rfl, -⟩
  · exact h
  · exact h.erase hp

theorem rename (h : Rearranged S t t₁) (hsource : S source.place) (htarget : S target.place)
    (hr : t₁.rename source target = .ok t₂) : Rearranged S t t₂ := by
  obtain ⟨entry, -, -, hover⟩ := rename_eq_ok hr
  rcases moveOver_eq_ok hover with rfl | ⟨rfl, -⟩
  · exact h
  · exact h.move hsource htarget

end Rearranged

end FileTree

namespace Mirror

open FileTree

variable {S : Path → Prop} {Inv : FileTree → Prop} {t t₁ : FileTree} {m : Mirror}
  {p source target : Path}

inductive Shifted : Number → Number → Prop where
  | here {x : Number} (hx : ¬x < .ofInt 1) : Shifted x x
  | next {x y : Number} (hx : ¬x < .ofInt 1) (later : Shifted (x.plus (-1)) y) : Shifted x y

inductive Touched (keep : Number) : Number → Prop where
  | oldest (hkeep : keep ≠ .ofInt 1) : Touched keep (keep.plus (-1))
  | source {x : Number} (hkeep : keep ≠ .ofInt 1) (moved : Shifted (keep.plus (-2)) x) :
      Touched keep x
  | target {x : Number} (hkeep : keep ≠ .ofInt 1) (moved : Shifted (keep.plus (-2)) x) :
    Touched keep (x.plus 1)
  | first (hkeep : keep ≠ .ofInt 1) : Touched keep (.ofInt 1)

theorem andThen_keeps {r : FileTree × Option Halt} {next : FileTree → FileTree × Option Halt}
    (h : Inv r.1) (hnext : ∀ t, Inv t → Inv (next t).1) : Inv (andThen next r).1 := by
  obtain ⟨t, _ | halt⟩ := r
  · exact hnext t h
  · exact h

theorem orUnchanged_keeps {r : Except FileError FileTree} (h : Inv t)
    (hr : ∀ t', r = .ok t' → Inv t') : Inv (orUnchanged t r).1 := by
  cases r with
  | ok t' => exact hr t' rfl
  | error e => exact h

variable [FileSystem]

theorem renameIfPresent_eq_ok (hr : renameIfPresent source target t = .ok t₁) :
    t₁ = t ∨ t.rename source target = .ok t₁ := by
  unfold renameIfPresent at hr
  split at hr
  · exact .inl (Except.ok.inj hr).symm
  · exact .inr hr

theorem renameIfPresent_keeps (h : Inv t)
    (hrename : ∀ t', t.rename source target = .ok t' → Inv t') :
    Inv (orUnchanged t (renameIfPresent source target t)).1 := by
  apply orUnchanged_keeps h
  intro t' hr
  rcases renameIfPresent_eq_ok hr with rfl | hr
  · exact h
  · exact hrename t' hr

theorem shiftArchives_keeps (x : Number) (h : Inv t)
    (hrename : ∀ {t t' y}, Shifted x y → Inv t →
      t.rename (archive p y) (archive p (y.plus 1)) = .ok t' → Inv t') :
    Inv (shiftArchives p x t).1 := by
  induction x, t using shiftArchives.induct with
  | case1 t x hx =>
    rw [shiftArchives, dif_pos hx]
    exact h
  | case2 t x hx ih =>
    rw [shiftArchives, dif_neg hx]
    apply andThen_keeps (renameIfPresent_keeps h fun t' => hrename (.here hx) h)
    intro t₁ h₁
    split
    · next hless => exact ih t₁ hless h₁ fun hy => hrename (.next hx hy)
    · exact h₁

theorem rotate_of_ne_one {keep : Number} (h : keep ≠ .ofInt 1) (p : Path) (t : FileTree) :
    rotate p keep t =
      andThen (fun t => orUnchanged t (renameIfPresent p (archive p (.ofInt 1)) t))
        (andThen (shiftArchives p (keep.plus (-2)))
          (orUnchanged t (t.remove (archive p (keep.plus (-1)))))) := if_neg h

theorem rotate_cases (keep : Number) (h : Inv t)
    (hremove : ∀ {t t' x}, Touched keep x → Inv t → t.remove (archive p x) = .ok t' → Inv t')
    (hrename : ∀ {t t' x y}, Touched keep x → Touched keep y → Inv t →
      t.rename (archive p x) (archive p y) = .ok t' → Inv t') :
    ∃ t₁, Inv t₁ ∧ ((rotate p keep t).1 = t₁ ∨ t₁.remove p = .ok (rotate p keep t).1 ∨
      keep ≠ .ofInt 1 ∧ t₁.rename p (archive p (.ofInt 1)) = .ok (rotate p keep t).1) := by
  by_cases hone : keep = .ofInt 1
  · refine ⟨t, h, ?_⟩
    rw [rotate, if_pos hone]
    cases hr : t.remove p with
    | ok t₁ => exact .inr (.inl rfl)
    | error e => exact .inl rfl
  · have hshifted : Inv (andThen (shiftArchives p (keep.plus (-2)))
        (orUnchanged t (t.remove (archive p (keep.plus (-1)))))).1 := by
      apply andThen_keeps
      · exact orUnchanged_keeps h fun t' => hremove (.oldest hone) h
      · exact fun t₁ h₁ => shiftArchives_keeps _ h₁ fun hy =>
          hrename (.source hone hy) (.target hone hy)
    rw [rotate_of_ne_one hone]
    generalize andThen (shiftArchives p (keep.plus (-2))) _ = shifted at hshifted
    obtain ⟨t₁, _ | halt⟩ := shifted
    · refine ⟨t₁, hshifted, ?_⟩
      rw [andThen]
      cases hr : renameIfPresent p (archive p (.ofInt 1)) t₁ with
      | error e => exact .inl rfl
      | ok t₂ =>
        rcases renameIfPresent_eq_ok hr with rfl | hr
        · exact .inl rfl
        · exact .inr (.inr ⟨hone, hr⟩)
    · exact ⟨t₁, hshifted, .inl rfl⟩

def Prepared (m : Mirror) (t t₁ : FileTree) : Prop :=
  t₁ = (m.ensureDirectory t).1 ∨ t₁ = (rotate m.path m.keep (m.ensureDirectory t).1).1

theorem ensureDirectory_of_directory {name : String} {up : Path} (hpath : m.path = name :: up)
    (hname : Path.IsName name) (hallowed : Path.Allowed (name :: up))
    (hdir : t.directoryError? up = none) : m.ensureDirectory t = (t, none) := by
  unfold ensureDirectory
  split
  · rfl
  · rw [hpath, Path.parent_cons hname, makeDirectories, hallowed.tail.whole]
    exact makeInside_of_directoryError? hdir

theorem rotateIfNeeded_cases (m : Mirror) (pending : Nat) (t : FileTree) :
    (∃ t₁ failures, m.rotateIfNeeded pending t = (t₁, .ok failures) ∧ .write ∉ failures ∧
      (t₁ = t ∨ t₁ = (rotate m.path m.keep t).1)) ∨
    (∃ e, m.rotateIfNeeded pending t = (t, .error (.error e)) ∧ t.pathError? m.path = some e) ∨
    m.rotateIfNeeded pending t = ((rotate m.path m.keep t).1, .error .endless) ∧
      (rotate m.path m.keep t).2 = some .endless := by
  unfold rotateIfNeeded
  split
  · exact .inl ⟨t, [], rfl, List.not_mem_nil, .inl rfl⟩
  · next hmissing hstat => exact .inr (.inl ⟨_, rfl, pathError?_of_stat hstat hmissing⟩)
  · split
    · exact .inl ⟨t, [], rfl, List.not_mem_nil, .inl rfl⟩
    · rcases rotate m.path m.keep t with ⟨t₁, _ | _ | _⟩
      · exact .inl ⟨t₁, [], rfl, List.not_mem_nil, .inr rfl⟩
      · exact .inl ⟨t₁, [.rotation], rfl, by decide, .inr rfl⟩
      · exact .inr (.inr ⟨rfl, rfl⟩)

theorem write_cases (m : Mirror) (line : String) (t : FileTree) :
    (∃ t₁ failures, m.write line t = ({ m with ready := false }, t₁, failures ++ [.write]) ∧
      .write ∉ failures ∧ m.Prepared t t₁) ∨
    (∃ t₁ t₂ failures, m.write line t = ({ m with ready := true }, t₂, failures) ∧
      .write ∉ failures ∧ m.Prepared t t₁ ∧ t₁.append m.path line = .ok t₂) ∨
    (m.stuck = true ∨ (rotate m.path m.keep (m.ensureDirectory t).1).2 = some .endless) ∧
      ∃ t₁, m.write line t = ({ m with stuck := true }, t₁, []) ∧ (t₁ = t ∨ m.Prepared t t₁) := by
  unfold write
  cases hstuck : m.stuck with
  | true =>
    have hsame : { m with stuck := true } = m := by rw [← hstuck]
    rw [hsame]
    exact .inr (.inr ⟨.inl rfl, t, rfl, .inl rfl⟩)
  | false =>
    simp only [Bool.false_eq_true, ↓reduceIte]
    unfold Prepared
    rcases m.ensureDirectory t with ⟨made, _ | e⟩
    case some => exact .inl ⟨made, [], rfl, List.not_mem_nil, .inl rfl⟩
    case none =>
      simp only
      rcases m.rotateIfNeeded_cases line.utf8ByteSize made with
        ⟨t₁, failures, hneeded, hfailures, ht₁⟩ | ⟨e, hneeded, -⟩ | ⟨hneeded, hendless⟩ <;>
          rw [hneeded]
      · simp only
        cases happend : t₁.append m.path line with
        | ok t₂ => exact .inr (.inl ⟨t₁, t₂, failures, rfl, hfailures, ht₁, happend⟩)
        | error e => exact .inl ⟨t₁, failures, rfl, hfailures, ht₁⟩
      · exact .inl ⟨made, [], rfl, List.not_mem_nil, .inl rfl⟩
      · exact .inr (.inr ⟨.inr hendless, _, rfl, .inr (.inr rfl)⟩)

theorem rearranged_rotate {keep : Number} (hp : S p.place)
    (hS : ∀ x, Touched keep x → S (archive p x).place) (t : FileTree) :
    Rearranged S t (rotate p keep t).1 := by
  obtain ⟨t₁, h, hlast⟩ := rotate_cases keep (Rearranged.refl : Rearranged S t t)
    (fun hx h => h.remove (hS _ hx)) (fun hx hy h => h.rename (hS _ hx) (hS _ hy))
  rcases hlast with hlast | hlast | ⟨hone, hlast⟩
  · exact hlast ▸ h
  · exact h.remove hp hlast
  · exact h.rename hp (hS _ (.first hone)) hlast

theorem grown_rotate (p : Path) (keep : Number) (h : t.Grown) : (rotate p keep t).1.Grown := by
  obtain ⟨t₁, h₁, hlast⟩ :=
    rotate_cases (p := p) keep h (fun _ h => h.remove) (fun _ _ h => h.rename)
  rcases hlast with hlast | hlast | ⟨-, hlast⟩
  · exact hlast ▸ h₁
  · exact h₁.remove hlast
  · exact h₁.rename hlast

theorem Prepared.grown (ht₁ : m.Prepared t t₁) (h : t.Grown) : t₁.Grown := by
  have hensured : (m.ensureDirectory t).1.Grown := by
    unfold ensureDirectory
    split
    · exact h
    · exact h.makeDirectories _
  rcases ht₁ with rfl | rfl
  · exact hensured
  · exact grown_rotate m.path m.keep hensured

theorem Prepared.fileTexts_sublist (ht₁ : m.Prepared t t₁) : t₁.fileTexts.Sublist t.fileTexts := by
  have hensured : Rearranged (fun _ => True) t (m.ensureDirectory t).1 := by
    unfold ensureDirectory
    split
    · exact .refl
    · exact .makeDirectories t _ fun _ _ => trivial
  rcases ht₁ with rfl | rfl
  · exact hensured.fileTexts_sublist
  · exact (hensured.trans (rearranged_rotate trivial (fun _ _ => trivial) _)).fileTexts_sublist

theorem grown_write (m : Mirror) (h : t.Grown) (line : String) : (m.write line t).2.1.Grown := by
  rcases m.write_cases line t with ⟨t₁, failures, hwrite, -, ht₁⟩ |
    ⟨t₁, t₂, failures, hwrite, -, ht₁, happend⟩ | ⟨-, t₁, hwrite, rfl | ht₁⟩ <;> rw [hwrite]
  · exact ht₁.grown h
  · exact (ht₁.grown h).append happend
  · exact h
  · exact ht₁.grown h

end Mirror

end RuleForest
