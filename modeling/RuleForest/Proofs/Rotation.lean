import Mathlib.Logic.Function.Basic
import RuleForest.Proofs.Rearrangement
import RuleForest.Proofs.Slots

namespace RuleForest

namespace Mirror

variable {name : String} {up base : Path} {i j last : Nat}

def stock (name : String) (base : Path) (t : FileTree) (i : Nat) : Path → Option FileTree.Entry :=
  t.contentAt (slotName name i :: base)

def nothing : Path → Option FileTree.Entry := fun _ => none

structure Restocked (name : String) (base : Path) (t : FileTree)
    (stocked : Nat → Path → Option FileTree.Entry) (t' : FileTree) : Prop where
  stock_eq : stock name base t' = stocked
  beside (q : Path) : (∀ i, ¬slotName name i :: base <:+ q) → t'.entryAt q = t.entryAt q

theorem slot_suffix_iff {inner : Path} :
    slotName name i :: base <:+ inner ++ slotName name j :: base ↔ i = j := by
  constructor
  · rintro ⟨rest, hrest⟩
    exact slot_inj.mp (List.append_inj' hrest rfl).2
  · rintro rfl
    exact List.suffix_append _ _

namespace Restocked

variable {t t₁ t₂ : FileTree} {f g : Nat → Path → Option FileTree.Entry}

theorem refl (t : FileTree) : Restocked name base t (stock name base t) t := ⟨rfl, fun _ _ => rfl⟩

theorem trans (h : Restocked name base t f t₁) (h' : Restocked name base t₁ g t₂) :
    Restocked name base t g t₂ where
  stock_eq := h'.stock_eq
  beside q hq := (h'.beside q hq).trans (h.beside q hq)

theorem erase (hinside : ∀ inner, inner ≠ [] → stock name base t i inner = none) :
    Restocked name base t (Function.update (stock name base t) i nothing)
      (t.erase (slotName name i :: base)) where
  stock_eq := by
    funext j inner
    simp only [stock, FileTree.contentAt, FileTree.entryAt_erase]
    by_cases hj : j = i
    · subst hj
      rw [Function.update_self]
      split
      · rfl
      · next hne =>
        apply hinside
        rintro rfl
        exact hne rfl
    · rw [Function.update_of_ne hj, if_neg]
      · rfl
      · intro heq
        exact hj (slot_suffix_iff.mp ⟨[], heq.symm⟩).symm
  beside q hq := by
    rw [FileTree.entryAt_erase, if_neg]
    rintro rfl
    exact hq i (List.suffix_refl _)

theorem move (hne : i ≠ j) (hfree : stock name base t j = nothing) :
    Restocked name base t
      (Function.update (Function.update (stock name base t) i nothing) j (stock name base t i))
      (t.move (slotName name i :: base) (slotName name j :: base)) := by
  have hfree := FileTree.not_suffix_of_free (congrFun hfree)
  constructor
  case stock_eq =>
    funext k inner
    by_cases hk : k = j
    · subst hk
      rw [Function.update_self]
      exact FileTree.entryAt_move_inside hfree inner
    · have hout : ¬slotName name j :: base <:+ inner ++ slotName name k :: base :=
        fun hs => hk (slot_suffix_iff.mp hs).symm
      rw [Function.update_of_ne hk, stock, FileTree.contentAt,
        FileTree.entryAt_move_beside t _ hout]
      simp only [slot_suffix_iff, eq_comm (a := i)]
      by_cases hki : k = i
      · subst hki
        rw [Function.update_self, if_pos rfl, nothing]
      · rw [Function.update_of_ne hki, if_neg hki]
        rfl
  case beside =>
    intro q hq
    rw [FileTree.entryAt_move_beside t _ (hq j), if_neg (hq i)]

theorem entryAt_eq (last : Nat) (hr : Restocked name base t f t₁)
    (hsame : ∀ j, last < j → f j = stock name base t j) {q : Path}
    (hq : ∀ i ≤ last, ¬slotName name i :: base <:+ q) : t₁.entryAt q = t.entryAt q := by
  by_cases hin : ∃ i, slotName name i :: base <:+ q
  · obtain ⟨i, hs⟩ := hin
    obtain ⟨inner, rfl⟩ := hs
    have hi : last < i := Nat.lt_of_not_le fun hle => hq i hle (List.suffix_append _ _)
    have hstock : stock name base t₁ i inner = f i inner := by rw [hr.stock_eq]
    rw [hsame i hi] at hstock
    exact hstock
  · exact hr.beside q fun i hi => hin ⟨i, hi⟩

end Restocked

def shiftedUp (k : Nat) (f : Nat → Path → Option FileTree.Entry) (j : Nat) :
    Path → Option FileTree.Entry :=
  if j = 0 ∨ k + 1 < j then f j else if j = 1 then nothing else f (j - 1)

def passedOn (keep : Nat) (f : Nat → Path → Option FileTree.Entry) (j : Nat) :
    Path → Option FileTree.Entry :=
  if j = 0 then nothing else if j < keep then f (j - 1) else f j

/-- The greatest number up to which each is one more than another. -/
def maxKeep : Nat := Nat.pow 2 Number.significantBits

structure Holds (name : String) (up : Path) (files : Nat → Option String) (t : FileTree) :
    Prop where
  directory (q : Path) : t.HasDirectory q ↔ q ∈ up.route
  file (q : Path) (s : String) :
    t.entryAt q = some (.file s) ↔ ∃ i, q = slotName name i :: up.place ∧ files i = some s

def rotated (keep : Nat) (files : Nat → Option String) (j : Nat) : Option String :=
  if j = 0 ∨ keep ≤ j then none else files (j - 1)

namespace Holds

variable {files : Nat → Option String} {t : FileTree} (h : Holds name up files t)
include h

theorem entryAt_slot (hi : slotName name i :: up.place ∉ up.route) :
    t.entryAt (slotName name i :: up.place) = (files i).map .file := by
  cases hf : files i with
  | some s => exact (h.file _ s).mpr ⟨i, rfl, hf⟩
  | none =>
    cases he : t.entryAt (slotName name i :: up.place) with
    | none => rfl
    | some entry =>
      cases entry with
      | directory => exact absurd ((h.directory _).mp (.inr he)) hi
      | file s =>
        obtain ⟨j, hj, hs⟩ := (h.file _ s).mp he
        rw [slot_inj.mp hj, hs] at hf
        cases hf

theorem put (hi : slotName name i :: up.place ∉ up.route) (s : String) :
    Holds name up (Function.update files i (some s))
      (t.put (slotName name i :: up.place) (.file s)) where
  directory q := by
    rw [← h.directory, FileTree.HasDirectory, FileTree.entryAt_put]
    by_cases hq : q = slotName name i :: up.place
    · have hnot : ¬t.HasDirectory (slotName name i :: up.place) := fun hd =>
        hi ((h.directory _).mp hd)
      simp [hq, hnot]
    · rw [if_neg hq, FileTree.HasDirectory]
  file q content := by
    rw [FileTree.entryAt_put]
    by_cases hq : q = slotName name i :: up.place
    · subst hq
      simp
    · rw [if_neg hq, h.file]
      refine exists_congr fun j => and_congr_right fun hj => ?_
      rw [Function.update_of_ne]
      rintro rfl
      exact hq hj

theorem grown : t.Grown := by
  intro n q hq
  obtain ⟨entry, hentry⟩ := Option.ne_none_iff_exists'.mp hq
  apply (h.directory q).mpr
  cases entry with
  | directory =>
    exact Path.mem_route_of_suffix ((h.directory _).mp (.inr hentry)) (List.suffix_cons n q)
  | file s =>
    obtain ⟨i, hi, -⟩ := (h.file _ s).mp hentry
    obtain ⟨-, rfl⟩ := List.cons.inj hi
    exact Path.place_mem_route up

end Holds

theorem plus_of_lt_maxKeep {m n : Nat} {d : Int} (h : (m : Int) + d = n) (hn : n < maxKeep) :
    (Number.ofInt m).plus d = .ofInt n := by
  rw [← h]
  refine Number.plus_ofInt ?_
  rwa [h, Int.natAbs_natCast]

variable [FileSystem]

theorem shiftArchives_zero (p : Path) (t : FileTree) :
    shiftArchives p (.ofInt 0) t = (t, none) := by
  rw [shiftArchives, dif_pos (by decide)]

theorem shiftArchives_succ {k : Nat} (hk : k + 2 < maxKeep) (p : Path) (t : FileTree) :
    shiftArchives p (.ofInt (k + 1 : Nat)) t =
      andThen (shiftArchives p (.ofInt k))
        (orUnchanged t (renameIfPresent (slot p (k + 1)) (slot p (k + 2)) t)) := by
  have hpos : ¬Number.ofInt (k + 1 : Nat) < .ofInt 1 := by
    rw [Number.ofInt_lt_ofInt]
    omega
  have hnext : (Number.ofInt (k + 1 : Nat)).plus 1 = .ofInt (k + 2 : Nat) :=
    plus_of_lt_maxKeep (by omega) hk
  have hbefore : (Number.ofInt (k + 1 : Nat)).plus (-1) = .ofInt k :=
    plus_of_lt_maxKeep (by omega) (by omega)
  have hless : (Number.ofInt k).ceil < (Number.ofInt (k + 1 : Nat)).ceil := by
    rw [Number.ceil_ofInt, Number.ceil_ofInt]
    omega
  rw [shiftArchives, dif_neg hpos, hnext, hbefore,
    archive_ofInt (Nat.succ_pos k) (Nat.lt_of_succ_lt hk),
    archive_ofInt (Nat.succ_pos (k + 1)) hk]
  simp only [if_pos hless]

theorem rotate_one (p : Path) (t : FileTree) :
    rotate p (.ofInt (1 : Nat)) t = orUnchanged t (t.remove p) := if_pos rfl

theorem rotate_ofInt {k : Nat} (hk : k + 2 ≤ maxKeep) (p : Path) (t : FileTree) :
    rotate p (.ofInt (k + 2 : Nat)) t =
      andThen (fun t => orUnchanged t (renameIfPresent p (slot p 1) t))
        (andThen (shiftArchives p (.ofInt k)) (orUnchanged t (t.remove (slot p (k + 1))))) := by
  have hone : Number.ofInt (k + 2 : Nat) ≠ .ofInt 1 := by
    intro h
    have := congrArg Number.mantissa h
    simp only [Number.ofInt] at this
    omega
  have hlast : (Number.ofInt (k + 2 : Nat)).plus (-1) = .ofInt (k + 1 : Nat) :=
    plus_of_lt_maxKeep (by omega) (by omega)
  have hbefore : (Number.ofInt (k + 2 : Nat)).plus (-2) = .ofInt k :=
    plus_of_lt_maxKeep (by omega) (by omega)
  have hfirst : archive p (.ofInt 1) = slot p 1 := archive_ofInt Nat.one_pos (by decide) p
  rw [rotate_of_ne_one hone, hlast, hbefore,
    archive_ofInt (Nat.succ_pos k) hk, hfirst]

structure Site (name : String) (up : Path) (last : Nat) (t : FileTree) : Prop
    extends Room name up last where
  grown : t.Grown
  directory : t.directoryError? up = none

namespace Site

variable {t t' : FileTree} {f : Nat → Path → Option FileTree.Entry}

theorem restocked (h : Site name up last t) (hr : Restocked name up.place t f t')
    (hsame : ∀ j, last < j → f j = stock name up.place t j) (hgrown : t'.Grown) :
    Site name up last t' where
  toRoom := h.toRoom
  grown := hgrown
  directory := FileTree.directoryError?_mono h.directory fun q hq hd => by
    rwa [FileTree.HasDirectory, hr.entryAt_eq last hsame fun i hi => h.toRoom.not_suffix hi hq]

theorem pathError?_slot (h : Site name up last t) (hi : i ≤ last) :
    t.pathError? (slotName name i :: up) = none :=
  FileTree.pathError?_of_allowed (h.slot hi) h.directory

theorem lookup_slot (h : Site name up last t) (i : Nat) :
    t.lookup (slotName name i :: up) = stock name up.place t i [] :=
  FileTree.lookup_cons (isName_slotName h.named i)

theorem stat_slot (h : Site name up last t) (hi : i ≤ last) :
    t.stat (slotName name i :: up) = (stock name up.place t i []).elim (.error .missing) .ok := by
  have hl := h.lookup_slot i
  cases hs : stock name up.place t i [] with
  | none => exact FileTree.stat_of_missing (h.pathError?_slot hi) (hl.trans hs)
  | some entry => exact FileTree.stat_eq_ok.mpr ⟨h.pathError?_slot hi, hl.trans hs⟩

theorem nothing_inside (h : Site name up last t)
    (hd : stock name up.place t i [] ≠ some .directory) {inner : Path} (hinner : inner ≠ []) :
    stock name up.place t i inner = none :=
  h.grown.nothing_inside (List.cons_ne_nil _ _) hd hinner

theorem stock_eq_nothing (h : Site name up last t) (hi : stock name up.place t i [] = none) :
    stock name up.place t i = nothing := by
  funext inner
  by_cases hinner : inner = []
  · rw [hinner, hi, nothing]
  · exact h.nothing_inside (by rw [hi]; simp) hinner

theorem remove (h : Site name up last t) (hi : i ≤ last)
    (hd : stock name up.place t i [] ≠ some .directory) :
    ∃ t', t.remove (slotName name i :: up) = .ok t' ∧
      Restocked name up.place t (Function.update (stock name up.place t) i nothing) t' ∧
      Site name up last t' := by
  have hs := h.stat_slot hi
  suffices hremove : ∃ t', t.remove (slotName name i :: up) = .ok t' ∧
      Restocked name up.place t (Function.update (stock name up.place t) i nothing) t' by
    obtain ⟨t', hr, h'⟩ := hremove
    refine ⟨t', hr, h', h.restocked h' ?_ (h.grown.remove hr)⟩
    intro j hj
    rw [Function.update_of_ne (by omega)]
  cases hentry : stock name up.place t i [] with
  | none =>
    refine ⟨t, ?_, ?_⟩
    · simp only [FileTree.remove, hs, hentry, Option.elim_none]
    · rw [← h.stock_eq_nothing hentry, Function.update_eq_self]
      exact .refl t
  | some entry =>
    cases entry with
    | directory => exact absurd hentry hd
    | file s =>
      refine ⟨t.erase (slotName name i :: up.place), ?_, ?_⟩
      · simp only [FileTree.remove, hs, hentry, Option.elim_some, h.place_slot]
      · exact .erase fun inner hinner => h.nothing_inside hd hinner

theorem renameIfPresent (h : Site name up last t) (hi : i ≤ last) (hj : j ≤ last) (hne : i ≠ j)
    (hfree : stock name up.place t j = nothing) :
    ∃ t', Mirror.renameIfPresent (slotName name i :: up) (slotName name j :: up) t = .ok t' ∧
      Restocked name up.place t (Function.update
        (Function.update (stock name up.place t) i nothing) j (stock name up.place t i)) t' ∧
      Site name up last t' := by
  have hs := h.stat_slot hi
  have hwhole := (h.slot hj).whole
  cases hentry : stock name up.place t i [] with
  | none =>
    refine ⟨t, ?_, ?_, h⟩
    · simp only [Mirror.renameIfPresent, FileTree.rename, hwhole, hs, hentry, Option.elim_none]
    · rw [← h.stock_eq_nothing hentry, Function.update_eq_self, h.stock_eq_nothing hentry, ← hfree,
        Function.update_eq_self]
      exact .refl t
  | some entry =>
    have hslots : slotName name i :: up.place ≠ slotName name j :: up.place :=
      fun hs => hne (slot_inj.mp hs)
    have hlookup : t.lookup (slotName name j :: up.place) = none := by
      rw [FileTree.lookup_cons (isName_slotName h.named j), Path.place_place]
      exact congrFun hfree []
    have happart : ¬slotName name i :: up.place <:+ slotName name j :: up.place :=
      fun hs => hslots (hs.eq_of_length rfl)
    have hrename : t.rename (slotName name i :: up) (slotName name j :: up) =
        .ok (t.move (slotName name i :: up.place) (slotName name j :: up.place)) := by
      simp only [FileTree.rename, hwhole, hs, hentry, Option.elim_some, h.pathError?_slot hj,
        h.place_slot, FileTree.moveOver, hslots, ↓reduceIte, List.isSuffixOf_iff_suffix, happart,
        hlookup]
    have hmove := Restocked.move hne hfree
    refine ⟨_, ?_, hmove, h.restocked hmove ?_ (h.grown.rename hrename)⟩
    · simp only [Mirror.renameIfPresent, hrename]
    · intro k hk
      rw [Function.update_of_ne (by omega), Function.update_of_ne (by omega)]

theorem shiftArchives (h : Site name up last t) (hlast : last < maxKeep) {k : Nat}
    (hk : k + 1 ≤ last) (hfree : stock name up.place t (k + 1) = nothing) :
    ∃ t', Mirror.shiftArchives (name :: up) (.ofInt k) t = (t', none) ∧
      Restocked name up.place t (shiftedUp k (stock name up.place t)) t' ∧
      Site name up last t' := by
  induction k generalizing t with
  | zero =>
    have hsame : shiftedUp 0 (stock name up.place t) = stock name up.place t := by
      funext j
      unfold shiftedUp
      grind
    refine ⟨t, shiftArchives_zero _ t, ?_, h⟩
    rw [hsame]
    exact .refl t
  | succ k ih =>
    -- Each move leaves the place free that the next one needs.
    obtain ⟨t₁, hrename, h₁, hsite₁⟩ :=
      h.renameIfPresent (i := k + 1) (by omega) hk (by omega) hfree
    obtain ⟨t₂, hshift, h₂, hsite₂⟩ :=
      ih hsite₁ (by omega) (by rw [h₁.stock_eq]; simp [Function.update])
    refine ⟨t₂, ?_, ?_, hsite₂⟩
    · rw [shiftArchives_succ (by omega), slot_cons, slot_cons, hrename]
      exact hshift
    · have hsame : shiftedUp k (stock name up.place t₁) =
          shiftedUp (k + 1) (stock name up.place t) := by
        funext j
        rw [h₁.stock_eq]
        simp only [shiftedUp, Function.update_apply]
        grind
      exact hsame ▸ h₁.trans h₂

theorem rotate {keep : Nat} (hkeep : 1 ≤ keep) (hmax : keep ≤ maxKeep)
    (h : Site name up (keep - 1) t) (hd : stock name up.place t (keep - 1) [] ≠ some .directory) :
    ∃ t', Mirror.rotate (name :: up) (.ofInt keep) t = (t', none) ∧
      Restocked name up.place t (passedOn keep (stock name up.place t)) t' ∧
      Site name up (keep - 1) t' := by
  obtain ⟨t₁, hremove, h₁, hsite₁⟩ := h.remove (Nat.le_refl _) hd
  obtain rfl | ⟨k, rfl⟩ : keep = 1 ∨ ∃ k, keep = k + 2 := by
    rcases Nat.lt_or_ge 1 keep with hk | hk
    · exact .inr ⟨keep - 2, by omega⟩
    · exact .inl (by omega)
  · refine ⟨t₁, ?_, ?_, hsite₁⟩
    · have hremove : t.remove (name :: up) = .ok t₁ := hremove
      rw [rotate_one, hremove, orUnchanged]
    · have hsame : passedOn 1 (stock name up.place t) =
          Function.update (stock name up.place t) 0 nothing := by
        funext j
        simp only [passedOn, Function.update_apply]
        grind
      exact hsame ▸ h₁
  · obtain ⟨t₂, hshift, h₂, hsite₂⟩ := hsite₁.shiftArchives (k := k) (by omega) (Nat.le_refl _)
      (by rw [h₁.stock_eq]; simp)
    obtain ⟨t₃, hrename, h₃, hsite₃⟩ := hsite₂.renameIfPresent (i := 0) (j := 1) (by omega)
      (by omega) (by omega) (by rw [h₂.stock_eq, h₁.stock_eq]; simp [shiftedUp])
    refine ⟨t₃, ?_, ?_, hsite₃⟩
    · have hrename : Mirror.renameIfPresent (name :: up) (slot (name :: up) 1) t₂ = .ok t₃ :=
        hrename
      have hremove : t.remove (slot (name :: up) (k + 1)) = .ok t₁ := hremove
      rw [rotate_ofInt hmax, hremove, orUnchanged, andThen, hshift, andThen, hrename, orUnchanged]
    · have hsame : passedOn (k + 2) (stock name up.place t) = Function.update
          (Function.update (stock name up.place t₂) 0 nothing) 1 (stock name up.place t₂ 0) := by
        funext j
        rw [h₂.stock_eq, h₁.stock_eq]
        simp only [passedOn, shiftedUp, Function.update_apply]
        grind
      exact hsame ▸ (h₁.trans h₂).trans h₃

theorem append (h : Site name up last t) (old : String)
    (hold : (stock name up.place t 0 []).getD (.file "") = .file old) (line : String) :
    t.append (name :: up) line = .ok (t.put (name :: up.place) (.file (old ++ line))) := by
  have hs : t.stat (name :: up) = _ := h.stat_slot (Nat.zero_le last)
  have hp : t.pathError? (name :: up) = none := h.pathError?_slot (Nat.zero_le last)
  have hl : t.lookup (name :: up) = _ := h.lookup_slot 0
  have hplace : Path.place (name :: up) = name :: up.place := h.place_slot 0
  cases hf : stock name up.place t 0 [] with
  | none =>
    rw [hf, Option.getD_none, FileTree.Entry.file.injEq] at hold
    rw [hf] at hs hl
    simp only [FileTree.append, hs, Option.elim_none, FileTree.write, hp, hl, hplace, ← hold,
      String.empty_append]
  | some entry =>
    obtain rfl : entry = .file old := by rwa [hf] at hold
    rw [hf] at hs hl
    simp only [FileTree.append, hs, Option.elim_some, FileTree.write, hp, hl, hplace]

end Site

theorem rotate_of_remove_error {keep : Nat} (hkeep : 2 ≤ keep) (hmax : keep ≤ maxKeep) {p : Path}
    {t : FileTree} {e : FileError} (hr : t.remove (slot p (keep - 1)) = .error e) :
    Mirror.rotate p (.ofInt keep) t = (t, some (.error e)) := by
  obtain ⟨k, rfl⟩ : ∃ k, keep = k + 2 := ⟨keep - 2, by omega⟩
  have hr : t.remove (slot p (k + 1)) = .error e := hr
  rw [rotate_ofInt hmax, hr, orUnchanged, andThen, andThen]

theorem remove_error {t : FileTree} (hdir : t.directoryError? up = none)
    (h : ¬Path.Allowed (name :: up) ∨ t.lookup (name :: up) = some .directory) :
    ∃ e, t.remove (name :: up) = .error e := by
  by_cases ha : Path.Allowed (name :: up)
  · have hd : t.lookup (name :: up) = some .directory := h.resolve_left fun hn => hn ha
    have hstat := FileTree.stat_eq_ok.mpr ⟨FileTree.pathError?_of_allowed ha hdir, hd⟩
    exact ⟨.isDirectory, by simp only [FileTree.remove, hstat]⟩
  · obtain ⟨e, he, hne⟩ := FileTree.pathError?_of_not_allowed ha hdir
    have hstat : t.stat (name :: up) = .error e := by simp only [FileTree.stat, he]
    exact ⟨e, by simp only [FileTree.remove, hstat]⟩

namespace Holds

variable {files : Nat → Option String} {t : FileTree} (h : Holds name up files t)
include h

theorem site (hroom : Room name up last) : Site name up last t where
  toRoom := hroom
  grown := h.grown
  directory := FileTree.directoryError?_eq_none.mpr
    ⟨hroom.allowed.tail.names, fun q hq => (h.directory q).mpr hq⟩

theorem lookup_slot (hroom : Room name up last) (hi : i ≤ last) :
    t.lookup (slotName name i :: up) = (files i).map .file := by
  rw [FileTree.lookup_cons (isName_slotName hroom.named i), h.entryAt_slot (hroom.apart i hi)]

theorem stat_slot (hroom : Room name up last) (hi : i ≤ last) :
    t.stat (slotName name i :: up) =
      (files i).elim (.error .missing) fun s => .ok (.file s) := by
  have hfile : stock name up.place t i [] = (files i).map .file := h.entryAt_slot (hroom.apart i hi)
  rw [(h.site hroom).stat_slot hi, hfile]
  cases files i <;> rfl

theorem stock_eq (hroom : Room name up last) (hi : i ≤ last) (inner : Path) :
    stock name up.place t i inner = if inner = [] then (files i).map .file else none := by
  have hfile : stock name up.place t i [] = (files i).map .file := h.entryAt_slot (hroom.apart i hi)
  split
  · next hinner => rw [hinner, hfile]
  · next hinner =>
    apply (h.site hroom).nothing_inside _ hinner
    rw [hfile]
    cases files i <;> simp

theorem restocked (hroom : Room name up last) {f : Nat → Path → Option FileTree.Entry}
    {files' : Nat → Option String} {t' : FileTree} (hr : Restocked name up.place t f t')
    (hfiles : ∀ i ≤ last, f i = fun inner => if inner = [] then (files' i).map .file else none)
    (hsame : ∀ i, last < i → f i = stock name up.place t i ∧ files' i = files i) :
    Holds name up files' t' := by
  have hbeside {q : Path} (hq : ∀ i ≤ last, ¬slotName name i :: up.place <:+ q) :
      t'.entryAt q = t.entryAt q := hr.entryAt_eq last (fun j hj => (hsame j hj).1) hq
  have hinside (i : Nat) (hi : i ≤ last) (inner : Path) :
      t'.entryAt (inner ++ slotName name i :: up.place) =
        if inner = [] then (files' i).map .file else none := by
    rw [← congrFun (hfiles i hi) inner, ← hr.stock_eq]
    rfl
  constructor
  case directory =>
    intro q
    by_cases hq : ∃ i ≤ last, slotName name i :: up.place <:+ q
    · obtain ⟨i, hi, inner, rfl⟩ := hq
      have hout : inner ++ slotName name i :: up.place ∉ up.route := fun hmem =>
        hroom.not_suffix hi hmem (List.suffix_append _ _)
      rw [FileTree.HasDirectory, hinside i hi]
      split
      · cases files' i <;> simp [hout]
      · simp [hout]
    · rw [FileTree.HasDirectory, hbeside fun i hi hs => hq ⟨i, hi, hs⟩]
      exact h.directory q
  case file =>
    intro q s
    by_cases hq : ∃ i ≤ last, slotName name i :: up.place <:+ q
    · obtain ⟨i, hi, inner, rfl⟩ := hq
      rw [hinside i hi]
      constructor
      · intro hs
        split at hs
        · next hinner =>
          subst hinner
          exact ⟨i, rfl, by simpa using hs⟩
        · cases hs
      · rintro ⟨j, hj, hs⟩
        obtain rfl := slot_suffix_iff.mp
          (hj ▸ List.suffix_append inner (slotName name i :: up.place) :
            slotName name i :: up.place <:+ [] ++ slotName name j :: up.place)
        rw [if_pos (List.append_left_eq_self.mp hj), hs]
        rfl
    · rw [hbeside fun i hi hs => hq ⟨i, hi, hs⟩, h.file]
      refine exists_congr fun i => and_congr_right fun hi => ?_
      have hlast : last < i := Nat.lt_of_not_le fun hle => hq ⟨i, hle, hi ▸ List.suffix_refl _⟩
      rw [(hsame i hlast).2]

theorem rotate {keep : Nat} (hkeep : 1 ≤ keep) (hmax : keep ≤ maxKeep)
    (hroom : Room name up (keep - 1)) (hfiles : ∀ j, keep ≤ j → files j = none) :
    ∃ t', Mirror.rotate (name :: up) (.ofInt keep) t = (t', none) ∧
      Holds name up (rotated keep files) t' := by
  have hlast : stock name up.place t (keep - 1) [] ≠ some .directory := by
    rw [h.stock_eq hroom (Nat.le_refl _), if_pos rfl]
    cases files (keep - 1) <;> simp
  obtain ⟨t', hrotate, hr, -⟩ := (h.site hroom).rotate hkeep hmax hlast
  refine ⟨t', hrotate, h.restocked hroom hr ?_ ?_⟩
  · intro i hi
    funext inner
    rcases Nat.eq_zero_or_pos i with rfl | hpos
    · simp [passedOn, rotated, nothing]
    · have hne : i ≠ 0 := by omega
      have hlt : i < keep := by omega
      have hnot : ¬(i = 0 ∨ keep ≤ i) := by omega
      rw [passedOn, if_neg hne, if_pos hlt, rotated, if_neg hnot, h.stock_eq hroom (by omega)]
  · intro i hi
    have hne : i ≠ 0 := by omega
    have hle : keep ≤ i := by omega
    rw [passedOn, if_neg hne, if_neg (by omega), rotated, if_pos (.inr hle), hfiles i hle]
    exact ⟨rfl, rfl⟩

theorem append (hroom : Room name up last) (line : String) :
    ∃ t', t.append (name :: up) line = .ok t' ∧
      Holds name up (Function.update files 0 (some ((files 0).getD "" ++ line))) t' := by
  refine ⟨_, (h.site hroom).append _ ?_ line, h.put (hroom.apart 0 (Nat.zero_le last)) _⟩
  rw [h.stock_eq hroom (Nat.zero_le last), if_pos rfl]
  cases files 0 <;> rfl

end Holds

end Mirror

end RuleForest
