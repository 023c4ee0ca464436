import Mathlib.Data.List.Chain
import RuleForest.Proofs.Changes
import RuleForest.Proofs.Overflow

namespace RuleForest

namespace Mirror

open FileTree

variable {t t₁ : FileTree} {m : Mirror} {name : String} {up p q : Path} {x keep : Number}

def SkipsArchives (p : Path) (keep : Number) : Prop :=
  ∀ x, Touched keep x → (archive p x).place ∉ p.around

theorem isName_archive (h : Path.IsName name) (x : Number) :
    Path.IsName (name ++ "." ++ x.text) := by
  obtain ⟨c, cs, hname⟩ : ∃ c cs, name.toList = c :: cs :=
    List.exists_cons_of_ne_nil fun hnil => h.1 (String.toList_eq_nil_iff.mp hnil)
  refine ⟨?_, ?_, ?_⟩ <;> intro heq <;> have hlist := congrArg String.toList heq <;>
    simp only [String.toList_append, hname] at hlist
  · simp at hlist
  · simp at hlist
  · -- The name itself would be a point.
    apply h.2.1
    obtain ⟨rfl, hrest⟩ := List.cons.inj hlist
    have hcs : cs = [] := by
      cases cs with
      | nil => rfl
      | cons d ds => simp at hrest
    rw [← String.toList_inj, hname, hcs]
    rfl

theorem place_archive (h : Path.IsName name) (up : Path) (x : Number) :
    (archive (name :: up) x).place = (name ++ "." ++ x.text) :: up.place :=
  Path.place_of_isName (isName_archive h x) up

theorem archive_not_suffix (h : Path.IsName name) (up : Path) (x : Number) :
    ¬(archive (name :: up) x).place <:+ name :: up.place := by
  rw [place_archive h]
  intro hs
  have hname : name ++ "." ++ x.text = name := (List.cons.inj (hs.eq_of_length rfl)).1
  have hlength := congrArg String.length hname
  have hpoint : ".".length = 1 := rfl
  rw [String.length_append, String.length_append] at hlength
  omega

theorem andThen_ne_endless {r : FileTree × Option Halt}
    {next : FileTree → FileTree × Option Halt} (h : r.2 ≠ some .endless)
    (hnext : ∀ t, (next t).2 ≠ some .endless) : (andThen next r).2 ≠ some .endless := by
  obtain ⟨t, _ | halt⟩ := r
  · exact hnext t
  · exact h

theorem orUnchanged_ne_endless (t : FileTree) (r : Except FileError FileTree) :
    (orUnchanged t r).2 ≠ some .endless := by
  cases r <;> simp [orUnchanged]

structure Steady (m : Mirror) : Prop where
  stuck : m.stuck = false
  keep_le : m.keep ≤ .ofInt maxKeep

def adrift [FileSystem] (m : Mirror) (t : FileTree) : Bool :=
  m.ready && (t.directoryError? m.path.tail).isSome

structure Account where
  line : String
  before : FileTree
  after : FileTree
  failures : List MirrorFailure

def Account.failed (a : Account) : Bool := .write ∈ a.failures

structure Account.Lost (a : Account) : Prop where
  reported : a.failures.count .write = 1
  texts : a.after.fileTexts.Sublist a.before.fileTexts

theorem Account.Lost.not_fine {a : Account} (h : a.Lost) : ¬.write ∉ a.failures := fun hfine =>
  absurd (h.reported ▸ List.count_eq_zero_of_not_mem hfine) Nat.one_ne_zero

theorem countP_cons_toNat {α : Type} (p : α → Bool) (a : α) (as : List α) :
    (a :: as).countP p = as.countP p + (p a).toNat := by
  rw [List.countP_cons]
  cases p a <;> rfl

theorem ofLogger?_of_file {l : Logger} {file : String} (hl : l.file = some file)
    (hfile : file ≠ "") :
    ofLogger? l =
      some { path := .ofText file, maxBytes := l.maxFileBytes, keep := l.maxFiles } := by
  simp only [ofLogger?, hl, String.isEmpty_iff, hfile, ↓reduceIte]

section Lines

variable [FileSystem]

structure Account.Written (p : Path) (a : Account) : Prop where
  fine : .write ∉ a.failures
  last : ∃ old, a.after.stat p = .ok (.file (old ++ a.line)) ∧
    (old = "" ∨ a.before.lookup p = some (.file old))

def account (m : Mirror) (line : String) (t : FileTree) : Account :=
  ⟨line, t, (m.write line t).2.1, (m.write line t).2.2⟩

theorem shiftArchives_ne_endless (hx : x.ceil ≤ maxKeep) (t : FileTree) :
    (shiftArchives p x t).2 ≠ some .endless := by
  induction x, t using shiftArchives.induct with
  | case1 t x hone =>
    rw [shiftArchives, dif_pos hone]
    simp
  | case2 t x hone ih =>
    have hless := Number.ceil_plus_lt hone hx
    rw [shiftArchives, dif_neg hone]
    apply andThen_ne_endless (orUnchanged_ne_endless _ _)
    intro t₁
    rw [if_pos hless]
    exact ih t₁ hless (by omega)

theorem rotate_ne_endless (hkeep : keep ≤ .ofInt maxKeep) (p : Path) (t : FileTree) :
    (rotate p keep t).2 ≠ some .endless := by
  by_cases hone : keep = .ofInt 1
  · rw [rotate, if_pos hone]
    exact orUnchanged_ne_endless _ _
  · have hceil := Number.le_ofInt_iff.mp hkeep
    have hbefore := Number.ceil_plus_le (x := keep) (n := -2) (by decide)
      (by unfold maxKeep at hceil; omega)
    rw [rotate_of_ne_one hone]
    apply andThen_ne_endless _ fun t => orUnchanged_ne_endless _ _
    exact andThen_ne_endless (orUnchanged_ne_endless _ _) fun t =>
      shiftArchives_ne_endless (by omega) t

theorem Steady.write_cases (h : m.Steady) (line : String) (t : FileTree) :
    (∃ t₁ failures, m.write line t = ({ m with ready := false }, t₁, failures ++ [.write]) ∧
      .write ∉ failures ∧ m.Prepared t t₁) ∨
    ∃ t₁ t₂ failures, m.write line t = ({ m with ready := true }, t₂, failures) ∧
      .write ∉ failures ∧ m.Prepared t t₁ ∧ t₁.append m.path line = .ok t₂ := by
  rcases m.write_cases line t with hlost | hwritten | ⟨hstuck | hendless, -⟩
  · exact .inl hlost
  · exact .inr hwritten
  · rw [h.stuck] at hstuck
    cases hstuck
  · exact absurd hendless (rotate_ne_endless h.keep_le _ _)

theorem Steady.write (h : m.Steady) (line : String) (t : FileTree) :
    (m.write line t).1.Steady ∧ (m.write line t).1.path = m.path ∧
      (m.write line t).1.keep = m.keep := by
  rcases h.write_cases line t with ⟨t₁, failures, hwrite, -⟩ | ⟨t₁, t₂, failures, hwrite, -⟩ <;>
    rw [hwrite]
  · exact ⟨⟨h.stuck, h.keep_le⟩, rfl, rfl⟩
  · exact ⟨⟨h.stuck, h.keep_le⟩, rfl, rfl⟩

theorem entryAt_rotate_place (h : Path.IsName name) (up : Path) (keep : Number) (t : FileTree) :
    let t₁ := (rotate (name :: up) keep t).1
    t₁.entryAt (name :: up.place) = t.entryAt (name :: up.place) ∨
      t₁.entryAt (name :: up.place) = none := by
  have hplace := Path.place_of_isName h up
  let S (d : Path) : Prop := ∃ x, d = (archive (name :: up) x).place
  have harchive (x : Number) : S (archive (name :: up) x).place := ⟨x, rfl⟩
  obtain ⟨t₁, h₁, hlast⟩ := rotate_cases keep (Rearranged.refl : Rearranged S t t)
    (fun _ h => h.remove (harchive _)) (fun _ _ h => h.rename (harchive _) (harchive _))
  have hsame : t₁.entryAt (name :: up.place) = t.entryAt (name :: up.place) := by
    apply h₁.entryAt_eq
    rintro d ⟨x, rfl⟩
    exact archive_not_suffix h up x
  intro t₂
  rcases hlast with hlast | hlast | ⟨-, hlast⟩
  · exact .inl (by rw [show t₂ = t₁ from hlast, hsame])
  · rcases remove_eq_ok hlast with hunchanged | ⟨herase, -⟩
    · exact .inl (by rw [show t₂ = t₁ from hunchanged, hsame])
    · exact .inr (by rw [show t₂ = _ from herase, hplace, entryAt_erase, if_pos rfl])
  · obtain ⟨entry, -, -, hover⟩ := rename_eq_ok hlast
    rcases moveOver_eq_ok hover with hunchanged | ⟨hmove, -⟩
    · exact .inl (by rw [show t₂ = t₁ from hunchanged, hsame])
    · right
      rw [show t₂ = _ from hmove, hplace, entryAt_move_beside _ _ (archive_not_suffix h up _),
        if_pos (List.suffix_refl _)]

theorem entryAt_rotate_around (hplace : p.place ∉ p.around) (hskips : SkipsArchives p keep)
    (hq : q ∈ p.around) (t : FileTree) : (rotate p keep t).1.entryAt q = t.entryAt q := by
  refine (rearranged_rotate (S := fun d => d ∉ p.around) hplace hskips t).entryAt_eq ?_
  exact fun d hd hs => hd (Path.mem_route_of_suffix hq hs)

theorem Prepared.entryAt_place (ht₁ : m.Prepared t t₁) (hpath : m.path = name :: up)
    (h : Path.IsName name) {s : String} (hs : t₁.entryAt (name :: up.place) = some (.file s)) :
    t.entryAt (name :: up.place) = some (.file s) := by
  have hensured
      (hs : (m.ensureDirectory t).1.entryAt (name :: up.place) = some (.file s)) :
      t.entryAt (name :: up.place) = some (.file s) := by
    unfold ensureDirectory at hs
    split at hs
    · exact hs
    · rcases t.entryAt_makeDirectories m.path.parent (name :: up.place) with hsame | ⟨-, hdir⟩
      · rwa [hsame] at hs
      · rw [hdir] at hs
        cases hs
  rcases ht₁ with rfl | rfl
  · exact hensured hs
  · rw [hpath] at hs
    rcases entryAt_rotate_place h up m.keep (m.ensureDirectory t).1 with hsame | hnone
    · exact hensured (hsame ▸ hs)
    · rw [hnone] at hs
      cases hs

theorem account_settled (hm : m.Steady) (line : String) (t : FileTree) :
    (m.account line t).Written m.path ∨ (m.account line t).Lost := by
  rcases hm.write_cases line t with ⟨t₁, failures, hwrite, hfine, ht₁⟩ |
    ⟨t₁, t₂, failures, hwrite, hfine, ht₁, happend⟩
  · right
    constructor
    · simp only [account, hwrite, List.count_append, List.count_singleton_self,
        List.count_eq_zero_of_not_mem hfine, Nat.zero_add]
    · simpa only [account, hwrite] using ht₁.fileTexts_sublist
  · left
    obtain ⟨old, hw, hold⟩ := append_eq_ok happend
    refine ⟨by simpa only [account, hwrite] using hfine, old, ?_, ?_⟩
    · simpa only [account, hwrite] using stat_write hw
    · refine hold.imp_right fun hl => ?_
      obtain ⟨hpathError, hne, -⟩ := write_eq_ok hw
      cases hpath : m.path with
      | nil =>
        rw [hpath] at hne
        exact absurd rfl hne
      | cons name up =>
        rw [hpath] at hpathError hne hl
        have hname := isName_of_lookup (allowed_of_pathError? hpathError).2 hne
        rw [lookup_cons hname] at hl ⊢
        exact ht₁.entryAt_place hpath hname hl

theorem ready_of_lost (hm : m.Steady) {line : String} (h : (m.account line t).Lost) :
    (m.write line t).1.ready = false := by
  rcases hm.write_cases line t with ⟨t₁, failures, hwrite, -⟩ | ⟨t₁, t₂, failures, hwrite, hfine, -⟩
  · rw [hwrite]
  · have hreported := h.reported
    rw [account, hwrite, List.count_eq_zero_of_not_mem hfine] at hreported
    cases hreported

section

variable (hpath : m.path = name :: up) (room : Room name up 0)
  (hskips : SkipsArchives (name :: up) m.keep)
include hpath room hskips

theorem Prepared.unobstructed (ht₁ : m.Prepared t t₁) (h : t.Unobstructed (name :: up)) :
    t₁.Unobstructed (name :: up) := by
  have hensured : (m.ensureDirectory t).1.Unobstructed (name :: up) := by
    unfold ensureDirectory
    split
    · exact h
    · apply h.makeDirectories
      rw [hpath, Path.parent_cons room.named]
      exact room.place_not_mem
  rcases ht₁ with rfl | rfl
  · exact hensured
  · rw [hpath]
    apply hensured.mono
    · intro hd
      rw [room.place_self] at hd ⊢
      rcases entryAt_rotate_place room.named up m.keep (m.ensureDirectory t).1 with hsame | hnone
      · rwa [hsame] at hd
      · rw [hnone] at hd
        cases hd
    · intro q hq s hs
      rwa [entryAt_rotate_around room.place_not_mem hskips hq] at hs

theorem write_of_directory (hm : m.Steady) (hensure : m.ensureDirectory t = (t₁, none))
    (hdir : t₁.directoryError? up = none)
    (hplace : t₁.entryAt (name :: up.place) ≠ some .directory) (line : String) :
    .write ∉ (m.write line t).2.2 := by
  have hallowed : Path.Allowed (name :: up) := room.allowed
  obtain ⟨t₂, failures, hneeded, hfine, ht₂⟩ : ∃ t₂ failures,
      m.rotateIfNeeded line.utf8ByteSize t₁ = (t₂, .ok failures) ∧ .write ∉ failures ∧
        (t₂ = t₁ ∨ t₂ = (rotate m.path m.keep t₁).1) := by
    rcases m.rotateIfNeeded_cases line.utf8ByteSize t₁ with hneeded | ⟨e, -, he⟩ | ⟨-, hendless⟩
    · exact hneeded
    · rw [hpath, pathError?_of_allowed hallowed hdir] at he
      cases he
    · exact absurd hendless (rotate_ne_endless hm.keep_le _ _)
  obtain ⟨hdir₂, hplace₂⟩ : t₂.directoryError? up = none ∧
      t₂.entryAt (name :: up.place) ≠ some .directory := by
    rcases ht₂ with rfl | rfl
    · exact ⟨hdir, hplace⟩
    · rw [hpath]
      constructor
      · apply directoryError?_mono hdir
        intro q hq hd
        rwa [HasDirectory, entryAt_rotate_around room.place_not_mem hskips hq]
      · rcases entryAt_rotate_place room.named up m.keep t₁ with hsame | hnone
        · rwa [hsame]
        · simp [hnone]
  rw [← room.place_self] at hplace₂
  obtain ⟨t₃, happend⟩ := append_of_directory room.named hallowed hdir₂ hplace₂ line
  rw [← hpath] at happend
  simpa only [Mirror.write, hm.stuck, Bool.false_eq_true, ↓reduceIte, hensure, hneeded, happend]
    using hfine

theorem unobstructed_write (hm : m.Steady) (h : t.Unobstructed (name :: up)) (line : String) :
    (m.write line t).2.1.Unobstructed (name :: up) := by
  rcases hm.write_cases line t with ⟨t₁, failures, hwrite, -, ht₁⟩ |
    ⟨t₁, t₂, failures, hwrite, -, ht₁, happend⟩ <;> rw [hwrite]
  · exact ht₁.unobstructed hpath room hskips h
  · rw [hpath] at happend
    obtain ⟨old, -, -, rfl, -⟩ := append_eq_put happend
    apply (ht₁.unobstructed hpath room hskips h).mono
    · intro hd
      rw [entryAt_put, if_pos rfl] at hd
      cases hd
    · intro q hq s hs
      rwa [entryAt_put, if_neg] at hs
      rintro rfl
      exact room.place_not_mem hq

theorem written_of_not_adrift (hm : m.Steady) (h : t.Unobstructed (name :: up))
    (hkept : m.adrift t = false) (line : String) : .write ∉ (m.write line t).2.2 := by
  obtain ⟨t₁, hensure, hdir⟩ :
      ∃ t₁, m.ensureDirectory t = (t₁, none) ∧ t₁.directoryError? up = none := by
    cases hready : m.ready with
    | true =>
      refine ⟨t, by simp only [ensureDirectory, hready, ↓reduceIte], ?_⟩
      simpa [adrift, hready, hpath] using hkept
    | false =>
      obtain ⟨t₁, hmake, hdir⟩ := makeInside_of_no_file (t := t) room.allowed.tail.names
        fun q hq s => h.around q s hq
      refine ⟨t₁, ?_, hdir⟩
      simp only [ensureDirectory, hready, Bool.false_eq_true, ↓reduceIte, hpath,
        Path.parent_cons room.named, makeDirectories, room.allowed.tail.whole, hmake]
  have hopen : t₁.Unobstructed (name :: up) := by
    apply Prepared.unobstructed hpath room hskips (.inl _) h
    rw [hensure]
  have hplace := hopen.place
  rw [room.place_self] at hplace
  exact write_of_directory hpath room hskips hm hensure hdir hplace line

end

theorem Steady.adrift_write (hm : m.Steady) (line : String) (t : FileTree) :
    (m.write line t).1.adrift (m.write line t).2.1 = false := by
  rcases hm.write_cases line t with ⟨t₁, failures, hwrite, -⟩ |
    ⟨t₁, t₂, failures, hwrite, -, -, happend⟩ <;> rw [hwrite]
  · rfl
  · obtain ⟨old, hw, -⟩ := append_eq_ok happend
    have hpathError := (stat_eq_ok.mp (stat_write hw)).1
    cases hpath : m.path with
    | nil => simp [adrift, directoryError?]
    | cons name up =>
      rw [hpath] at hpathError
      have hdir := (allowed_of_pathError? hpathError).2
      simp only [adrift, List.tail_cons, hdir, Option.isSome_none, Bool.and_false]

theorem written_of_append (hm : m.Steady) (hskips : SkipsArchives m.path m.keep) {line : String}
    (happend : t.append m.path line = .ok t₁) : .write ∉ (m.write line t).2.2 := by
  obtain ⟨old, hpathError, hl, -⟩ := append_eq_put happend
  cases hpath : m.path with
  | nil =>
    rw [hpath] at hl
    exact absurd rfl hl
  | cons name up =>
    rw [hpath] at hpathError hl hskips
    obtain ⟨hallowed, hdir⟩ := allowed_of_pathError? hpathError
    have hname := isName_of_lookup hdir hl
    have hplace : t.entryAt (name :: Path.place up) ≠ some .directory := by
      rwa [← lookup_cons hname]
    have room : Room name up 0 := .of_directory hname hallowed hdir hplace
    exact write_of_directory hpath room hskips hm
      (ensureDirectory_of_directory hpath hname hallowed hdir) hdir hplace line

inductive Step where
  | change (c : Change)
  | call (timestamp : String) (call : LogCall)

def Step.change? : Step → Option Change
  | change c => some c
  | call _ _ => none

def Step.call? : Step → Option (String × LogCall)
  | change _ => none
  | call timestamp c => some (timestamp, c)

def accounts (l : Logger) : Mirror → FileTree → List Step → List Account
  | _, _, [] => []
  | m, t, .change c :: steps => accounts l m (c.apply t) steps
  | m, t, .call timestamp c :: steps =>
    match log l timestamp m t c with
    | (m₁, t₁, failures) =>
      (l.lines (l.accepted [(timestamp, c)])).map (⟨·, t, t₁, failures⟩) ++ accounts l m₁ t₁ steps

variable {l : Logger} {steps : List Step}

theorem accounts_call (l : Logger) (m : Mirror) (t : FileTree) (timestamp : String) (c : LogCall)
    (steps : List Step) :
    (∃ line, l.lines (l.accepted [(timestamp, c)]) = [line] ∧
      accounts l m t (.call timestamp c :: steps) =
        m.account line t :: accounts l (m.write line t).1 (m.write line t).2.1 steps) ∨
    l.lines (l.accepted [(timestamp, c)]) = [] ∧
      accounts l m t (.call timestamp c :: steps) = accounts l m t steps := by
  rw [accounts, log]
  cases hentry : l.entry? timestamp c with
  | none =>
    right
    have hlines : l.lines (l.accepted [(timestamp, c)]) = [] := by
      cases hobjection : l.objection? c <;>
        simp [Logger.lines, Logger.accepted, hentry, hobjection]
    rw [hlines]
    exact ⟨rfl, rfl⟩
  | some e =>
    cases hobjection : l.objection? c with
    | some v =>
      right
      have hlines : l.lines (l.accepted [(timestamp, c)]) = [] := by
        simp [Logger.lines, Logger.accepted, hobjection]
      rw [hlines]
      exact ⟨rfl, rfl⟩
    | none =>
      left
      have hlines : l.lines (l.accepted [(timestamp, c)]) = [e.line] := by
        simp [Logger.lines, Logger.accepted, hentry, hobjection]
      rw [hlines]
      exact ⟨e.line, rfl, rfl⟩

theorem lines_accounts (l : Logger) (m : Mirror) (t : FileTree) (steps : List Step) :
    (accounts l m t steps).map Account.line =
      l.lines (l.accepted (steps.filterMap Step.call?)) := by
  induction steps generalizing m t with
  | nil => rfl
  | cons step steps ih =>
    cases step with
    | change c => exact ih m (c.apply t)
    | call timestamp c =>
      have hcalls : l.lines (l.accepted ((timestamp, c) :: steps.filterMap Step.call?)) =
          l.lines (l.accepted [(timestamp, c)]) ++
            l.lines (l.accepted (steps.filterMap Step.call?)) := by
        rw [Logger.lines, Logger.lines, Logger.lines, ← List.filterMap_append, Logger.accepted,
          Logger.accepted, Logger.accepted, ← List.filter_append, List.singleton_append]
      rw [List.filterMap_cons, Step.call?, hcalls]
      rcases accounts_call l m t timestamp c steps with ⟨line, hline, hcall⟩ | ⟨hline, hcall⟩ <;>
        rw [hline, hcall]
      · exact congrArg (line :: ·) (ih _ _)
      · exact ih m t

theorem mem_accounts (Inv : FileTree → Prop) (hm : m.Steady) (h : Inv t)
    (hchange : ∀ t, Inv t → ∀ c, Inv (Change.apply t c))
    (hwrite : ∀ t, Inv t → ∀ (m : Mirror) line, Inv (m.write line t).2.1) {a : Account}
    (ha : a ∈ accounts l m t steps) :
    ∃ (m₁ : Mirror) (t₁ : FileTree), m₁.Steady ∧ m₁.path = m.path ∧ m₁.keep = m.keep ∧ Inv t₁ ∧
      a = m₁.account a.line t₁ := by
  induction steps generalizing m t with
  | nil => cases ha
  | cons step steps ih =>
    cases step with
    | change c => exact ih hm (hchange t h c) ha
    | call timestamp c =>
      rcases accounts_call l m t timestamp c steps with ⟨line, -, hcall⟩ | ⟨-, hcall⟩ <;>
        rw [hcall] at ha
      · rcases List.mem_cons.mp ha with rfl | ha
        · exact ⟨m, t, hm, rfl, rfl, h, rfl⟩
        · obtain ⟨hsteady, hpath, hkeep⟩ := hm.write line t
          obtain ⟨m₁, t₁, hm₁, hpath₁, hkeep₁, h₁, ha⟩ := ih hsteady (hwrite t h m line) ha
          exact ⟨m₁, t₁, hm₁, hpath₁.trans hpath, hkeep₁.trans hkeep, h₁, ha⟩
      · exact ih hm h ha

theorem adrift_change (hpath : m.path = p) {c : Change} (hc : c.Spares p) (t : FileTree) :
    (m.adrift (c.apply t)).toNat ≤ (m.adrift t).toNat + (c.uproots p).toNat := by
  cases hroots : c.uproots p with
  | true => exact Nat.le_trans (Bool.toNat_le _) (Nat.le_add_left _ _)
  | false =>
    cases hdir : t.directoryError? p.tail with
    | none =>
      have hafter : (c.apply t).directoryError? p.tail = none := hc.directoryError? hroots hdir
      simp [adrift, hpath, hafter]
    | some e =>
      simp only [adrift, hpath, hdir, Option.isSome_some, Bool.and_true, Bool.toNat_false,
        Nat.add_zero]
      cases m.ready with
      | false => exact Nat.le_refl _
      | true => exact Bool.toNat_le _

theorem written_of_fine (hm : m.Steady) {line : String} (hfine : .write ∉ (m.write line t).2.2) :
    (m.account line t).Written m.path :=
  (account_settled hm line t).resolve_right fun hlost => hlost.not_fine hfine

theorem accounts_course (hm : m.Steady) (hpath : m.path = name :: up) (room : Room name up 0)
    (hskips : SkipsArchives (name :: up) m.keep) (h : t.Unobstructed (name :: up))
    (hspares : ∀ c ∈ steps.filterMap Step.change?, c.Spares (name :: up)) :
    (m.ready = false → ∀ a ∈ (accounts l m t steps).head?, a.Written (name :: up)) ∧
      (accounts l m t steps).IsChain (fun a b => a.Lost → b.Written (name :: up)) ∧
      (accounts l m t steps).countP Account.failed ≤
        (steps.filterMap Step.change?).countP (Change.uproots (name :: up)) +
          (m.adrift t).toNat := by
  induction steps generalizing m t with
  | nil => simp [accounts]
  | cons step steps ih =>
    cases step with
    | change c =>
      obtain ⟨hc, hspares⟩ := List.forall_mem_cons.mp hspares
      obtain ⟨hhead, hchain, hcount⟩ := ih hm hpath hskips (hc.unobstructed h) hspares
      refine ⟨hhead, hchain, ?_⟩
      have hadrift := adrift_change hpath hc t
      have hroots : ((Step.change c :: steps).filterMap Step.change?).countP
          (Change.uproots (name :: up)) =
          (steps.filterMap Step.change?).countP (Change.uproots (name :: up)) +
            (c.uproots (name :: up)).toNat := by
        rw [List.filterMap_cons, Step.change?, countP_cons_toNat]
      rw [accounts, hroots]
      omega
    | call timestamp c =>
      have hroots : (Step.call timestamp c :: steps).filterMap Step.change? =
          steps.filterMap Step.change? := rfl
      rw [hroots] at hspares ⊢
      rcases accounts_call l m t timestamp c steps with ⟨line, -, hcall⟩ | ⟨-, hcall⟩ <;> rw [hcall]
      case inr => exact ih hm hpath hskips h hspares
      obtain ⟨hsteady, hpath₁, hkeep₁⟩ := hm.write line t
      obtain ⟨hhead, hchain, hcount⟩ := ih hsteady (hpath₁.trans hpath) (hkeep₁ ▸ hskips)
        (unobstructed_write hpath room hskips hm h line) hspares
      rw [hm.adrift_write] at hcount
      have hwritten (hkept : m.adrift t = false) :=
        written_of_not_adrift hpath room hskips hm h hkept line
      refine ⟨?_, List.isChain_cons.mpr ⟨?_, hchain⟩, ?_⟩
      · intro hready a ha
        obtain rfl := Option.some.inj ha
        rw [← hpath]
        apply written_of_fine hm
        apply hwritten
        simp [adrift, hready]
      · intro b hb hlost
        exact hhead (ready_of_lost hm hlost) b hb
      · have hfailed : (m.account line t).failed.toNat ≤ (m.adrift t).toNat := by
          cases hkept : m.adrift t with
          | false => rw [Account.failed, account, decide_eq_false (hwritten hkept)]
          | true => exact Bool.toNat_le _
        rw [countP_cons_toNat]
        simp only [Bool.toNat_false] at hcount
        omega

end Lines

/-- Every line that a logger with a file has to write is the last text of the file, or it is
reported as lost, and then no file has got longer. Where the path does not go through an archive,
what could be appended without a rotation is never lost; where besides nothing is put in the way, no
line is lost right after another, and there are no more lost lines than removals of the
directory. -/
theorem lines_accounted_for [FileSystem] (l : Logger) {file : String} (hl : l.file = some file)
    (hfile : file ≠ "") (hkeep : l.maxFiles ≤ .ofInt maxKeep) (t : FileTree) (steps : List Step) :
    let p := Path.ofText file
    let changes := steps.filterMap Step.change?
    ∃ m, ofLogger? l = some m ∧
      (accounts l m t steps).map Account.line =
        l.lines (l.accepted (steps.filterMap Step.call?)) ∧
      (∀ a ∈ accounts l m t steps, a.Written p ∨ a.Lost) ∧
      (t.Grown → ∀ a ∈ accounts l m t steps, a.before.Grown ∧ a.after.Grown) ∧
      (SkipsArchives p l.maxFiles →
        (∀ a ∈ accounts l m t steps, ∀ t₁, a.before.append p a.line = .ok t₁ → a.Written p) ∧
        (HasRoom p 0 → t.Unobstructed p → (∀ c ∈ changes, c.Spares p) →
          (accounts l m t steps).IsChain (fun a b => a.Lost → b.Written p) ∧
            (accounts l m t steps).countP Account.failed ≤
              changes.countP (Change.uproots p))) := by
  intro p changes
  have hm : Steady { path := p, maxBytes := l.maxFileBytes, keep := l.maxFiles } := ⟨rfl, hkeep⟩
  refine ⟨_, ofLogger?_of_file hl hfile, lines_accounts l _ t steps, ?_, ?_, ?_⟩
  · intro a ha
    obtain ⟨m, t₁, hm₁, hpath, -, -, ha⟩ := mem_accounts (fun _ => True) hm trivial
      (fun _ _ _ => trivial) (fun _ _ _ _ => trivial) ha
    have hsettled := account_settled hm₁ a.line t₁
    rwa [hpath, ← ha] at hsettled
  · intro hgrown a ha
    obtain ⟨m, t₁, -, -, -, hgrown₁, ha⟩ := mem_accounts Grown hm hgrown
      (fun _ h c => Change.grown_apply h c) (fun _ h m line => grown_write m h line) ha
    rw [ha]
    exact ⟨hgrown₁, grown_write m hgrown₁ a.line⟩
  · intro hskips
    refine ⟨?_, ?_⟩
    · intro a ha t₂ happend
      obtain ⟨m, t₁, hm₁, hpath, hsame, -, ha⟩ := mem_accounts (fun _ => True) hm trivial
        (fun _ _ _ => trivial) (fun _ _ _ _ => trivial) ha
      rw [ha, ← show m.path = p from hpath] at happend
      have hskips₁ : SkipsArchives m.path m.keep := by
        rw [hpath, hsame]
        exact hskips
      have hwritten : (m.account a.line t₁).Written m.path :=
        written_of_fine hm₁ (written_of_append hm₁ hskips₁ happend)
      rwa [hpath, ← ha] at hwritten
    · rintro ⟨name, up, hp, room⟩ hopen hspares
      rw [hp] at hskips hopen hspares ⊢
      obtain ⟨-, hchain, hcount⟩ := accounts_course (l := l) hm hp room hskips hopen hspares
      exact ⟨hchain, by simpa [adrift] using hcount⟩

def reported (message : String) : Step :=
  .call "2024-01-01T00:00:00.000Z" { level := .info, message }

theorem lines_accounted_for_uprooted :
    letI := FileSystem.ordinary
    let l := Logger.filed {} "logs/app.log" 100 2
    let p := Path.ofText "logs/app.log"
    let steps := [reported "one", .change (.remove ["logs"]), reported "two", reported "three"]
    l.file = some "logs/app.log" ∧ "logs/app.log" ≠ "" ∧ l.maxFiles ≤ .ofInt maxKeep ∧
      FileTree.Grown {} ∧ SkipsArchives p l.maxFiles ∧ HasRoom p 0 ∧ FileTree.Unobstructed p {} ∧
      (∀ c ∈ steps.filterMap Step.change?, c.Spares p) ∧
      ∃ m, ofLogger? l = some m ∧ (accounts l m {} steps).countP Account.failed ≤ 1 ∧
        (∀ a ∈ accounts l m {} steps, a.after.Grown) ∧
        (accounts l m {} steps).map Account.line =
          l.lines [report "one", report "two", report "three"] := by
  let _ := FileSystem.ordinary
  intro l p steps
  have hroom : HasRoom p 0 := by decide
  have hskips : SkipsArchives p l.maxFiles := by
    intro x _
    have hp : p = ["app.log", "logs"] := by decide
    rw [hp, archive, Path.around_cons, Path.place_of_isName (isName_archive (by decide) x)]
    simp [Path.route, Path.place, Path.step]
  have hspares : ∀ c ∈ steps.filterMap Step.change?, c.Spares p := by
    intro c hc
    obtain rfl := List.mem_singleton.mp hc
    trivial
  have hfile : l.file = some "logs/app.log" := rfl
  have hne : "logs/app.log" ≠ "" := by decide
  have hkeep : l.maxFiles ≤ .ofInt maxKeep := by decide
  obtain ⟨m, hm, hlines, -, hgrown, hcourse⟩ := lines_accounted_for l hfile hne hkeep {} steps
  obtain ⟨-, hcount⟩ := (hcourse hskips).2 hroom (unobstructed_empty p) hspares
  exact ⟨hfile, hne, hkeep, grown_empty, hskips, hroom, unobstructed_empty p, hspares, m, hm,
    hcount, fun a ha => (hgrown grown_empty a ha).2, hlines⟩

theorem accounts_reported [FileSystem] (l : Logger) (m : Mirror) (t : FileTree) (message : String)
    (steps : List Step) (h : l.lines (l.accepted [report message]) = [(shown message).line]) :
    accounts l m t (reported message :: steps) =
      m.account (shown message).line t :: accounts l (m.write (shown message).line t).1
        (m.write (shown message).line t).2.1 steps := by
  rcases accounts_call l m t (report message).1 (report message).2 steps with
    ⟨line, hline, hcall⟩ | ⟨hline, -⟩
  · rw [h] at hline
    rwa [← (List.cons.inj hline).1] at hcall
  · rw [h] at hline
    cases hline

theorem lost_of_not_allowed [FileSystem] {m : Mirror} {name : String} {up : Path} (hm : m.Steady)
    (hpath : m.path = name :: up) (hno : ¬Path.Allowed (name :: up)) (line : String)
    (t : FileTree) : ¬(m.account line t).Written m.path ∧ (m.account line t).Lost := by
  have hnot : ¬(m.account line t).Written m.path := by
    intro h
    obtain ⟨old, hstat, -⟩ := h.last
    rw [hpath] at hstat
    exact hno (allowed_of_pathError? (stat_eq_ok.mp hstat).1).1
  exact ⟨hnot, (account_settled hm line t).resolve_left hnot⟩

theorem unsettled_of_endless [FileSystem] {m : Mirror} {name : String} {up : Path} {last : Nat}
    {t : FileTree} {old line : String} (h : Site name up last t) (hpath : m.path = name :: up)
    (hstuck : m.stuck = false) (hfile : t.entryAt (name :: up.place) = some (.file old))
    (hover : m.maxBytes < .ofInt (old.utf8ByteSize + line.utf8ByteSize : Nat))
    (hrotate : rotate (name :: up) m.keep t = (t, some .endless)) (hline : 0 < line.utf8ByteSize)
    (hne : old ≠ line) :
    ¬(m.account line t).Written (name :: up) ∧ ¬(m.account line t).Lost := by
  rw [account, write_of_endless_rotation h hpath hstuck hfile hover hrotate]
  refine ⟨fun hwritten => ?_, fun hlost => absurd hlost.reported (by simp)⟩
  obtain ⟨before, hstat, hbefore⟩ := hwritten.last
  rw [h.stat_of_file hfile] at hstat
  have htext : old = before ++ line := FileTree.Entry.file.inj (Except.ok.inj hstat)
  rcases hbefore with rfl | hl
  · exact hne (htext.trans String.empty_append)
  · have hl : t.lookup (name :: up) = some (.file before) := hl
    rw [lookup_cons h.named, hfile] at hl
    obtain rfl := FileTree.Entry.file.inj (Option.some.inj hl)
    have hsize := congrArg String.utf8ByteSize htext
    rw [String.utf8ByteSize_append] at hsize
    omega

theorem lines_accounted_for_needs_room :
    letI := FileSystem.ordinary
    (let l := Logger.filed {} (zeros 256) 1 1
      ∃ m, ofLogger? l = some m ∧ ¬(accounts l m {} [reported "one", reported "two"]).IsChain
        fun a b => a.Lost → b.Written (Path.ofText (zeros 256))) ∧
    (let l := Logger.filed {} "log.1/../log" 1 3
      ∃ m, ofLogger? l = some m ∧ neighbours.Unobstructed (Path.ofText "log.1/../log") ∧
        (accounts l m neighbours [reported "two"]).countP Account.failed = 1) ∧
    (let l := Logger.filed { listener := some fun _ => some .null } "log" 1 1
      ∃ m, ofLogger? l = some m ∧
        (accounts l m {} [reported "one"]).map Account.line ≠ l.lines [report "one"]) ∧
    (let l := Logger.filed {} "log" 1 (maxKeep + 6 : Nat)
      ∃ m, ofLogger? l = some m ∧ ∃ a ∈ accounts l m (lone "log") [reported "two"],
        ¬a.Written (Path.ofText "log") ∧ ¬a.Lost) := by
  let _ := FileSystem.ordinary
  refine ⟨?_, ?_, ?_, ?_⟩
  · have hlong : 3 ≤ 256 := by omega
    have hno : ¬Path.Allowed [zeros 256] := by
      intro h
      have hshort := h.names _ List.mem_cons_self
      rw [Path.nameTooLong, utf8ByteSize_zeros] at hshort
      exact absurd hshort (by decide)
    have hsteady : (whole [zeros 256] 1 1 false).Steady := ⟨rfl, by decide⟩
    refine ⟨whole [zeros 256] 1 1 false, ?_, ?_⟩
    · rw [ofLogger?_filed {} (zeros_isName hlong).1, ofText_zeros hlong]
      rfl
    · rw [ofText_zeros hlong, accounts_reported _ _ _ "one" _ rfl,
        accounts_reported _ _ _ "two" _ rfl]
      obtain ⟨hsteady₁, hpath₁, -⟩ := hsteady.write (shown "one").line {}
      have hfirst := lost_of_not_allowed hsteady rfl hno (shown "one").line {}
      have hsecond := lost_of_not_allowed hsteady₁ hpath₁ hno (shown "two").line
        ((whole [zeros 256] 1 1 false).write (shown "one").line {}).2.1
      rw [hpath₁] at hsecond
      intro hchain
      exact hsecond.1 ((List.isChain_cons_cons.mp hchain).1 hfirst.2)
  · have hpath : Path.ofText "log.1/../log" = ["log", "..", "log.1"] := by decide
    refine ⟨whole ["log", "..", "log.1"] 1 3 false, ?_, ?_, ?_⟩
    · rw [ofLogger?_filed {} (by decide), hpath]
      rfl
    · rw [hpath]
      refine ⟨by decide, fun q s hq => ?_⟩
      have haround : Path.around ["log", "..", "log.1"] = [[], ["log.1"], []] := by decide
      have hroot : neighbours.entryAt [] = none := by decide
      have hdir : neighbours.entryAt ["log.1"] = some .directory := by decide
      rw [haround, List.mem_cons, List.mem_pair] at hq
      rcases hq with rfl | rfl | rfl
      · simp [hroot]
      · simp [hdir]
      · simp [hroot]
    · have hwrite := write_neighbours (m := whole ["log", "..", "log.1"] 1 3 false) rfl rfl rfl
        (one_lt_sizes (shown "two").line)
      rw [accounts_reported _ _ _ "two" _ rfl, accounts, account, hwrite]
      rfl
  · exact ⟨_, ofLogger?_filed _ (by decide) 1 1, by decide⟩
  · have hofText : Path.ofText "log" = ["log"] := by decide
    have hkept : kept (maxKeep + 6 : Nat) = maxKeep + 6 := kept_natCast (by omega)
    refine ⟨whole ["log"] 1 (maxKeep + 6) false, ?_,
      (whole ["log"] 1 (maxKeep + 6) false).account (shown "two").line (lone "log"), ?_, ?_⟩
    · rw [ofLogger?_filed {} (by decide), hofText, hkept]
    · rw [accounts_reported _ _ _ "two" _ rfl]
      exact List.mem_cons_self
    · have hsite : Site "log" [] (maxKeep + 4) (lone "log") := lone_site (by decide)
        (by decide +kernel)
      have hmissing := lone_entryAt_slot (Nat.succ_ne_zero (maxKeep + 3)) "log"
      rw [hofText]
      exact unsettled_of_endless (m := whole ["log"] 1 (maxKeep + 6) false) hsite rfl rfl
        (lone_file "log") (one_lt_sizes _) (rotate_endless hsite hmissing) (shown_line_pos "two")
        (by decide +kernel)

end Mirror

end RuleForest
