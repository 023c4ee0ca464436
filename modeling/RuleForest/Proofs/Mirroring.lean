import RuleForest.Proofs.Chunks
import RuleForest.Proofs.Rotation

namespace RuleForest

namespace Mirror

def textAt (t : FileTree) (p : Path) : String :=
  match t.lookup p with
  | some (.file s) => s
  | _ => ""

def whole (p : Path) (limit : Int) (keep : Nat) (ready : Bool) : Mirror :=
  { path := p, maxBytes := .ofInt limit, keep := .ofInt keep, ready }

def Stands (name : String) (up : Path) (ready : Bool) (files : Nat → Option String)
    (t : FileTree) : Prop :=
  if ready then Holds name up files t else t = {} ∧ files = fun _ => none

variable {name : String} {up : Path} {limit : Int} {keep last i : Nat}
  {files : Nat → Option String} {t : FileTree}

theorem Stands.only {ready : Bool} (h : Stands name up ready files t) {q : Path} {s : String}
    (hq : t.lookup q = some (.file s)) :
    ∃ i, q.place = slotName name i :: up.place ∧ files i = some s := by
  rw [FileTree.lookup_eq] at hq
  split at hq
  · simp at hq
  · cases ready with
    | true => exact ((Holds.file h) _ _).mp hq
    | false =>
      obtain ⟨rfl, rfl⟩ := h
      simp at hq

def Overflows (limit : Int) (files : Nat → Option String) (line : String) : Prop :=
  ∃ s, files 0 = some s ∧ limit < (s.utf8ByteSize + line.utf8ByteSize : Nat)

def contents (keep : Nat) (chunks : List Chunk) (i : Nat) : Option String :=
  if i < keep then chunks[i]?.map Chunk.text else none

theorem overflows_contents (hkeep : 1 ≤ keep) {chunks : List Chunk} {line : String} :
    Overflows limit (contents keep chunks) line ↔
      ∃ c older, chunks = c :: older ∧ limit < (c.text.utf8ByteSize + line.utf8ByteSize : Nat) := by
  have hpos : 0 < keep := by omega
  cases chunks with
  | nil => simp [Overflows, contents]
  | cons c older => simp [Overflows, contents, hpos]

theorem add_of_overflows (hkeep : 1 ≤ keep) {chunks : List Chunk} {line : String}
    (h : Overflows limit (contents keep chunks) line) :
    Function.update (rotated keep (contents keep chunks)) 0
        (some ((rotated keep (contents keep chunks) 0).getD "" ++ line)) =
      contents keep (Chunk.add limit chunks line) := by
  obtain ⟨c, older, rfl, hlt⟩ := (overflows_contents hkeep).mp h
  funext i
  rw [Chunk.add, if_pos hlt]
  cases i with
  | zero =>
    have hpos : 0 < keep := by omega
    simp [contents, rotated, hpos, Chunk.text]
  | succ i =>
    by_cases hi : i + 1 < keep
    · have hnot : ¬keep ≤ i + 1 := by omega
      have hi' : i < keep := by omega
      simp [contents, rotated, hi, hi', hnot]
    · have hle : keep ≤ i + 1 := by omega
      simp [contents, rotated, hi, hle]

theorem add_of_not_overflows (hkeep : 1 ≤ keep) {chunks : List Chunk} {line : String}
    (h : ¬Overflows limit (contents keep chunks) line) :
    Function.update (contents keep chunks) 0 (some ((contents keep chunks 0).getD "" ++ line)) =
      contents keep (Chunk.add limit chunks line) := by
  have hpos : 0 < keep := by omega
  funext i
  cases chunks with
  | nil => cases i <;> simp [contents, Chunk.add, hpos, Chunk.text]
  | cons c older =>
    have hnot : ¬limit < (c.text.utf8ByteSize + line.utf8ByteSize : Nat) :=
      fun hlt => h ((overflows_contents hkeep).mpr ⟨c, older, rfl, hlt⟩)
    rw [Chunk.add, if_neg hnot]
    cases i <;> simp [contents, hpos, Chunk.text_append]

def single (lines : List String) (i : Nat) : Option String :=
  if i = 0 ∧ lines ≠ [] then some (String.join lines) else none

theorem single_append (lines : List String) (line : String) :
    Function.update (single lines) 0 (some ((single lines 0).getD "" ++ line)) =
      single (lines ++ [line]) := by
  funext i
  cases i with
  | zero =>
    by_cases h : lines = []
    · simp [single, h]
    · simp [single, h, String.join_append]
  | succ i => simp [single]

variable [FileSystem]

def logAll (l : Logger) (m : Mirror) (t : FileTree) :
    List (String × LogCall) → Mirror × FileTree × List MirrorFailure
  | [] => (m, t, [])
  | c :: calls =>
    match log l c.1 m t c.2 with
    | (m, t, failures) =>
      match logAll l m t calls with
      | (m, t, later) => (m, t, failures ++ later)

def leave (l : Logger) (calls : List (String × LogCall)) : FileTree × List MirrorFailure :=
  match ofLogger? l with
  | some m => (logAll l m {} calls).2
  | none => ({}, [])

theorem Stands.ensureDirectory {ready : Bool} (h : Stands name up ready files t)
    (hroom : Room name up last) :
    ∃ t', (whole (name :: up) limit keep ready).ensureDirectory t = (t', none) ∧
      Holds name up files t' := by
  cases ready with
  | true => exact ⟨t, rfl, h⟩
  | false =>
    obtain ⟨rfl, rfl⟩ := h
    have hup := hroom.allowed.tail
    obtain ⟨t', hmake, hdir⟩ := FileTree.makeInside_of_no_file (t := {}) hup.names (by simp)
    have hentry (q : Path) := FileTree.entryAt_makeInside {} up q
    rw [hmake] at hentry
    refine ⟨t', ?_, ⟨fun q => ⟨?_, FileTree.hasDirectory_of_mem_route hdir⟩, fun q s => ?_⟩⟩
    · simp only [Mirror.ensureDirectory, whole, Path.parent_cons hroom.named,
        FileTree.makeDirectories, hup.whole, hmake, Bool.false_eq_true, ↓reduceIte]
    · rintro (rfl | hq)
      · exact Path.nil_mem_route up
      · rcases hentry q with hsame | ⟨hmem, -⟩
        · rw [hq] at hsame
          cases hsame
        · exact hmem
    · rcases hentry q with hsame | ⟨-, hsame⟩ <;> simp [hsame]

theorem Stands.lookup {ready : Bool} (h : Stands name up ready files t) (hroom : Room name up last)
    (hi : i ≤ last) : t.lookup (slotName name i :: up) = (files i).map .file := by
  cases ready with
  | true => exact Holds.lookup_slot h hroom hi
  | false =>
    obtain ⟨rfl, rfl⟩ := h
    rw [FileTree.lookup_cons (isName_slotName hroom.named i)]
    rfl

theorem rotateIfNeeded_of_exceeds {m : Mirror} {old : String} {pending : Nat}
    (hstat : t.stat m.path = .ok (.file old))
    (hover : m.maxBytes < .ofInt (old.utf8ByteSize + pending : Nat))
    {t' : FileTree} {halt : Option Halt} (hr : rotate m.path m.keep t = (t', halt)) :
    m.rotateIfNeeded pending t = (t', afterRotation halt) := by
  have hnot : ¬Number.ofInt (old.utf8ByteSize + pending : Nat) ≤ m.maxBytes := Int.not_le.mpr hover
  simp only [rotateIfNeeded, hstat, FileTree.size, hnot, ↓reduceIte, hr]

namespace Holds

variable (h : Holds name up files t) (hroom : Room name up last) {line : String}
include h hroom

theorem rotateIfNeeded_of_not_overflows (keep : Nat) (ready : Bool)
    (ho : ¬Overflows limit files line) :
    (whole (name :: up) limit keep ready).rotateIfNeeded line.utf8ByteSize t = (t, .ok []) := by
  have hs : t.stat (name :: up) = _ := h.stat_slot hroom (Nat.zero_le last)
  cases hf : files 0 with
  | none => simp only [rotateIfNeeded, whole, hs, hf, Option.elim_none]
  | some s =>
    have hle : Number.ofInt (s.utf8ByteSize + line.utf8ByteSize : Nat) ≤ .ofInt limit :=
      (Number.ofInt_le_ofInt _ _).mpr (Int.not_lt.mp fun hlt => ho ⟨s, hf, hlt⟩)
    simp only [rotateIfNeeded, whole, hs, hf, Option.elim_some, FileTree.size, hle, ↓reduceIte]

theorem rotateIfNeeded_of_overflows (ready : Bool) (ho : Overflows limit files line) {t' : FileTree}
    {halt : Option Halt} (hr : Mirror.rotate (name :: up) (.ofInt keep) t = (t', halt)) :
    (whole (name :: up) limit keep ready).rotateIfNeeded line.utf8ByteSize t =
      (t', afterRotation halt) := by
  have hs : t.stat (name :: up) = _ := h.stat_slot hroom (Nat.zero_le last)
  obtain ⟨s, hf, hlt⟩ := ho
  rw [hf] at hs
  have hover : Number.ofInt limit < .ofInt (s.utf8ByteSize + line.utf8ByteSize : Nat) :=
    (Number.ofInt_lt_ofInt _ _).mpr hlt
  exact rotateIfNeeded_of_exceeds (m := whole (name :: up) limit keep ready) hs hover hr

end Holds

theorem write_of_rotated {ready : Bool} {t₁ t₂ : FileTree} {line : String}
    {failures : List MirrorFailure} (hroom : Room name up last)
    (hensure : (whole (name :: up) limit keep ready).ensureDirectory t = (t₁, none))
    (hrotate : (whole (name :: up) limit keep ready).rotateIfNeeded line.utf8ByteSize t₁ =
      (t₂, .ok failures))
    (h : Holds name up files t₂) :
    ∃ t', (whole (name :: up) limit keep ready).write line t =
        (whole (name :: up) limit keep true, t', failures) ∧
      Holds name up (Function.update files 0 (some ((files 0).getD "" ++ line))) t' := by
  obtain ⟨t', happend, h'⟩ := h.append hroom line
  refine ⟨t', ?_, h'⟩
  have happend : t₂.append (whole (name :: up) limit keep ready).path line = .ok t' := happend
  have hstuck : (whole (name :: up) limit keep ready).stuck = false := rfl
  simp only [write, hstuck, Bool.false_eq_true, ↓reduceIte, hensure, hrotate, happend]
  rfl

theorem write_of_not_overflows (limit : Int) (keep : Nat) {ready : Bool} (hroom : Room name up last)
    (h : Stands name up ready files t) (line : String) (ho : ¬Overflows limit files line) :
    ∃ t', (whole (name :: up) limit keep ready).write line t =
        (whole (name :: up) limit keep true, t', []) ∧
      Holds name up (Function.update files 0 (some ((files 0).getD "" ++ line))) t' := by
  obtain ⟨t₁, hensure, h₁⟩ := h.ensureDirectory hroom
  exact write_of_rotated hroom hensure
    (h₁.rotateIfNeeded_of_not_overflows hroom keep ready ho) h₁

theorem write_contents (limit : Int) {ready : Bool} {chunks : List Chunk} (hkeep : 1 ≤ keep)
    (hmax : keep ≤ maxKeep) (hroom : Room name up (keep - 1))
    (h : Stands name up ready (contents keep chunks) t) (line : String) :
    ∃ t', (whole (name :: up) limit keep ready).write line t =
        (whole (name :: up) limit keep true, t', []) ∧
      Stands name up true (contents keep (Chunk.add limit chunks line)) t' := by
  by_cases ho : Overflows limit (contents keep chunks) line
  · obtain ⟨t₁, hensure, h₁⟩ := h.ensureDirectory hroom
    have hnone : ∀ j, keep ≤ j → contents keep chunks j = none := fun j hj => if_neg (by omega)
    obtain ⟨t₂, hrotate, h₂⟩ := h₁.rotate hkeep hmax hroom hnone
    have hneeded := h₁.rotateIfNeeded_of_overflows hroom ready ho hrotate
    obtain ⟨t', hwrite, h'⟩ := write_of_rotated hroom hensure hneeded h₂
    rw [add_of_overflows hkeep ho] at h'
    exact ⟨t', hwrite, h'⟩
  · obtain ⟨t', hwrite, h'⟩ := write_of_not_overflows limit keep hroom h line ho
    rw [add_of_not_overflows hkeep ho] at h'
    exact ⟨t', hwrite, h'⟩

theorem logAll_of_write (l : Logger) {p : Path} {P : List String → Bool → FileTree → Prop}
    {Q : MirrorFailure → Prop}
    (hwrite : ∀ {lines ready t} line, P lines ready t → ∃ t' failures,
      (whole p limit keep ready).write line t = (whole p limit keep true, t', failures) ∧
        P (lines ++ [line]) true t' ∧ ∀ f ∈ failures, Q f)
    {lines : List String} {ready : Bool} (h : P lines ready t) (calls : List (String × LogCall)) :
    ∃ ready' t' failures,
      logAll l (whole p limit keep ready) t calls = (whole p limit keep ready', t', failures) ∧
        P (lines ++ l.lines (l.accepted calls)) ready' t' ∧ ∀ f ∈ failures, Q f := by
  induction calls generalizing lines ready t with
  | nil => exact ⟨ready, t, [], rfl, by simpa [Logger.lines, Logger.accepted] using h, by simp⟩
  | cons c calls ih =>
    have hskip (hlog : log l c.1 (whole p limit keep ready) t c.2 =
      (whole p limit keep ready, t, []))
        (hlines : l.lines (l.accepted (c :: calls)) = l.lines (l.accepted calls)) :
        ∃ ready' t' failures, logAll l (whole p limit keep ready) t (c :: calls) =
            (whole p limit keep ready', t', failures) ∧
          P (lines ++ l.lines (l.accepted (c :: calls))) ready' t' ∧ ∀ f ∈ failures, Q f := by
      obtain ⟨ready', t', failures, hall, h', hf⟩ := ih h
      refine ⟨ready', t', failures, ?_, hlines ▸ h', hf⟩
      simp only [logAll, hlog, hall, List.nil_append]
    cases hobjection : l.objection? c.2 with
    | some v =>
      apply hskip
      · cases he : l.entry? c.1 c.2 <;> simp only [log, he, hobjection]
      · simp only [Logger.accepted, List.filter_cons, hobjection, Option.isNone_some,
          Bool.false_eq_true, ↓reduceIte]
    | none =>
      have haccepted : l.accepted (c :: calls) = c :: l.accepted calls := by
        simp only [Logger.accepted, List.filter_cons, hobjection, Option.isNone_none, ↓reduceIte]
      cases he : l.entry? c.1 c.2 with
      | none =>
        apply hskip
        · simp only [log, he]
        · simp only [haccepted, Logger.lines, List.filterMap_cons, he, Option.map_none]
      | some e =>
        obtain ⟨t₁, first, hfirst, h₁, hf₁⟩ := hwrite e.line h
        obtain ⟨ready', t', later, hall, h', hf'⟩ := ih h₁
        refine ⟨ready', t', first ++ later, ?_, ?_, ?_⟩
        · simp only [logAll, log, he, hobjection, hfirst, hall]
        · simpa only [haccepted, Logger.lines, List.filterMap_cons, he, Option.map_some,
            List.append_assoc, List.singleton_append] using h'
        · intro f hf
          exact (List.mem_append.mp hf).elim (hf₁ f) (hf' f)

theorem logAll_contents (l : Logger) (limit : Int) {ready : Bool} {lines : List String}
    (hkeep : 1 ≤ keep) (hmax : keep ≤ maxKeep) (hroom : Room name up (keep - 1))
    (h : Stands name up ready (contents keep (Chunk.split limit lines)) t)
    (calls : List (String × LogCall)) :
    ∃ ready' t', logAll l (whole (name :: up) limit keep ready) t calls =
        (whole (name :: up) limit keep ready', t', []) ∧
      Stands name up ready'
        (contents keep (Chunk.split limit (lines ++ l.lines (l.accepted calls)))) t' := by
  obtain ⟨ready', t', failures, hall, h', hnone⟩ := logAll_of_write l
    (P := fun lines ready t => Stands name up ready (contents keep (Chunk.split limit lines)) t)
    (Q := fun _ => False)
    (fun line h => by
      obtain ⟨t', hwrite, h'⟩ := write_contents limit hkeep hmax hroom h line
      refine ⟨t', [], hwrite, ?_, by simp⟩
      rwa [Chunk.split_append])
    h calls
  rw [List.eq_nil_iff_forall_not_mem.mpr hnone] at hall
  exact ⟨ready', t', hall, h'⟩

def Blocked (p : Path) (keep : Nat) (t : FileTree) : Prop :=
  2 ≤ keep ∧
    (¬Path.Allowed (slot p (keep - 1)) ∨ t.lookup (slot p (keep - 1)) = some .directory)

theorem rotate_of_blocked (h : Site name up 0 t) (hmax : keep ≤ maxKeep)
    (hb : Blocked (name :: up) keep t) :
    ∃ e, rotate (name :: up) (.ofInt keep) t = (t, some (.error e)) := by
  obtain ⟨hkeep, hb⟩ := hb
  obtain ⟨e, he⟩ := remove_error h.directory hb
  exact ⟨e, rotate_of_remove_error hkeep hmax he⟩

theorem write_of_blocked (limit : Int) {ready : Bool} {lines : List String}
    (hroom : Room name up 0) (hmax : keep ≤ maxKeep)
    (hblocked : ∀ {files t}, Holds name up files t → Blocked (name :: up) keep t)
    (h : Stands name up ready (single lines) t) (line : String) :
    ∃ t' failures, (whole (name :: up) limit keep ready).write line t =
        (whole (name :: up) limit keep true, t', failures) ∧
      Stands name up true (single (lines ++ [line])) t' ∧ ∀ f ∈ failures, f = .rotation := by
  by_cases ho : Overflows limit (single lines) line
  · obtain ⟨t₁, hensure, h₁⟩ := h.ensureDirectory hroom
    obtain ⟨e, hrotate⟩ := rotate_of_blocked (h₁.site hroom) hmax (hblocked h₁)
    have hneeded := h₁.rotateIfNeeded_of_overflows hroom ready ho hrotate
    obtain ⟨t', hwrite, h'⟩ := write_of_rotated hroom hensure hneeded h₁
    rw [single_append] at h'
    exact ⟨t', _, hwrite, h', by simp⟩
  · obtain ⟨t', hwrite, h'⟩ := write_of_not_overflows limit keep hroom h line ho
    rw [single_append] at h'
    exact ⟨t', _, hwrite, h', by simp⟩

theorem logAll_of_blocked (l : Logger) (limit : Int) {ready : Bool} {lines : List String}
    (hroom : Room name up 0) (hmax : keep ≤ maxKeep)
    (hblocked : ∀ {files t}, Holds name up files t → Blocked (name :: up) keep t)
    (h : Stands name up ready (single lines) t) (calls : List (String × LogCall)) :
    ∃ ready' t' failures, logAll l (whole (name :: up) limit keep ready) t calls =
        (whole (name :: up) limit keep ready', t', failures) ∧
      Stands name up ready' (single (lines ++ l.lines (l.accepted calls))) t' ∧
      ∀ f ∈ failures, f = .rotation :=
  logAll_of_write l (P := fun lines ready t => Stands name up ready (single lines) t)
    (fun line h => write_of_blocked limit hroom hmax hblocked h line) h calls

end Mirror

end RuleForest
