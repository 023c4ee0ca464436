import RuleForest.FileTree
import RuleForest.Proofs.Splitting

namespace RuleForest

abbrev FileSystem.ordinary : FileSystem := ⟨255, 4096, fun _ _ => 4096⟩

namespace Path

variable {name : String} {p q d up : Path}

def IsName (name : String) : Prop := name ≠ "" ∧ name ≠ "." ∧ name ≠ ".."

instance (name : String) : Decidable (IsName name) := inferInstanceAs (Decidable (_ ∧ _))

def route : Path → List Path
  | [] => [[]]
  | name :: up => place (name :: up) :: route up

def around (p : Path) : List Path := route p.tail

@[simp]
theorem around_cons (name : String) (up : Path) : around (name :: up) = up.route := rfl

theorem cons_not_suffix (name : String) (up : Path) : ¬(name :: up) <:+ up :=
  fun h => Nat.not_succ_le_self _ h.length_le

theorem place_of_isName (h : IsName name) (up : Path) : place (name :: up) = name :: up.place := by
  simp [place, step, h.1, h.2.1, h.2.2]

theorem place_cons_cases (name : String) (up : Path) :
    (place (name :: up) <:+ up.place) ∨ IsName name ∧ place (name :: up) = name :: up.place := by
  by_cases h : IsName name
  · exact .inr ⟨h, place_of_isName h up⟩
  · left
    rw [place]
    unfold step
    split
    · exact List.suffix_refl _
    · next hstay =>
      split
      · exact List.tail_suffix _
      · next hback =>
        simp only [Bool.or_eq_true, decide_eq_true_eq, not_or] at hstay
        exact absurd ⟨hstay.1, hstay.2, hback⟩ h

theorem place_mem_route (p : Path) : p.place ∈ p.route := by
  cases p <;> exact List.mem_cons_self

theorem mem_route_of_suffix (hd : d ∈ p.route) (hq : q <:+ d) : q ∈ p.route := by
  induction p generalizing d with
  | nil =>
    obtain rfl := List.mem_singleton.mp hd
    rw [List.suffix_nil.mp hq]
    exact List.mem_cons_self
  | cons name up ih =>
    rcases List.mem_cons.mp hd with rfl | hd
    · rcases place_cons_cases name up with hs | ⟨-, hplace⟩
      · exact List.mem_cons_of_mem _ (ih (place_mem_route up) (hq.trans hs))
      · rw [hplace] at hq
        rcases List.suffix_cons_iff.mp hq with rfl | hq
        · exact List.mem_cons.mpr (.inl hplace.symm)
        · exact List.mem_cons_of_mem _ (ih (place_mem_route up) hq)
    · exact List.mem_cons_of_mem _ (ih hd hq)

theorem nil_mem_route (p : Path) : [] ∈ p.route :=
  mem_route_of_suffix (place_mem_route p) List.nil_suffix

theorem place_of_mem_route (h : d ∈ p.route) : place d = d := by
  induction p generalizing d with
  | nil =>
    obtain rfl := List.mem_singleton.mp h
    rfl
  | cons name up ih =>
    rcases List.mem_cons.mp h with rfl | h
    · rcases place_cons_cases name up with hs | ⟨hname, hplace⟩
      · exact ih (mem_route_of_suffix (place_mem_route up) hs)
      · rw [hplace, place_of_isName hname, ih (place_mem_route up)]
    · exact ih h

theorem place_place (p : Path) : place (place p) = place p := place_of_mem_route (place_mem_route p)

theorem parent_cons (h : IsName name) (up : Path) : parent (name :: up) = up := by
  have hempty : name.isEmpty = false := by simp [h.1]
  rw [parent, List.dropWhile_cons_of_neg (by simp [hempty]), List.tail_cons]

theorem ofText_eq_cons {s : String} (h : s ≠ "") : ∃ name up, ofText s = name :: up := by
  apply List.exists_cons_of_ne_nil
  simp [ofText, h, Text.splitAt_ne_nil]

theorem ofText_of_not_mem {s : String} (hs : s ≠ "") (h : '/' ∉ s.toList) : ofText s = [s] := by
  simp [ofText, Text.splitAt_of_not_mem h, hs]

theorem bytes_cons (name : String) (up : Path) :
    bytes (name :: up) = name.utf8ByteSize + 1 + up.bytes := rfl

variable [FileSystem]

structure Allowed (p : Path) : Prop where
  whole : p.error? = none
  names : ∀ name ∈ p, nameTooLong name = false

theorem error?_eq_none :
    p.error? = none ↔ (∀ name ∈ p, '\x00' ∉ name.toList) ∧ p.bytes ≤ FileSystem.maxPathBytes := by
  unfold error?
  split
  · next h =>
    simp only [List.any_eq_true, String.contains_char_eq, decide_eq_true_eq] at h
    obtain ⟨name, hname, hc⟩ := h
    simp only [reduceCtorEq, false_iff, not_and]
    exact fun hall => absurd hc (hall name hname)
  · next h =>
    simp only [List.any_eq_true, String.contains_char_eq, decide_eq_true_eq, not_exists, not_and]
      at h
    split
    · next hlt =>
      simp only [reduceCtorEq, false_iff, not_and]
      exact fun _ => Nat.not_le_of_lt hlt
    · next hle => simp only [true_iff]; exact ⟨h, Nat.le_of_not_lt hle⟩

instance (p : Path) : Decidable p.Allowed :=
  decidable_of_iff (((∀ name ∈ p, '\x00' ∉ name.toList) ∧ p.bytes ≤ FileSystem.maxPathBytes) ∧
      ∀ name ∈ p, nameTooLong name = false)
    ⟨fun ⟨whole, names⟩ => ⟨error?_eq_none.mpr whole, names⟩,
      fun ⟨whole, names⟩ => ⟨error?_eq_none.mp whole, names⟩⟩

theorem Allowed.tail (h : Allowed (name :: up)) : up.Allowed := by
  have hw := error?_eq_none.mp h.whole
  rw [bytes_cons] at hw
  refine ⟨error?_eq_none.mpr ⟨fun n hn => hw.1 n (List.mem_cons_of_mem _ hn), by omega⟩, ?_⟩
  exact fun n hn => h.names n (List.mem_cons_of_mem _ hn)

end Path

namespace FileTree

variable {t t₁ : FileTree} {p q up source target : Path} {name : String} {entry : Entry}

def entryAt (t : FileTree) (q : Path) : Option Entry :=
  (t.entries.find? fun e => e.1 == q).map Prod.snd

theorem lookup_eq (t : FileTree) (p : Path) :
    t.lookup p = if p.place = [] then some .directory else t.entryAt p.place := rfl

theorem lookup_cons (h : Path.IsName name) :
    t.lookup (name :: up) = t.entryAt (name :: up.place) := by
  rw [lookup_eq, Path.place_of_isName h, if_neg (List.cons_ne_nil name _)]

theorem entryAt_eq_none : t.entryAt q = none ↔ ∀ e ∈ t.entries, e.1 ≠ q := by
  simp [entryAt]

@[simp]
theorem entryAt_empty (q : Path) : ({} : FileTree).entryAt q = none := rfl

theorem entryAt_cons (e : Path × Entry) (es : List (Path × Entry)) (q : Path) :
    entryAt ⟨e :: es⟩ q = if e.1 = q then some e.2 else entryAt ⟨es⟩ q := by
  by_cases h : e.1 = q <;> simp [entryAt, h]

theorem entryAt_put (t : FileTree) (p : Path) (entry : Entry) (q : Path) :
    (t.put p entry).entryAt q = if q = p then some entry else t.entryAt q := by
  obtain ⟨es⟩ := t
  unfold put
  induction es with
  | nil => simp [putEntry, entryAt_cons, eq_comm]
  | cons e es ih =>
    simp only [putEntry] at ih ⊢
    split
    · next he =>
      by_cases hq : q = p
      · simp [entryAt_cons, hq]
      · simp [entryAt_cons, he, hq, Ne.symm hq]
    · next he =>
      by_cases hq : e.1 = q
      · have hqp : q ≠ p := hq ▸ he
        simp [entryAt_cons, hq, hqp]
      · simp [entryAt_cons, hq, ih]

theorem erase_cons (e : Path × Entry) (es : List (Path × Entry)) (p : Path) :
    erase ⟨e :: es⟩ p = if e.1 = p then erase ⟨es⟩ p else ⟨e :: (erase ⟨es⟩ p).entries⟩ := by
  by_cases h : e.1 = p <;> simp [erase, h]

theorem entryAt_erase (t : FileTree) (p q : Path) :
    (t.erase p).entryAt q = if q = p then none else t.entryAt q := by
  obtain ⟨es⟩ := t
  induction es with
  | nil => simp [erase]
  | cons e es ih =>
    rw [erase_cons, entryAt_cons]
    split
    · next he =>
      by_cases hq : q = p
      · rw [ih, if_pos hq, if_pos hq]
      · simp [ih, he, hq, Ne.symm hq]
    · next he =>
      rw [entryAt_cons, ih]
      by_cases hq : e.1 = q
      · have hqp : q ≠ p := hq ▸ he
        simp [hq, hqp]
      · simp [hq]

theorem relocate_of_not_suffix (h : ¬source <:+ q) : relocate source target q = q := by
  simp [relocate, h]

theorem move_cons (e : Path × Entry) (es : List (Path × Entry)) (source target : Path) :
    move ⟨e :: es⟩ source target =
      if e.1 = target then move ⟨es⟩ source target
      else ⟨(relocate source target e.1, e.2) :: (move ⟨es⟩ source target).entries⟩ := by
  simp only [move, erase_cons]
  split <;> rfl

theorem relocate_append (inner source target : Path) :
    relocate source target (inner ++ source) = inner ++ target := by
  have hs : source.isSuffixOf (inner ++ source) = true :=
    List.isSuffixOf_iff_suffix.mpr (List.suffix_append _ _)
  rw [relocate, if_pos hs, List.length_append, Nat.add_sub_cancel, List.take_left]

theorem entryAt_move_inside (hfree : ∀ e ∈ t.entries, ¬target <:+ e.1) (inner : Path) :
    (t.move source target).entryAt (inner ++ target) = t.entryAt (inner ++ source) := by
  obtain ⟨es⟩ := t
  induction es with
  | nil => rfl
  | cons e es ih =>
    have ih := ih fun e he => hfree e (List.mem_cons_of_mem _ he)
    have he : ¬target <:+ e.1 := hfree e List.mem_cons_self
    have hne : e.1 ≠ target := fun h => he (h ▸ List.suffix_refl _)
    rw [move_cons, if_neg hne, entryAt_cons, entryAt_cons, ih]
    by_cases hs : source <:+ e.1
    · obtain ⟨rest, hrest⟩ := hs
      rw [← hrest, relocate_append]
      simp only [List.append_left_inj]
    · rw [relocate_of_not_suffix hs, if_neg, if_neg]
      · intro h
        exact hs (h ▸ List.suffix_append _ _)
      · intro h
        exact he (h ▸ List.suffix_append _ _)

theorem entryAt_move_beside (t : FileTree) (source : Path) (hq : ¬target <:+ q) :
    (t.move source target).entryAt q = if source <:+ q then none else t.entryAt q := by
  obtain ⟨es⟩ := t
  induction es with
  | nil => simp [move, erase]
  | cons e es ih =>
    rw [move_cons]
    split
    · next he =>
      have hne : e.1 ≠ q := by
        rintro rfl
        exact hq (he ▸ List.suffix_refl _)
      rw [ih, entryAt_cons, if_neg hne]
    rw [entryAt_cons, entryAt_cons, ih]
    by_cases hs : source <:+ e.1
    · obtain ⟨rest, hrest⟩ := hs
      have hmoved : relocate source target e.1 ≠ q := by
        rw [← hrest, relocate_append]
        rintro rfl
        exact hq (List.suffix_append _ _)
      rw [if_neg hmoved]
      split
      · rfl
      · next hnot =>
        rw [if_neg]
        rintro rfl
        exact hnot ⟨rest, hrest⟩
    · rw [relocate_of_not_suffix hs]
      by_cases hqe : e.1 = q
      · rw [if_pos hqe, if_pos hqe, if_neg (hqe ▸ hs)]
      · rw [if_neg hqe, if_neg hqe]

theorem entryAt_removeAll (t : FileTree) (p q : Path) :
    (t.removeAll p).entryAt q = if p.place <:+ q then none else t.entryAt q := by
  obtain ⟨es⟩ := t
  induction es with
  | nil => simp [removeAll]
  | cons e es ih =>
    have hcons : removeAll ⟨e :: es⟩ p =
        if p.place <:+ e.1 then removeAll ⟨es⟩ p else ⟨e :: (removeAll ⟨es⟩ p).entries⟩ := by
      by_cases h : p.place <:+ e.1 <;> simp [removeAll, List.filter_cons, h]
    rw [hcons, entryAt_cons]
    split
    · next he =>
      rw [ih]
      by_cases hq : e.1 = q
      · rw [if_pos (hq ▸ he), if_pos (hq ▸ he)]
      · rw [if_neg hq]
    · next he =>
      rw [entryAt_cons, ih]
      by_cases hq : e.1 = q
      · rw [if_pos hq, if_pos hq, if_neg (hq ▸ he)]
      · rw [if_neg hq, if_neg hq]

def HasDirectory (t : FileTree) (q : Path) : Prop := q = [] ∨ t.entryAt q = some .directory

theorem lookup_eq_directory : t.lookup p = some .directory ↔ t.HasDirectory p.place := by
  rw [lookup_eq, HasDirectory]
  split
  · next h => simp [h]
  · next h => simp [h]

theorem HasDirectory.put_directory (h : t.HasDirectory q) (p : Path) :
    (t.put p .directory).HasDirectory q := by
  rw [HasDirectory, entryAt_put]
  split
  · exact .inr rfl
  · exact h

variable [FileSystem]

theorem directoryError?_eq_none :
    t.directoryError? p = none ↔
      (∀ name ∈ p, Path.nameTooLong name = false) ∧ ∀ q ∈ p.route, t.HasDirectory q := by
  induction p with
  | nil => simp [directoryError?, Path.route, HasDirectory]
  | cons name up ih =>
    rw [directoryError?, Path.route, List.forall_mem_cons, List.forall_mem_cons,
      ← lookup_eq_directory]
    cases hup : t.directoryError? up with
    | some e =>
      rw [hup] at ih
      simp only [reduceCtorEq, false_iff]
      rintro ⟨⟨-, hnames⟩, -, hdirs⟩
      exact absurd (ih.mpr ⟨hnames, hdirs⟩) (by simp)
    | none =>
      obtain ⟨hnames, hdirs⟩ := ih.mp hup
      cases hname : Path.nameTooLong name with
      | true => simp
      | false =>
        have hup : (∀ n ∈ up, Path.nameTooLong n = false) ∧ ∀ q ∈ Path.route up, t.HasDirectory q :=
          ⟨hnames, hdirs⟩
        rcases t.lookup (name :: up) with _ | _ | _
        · simp
        · simp
        · simpa using hup

theorem hasDirectory_of_mem_route (h : t.directoryError? p = none) (hq : q ∈ p.route) :
    t.HasDirectory q := (directoryError?_eq_none.mp h).2 q hq

theorem directoryError?_mono (h : t.directoryError? p = none)
    (hd : ∀ q ∈ p.route, t.HasDirectory q → t₁.HasDirectory q) : t₁.directoryError? p = none := by
  obtain ⟨hnames, hdirs⟩ := directoryError?_eq_none.mp h
  exact directoryError?_eq_none.mpr ⟨hnames, fun q hq => hd q hq (hdirs q hq)⟩

theorem not_mem_route_of_entryAt {q : Path} (h : t.directoryError? up = none)
    (hq : t.entryAt (name :: q) ≠ some .directory) : name :: q ∉ up.route := by
  intro hmem
  rcases hasDirectory_of_mem_route h hmem with hroot | hdir
  · exact List.cons_ne_nil _ _ hroot
  · exact hq hdir

theorem directoryError?_cons (hname : Path.nameTooLong name = false)
    (h : t.directoryError? up = none) :
    t.directoryError? (name :: up) = none ↔ t.HasDirectory (Path.place (name :: up)) := by
  rw [directoryError?_eq_none, Path.route, List.forall_mem_cons, List.forall_mem_cons]
  have hup := directoryError?_eq_none.mp h
  exact ⟨fun hall => hall.2.1, fun hd => ⟨⟨hname, hup.1⟩, hd, hup.2⟩⟩

theorem pathError?_eq_none :
    t.pathError? (name :: up) = none ↔
      Path.error? (name :: up) = none ∧ t.directoryError? up = none ∧
        Path.nameTooLong name = false := by
  simp only [pathError?, List.tail_cons, List.head?_cons, Option.orElse_eq_orElse,
    Option.orElse_eq_or, Option.or_eq_none_iff, Option.any_some]
  by_cases h : Path.nameTooLong name = true <;> simp [h]

theorem pathError?_of_allowed (h : Path.Allowed (name :: up)) (hd : t.directoryError? up = none) :
    t.pathError? (name :: up) = none :=
  pathError?_eq_none.mpr ⟨h.whole, hd, h.names name List.mem_cons_self⟩

theorem allowed_of_pathError? (h : t.pathError? (name :: up) = none) :
    Path.Allowed (name :: up) ∧ t.directoryError? up = none := by
  obtain ⟨hwhole, hdir, hname⟩ := pathError?_eq_none.mp h
  exact ⟨⟨hwhole, List.forall_mem_cons.mpr ⟨hname, (directoryError?_eq_none.mp hdir).1⟩⟩, hdir⟩

theorem Path.error?_ne_missing (p : Path) : p.error? ≠ some .missing := by
  unfold Path.error?
  split
  · simp
  · split <;> simp

theorem pathError?_of_not_allowed (h : ¬Path.Allowed (name :: up))
    (hd : t.directoryError? up = none) :
    ∃ e, t.pathError? (name :: up) = some e ∧ e ≠ .missing := by
  have hnames := (directoryError?_eq_none.mp hd).1
  by_cases hw : Path.error? (name :: up) = none
  · have hname : Path.nameTooLong name = true := by
      by_contra hn
      exact h ⟨hw, List.forall_mem_cons.mpr ⟨by simpa using hn, hnames⟩⟩
    exact ⟨.nameTooLong, by simp [pathError?, hw, hd, hname], by simp⟩
  · obtain ⟨e, he⟩ := Option.ne_none_iff_exists'.mp hw
    refine ⟨e, by simp [pathError?, he], ?_⟩
    rintro rfl
    exact Path.error?_ne_missing _ he

theorem isName_of_lookup (h : t.directoryError? up = none)
    (hl : t.lookup (name :: up) ≠ some .directory) : Path.IsName name := by
  rcases Path.place_cons_cases name up with hs | ⟨hname, -⟩
  · have hroute := Path.mem_route_of_suffix (Path.place_mem_route up) hs
    exact absurd (lookup_eq_directory.mpr (hasDirectory_of_mem_route h hroute)) hl
  · exact hname

theorem stat_eq_ok : t.stat p = .ok entry ↔ t.pathError? p = none ∧ t.lookup p = some entry := by
  unfold stat
  split
  · next he => simp [he]
  · next he =>
    split
    · next hl => simp [he, hl]
    · next hl => simp [he, hl]

theorem stat_of_missing (h : t.pathError? p = none) (hl : t.lookup p = none) :
    t.stat p = .error .missing := by
  simp only [stat, h, hl]

theorem pathError?_of_stat {e : FileError} (h : t.stat p = .error e) (he : e ≠ .missing) :
    t.pathError? p = some e := by
  unfold stat at h
  split at h
  · next hpath => rw [hpath, Except.error.inj h]
  · split at h
    · cases h
    · exact absurd (Except.error.inj h).symm he

theorem entryAt_of_stat {s : String} (hs : t.stat (name :: up) = .ok (.file s)) :
    Path.IsName name ∧ Path.Allowed (name :: up) ∧ t.directoryError? up = none ∧
      t.entryAt (name :: up.place) = some (.file s) := by
  obtain ⟨hpath, hl⟩ := stat_eq_ok.mp hs
  obtain ⟨hallowed, hdir⟩ := allowed_of_pathError? hpath
  have hname := isName_of_lookup hdir (by rw [hl]; simp)
  rw [lookup_cons hname] at hl
  exact ⟨hname, hallowed, hdir, hl⟩

theorem entryAt_makeInside (t : FileTree) (p q : Path) :
    (t.makeInside p).1.entryAt q = t.entryAt q ∨
      q ∈ p.route ∧ (t.makeInside p).1.entryAt q = some .directory := by
  induction p with
  | nil => exact .inl rfl
  | cons name up ih =>
    have ih :=
      ih.imp_right fun h => And.intro (List.mem_cons_of_mem (Path.place (name :: up)) h.1) h.2
    rw [makeInside]
    rcases hmake : t.makeInside up with ⟨t₁, _ | e⟩ <;> rw [hmake] at ih
    · simp only
      split
      · rw [entryAt_put]
        split
        · next hq => exact .inr ⟨hq ▸ List.mem_cons_self, rfl⟩
        · exact ih
      · exact ih
    · exact ih

theorem makeInside_of_no_file (hnames : ∀ n ∈ p, Path.nameTooLong n = false)
    (hno : ∀ q ∈ p.route, ∀ s, t.entryAt q ≠ some (.file s)) :
    ∃ t₁, t.makeInside p = (t₁, none) ∧ t₁.directoryError? p = none := by
  induction p with
  | nil => exact ⟨t, rfl, rfl⟩
  | cons name up ih =>
    obtain ⟨hname, hnames⟩ := List.forall_mem_cons.mp hnames
    obtain ⟨hfree, hno⟩ := List.forall_mem_cons.mp hno
    obtain ⟨t₁, hmake, hdir⟩ := ih hnames hno
    have hcons := directoryError?_cons hname hdir
    by_cases hplace : t₁.HasDirectory (Path.place (name :: up))
    · refine ⟨t₁, ?_, hcons.mpr hplace⟩
      simp only [makeInside, hmake, hcons.mpr hplace]
    · have hnone : t₁.lookup (name :: up) = none := by
        rw [HasDirectory, not_or] at hplace
        rw [lookup_eq, if_neg hplace.1]
        rcases hentry : t₁.entryAt (Path.place (name :: up)) with _ | s | _
        · rfl
        · have hsame := t.entryAt_makeInside up (Path.place (name :: up))
          rw [hmake, hentry] at hsame
          rcases hsame with hsame | ⟨-, hsame⟩
          · exact absurd hsame.symm (hfree s)
          · cases hsame
        · exact absurd hentry hplace.2
      have hmissing : t₁.directoryError? (name :: up) = some .missing := by
        simp only [directoryError?, hdir, hname, Bool.false_eq_true, ↓reduceIte, hnone]
      refine ⟨t₁.put (Path.place (name :: up)) .directory, ?_, ?_⟩
      · simp only [makeInside, hmake, hmissing]
      · rw [directoryError?_cons hname]
        · exact .inr (by rw [entryAt_put, if_pos rfl])
        · exact directoryError?_mono hdir fun q _ hq => hq.put_directory _

theorem makeInside_of_directoryError? (h : t.directoryError? p = none) :
    t.makeInside p = (t, none) := by
  induction p with
  | nil => rfl
  | cons name up ih =>
    have hup : t.directoryError? up = none := by
      obtain ⟨hnames, hdirs⟩ := directoryError?_eq_none.mp h
      exact directoryError?_eq_none.mpr
        ⟨(List.forall_mem_cons.mp hnames).2, (List.forall_mem_cons.mp hdirs).2⟩
    rw [makeInside, ih hup]
    simp only [h]

end FileTree

end RuleForest
