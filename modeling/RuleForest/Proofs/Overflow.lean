import RuleForest.Proofs.NewestChunks

namespace RuleForest

namespace Mirror

variable {name : String} {up : Path} {keep last : Nat} {t t₁ t₂ : FileTree} {m : Mirror}
  {old line : String}

theorem contentAt_after_rotation {base : Path} (hkeep : 1 ≤ keep)
    (hr : Restocked name base t (passedOn keep (stock name base t)) t₁) (line : String) :
    let t' := t₁.put (name :: base) (.file line)
    (∀ i, i + 1 < keep →
      t'.contentAt (slotName name (i + 1) :: base) = t.contentAt (slotName name i :: base)) ∧
      ∀ q, (∀ i < keep, ¬slotName name i :: base <:+ q) → t'.entryAt q = t.entryAt q := by
  intro t'
  constructor
  · intro i hi
    funext inner
    have hne : inner ++ slotName name (i + 1) :: base ≠ name :: base := by
      intro heq
      have hs : slotName name 0 :: base <:+ inner ++ slotName name (i + 1) :: base :=
        ⟨[], heq.symm⟩
      exact Nat.succ_ne_zero i (slot_suffix_iff.mp hs).symm
    have hstock : t₁.contentAt (slotName name (i + 1) :: base) inner =
        passedOn keep (stock name base t) (i + 1) inner :=
      congrFun (congrFun hr.stock_eq (i + 1)) inner
    rw [passedOn, if_neg (Nat.succ_ne_zero i), if_pos hi, Nat.add_sub_cancel] at hstock
    rw [FileTree.contentAt, FileTree.entryAt_put, if_neg hne]
    exact hstock
  · intro q hq
    have hne : q ≠ name :: base := by
      rintro rfl
      exact hq 0 (by omega) (List.suffix_refl _)
    rw [FileTree.entryAt_put, if_neg hne]
    apply hr.entryAt_eq (keep - 1)
    · intro j hj
      rw [passedOn, if_neg (by omega), if_neg (by omega)]
    · exact fun i hi => hq i (by omega)

section Rotated

variable [FileSystem]

theorem Site.of_not_blocked (h : Site name up 0 t) (hkeep : 1 ≤ keep)
    (hfile : t.entryAt (name :: up.place) = some (.file old))
    (hbetween : ∀ i < keep - 1, slotName name i :: up.place ∉ up.route)
    (hb : ¬Blocked (name :: up) keep t) :
    Site name up (keep - 1) t ∧ stock name up.place t (keep - 1) [] ≠ some .directory := by
  rcases Nat.lt_or_ge 1 keep with hk | hk
  · rw [Blocked, not_and] at hb
    have hb := hb hk
    rw [slot_cons, not_or, not_not, h.lookup_slot] at hb
    refine ⟨⟨⟨h.named, hb.1, fun i hi => ?_⟩, h.grown, h.directory⟩, hb.2⟩
    rcases Nat.lt_or_eq_of_le hi with hlt | rfl
    · exact hbetween i hlt
    · exact FileTree.not_mem_route_of_entryAt h.directory hb.2
  · obtain rfl : keep = 1 := by omega
    have hfile : stock name up.place t 0 [] = some (.file old) := hfile
    refine ⟨h, ?_⟩
    rw [hfile]
    exact nofun

theorem Site.stat_of_file (h : Site name up last t)
    (hfile : t.entryAt (name :: up.place) = some (.file old)) :
    t.stat (name :: up) = .ok (.file old) := by
  have hs := h.stat_slot (Nat.zero_le last)
  rwa [show stock name up.place t 0 [] = some (.file old) from hfile] at hs

theorem before_rotation (h : Site name up last t) (ready : Bool) (hpath : m.path = name :: up)
    (hfile : t.entryAt (name :: up.place) = some (.file old))
    (hover : m.maxBytes < .ofInt (old.utf8ByteSize + line.utf8ByteSize : Nat)) {halt : Option Halt}
    (hrotate : rotate (name :: up) m.keep t = (t₁, halt)) :
    { m with ready }.ensureDirectory t = (t, none) ∧
      { m with ready }.rotateIfNeeded line.utf8ByteSize t = (t₁, afterRotation halt) := by
  have hstat := h.stat_of_file hfile
  constructor
  · exact ensureDirectory_of_directory hpath h.named (h.slot (Nat.zero_le last)) h.directory
  · rw [← hpath] at hstat hrotate
    exact rotateIfNeeded_of_exceeds (m := { m with ready }) hstat hover hrotate

theorem write_of_rotate (h : Site name up last t) (ready : Bool) (hpath : m.path = name :: up)
    (hstuck : m.stuck = false) (hfile : t.entryAt (name :: up.place) = some (.file old))
    (hover : m.maxBytes < .ofInt (old.utf8ByteSize + line.utf8ByteSize : Nat)) {halt : Option Halt}
    (hrotate : rotate (name :: up) m.keep t = (t₁, halt)) {failures : List MirrorFailure}
    (hafter : afterRotation halt = .ok failures) (happend : t₁.append (name :: up) line = .ok t₂) :
    { m with ready }.write line t = ({ m with ready := true }, t₂, failures) := by
  obtain ⟨hensure, hneeded⟩ := before_rotation h ready hpath hfile hover hrotate
  have hruns : ¬{ m with ready }.stuck = true := by simp [hstuck]
  rw [hafter] at hneeded
  rw [← hpath] at happend
  rw [write, if_neg hruns]
  simp only [hensure, hneeded, happend]

end Rotated

/-- A line that would make the file too large finds the oldest archive in the way, and is added to
the file as if there were no limit, or every place passes on all it has to the next one and the line
stands alone, unless the path itself goes through an archive that is passed on. -/
theorem write_all_or_nothing [FileSystem] (o : Logger.Options) (file : String) (count : Int)
    (m : Mirror) (ready : Bool) (t : FileTree) (old line : String)
    (hm : ofLogger? (Logger.counted o file count) = some m) (hcount : count ≤ maxKeep)
    (hgrown : t.Grown) (hfile : t.stat m.path = .ok (.file old))
    (hover : m.maxBytes < .ofInt (old.utf8ByteSize + line.utf8ByteSize : Nat)) :
    let p := m.path
    let keep := kept count
    (Blocked p keep t →
      ∃ t', { m with ready }.write line t = ({ m with ready := true }, t', [.rotation]) ∧
        t'.Grown ∧ t'.entryAt p.place = some (.file (old ++ line)) ∧
        ∀ q, q ≠ p.place → t'.entryAt q = t.entryAt q) ∧
    (¬Blocked p keep t → (∀ i < keep - 1, (slot p i).place ∉ p.around) →
      ∃ t', { m with ready }.write line t = ({ m with ready := true }, t', []) ∧
        t'.Grown ∧ t'.entryAt p.place = some (.file line) ∧
        (∀ i, i + 1 < keep →
          t'.contentAt (slot p (i + 1)).place = t.contentAt (slot p i).place) ∧
        ∀ q, (∀ i < keep, ¬(slot p i).place <:+ q) → t'.entryAt q = t.entryAt q) := by
  have hne : file ≠ "" := by
    rintro rfl
    cases hm
  rw [ofLogger?_counted o hne count] at hm
  obtain rfl := Option.some.inj hm
  intro p keep
  have hkeep : 1 ≤ keep := one_le_kept count
  have hmax : keep ≤ maxKeep := kept_le hcount
  obtain ⟨name, up, hp⟩ : ∃ (name : String) (up : Path), p = name :: up := Path.ofText_eq_cons hne
  rw [show Path.ofText file = name :: up from hp] at hfile
  -- That a file stands at the path says all that is needed about the path.
  obtain ⟨hname, hallowed, hdir, hentry⟩ := FileTree.entryAt_of_stat hfile
  have room : Room name up 0 := .of_directory hname hallowed hdir (by simp [hentry])
  have hsite : Site name up 0 t := ⟨room, hgrown, hdir⟩
  have hgrown' {m : Mirror} {t' : FileTree} {failures : List MirrorFailure}
      (hwrite : { m with ready }.write line t = ({ m with ready := true }, t', failures)) :
      t'.Grown := by
    have := grown_write { m with ready } hgrown line
    rwa [hwrite] at this
  rw [hp, room.place_self]
  constructor
  · intro hb
    obtain ⟨e, hrotate⟩ := rotate_of_blocked hsite hmax hb
    have happend :=
      hsite.append old (by rw [show stock name up.place t 0 [] = _ from hentry]; rfl) line
    have hwrite := write_of_rotate hsite ready hp rfl hentry hover hrotate rfl happend
    refine ⟨_, hwrite, hgrown' hwrite, ?_, ?_⟩
    · rw [FileTree.entryAt_put, if_pos rfl]
    · intro q hq
      rw [FileTree.entryAt_put, if_neg hq]
  · intro hb hbetween
    have hplace (i : Nat) : (slot (name :: up) i).place = slotName name i :: up.place :=
      room.place_slot i
    simp only [hplace, Path.around_cons] at hbetween ⊢
    obtain ⟨hsite', hlast⟩ := hsite.of_not_blocked hkeep hentry hbetween hb
    obtain ⟨t₁, hrotate, hr, hsite₁⟩ := hsite'.rotate hkeep hmax hlast
    have happend := hsite₁.append "" (by rw [hr.stock_eq]; rfl) line
    rw [String.empty_append] at happend
    obtain ⟨hpassed, hbeside⟩ := contentAt_after_rotation hkeep hr line
    have hwrite := write_of_rotate hsite ready hp rfl hentry hover hrotate rfl happend
    refine ⟨_, hwrite, hgrown' hwrite, ?_, hpassed, hbeside⟩
    rw [FileTree.entryAt_put, if_pos rfl]

def littered : FileTree :=
  ⟨[(["app.log"], .file "one\n"), (["app.log.1"], .directory),
    (["note", "app.log.1"], .file "mine")]⟩

theorem littered_grown : littered.Grown := by
  have hfile : (FileTree.put {} ["app.log"] (.file "one\n")).Grown :=
    FileTree.grown_empty.put (.inl rfl) (.inr (by decide))
  have hdir : (FileTree.put ⟨[(["app.log"], .file "one\n")]⟩ ["app.log.1"] .directory).Grown :=
    hfile.put (.inl rfl) (.inl rfl)
  have hnote : (FileTree.put ⟨[(["app.log"], .file "one\n"), (["app.log.1"], .directory)]⟩
      ["note", "app.log.1"] (.file "mine")).Grown :=
    hdir.put (.inr (by decide)) (.inr (by decide))
  exact hnote

theorem write_all_or_nothing_littered :
    letI := FileSystem.ordinary
    let o : Logger.Options := { maxFileBytes := some (.ofInt 5) }
    let m : Mirror := { path := ["app.log"], maxBytes := .ofInt 5, keep := .ofInt 3 }
    ofLogger? (Logger.counted o "app.log" 3) = some m ∧ (3 : Int) ≤ maxKeep ∧ littered.Grown ∧
      littered.stat m.path = .ok (.file "one\n") ∧
      m.maxBytes < .ofInt ("one\n".utf8ByteSize + "two\n".utf8ByteSize : Nat) ∧
      ¬Blocked m.path 3 littered ∧ (∀ i < 2, (slot m.path i).place ∉ m.path.around) ∧
      ∃ t', m.write "two\n" littered = ({ m with ready := true }, t', []) ∧ t'.Grown ∧
        t'.entryAt ["app.log"] = some (.file "two\n") ∧
        t'.entryAt ["app.log.1"] = some (.file "one\n") ∧
        t'.entryAt ["note", "app.log.2"] = some (.file "mine") := by
  let _ := FileSystem.ordinary
  intro o m
  have hm : ofLogger? (Logger.counted o "app.log" 3) = some m := by
    rw [ofLogger?_counted o (by decide), Path.ofText_of_not_mem (by decide) (by decide)]
    rfl
  have hcount : (3 : Int) ≤ maxKeep := by decide
  have hallowed : Path.Allowed ["app.log"] := by decide
  have hfile : littered.stat m.path = .ok (.file "one\n") :=
    FileTree.stat_eq_ok.mpr ⟨FileTree.pathError?_of_allowed hallowed rfl, by decide⟩
  have hover : m.maxBytes < .ofInt ("one\n".utf8ByteSize + "two\n".utf8ByteSize : Nat) := by decide
  have hfree : ¬Blocked m.path 3 littered := by
    rintro ⟨-, hlong | hdir⟩
    · exact hlong (by decide)
    · exact absurd hdir (by decide)
  have hbetween : ∀ i < 2, (slot m.path i).place ∉ m.path.around := by decide
  refine ⟨hm, hcount, littered_grown, hfile, hover, hfree, hbetween, ?_⟩
  obtain ⟨t', hwrite, hgrown, hactive, hpassed, -⟩ := (write_all_or_nothing o "app.log" 3 m false
    littered "one\n" "two\n" hm hcount littered_grown hfile hover).2 hfree hbetween
  refine ⟨t', hwrite, hgrown, hactive, ?_, ?_⟩
  · exact congrFun (hpassed 0 (by decide)) []
  · exact congrFun (hpassed 1 (by decide)) ["note"]

def lone (name : String) : FileTree := ⟨[([name], .file "one\n")]⟩

def neighbours : FileTree := ⟨[(["log.1"], .directory), (["log"], .file "one\n")]⟩

theorem neighbours_grown : neighbours.Grown := by
  have hdir : (FileTree.put {} ["log.1"] .directory).Grown :=
    FileTree.grown_empty.put (.inl rfl) (.inl rfl)
  have hfile : (FileTree.put ⟨[(["log.1"], .directory)]⟩ ["log"] (.file "one\n")).Grown :=
    hdir.put (.inl rfl) (.inr (by decide))
  exact hfile

theorem one_lt_sizes (line : String) :
    Number.ofInt 1 < .ofInt ("one\n".utf8ByteSize + line.utf8ByteSize : Nat) := by
  have hfour : "one\n".utf8ByteSize = 4 := rfl
  rw [Number.ofInt_lt_ofInt]
  omega

theorem lone_file (name : String) :
    stock name (Path.place []) (lone name) 0 [] = some (.file "one\n") := by
  simp [stock, FileTree.contentAt, slotName, Path.place, lone, FileTree.entryAt_cons]

section Counterexamples

variable [FileSystem]

theorem lone_site (hname : Path.IsName name) (hallowed : Path.Allowed [slotName name last]) :
    Site name [] last (lone name) where
  named := hname
  allowed := hallowed
  apart i _ := by simp [Path.route]
  grown := FileTree.grown_empty.put (.inl rfl) (.inr (by simp))
  directory := rfl

theorem lone_stat (h : Site name [] last (lone name)) :
    (lone name).stat [name] = .ok (.file "one\n") := h.stat_of_file (lone_file name)

theorem write_without_archive (hname : Path.IsName name) (hallowed : Path.Allowed [name])
    (hno : ¬Path.Allowed (slot [name] 1)) :
    ((whole [name] 1 2 false).write "two\n" (lone name)).2.2 = [.rotation] := by
  have hsite : Site name [] 0 (lone name) := lone_site hname hallowed
  obtain ⟨e, hrotate⟩ :=
    rotate_of_blocked hsite (show 2 ≤ maxKeep by decide) ⟨Nat.le_refl 2, .inl hno⟩
  have happend := hsite.append "one\n" (by rw [lone_file]; rfl) "two\n"
  have hwrite := write_of_rotate (m := whole [name] 1 2 false) hsite false rfl rfl (lone_file name)
    (one_lt_sizes _) hrotate rfl happend
  exact congrArg (fun r => r.2.2) hwrite

def halved : Mirror := { path := ["log"], maxBytes := .ofInt 1, keep := ⟨3, 1⟩ }

theorem write_halved (h : Site "log" [] 1 (lone "log")) (hhalf : Path.Allowed ["log.0.5"]) :
    (halved.write "two\n" (lone "log")).2.1.entryAt ["log.1"] = some (.file "one\n") := by
  have hlast : (halved.keep).plus (-1) = ⟨1, 1⟩ := by decide
  have hfirst : (halved.keep).plus (-2) < .ofInt 1 := by decide
  have harchive : archive ["log"] ⟨1, 1⟩ = ["log.0.5"] := by decide
  have hone : archive ["log"] (.ofInt 1) = slot ["log"] 1 :=
    archive_ofInt (i := 1) Nat.one_pos (by decide) _
  have hmissing : (lone "log").remove ["log.0.5"] = .ok (lone "log") := by
    have hstat : (lone "log").stat ["log.0.5"] = .error .missing :=
      FileTree.stat_of_missing (FileTree.pathError?_of_allowed hhalf rfl) (by decide)
    rw [FileTree.remove, hstat]
  obtain ⟨t₁, hrename, hr, hsite₁⟩ := h.renameIfPresent (i := 0) (j := 1) (by omega) (by omega)
    (by omega) (h.stock_eq_nothing (by decide))
  have hrename : Mirror.renameIfPresent ["log"] (slot ["log"] 1) (lone "log") = .ok t₁ := hrename
  have hrotate : rotate ["log"] halved.keep (lone "log") = (t₁, none) := by
    rw [rotate_of_ne_one (by decide), hlast, harchive, hmissing, orUnchanged, andThen,
      shiftArchives, dif_pos hfirst, andThen, hone, hrename, orUnchanged]
  have happend := hsite₁.append "" (by rw [hr.stock_eq]; rfl) "two\n"
  have hwrite := write_of_rotate (m := halved) h false rfl rfl (lone_file "log") (by decide)
    hrotate rfl happend
  have hpassed : t₁.entryAt ["log.1"] = some (.file "one\n") := by
    have hstock : t₁.entryAt ["log.1"] = stock "log" (Path.place []) t₁ 1 [] := rfl
    rw [hstock, hr.stock_eq, Function.update_self, lone_file]
  rw [show halved.write "two\n" (lone "log") = _ from hwrite, FileTree.entryAt_put,
    if_neg (by decide), hpassed]

theorem write_of_endless_rotation (h : Site name up last t) (hpath : m.path = name :: up)
    (hstuck : m.stuck = false) (hfile : t.entryAt (name :: up.place) = some (.file old))
    (hover : m.maxBytes < .ofInt (old.utf8ByteSize + line.utf8ByteSize : Nat))
    (hrotate : rotate (name :: up) m.keep t = (t₁, some .endless)) :
    m.write line t = ({ m with stuck := true }, t₁, []) := by
  obtain ⟨hensure, hneeded⟩ := before_rotation h m.ready hpath hfile hover hrotate
  have hruns : ¬m.stuck = true := by simp [hstuck]
  rw [write, if_neg hruns]
  simp only [hensure, hneeded, afterRotation]

end Counterexamples

def drifted : FileTree := ⟨[(["log.2"], .directory), (["log"], .file "one\n")]⟩

theorem write_neighbours (hpath : m.path = ["log", "..", "log.1"])
    (hkeep : m.keep = .ofInt (3 : Nat)) (hstuck : m.stuck = false)
    (hover : m.maxBytes < .ofInt ("one\n".utf8ByteSize + line.utf8ByteSize : Nat)) :
    letI := FileSystem.ordinary
    m.write line neighbours = ({ m with ready := false }, drifted, [.write]) := by
  let _ := FileSystem.ordinary
  have hfirst : Path.Allowed ["log", "..", "log.1"] := by decide
  have hsecond : Path.Allowed ["log.1", "..", "log.1"] := by decide
  have hthird : Path.Allowed ["log.2", "..", "log.1"] := by decide
  have hdir : neighbours.directoryError? ["..", "log.1"] = none := by decide
  have hsite : Site "log" ["..", "log.1"] 0 neighbours := {
    named := by decide
    allowed := hfirst
    apart := by decide
    grown := neighbours_grown
    directory := hdir }
  have hone : slot ["log", "..", "log.1"] 1 = ["log.1", "..", "log.1"] := by decide
  have htwo : slot ["log", "..", "log.1"] 2 = ["log.2", "..", "log.1"] := by decide
  have hremove : neighbours.remove ["log.2", "..", "log.1"] = .ok neighbours := by
    have hstat : neighbours.stat ["log.2", "..", "log.1"] = .error .missing :=
      FileTree.stat_of_missing (FileTree.pathError?_of_allowed hthird hdir) (by decide)
    simp only [FileTree.remove, hstat]
  have hshift : renameIfPresent ["log.1", "..", "log.1"] ["log.2", "..", "log.1"] neighbours =
      .ok drifted := by
    have hstat : neighbours.stat ["log.1", "..", "log.1"] = .ok .directory :=
      FileTree.stat_eq_ok.mpr ⟨FileTree.pathError?_of_allowed hsecond hdir, by decide⟩
    have htarget := FileTree.pathError?_of_allowed hthird hdir
    simp only [renameIfPresent, FileTree.rename, hthird.whole, hstat, htarget]
    rfl
  have hgone : drifted.pathError? ["log", "..", "log.1"] = some .missing := by
    have hgone : drifted.directoryError? ["..", "log.1"] = some .missing := by decide
    simp [FileTree.pathError?, hfirst.whole, hgone]
  have hlost : drifted.stat ["log", "..", "log.1"] = .error .missing := by
    simp only [FileTree.stat, hgone]
  have hlast : renameIfPresent ["log", "..", "log.1"] ["log.1", "..", "log.1"] drifted =
      .ok drifted := by
    simp only [renameIfPresent, FileTree.rename, hsecond.whole, hlost]
  have hrotate : rotate ["log", "..", "log.1"] m.keep neighbours = (drifted, none) := by
    rw [hkeep, rotate_ofInt (k := 1) (by decide), htwo, hremove, orUnchanged, andThen,
      show Number.ofInt (1 : Nat) = .ofInt ((0 + 1 : Nat) : Int) from rfl,
      shiftArchives_succ (by decide), hone, htwo, hshift, orUnchanged, andThen]
    rw [show Number.ofInt ((0 : Nat) : Int) = .ofInt 0 from rfl, shiftArchives_zero, andThen, hlast,
      orUnchanged]
  obtain ⟨hensure, hneeded⟩ := before_rotation hsite m.ready hpath (by decide) hover hrotate
  have hruns : ¬m.stuck = true := by simp [hstuck]
  have happend : drifted.append ["log", "..", "log.1"] line = .error .missing := by
    simp only [FileTree.append, hlost, FileTree.write, hgone]
  rw [← hpath] at happend
  rw [write, if_neg hruns]
  simp only [hensure, hneeded, afterRotation, happend, List.nil_append]

structure Full [FileSystem] (m : Mirror) (t : FileTree) : Prop where
  one : t.stat m.path = .ok (.file "one\n")
  full : m.maxBytes < .ofInt ("one\n".utf8ByteSize + "two\n".utf8ByteSize : Nat)

theorem lone_entryAt_slot {i : Nat} (hi : i ≠ 0) (name : String) :
    (lone name).entryAt (slotName name i :: []) = none := by
  apply FileTree.entryAt_eq_none.mpr
  intro e he heq
  rw [List.mem_singleton.mp he] at heq
  have hslots : slotName name 0 :: [] = slotName name i :: [] := heq
  exact hi (slot_inj.mp hslots).symm

theorem write_not_all_or_nothing :
    letI := FileSystem.ordinary
    let o : Logger.Options := { maxFileBytes := some (.ofInt 1) }
    (∃ m, ofLogger? (Logger.counted o (zeros 254) 2) = some m ∧ Full m (lone (zeros 254)) ∧
      (lone (zeros 254)).entryAt (slot m.path 1).place = none ∧
      (m.write "two\n" (lone (zeros 254))).2.2 ≠ []) ∧
    (∃ m, ofLogger? (.ofOptions { o with file := some "log", maxFiles := some ⟨3, 1⟩ }) = some m ∧
      Full m (lone "log") ∧
      (m.write "two\n" (lone "log")).2.1.entryAt ["log.1"] ≠ (lone "log").entryAt ["log.1"]) ∧
    (∃ m, ofLogger? (Logger.counted o "log.1/../log" 3) = some m ∧ Full m neighbours ∧
      neighbours.entryAt (slot m.path 2).place = none ∧
      (m.write "two\n" neighbours).2.2 = [.write]) ∧
    ∃ m, ofLogger? (Logger.counted o "log" (maxKeep + 6 : Nat)) = some m ∧ Full m (lone "log") ∧
      (lone "log").entryAt (slot m.path (maxKeep + 5)).place = none ∧
      (m.write "two\n" (lone "log")).2.1 = lone "log" := by
  let _ := FileSystem.ordinary
  intro o
  have hover := one_lt_sizes "two\n"
  have hlog : Site "log" [] (maxKeep + 4) (lone "log") := lone_site (by decide)
    (by decide +kernel)
  have hofText : Path.ofText "log" = ["log"] := by decide
  refine ⟨?_, ?_, ?_, ?_⟩
  · have hlong : 3 ≤ 254 := by omega
    have hname := zeros_isName hlong
    have hallowed : Path.Allowed [zeros 254] := (zeros_room hlong (by decide) (by decide)).allowed
    have hno : ¬Path.Allowed (slotName (zeros 254) 1 :: []) :=
      zeros_no_room Nat.one_pos (by decide)
    have hpath := ofText_zeros hlong
    generalize zeros 254 = name at hname hallowed hno hpath
    have hsite : Site name [] 0 (lone name) := lone_site hname hallowed
    refine ⟨whole [name] 1 2 false, ?_, ⟨lone_stat hsite, hover⟩, ?_, ?_⟩
    · rw [ofLogger?_counted _ hname.1, hpath]
      rfl
    · have hslot : (slot [name] 1).place = slotName name 1 :: [] :=
        Path.place_of_isName (isName_slotName_succ name 0) []
      rw [show (whole [name] 1 2 false).path = [name] from rfl, hslot]
      exact lone_entryAt_slot Nat.one_ne_zero name
    · rw [write_without_archive hname hallowed hno]
      exact nofun
  · refine ⟨halved, rfl, ⟨lone_stat hlog, hover⟩, ?_⟩
    rw [write_halved (lone_site (by decide) (hlog.slot (by decide))) (by decide)]
    decide
  · have hpath : Path.ofText "log.1/../log" = ["log", "..", "log.1"] := by decide
    refine ⟨whole ["log", "..", "log.1"] 1 3 false, ?_, ⟨?_, hover⟩, by decide, ?_⟩
    · rw [ofLogger?_counted _ (by decide), hpath]
      rfl
    · have hallowed : Path.Allowed ["log", "..", "log.1"] := by decide
      exact FileTree.stat_eq_ok.mpr ⟨FileTree.pathError?_of_allowed hallowed (by decide), by decide⟩
    · have hwrite :=
        write_neighbours (m := whole ["log", "..", "log.1"] 1 3 false) rfl rfl rfl hover
      exact congrArg (fun r => r.2.2) hwrite
  · have hkept : kept (maxKeep + 6 : Nat) = maxKeep + 6 := kept_natCast (by omega)
    refine ⟨whole ["log"] 1 (maxKeep + 6) false, ?_, ⟨lone_stat hlog, hover⟩, ?_, ?_⟩
    · rw [ofLogger?_counted _ (by decide), hofText, hkept]
      rfl
    · have hslot : (slot ["log"] (maxKeep + 5)).place = slotName "log" (maxKeep + 5) :: [] :=
        Path.place_of_isName (isName_slotName_succ "log" _) []
      rw [show (whole ["log"] 1 (maxKeep + 6) false).path = ["log"] from rfl, hslot]
      exact lone_entryAt_slot (Nat.succ_ne_zero _) "log"
    · have hmissing := lone_entryAt_slot (Nat.succ_ne_zero (maxKeep + 3)) "log"
      have hrotate := rotate_endless hlog hmissing
      have hwrite :=
        write_of_endless_rotation (m := whole ["log"] 1 (maxKeep + 6) false) hlog rfl rfl
          (lone_file "log") hover hrotate
      exact congrArg (fun r => r.2.1) hwrite

end Mirror

end RuleForest
