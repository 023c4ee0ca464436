import Mathlib.Data.List.Perm.Subperm
import RuleForest.Proofs.Mirroring

namespace RuleForest

def Logger.counted (o : Logger.Options) (file : String) (count : Int) : Logger :=
  .ofOptions { o with file := some file, maxFiles := some (.ofInt count) }

def Logger.filed (o : Logger.Options) (file : String) (limit count : Int) : Logger :=
  .ofOptions {
    o with file := some file, maxFileBytes := some (.ofInt limit), maxFiles := some (.ofInt count) }

theorem Chunk.split_of_small_limit {a b : String} (h : 1 < a.utf8ByteSize + b.utf8ByteSize) :
    Chunk.split 1 [a, b] = [[b], [a]] := by
  have hboth : (1 : Int) < ((Chunk.text [a]).utf8ByteSize + b.utf8ByteSize : Nat) := by
    have hsize : (Chunk.text [a]).utf8ByteSize = a.utf8ByteSize := by simp [Chunk.text]
    omega
  simp only [Chunk.split, List.foldl_cons, List.foldl_nil, Chunk.add]
  exact if_pos hboth

namespace Mirror

variable {name : String} {up p : Path} {keep n : Nat} {t : FileTree} {count : Int}

def kept (count : Int) : Nat := (max 1 count).toNat

theorem one_le_kept (count : Int) : 1 ≤ kept count := by
  unfold kept
  omega

theorem kept_le (h : count ≤ maxKeep) : kept count ≤ maxKeep := by
  have hpos : 1 ≤ maxKeep := Nat.two_pow_pos _
  unfold kept
  omega

theorem kept_natCast {n : Nat} (h : 1 ≤ n) : kept n = n := by
  unfold kept
  omega

theorem ofLogger?_counted (o : Logger.Options) {file : String} (h : file ≠ "") (count : Int) :
    ofLogger? (Logger.counted o file count) = some {
      path := .ofText file
      maxBytes := (Logger.counted o file count).maxFileBytes
      keep := .ofInt (kept count) } := by
  have hcount : Logger.atLeastOne (.ofInt count) = .ofInt (kept count) := by
    have hlt := Number.ofInt_lt_ofInt count 1
    unfold Logger.atLeastOne
    by_cases hc : count < 1
    · rw [if_pos (hlt.mpr hc), show kept count = 1 by unfold kept; omega]
      rfl
    · rw [if_neg fun hn => hc (hlt.mp hn), show (kept count : Int) = count by unfold kept; omega]
  simp only [ofLogger?, Logger.counted, Logger.ofOptions, String.isEmpty_iff, h, ↓reduceIte,
    Option.getD_some, hcount]

theorem ofLogger?_filed (o : Logger.Options) {file : String} (h : file ≠ "") (limit count : Int) :
    ofLogger? (Logger.filed o file limit count) =
      some (whole (Path.ofText file) limit (kept count) false) :=
  ofLogger?_counted { o with maxFileBytes := some (.ofInt limit) } h count

theorem join_texts (chunks : List Chunk) (n : Nat) :
    String.join ((List.range n).reverse.map fun i => (chunks[i]?.map Chunk.text).getD "") =
      String.join (chunks.take n).reverse.flatten := by
  induction n with
  | zero => rfl
  | succ n ih =>
    rw [List.range_succ, List.take_add_one, List.reverse_append, List.map_append,
      String.join_append, ih]
    cases h : chunks[n]? with
    | none => simp [h]
    | some c => simp [h, Chunk.text, String.join_append]

theorem contents_nil (keep : Nat) : contents keep [] = fun _ => none := by
  funext i
  simp [contents]

theorem Stands.place_mem {ready : Bool} {chunks : List Chunk}
    (h : Stands name up ready (contents keep chunks) t) {q : Path} {s : String}
    (hq : t.lookup q = some (.file s)) : ∃ i < keep, q.place = slotName name i :: up.place := by
  obtain ⟨i, hi, hs⟩ := h.only hq
  refine ⟨i, ?_, hi⟩
  by_contra hlt
  simp [contents, hlt] at hs

theorem length_le_of_place_mem
    (h : ∀ q s, t.lookup q = some (.file s) → ∃ i < keep, q.place = (slot p i).place)
    {qs : List Path} (hqs : (qs.map Path.place).Nodup)
    (hfiles : ∀ q ∈ qs, ∃ s, t.lookup q = some (.file s)) : qs.length ≤ keep := by
  have hsub : qs.map Path.place ⊆ (List.range keep).map fun i => (slot p i).place := by
    intro d hd
    obtain ⟨q, hq, rfl⟩ := List.mem_map.mp hd
    obtain ⟨s, hs⟩ := hfiles q hq
    obtain ⟨i, hi, hplace⟩ := h q s hs
    exact List.mem_map.mpr ⟨i, List.mem_range.mpr hi, hplace.symm⟩
  simpa using (hqs.subperm hsub).length_le

def zeros (n : Nat) : String := String.ofList (List.replicate n '0')

theorem zeros_digits {c : Char} (hc : c ∈ (zeros n).toList) : c = '0' := by
  rw [zeros, String.toList_ofList] at hc
  exact List.eq_of_mem_replicate hc

theorem utf8ByteSize_zeros (n : Nat) : (zeros n).utf8ByteSize = n := by
  rw [zeros, Text.utf8ByteSize_of_isDigit, List.length_replicate]
  intro c hc
  rw [List.eq_of_mem_replicate hc]
  rfl

theorem zeros_isName (hn : 3 ≤ n) : Path.IsName (zeros n) := by
  have hsize {s : String} (hs : s.utf8ByteSize < 3) : zeros n ≠ s := by
    rintro rfl
    rw [utf8ByteSize_zeros] at hs
    omega
  exact ⟨hsize (by decide), hsize (by decide), hsize (by decide)⟩

theorem ofText_zeros (hn : 3 ≤ n) : Path.ofText (zeros n) = [zeros n] :=
  Path.ofText_of_not_mem (zeros_isName hn).1 fun h => absurd (zeros_digits h) (by decide)

section Room

variable [FileSystem]

theorem blocked_of_no_room {files : Nat → Option String} (room : Room name up 0)
    (hbetween : ∀ i < keep - 1, (slot (name :: up) i).place ∉ Path.around (name :: up))
    (hno : ¬HasRoom (name :: up) (keep - 1)) (h : Holds name up files t) :
    Blocked (name :: up) keep t := by
  have hkeep : 2 ≤ keep := by
    by_contra hlt
    rw [show keep - 1 = 0 by omega] at hno
    exact hno ⟨name, up, rfl, room⟩
  by_cases hallowed : Path.Allowed (slotName name (keep - 1) :: up)
  · refine ⟨hkeep, .inr ?_⟩
    rw [slot_cons, FileTree.lookup_eq_directory, room.place_slot, h.directory]
    by_contra hlast
    refine hno ⟨name, up, rfl, room.named, hallowed, fun i hi => ?_⟩
    rcases Nat.lt_or_eq_of_le hi with hlt | rfl
    · have hplace := hbetween i hlt
      rwa [slot_cons, room.place_slot] at hplace
    · exact hlast
  · exact ⟨hkeep, .inl hallowed⟩

theorem leave_of_no_room (o : Logger.Options) (file : String) (limit count : Int)
    (calls : List (String × LogCall)) (hcount : count ≤ maxKeep)
    (hroom : HasRoom (Path.ofText file) 0)
    (hbetween : ∀ i < kept count - 1, (slot (Path.ofText file) i).place ∉ (Path.ofText file).around)
    (hno : ¬HasRoom (Path.ofText file) (kept count - 1)) :
    let l := Logger.filed o file limit count
    let lines := l.lines (l.accepted calls)
    ∃ t failures, leave l calls = (t, failures) ∧ (∀ f ∈ failures, f = .rotation) ∧
      (lines ≠ [] → t.lookup (Path.ofText file) = some (.file (String.join lines))) ∧
      ∀ q s, t.lookup q = some (.file s) → q.place = (Path.ofText file).place := by
  intro l lines
  have hfile := hroom.file_ne
  obtain ⟨name, up, hp, room⟩ := hroom
  rw [hp] at hbetween hno
  have hstart : Stands name up false (single []) {} := by
    refine ⟨rfl, ?_⟩
    funext i
    simp [single]
  obtain ⟨ready, t, failures, hall, h, hf⟩ := logAll_of_blocked l limit room (kept_le hcount)
    (fun h => blocked_of_no_room room hbetween hno h) hstart calls
  refine ⟨t, failures, ?_, hf, ?_, ?_⟩
  · simp only [leave, l, ofLogger?_filed o hfile limit count, hp, hall]
  · intro hlines
    have hl := h.lookup room (Nat.le_refl 0)
    rw [hp]
    simpa [slotName, single, lines, hlines] using hl
  · intro q s hq
    obtain ⟨i, hplace, hs⟩ := h.only hq
    have hi : i = 0 := by
      by_contra hi
      simp [single, hi] at hs
    rw [hplace, hi, hp, Path.place_of_isName room.named]
    rfl

theorem rotate_endless (h : Site name up (maxKeep + 4) t)
    (hmissing : stock name up.place t (maxKeep + 4) [] = none) :
    rotate (name :: up) (.ofInt (maxKeep + 6 : Nat)) t = (t, some .endless) := by
  have hstat := h.stat_slot (Nat.le_refl _)
  rw [hmissing, Option.elim_none] at hstat
  have hremove : t.remove (slot (name :: up) (maxKeep + 4)) = .ok t := by
    simp only [FileTree.remove, slot_cons, hstat]
  have hrename : Mirror.renameIfPresent (slot (name :: up) (maxKeep + 4))
      (slot (name :: up) (maxKeep + 4)) t = .ok t := by
    simp only [Mirror.renameIfPresent, FileTree.rename, slot_cons, (h.slot (Nat.le_refl _)).whole,
      hstat]
  have harchive : archive (name :: up) (.ofInt (maxKeep + 4 : Nat)) =
      slot (name :: up) (maxKeep + 4) := by
    have htext : (Number.ofInt (maxKeep + 4 : Nat)).text = Text.ofNat (maxKeep + 4) := by
      decide +kernel
    rw [archive, htext]
    rfl
  have hlast : (Number.ofInt (maxKeep + 6 : Nat)).plus (-1) = .ofInt (maxKeep + 4 : Nat) := by
    decide +kernel
  have hfirst : (Number.ofInt (maxKeep + 6 : Nat)).plus (-2) = .ofInt (maxKeep + 4 : Nat) := by
    decide +kernel
  have hnext : (Number.ofInt (maxKeep + 4 : Nat)).plus 1 = .ofInt (maxKeep + 4 : Nat) := by
    decide +kernel
  have hstay : (Number.ofInt (maxKeep + 4 : Nat)).plus (-1) = .ofInt (maxKeep + 4 : Nat) := by
    decide +kernel
  have hshift : Mirror.shiftArchives (name :: up) (.ofInt (maxKeep + 4 : Nat)) t =
      (t, some .endless) := by
    rw [Mirror.shiftArchives, dif_neg (by decide +kernel), hnext, hstay, harchive, hrename]
    simp only [orUnchanged, andThen, Int.lt_irrefl, if_false]
  rw [rotate_of_ne_one (by decide +kernel), hlast, hfirst, harchive, hremove, orUnchanged, andThen,
    hshift, andThen]

theorem write_of_endless {limit : Int} {files : Nat → Option String} {line : String}
    (h : Holds name up files t) (room : Room name up 0) (ho : Overflows limit files line)
    {t' : FileTree} (hrotate : rotate (name :: up) (.ofInt keep) t = (t', some .endless)) :
    (whole (name :: up) limit keep true).write line t =
      ({ whole (name :: up) limit keep true with stuck := true }, t', []) := by
  have hensure : (whole (name :: up) limit keep true).ensureDirectory t = (t, none) := rfl
  have hneeded := h.rotateIfNeeded_of_overflows room true ho hrotate
  have hstuck : (whole (name :: up) limit keep true).stuck = false := rfl
  simp only [write, hstuck, Bool.false_eq_true, ↓reduceIte, hensure, hneeded, afterRotation]

theorem zeros_room (hn : 3 ≤ n) (hname : n ≤ FileSystem.maxNameBytes)
    (hpath : n + 1 ≤ FileSystem.maxPathBytes) : Room (zeros n) [] 0 := by
  refine ⟨zeros_isName hn, ⟨Path.error?_eq_none.mpr ⟨?_, ?_⟩, ?_⟩, ?_⟩
  · intro name hname h
    rw [List.mem_singleton.mp hname] at h
    exact absurd (zeros_digits h) (by decide)
  · rw [Path.bytes_cons, slotName, utf8ByteSize_zeros]
    exact hpath
  · intro name hmem
    rw [List.mem_singleton.mp hmem, Path.nameTooLong, slotName, utf8ByteSize_zeros]
    simpa using hname
  · intro i _
    simp [Path.route]

theorem zeros_no_room {last : Nat} (hlast : 0 < last) (hn : FileSystem.maxNameBytes < n + 2) :
    ¬Path.Allowed (slotName (zeros n) last :: up) := by
  intro h
  have hname := h.names _ List.mem_cons_self
  have hle : (slotName (zeros n) 1).utf8ByteSize ≤ _ := utf8ByteSize_slotName_le (zeros n) hlast
  have hone : (slotName (zeros n) 1).utf8ByteSize = n + 2 := by
    simp only [slotName, String.utf8ByteSize_append, utf8ByteSize_zeros]
    rfl
  rw [Path.nameTooLong, decide_eq_false_iff_not] at hname
  omega

theorem leave_contents (o : Logger.Options) (file : String) (limit count : Int)
    (calls : List (String × LogCall)) (hcount : count ≤ maxKeep)
    (hroom : HasRoom (Path.ofText file) (kept count - 1)) :
    let l := Logger.filed o file limit count
    ∃ t, leave l calls = (t, []) ∧
      (∀ i < kept count, t.lookup (slot (Path.ofText file) i) =
        (Chunk.split limit (l.lines (l.accepted calls)))[i]?.map fun c => .file c.text) ∧
      ∀ q s, t.lookup q = some (.file s) →
        ∃ i < kept count, q.place = (slot (Path.ofText file) i).place := by
  intro l
  have hfile := hroom.file_ne
  obtain ⟨name, up, hp, room⟩ := hroom
  have hstart : Stands name up false (contents (kept count) (Chunk.split limit [])) {} :=
    ⟨rfl, contents_nil _⟩
  obtain ⟨ready, t, hall, h⟩ :=
    logAll_contents l limit (one_le_kept count) (kept_le hcount) room hstart calls
  refine ⟨t, ?_, ?_, ?_⟩
  · simp only [leave, l, ofLogger?_filed o hfile limit count, hp, hall]
  · intro i hi
    rw [hp, slot_cons, h.lookup room (by omega), contents, if_pos hi, List.nil_append,
      Option.map_map]
    rfl
  · intro q s hq
    obtain ⟨i, hi, hplace⟩ := h.place_mem hq
    exact ⟨i, hi, by rw [hplace, hp, slot_cons, room.place_slot]⟩

end Room

/-- Under a path with room for all the files that are kept, a logger at work leaves the newest
chunks of the lines it emits, one chunk in each file, the newest one in the file itself, and no
other file. -/
theorem leave_newest_chunks [FileSystem] (o : Logger.Options) (file : String) (limit count : Int)
    (calls : List (String × LogCall)) (hcount : count ≤ maxKeep)
    (hroom : HasRoom (Path.ofText file) (kept count - 1)) :
    let l := Logger.filed o file limit count
    let lines := l.lines (l.accepted calls)
    let chunks := Chunk.split limit lines
    let p := Path.ofText file
    ∃ t, leave l calls = (t, []) ∧
      (∀ i < kept count, t.lookup (slot p i) = chunks[i]?.map fun c => .file c.text) ∧
      (∀ q s, t.lookup q = some (.file s) → ∃ i < kept count, q.place = (slot p i).place) ∧
      (∀ qs : List Path, (qs.map Path.place).Nodup →
        (∀ q ∈ qs, ∃ s, t.lookup q = some (.file s)) → qs.length ≤ kept count) ∧
      (∃ old recent, lines = old ++ recent ∧
        String.join ((List.range (kept count)).reverse.map fun i => textAt t (slot p i)) =
          String.join recent) ∧
      (∀ c ∈ chunks, (c.text.utf8ByteSize : Int) ≤ limit ∨ ∃ line, c = [line]) ∧
      (l.stdout = true → (calls.filterMap fun c => l.printed? c.1 c.2) = l.lines calls) := by
  intro l lines chunks p
  obtain ⟨t, hleave, hlookup, honly⟩ := leave_contents o file limit count calls hcount hroom
  refine ⟨t, hleave, hlookup, honly, fun qs hqs hfiles => length_le_of_place_mem honly hqs hfiles,
    ?_, Chunk.fits_split limit lines, fun hstdout => Logger.printed_eq_lines hstdout calls⟩
  refine ⟨(chunks.drop (kept count)).reverse.flatten, (chunks.take (kept count)).reverse.flatten,
    ?_, ?_⟩
  · rw [← List.flatten_append, ← List.reverse_append, List.take_append_drop]
    exact (Chunk.flatten_split limit lines).symm
  · rw [← join_texts]
    congr 1
    apply List.map_congr_left
    intro i hi
    rw [textAt, hlookup i (by simpa using hi)]
    cases chunks[i]? <;> rfl

def report (message : String) : String × LogCall :=
  ("2024-01-01T00:00:00.000Z", { level := .info, message })

theorem leave_newest_chunks_app :
    letI := FileSystem.ordinary
    let l := Logger.filed {} "logs/app.log" 100 2
    let calls := [report "one", report "two", report "three"]
    (2 : Int) ≤ maxKeep ∧ HasRoom (Path.ofText "logs/app.log") (kept 2 - 1) ∧
      ∃ t, leave l calls = (t, []) ∧ ∀ i < kept 2, t.lookup (slot (Path.ofText "logs/app.log") i) =
        (Chunk.split 100 (l.lines (l.accepted calls)))[i]?.map fun c => .file c.text := by
  let _ := FileSystem.ordinary
  intro l calls
  have hcount : (2 : Int) ≤ maxKeep := by decide
  have hroom : HasRoom (Path.ofText "logs/app.log") (kept 2 - 1) := by decide
  obtain ⟨t, hleave, hlookup, -⟩ := leave_newest_chunks {} "logs/app.log" 100 2 calls hcount hroom
  exact ⟨hcount, hroom, t, hleave, hlookup⟩

def HoldsNewest [FileSystem] (o : Logger.Options) (file : String) (count : Int) : Prop :=
  let l := Logger.filed o file 1 count
  let calls := [report "one", report "two"]
  (leave l calls).1.lookup (Path.ofText file) =
    (Chunk.split 1 (l.lines calls)).head?.map fun c => .file c.text

def shown (message : String) : LogEntry :=
  ⟨"2024-01-01T00:00:00.000Z", .info, message, .undefined⟩

theorem shown_line_pos (message : String) : 0 < (shown message).line.utf8ByteSize := by
  rw [LogEntry.line, String.utf8ByteSize_append]
  exact Nat.lt_add_left _ (by decide)

theorem split_shown (x y : String) :
    Chunk.split 1 [(shown x).line, (shown y).line] = [[(shown y).line], [(shown x).line]] := by
  have hx := shown_line_pos x
  have hy := shown_line_pos y
  exact Chunk.split_of_small_limit (by omega)

theorem not_holdsNewest [FileSystem] {o : Logger.Options} {file : String}
    (hlines : (Logger.filed o file 1 count).lines [report "one", report "two"] =
      [(shown "one").line, (shown "two").line])
    (hnewest : (leave (Logger.filed o file 1 count) [report "one", report "two"]).1.lookup
      (Path.ofText file) ≠ some (.file (shown "two").line)) : ¬HoldsNewest o file count := by
  intro h
  rw [HoldsNewest, hlines, split_shown] at h
  apply hnewest
  simpa [Chunk.text] using h

theorem not_holdsNewest_of_no_room [FileSystem] {file : String}
    (hcount : count ≤ maxKeep) (hroom : HasRoom (Path.ofText file) 0)
    (hbetween : ∀ i < kept count - 1, (slot (Path.ofText file) i).place ∉ (Path.ofText file).around)
    (hno : ¬HasRoom (Path.ofText file) (kept count - 1)) : ¬HoldsNewest {} file count := by
  apply not_holdsNewest rfl
  obtain ⟨t, failures, hleave, -, hfile, -⟩ := leave_of_no_room {} file 1 count
    [report "one", report "two"] hcount hroom hbetween hno
  have hlines : (Logger.filed {} file 1 count).lines ((Logger.filed {} file 1 count).accepted
      [report "one", report "two"]) = [(shown "one").line, (shown "two").line] := rfl
  rw [hlines] at hfile
  rw [hleave, hfile (List.cons_ne_nil _ _)]
  intro h
  have hsize := congrArg String.utf8ByteSize (FileTree.Entry.file.inj (Option.some.inj h))
  have hone := shown_line_pos "one"
  simp only [String.join_cons, String.join_nil, String.utf8ByteSize_append, String.append_empty]
    at hsize
  omega

theorem leave_endless [FileSystem] (room : Room "log" [] (maxKeep + 4)) :
    (leave (Logger.filed {} "log" 1 (maxKeep + 6 : Nat)) [report "one", report "two"]).1.lookup
      ["log"] = some (.file (shown "one").line) := by
  have hone := shown_line_pos "one"
  have htwo := shown_line_pos "two"
  have room₀ : Room "log" [] 0 := room.mono (Nat.zero_le _)
  have hstart : Stands "log" [] false (fun _ => none) {} := ⟨rfl, rfl⟩
  obtain ⟨t, hfirst, h⟩ := write_of_not_overflows 1 (maxKeep + 6) room₀ hstart (shown "one").line
    (by simp [Overflows])
  have hover : Overflows 1 (Function.update (fun _ => none) 0 (some ("" ++ (shown "one").line)))
      (shown "two").line :=
    ⟨_, Function.update_self .., by rw [String.empty_append]; omega⟩
  have hmissing : stock "log" (Path.place []) t (maxKeep + 4) [] = none := by
    rw [h.stock_eq room (Nat.le_refl _), if_pos rfl, Function.update_of_ne (by omega)]
    rfl
  have hsecond := write_of_endless h room₀ hover (rotate_endless (h.site room) hmissing)
  have hkept : kept (maxKeep + 6 : Nat) = maxKeep + 6 := by
    unfold kept
    omega
  have hleave : leave (Logger.filed {} "log" 1 (maxKeep + 6 : Nat)) [report "one", report "two"] =
      (t, []) := by
    have hlog (message : String) (m : Mirror) (t : FileTree) :
        log (Logger.filed {} "log" 1 (maxKeep + 6 : Nat)) (report message).1 m t
          (report message).2 =
          m.write (shown message).line t := rfl
    have hpath : Path.ofText "log" = ["log"] := by decide
    simp only [leave, ofLogger?_filed {} (show "log" ≠ "" by decide), logAll, hlog, hkept, hpath,
      hfirst, hsecond, List.append_nil]
  rw [hleave, show ["log"] = slotName "log" 0 :: [] from rfl, h.lookup_slot room₀ (Nat.le_refl 0)]
  simp

theorem leave_newest_chunks_needs_room :
    letI := FileSystem.ordinary
    ¬HoldsNewest {} (zeros 254) 2 ∧ ¬HoldsNewest {} "log.1/../log" 2 ∧
      ¬HoldsNewest { listener := some fun _ => some .null } "log" 1 ∧
      ¬HoldsNewest {} "log" (maxKeep + 6 : Nat) := by
  let _ := FileSystem.ordinary
  have hlog : Path.ofText "log" = ["log"] := by decide
  have hthrough : Path.ofText "log.1/../log" = ["log", "..", "log.1"] := by decide
  have hlong : 3 ≤ 254 := by omega
  refine ⟨?_, ?_, ?_, ?_⟩
  · apply not_holdsNewest_of_no_room (by decide) <;> rw [ofText_zeros hlong]
    · exact hasRoom_cons.mpr (zeros_room hlong (by decide) (by decide))
    · intro i hi
      obtain rfl : i = 0 := by
        have : kept 2 = 2 := rfl
        omega
      rw [slot_zero, Path.place_of_isName (zeros_isName hlong)]
      simp [Path.route, Path.around]
    · rw [hasRoom_cons]
      exact fun room => zeros_no_room Nat.one_pos (by decide) room.allowed
  · apply not_holdsNewest_of_no_room (by decide) <;> rw [hthrough]
    · decide
    · decide
    · decide
  · have hroom : HasRoom (Path.ofText "log") (kept 1 - 1) := by decide
    obtain ⟨t, hleave, hlookup, -⟩ := leave_contents { listener := some fun _ => some .null }
      "log" 1 1 [report "one", report "two"] (by decide) hroom
    apply not_holdsNewest rfl
    rw [hleave, ← slot_zero (Path.ofText "log"), hlookup 0 (by decide)]
    exact Option.some_ne_none _ ∘ Eq.symm
  · apply not_holdsNewest rfl
    have hdiffer : (shown "one").line ≠ (shown "two").line := by decide +kernel
    rw [hlog, leave_endless]
    · exact fun h => hdiffer (FileTree.Entry.file.inj (Option.some.inj h))
    · exact ⟨by decide, by decide +kernel, fun i _ => by simp [Path.route]⟩

end Mirror

end RuleForest
