import RuleForest.Proofs.FileTexts
import RuleForest.Proofs.JsonReading
import RuleForest.Proofs.NewestChunks

namespace RuleForest

namespace LogEntry

variable {e : LogEntry} {es : List LogEntry}

def ReadsBack (s : String) (es : List LogEntry) : Prop :=
  ∃ bodies, Text.splitAt '\n' s.toList = bodies ++ [[]] ∧
    bodies.map Json.read? = es.map fun e => some e.toPayload.settled

theorem toPayload_isData (h : e.payload.IsData True) : e.toPayload.IsData True :=
  ⟨trivial, trivial, trivial, h, trivial⟩

theorem line_eq (h : e.payload.IsData True) :
    ∃ body, e.line.toList = body ++ ['\n'] ∧ '\n' ∉ body ∧
      Json.read? body = some e.toPayload.settled := by
  have hdata := toPayload_isData h
  refine ⟨Json.write e.toPayload, ?_, ?_, Json.read?_write hdata⟩
  · rw [line, Payload.json, hdata.plain_eq, String.toList_append, String.toList_ofList]
    rfl
  · intro hmem
    exact absurd (Json.unbroken_write hdata _ hmem) (by decide)

theorem readsBack_join (h : ∀ e ∈ es, e.payload.IsData True) :
    ReadsBack (String.join (es.map line)) es := by
  induction es with
  | nil => exact ⟨[], rfl, rfl⟩
  | cons e es ih =>
    obtain ⟨he, hes⟩ := List.forall_mem_cons.mp h
    obtain ⟨body, hline, hbody, hread⟩ := line_eq he
    obtain ⟨bodies, hsplit, hreads⟩ := ih hes
    refine ⟨body :: bodies, ?_, ?_⟩
    · rw [List.map_cons, String.join_cons, String.toList_append, hline, List.append_assoc,
        List.singleton_append, Text.splitAt_append_of_not_mem hbody, hsplit]
      rfl
    · rw [List.map_cons, hread, hreads]
      rfl

theorem ReadsBack.length_splitAt {s : String} (h : ReadsBack s es) :
    (Text.splitAt '\n' s.toList).length = es.length + 1 := by
  obtain ⟨bodies, hsplit, hreads⟩ := h
  have hlength := congrArg List.length hreads
  rw [List.length_map, List.length_map] at hlength
  rw [hsplit, List.length_append, List.length_singleton, hlength]

end LogEntry

namespace Logger

variable {l : Logger} {calls : List (String × LogCall)}

def entries (l : Logger) (calls : List (String × LogCall)) : List LogEntry :=
  calls.filterMap fun c => l.entry? c.1 c.2

theorem lines_eq (l : Logger) (calls : List (String × LogCall)) :
    l.lines calls = (l.entries calls).map LogEntry.line := by
  rw [lines, entries, List.map_filterMap]

theorem shownPayload_eq (l : Logger) {payload : Payload} (h : payload.IsData True) :
    l.shownPayload payload =
      if l.redacts then Redaction.redact l.secrets payload else payload := by
  rw [shownPayload, h.plain_eq]

theorem shownPayload_isData (l : Logger) {payload : Payload} (h : payload.IsData True) :
    (l.shownPayload payload).IsData True := by
  rw [shownPayload_eq l h]
  split
  · exact h.redact l.secrets
  · exact h

theorem entries_isData (h : ∀ c ∈ calls, c.2.payload.IsData True) :
    ∀ e ∈ l.entries calls, e.payload.IsData True := by
  intro e he
  obtain ⟨c, hc, hentry⟩ := List.mem_filterMap.mp he
  unfold entry? at hentry
  split at hentry
  · cases hentry
    exact l.shownPayload_isData (h c hc)
  · cases hentry

end Logger

namespace Mirror

def Whole (es : List LogEntry) (s : String) : Prop :=
  ∃ part : List LogEntry, part.Sublist es ∧ s = String.join (part.map LogEntry.line)

theorem exists_parts {α β : Type} {f : α → β} {chunks : List (List β)} {xs : List α}
    (h : chunks.flatten = xs.map f) :
    ∃ parts : List (List α), parts.flatten = xs ∧ parts.map (List.map f) = chunks := by
  induction chunks generalizing xs with
  | nil => exact ⟨[], (List.map_eq_nil_iff.mp h.symm).symm, rfl⟩
  | cons c chunks ih =>
    obtain ⟨first, rest, rfl, hfirst, hrest⟩ := List.map_eq_append_iff.mp h.symm
    obtain ⟨parts, rfl, rfl⟩ := ih hrest.symm
    exact ⟨first :: parts, rfl, by rw [List.map_cons, hfirst]⟩

structure Keeps (p : Path) (keep : Nat) (t : FileTree) (parts : List (List LogEntry)) : Prop where
  length_le : parts.length ≤ keep
  text : ∀ i < keep,
    textAt t (slot p i) = String.join ((parts[i]?.getD []).map LogEntry.line)
  only : ∀ q s, t.lookup q = some (.file s) → ∃ i < keep, q.place = (slot p i).place

theorem textAt_eq_empty {t : FileTree} {p : Path}
    (h : ∀ s, t.lookup p = some (.file s) → s = "") : textAt t p = "" := by
  unfold textAt
  split
  · next s hs => exact h s hs
  · rfl

variable [FileSystem]

theorem log_texts (l : Logger) {m : Mirror} {t : FileTree} {es : List LogEntry}
    (h : t.Texts (Whole es)) (c : String × LogCall) :
    (log l c.1 m t c.2).2.1.Texts (Whole (es ++ l.entries (l.accepted [c]))) := by
  unfold log
  cases hobjection : l.objection? c.2 with
  | some v =>
    have haccepted : l.accepted [c] = [] := by simp [Logger.accepted, hobjection]
    rw [haccepted]
    cases l.entry? c.1 c.2 <;> simpa [Logger.entries] using h
  | none =>
    have haccepted : l.accepted [c] = [c] := by simp [Logger.accepted, hobjection]
    rw [haccepted]
    cases he : l.entry? c.1 c.2 with
    | none => simpa [Logger.entries, he] using h
    | some e =>
      have hentries : l.entries [c] = [e] := by simp [Logger.entries, he]
      rw [hentries]
      refine write_texts m h ?_ ?_ ?_
      · rintro s ⟨part, hpart, rfl⟩
        exact ⟨part, hpart.trans (List.sublist_append_left es [e]), rfl⟩
      · exact ⟨[e], List.sublist_append_right es [e], by simp⟩
      · rintro s ⟨part, hpart, rfl⟩
        exact ⟨part ++ [e], hpart.append (List.Sublist.refl [e]), by simp [String.join_append]⟩

theorem logAll_texts (l : Logger) {m : Mirror} {t : FileTree} {es : List LogEntry}
    (h : t.Texts (Whole es)) (calls : List (String × LogCall)) :
    (logAll l m t calls).2.1.Texts (Whole (es ++ l.entries (l.accepted calls))) := by
  induction calls generalizing m t es with
  | nil => simpa [logAll, Logger.entries, Logger.accepted] using h
  | cons c calls ih =>
    have hentries : l.entries (l.accepted (c :: calls)) =
        l.entries (l.accepted [c]) ++ l.entries (l.accepted calls) := by
      rw [Logger.entries, Logger.entries, Logger.entries, ← List.filterMap_append,
        Logger.accepted, Logger.accepted, Logger.accepted, ← List.filter_append]
      rfl
    have hstep := log_texts l (m := m) h c
    rw [hentries, ← List.append_assoc]
    exact ih hstep

theorem leave_whole (l : Logger) (calls : List (String × LogCall)) :
    (leave l calls).1.Texts (Whole (l.entries (l.accepted calls))) := by
  unfold leave
  split
  · next m _ =>
    have hstart : FileTree.Texts (Whole []) {} := FileTree.texts_empty _
    exact logAll_texts l hstart calls
  · exact FileTree.texts_empty _

section Filed

variable (o : Logger.Options) {file : String} (limit : Int) {count : Int}
  (calls : List (String × LogCall)) (hcount : count ≤ maxKeep)
include hcount

theorem keeps_of_room (hroom : HasRoom (Path.ofText file) (kept count - 1)) :
    let l := Logger.filed o file limit count
    let entries := l.entries (l.accepted calls)
    ∃ t old parts, leave l calls = (t, []) ∧ entries = old ++ parts.reverse.flatten ∧
      Keeps (Path.ofText file) (kept count) t parts ∧
      ((Chunk.split limit (l.lines (l.accepted calls))).length ≤ kept count → old = []) := by
  intro l entries
  obtain ⟨t, hleave, hlookup, honly⟩ := leave_contents o file limit count calls hcount hroom
  obtain ⟨oldest, hflatten, hchunks⟩ :=
    exists_parts ((Chunk.flatten_split limit _).trans (l.lines_eq (l.accepted calls)))
  have hsplit : Chunk.split limit (l.lines (l.accepted calls)) =
      oldest.reverse.map (List.map LogEntry.line) := by
    rw [List.map_reverse, hchunks, List.reverse_reverse]
  refine ⟨t, (oldest.reverse.drop (kept count)).reverse.flatten, oldest.reverse.take (kept count),
    hleave, ?_, ?_, ?_⟩
  · rw [← List.flatten_append, ← List.reverse_append, List.take_append_drop, List.reverse_reverse,
      hflatten]
  · refine ⟨List.length_take_le _ _, ?_, honly⟩
    intro i hi
    rw [textAt, hlookup i hi, hsplit, List.getElem?_map, List.getElem?_take_of_lt hi]
    cases oldest.reverse[i]? <;> rfl
  · intro hlength
    rw [hsplit, List.length_map] at hlength
    rw [List.drop_of_length_le hlength]
    rfl

theorem keeps_of_no_room (hroom : HasRoom (Path.ofText file) 0)
    (hbetween : ∀ i < kept count - 1, (slot (Path.ofText file) i).place ∉ (Path.ofText file).around)
    (hno : ¬HasRoom (Path.ofText file) (kept count - 1)) :
    let l := Logger.filed o file limit count
    let entries := l.entries (l.accepted calls)
    ∃ t failures, leave l calls = (t, failures) ∧
      Keeps (Path.ofText file) (kept count) t [entries] := by
  intro l entries
  obtain ⟨t, failures, hleave, -, hlines, honly⟩ :=
    leave_of_no_room o file limit count calls hcount hroom hbetween hno
  have hwhole : t.Texts (Whole entries) := by
    have := leave_whole l calls
    rwa [hleave] at this
  refine ⟨t, failures, hleave, one_le_kept count, ?_, ?_⟩
  · intro i hi
    cases i with
    | zero =>
      rw [slot_zero]
      change textAt t (Path.ofText file) = String.join (entries.map LogEntry.line)
      by_cases hempty : entries = []
      · rw [hempty]
        apply textAt_eq_empty
        intro s hs
        obtain ⟨part, hpart, rfl⟩ := hwhole.lookup hs
        rw [hempty] at hpart
        rw [List.sublist_nil.mp hpart]
        rfl
      · have hlines := hlines (by simpa [l, entries, Logger.lines_eq] using hempty)
        rw [textAt, hlines]
        exact congrArg String.join (l.lines_eq (l.accepted calls))
    | succ i =>
      -- The only file is the active one.
      apply textAt_eq_empty
      intro s hs
      have hplace := honly _ s hs
      obtain ⟨name, up, hp, room⟩ := hroom
      rw [hp, slot_cons, room.place_slot, Path.place_of_isName room.named] at hplace
      have hslots : slotName name (i + 1) :: Path.place up = slotName name 0 :: Path.place up :=
        hplace
      exact absurd (slot_inj.mp hslots) (Nat.succ_ne_zero i)
  · intro q s hq
    exact ⟨0, one_le_kept count, by rw [slot_zero, honly q s hq]⟩

theorem leave_keeps (hroom : HasRoom (Path.ofText file) 0)
    (hbetween : ∀ i < kept count - 1, (slot (Path.ofText file) i).place ∉
      (Path.ofText file).around) :
    let l := Logger.filed o file limit count
    let entries := l.entries (l.accepted calls)
    ∃ t failures old parts, leave l calls = (t, failures) ∧
      entries = old ++ parts.reverse.flatten ∧ Keeps (Path.ofText file) (kept count) t parts ∧
      ((Chunk.split limit (l.lines (l.accepted calls))).length ≤ kept count → old = []) := by
  by_cases hall : HasRoom (Path.ofText file) (kept count - 1)
  · obtain ⟨t, old, parts, hleave, hentries, hkeeps, hold⟩ :=
      keeps_of_room o limit calls hcount hall
    exact ⟨t, [], old, parts, hleave, hentries, hkeeps, hold⟩
  · obtain ⟨t, failures, hleave, hkeeps⟩ :=
      keeps_of_no_room o limit calls hcount hroom hbetween hall
    refine ⟨t, failures, [], _, hleave, ?_, hkeeps, fun _ => rfl⟩
    simp

end Filed

end Mirror

namespace Logger

open LogEntry Mirror

theorem entry?_eq {l : Logger} {timestamp : String} {call : LogCall}
    (h : l.isEnabled call.level = true) :
    l.entry? timestamp call =
      some ⟨timestamp, call.level, call.message, l.shownPayload call.payload⟩ := if_pos h

theorem printed_readsBack {l : Logger} {calls : List (String × LogCall)}
    (h : ∀ c ∈ calls, c.2.payload.IsData True) (hstdout : l.stdout = true) :
    ReadsBack (String.join (calls.filterMap fun c => l.printed? c.1 c.2)) (l.entries calls) := by
  rw [printed_eq_lines hstdout, lines_eq]
  exact readsBack_join (entries_isData h)

/-- The line of a call reads back as the entry, as far as it is shown, and so do all the lines:
those that are printed, those in any file, and those in the files under a path that can be written
and goes through none of them. There the newest entries are, except where the listener throws, and
all of them as long as no more files are needed than are kept. -/
theorem lines_read_back [FileSystem] (l : Logger) (calls : List (String × LogCall))
    (h : ∀ c ∈ calls, c.2.payload.IsData True) :
    (∀ c ∈ calls, l.isEnabled c.2.level = true → ∃ e body, l.entry? c.1 c.2 = some e ∧
      e.line.toList = body ++ ['\n'] ∧ '\n' ∉ body ∧
      Json.read? body = some (Payload.settled (.record [
        ("timestamp", .string c.1),
        ("level", .string c.2.level.text),
        ("message", .string c.2.message),
        ("payload",
          if l.redacts then Redaction.redact l.secrets c.2.payload else c.2.payload)]))) ∧
    (l.stdout = true →
      ReadsBack (String.join (calls.filterMap fun c => l.printed? c.1 c.2)) (l.entries calls)) ∧
    (∀ q s, (leave l calls).1.lookup q = some (.file s) →
      ∃ part, part.Sublist (l.entries (l.accepted calls)) ∧ ReadsBack s part) ∧
    ∀ o file limit count, l = filed o file limit count → count ≤ maxKeep →
      let p := Path.ofText file
      HasRoom p 0 → (∀ i < kept count - 1, (slot p i).place ∉ p.around) →
      ∃ t failures old, ∃ parts : List (List LogEntry), leave l calls = (t, failures) ∧
        l.entries (l.accepted calls) = old ++ parts.reverse.flatten ∧ parts.length ≤ kept count ∧
        (∀ i < kept count, ReadsBack (textAt t (slot p i)) (parts[i]?.getD [])) ∧
        (∀ q s, t.lookup q = some (.file s) → ∃ i < kept count, q.place = (slot p i).place) ∧
        ((Chunk.split limit (l.lines (l.accepted calls))).length ≤ kept count → old = []) := by
  have haccepted : ∀ c ∈ l.accepted calls, c.2.payload.IsData True := fun c hc =>
    h c (List.mem_of_mem_filter hc)
  have hdata := entries_isData (l := l) haccepted
  refine ⟨?_, printed_readsBack h, ?_, ?_⟩
  · intro c hc henabled
    obtain ⟨body, hline, hbody, hread⟩ :=
      line_eq (e := ⟨c.1, c.2.level, c.2.message, l.shownPayload c.2.payload⟩)
        (l.shownPayload_isData (h c hc))
    rw [LogEntry.toPayload, l.shownPayload_eq (h c hc)] at hread
    exact ⟨_, body, entry?_eq henabled, hline, hbody, hread⟩
  · intro q s hq
    obtain ⟨part, hpart, rfl⟩ := (leave_whole l calls).lookup hq
    refine ⟨part, hpart, readsBack_join ?_⟩
    intro e he
    exact hdata e (hpart.subset he)
  · rintro o file limit count rfl hcount p hroom hbetween
    obtain ⟨t, failures, old, parts, hleave, hentries, hkeeps, hold⟩ :=
      leave_keeps o limit calls hcount hroom hbetween
    refine ⟨t, failures, old, parts, hleave, hentries, hkeeps.length_le, ?_, hkeeps.only, hold⟩
    intro i hi
    rw [hkeeps.text i hi]
    apply readsBack_join
    intro e he
    apply hdata
    rw [hentries]
    apply List.mem_append_right
    cases hpart : parts[i]? with
    | none => simp [hpart] at he
    | some part =>
      rw [hpart] at he
      exact List.mem_flatten.mpr ⟨part, List.mem_reverse.mpr (List.mem_of_getElem? hpart), he⟩

def visit : String × LogCall :=
  ("2024-01-01T00:00:00.000Z", {
    level := .warn
    message := "came \"in\"\nand left"
    payload := .record [("user", .string "ann"), ("token", .int 7), ("gone", .undefined),
      ("items", .list [.undefined, .int (-3), .list []])] })

theorem lines_read_back_visit :
    letI := FileSystem.ordinary
    (∀ c ∈ [report "one", visit], c.2.payload.IsData True) ∧
      let l := filed { secrets := some [.literal (Text.units "ann")] } "logs/app.log" 100 2
      let calls := [report "one", visit]
      (∃ e body, l.entry? visit.1 visit.2 = some e ∧ e.line.toList = body ++ ['\n'] ∧
        '\n' ∉ body ∧ Json.read? body = some (.record [
          ("timestamp", .string "2024-01-01T00:00:00.000Z"),
          ("level", .string "warn"),
          ("message", .string "came \"in\"\nand left"),
          ("payload", .record [("user", .string "[REDACTED]"), ("token", .string "[REDACTED]"),
            ("items", .list [.null, .int (-3), .list []])])])) ∧
      ReadsBack (String.join (calls.filterMap fun c => l.printed? c.1 c.2)) (l.entries calls) ∧
      HasRoom (Path.ofText "logs/app.log") 0 ∧
      ∃ t failures old, ∃ parts : List (List LogEntry), leave l calls = (t, failures) ∧
        l.entries (l.accepted calls) = old ++ parts.reverse.flatten ∧
        ∀ i < kept 2,
          ReadsBack (textAt t (slot (Path.ofText "logs/app.log") i)) (parts[i]?.getD []) := by
  let _ := FileSystem.ordinary
  have h : ∀ c ∈ [report "one", visit], c.2.payload.IsData True := by
    intro c hc
    rcases List.mem_pair.mp hc with rfl | rfl
    · trivial
    · exact ⟨trivial, ⟨rfl, by decide⟩, trivial, ⟨trivial, ⟨rfl, by decide⟩, trivial, trivial⟩,
        trivial⟩
  have hscrub : Secret.scrub [.literal (Text.units "ann")] (Text.units "ann") =
      Text.units "[REDACTED]" := by
    decide +kernel
  have hsensitive : ["user", "token", "gone", "items"].map Redaction.isSensitive =
      [false, true, false, false] := by
    decide +kernel
  have hshown : Redaction.redact [.literal (Text.units "ann")] visit.2.payload =
      .record [("user", .string "[REDACTED]"), ("token", .string "[REDACTED]"),
        ("gone", .undefined), ("items", .list [.undefined, .int (-3), .list []])] := by
    simp only [List.map_cons, List.map_nil, List.cons.injEq, and_true] at hsensitive
    simp [visit, Redaction.redact, Redaction.redactFields, Redaction.redactItems, hscrub,
      hsensitive, Redaction.mark, Redaction.parentKey]
  refine ⟨h, ?_⟩
  intro l calls
  obtain ⟨hline, hstdout, -, hfiles⟩ := lines_read_back l calls h
  have hroom : HasRoom (Path.ofText "logs/app.log") 0 := by decide
  refine ⟨?_, hstdout rfl, hroom, ?_⟩
  · obtain ⟨e, body, hentry, hbody, hone, hread⟩ := hline visit (by simp [calls]) rfl
    have hredacts : l.redacts = true := rfl
    have hsecrets : l.secrets = [.literal (Text.units "ann")] := rfl
    rw [hredacts, if_pos rfl, hsecrets, hshown] at hread
    exact ⟨e, body, hentry, hbody, hone, hread⟩
  · obtain ⟨t, failures, old, parts, hleave, hentries, -, hparts, -⟩ :=
      hfiles _ "logs/app.log" 100 2 rfl (by decide) hroom (by decide)
    exact ⟨t, failures, old, parts, hleave, hentries, hparts⟩

def FilesReadBack [FileSystem] (l : Logger) (file : String) (calls : List (String × LogCall)) :
    Prop := ReadsBack (textAt (leave l calls).1 (Path.ofText file)) (l.entries calls)

theorem lines_read_back_needs_files :
    letI := FileSystem.ordinary
    let calls := [report "one", report "two"]
    (∀ c ∈ calls, c.2.payload.IsData True) ∧
      ¬FilesReadBack (filed {} "log" 1 1) "log" calls ∧
      ¬FilesReadBack (filed {} "." 1 1) "." calls ∧
      ¬FilesReadBack (filed { listener := some fun _ => some .null } "log" 1 1) "log" calls := by
  let _ := FileSystem.ordinary
  intro calls
  have hroom : HasRoom (Path.ofText "log") (kept 1 - 1) := by decide
  have hnone {s : String} (hs : s = "") : ¬ReadsBack s [shown "one", shown "two"] := by
    intro h
    rw [hs] at h
    exact absurd h.length_splitAt (by decide)
  refine ⟨?_, ?_, ?_, ?_⟩
  · intro c hc
    rcases List.mem_pair.mp hc with rfl | rfl
    · trivial
    · trivial
  · obtain ⟨t, hleave, hlookup, -⟩ := leave_contents {} "log" 1 1 calls (by decide) hroom
    have hlines : (filed {} "log" 1 1).lines ((filed {} "log" 1 1).accepted calls) =
        [(shown "one").line, (shown "two").line] := rfl
    have htext : textAt t (Path.ofText "log") = String.join [(shown "two").line] := by
      have hnewest := hlookup 0 (by decide)
      rw [hlines, split_shown, slot_zero] at hnewest
      rw [textAt, hnewest]
      rfl
    have htwo : ReadsBack (String.join ([shown "two"].map line)) [shown "two"] :=
      readsBack_join (List.forall_mem_singleton.mpr trivial)
    intro h
    rw [FilesReadBack, hleave, htext] at h
    exact absurd (htwo.length_splitAt.symm.trans h.length_splitAt) (by decide)
  · exact hnone rfl
  · obtain ⟨t, hleave, hlookup, -⟩ :=
      leave_contents { listener := some fun _ => some .null } "log" 1 1 calls (by decide) hroom
    have hnewest := hlookup 0 (by decide)
    rw [slot_zero] at hnewest
    apply hnone
    rw [hleave, textAt, hnewest]
    rfl

end Logger

end RuleForest
