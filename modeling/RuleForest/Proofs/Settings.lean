import Mathlib.Algebra.Ring.Int.Defs
import RuleForest.Config.Schema
import RuleForest.Proofs.Readers

namespace RuleForest

namespace Level

theorem plain_text : ∀ l ∈ all, l.text ≠ "" ∧ ∀ c ∈ l.text.toList, Text.Plain c := by
  have hall : all.all fun l => l.text ≠ "" && l.text.toList.all (Text.Plain ·) := by decide
  simpa using hall

theorem mem_all (l : Level) : l ∈ all := by
  cases l <;> decide

theorem text_injective : ∀ l ∈ all, ∀ m ∈ all, l.text = m.text → l = m := by decide

theorem spells_unique {l m : Level} {s : String} (h : Text.Spells l.text s)
    (h' : Text.Spells m.text s) : l = m :=
  text_injective l l.mem_all m m.mem_all
    (h.unique h' (plain_text l l.mem_all).2 (plain_text m m.mem_all).2)

theorem not_blank_of_spells {l : Level} {s : String} (h : Text.Spells l.text s) :
    ¬Text.isBlankText s :=
  h.not_blank (plain_text l l.mem_all).2 (plain_text l l.mem_all).1

end Level

namespace Config

variable {c : Config} {env : Environment} {n min : Int} {max : Option Int}

theorem checkLevel_text (l : Level) : checkLevel (.text l.text) = .ok l := by
  cases l <;> rfl

theorem checkText_ofOptionText (text : Option String) :
    checkText (.ofOptionText text) = .ok text := by
  cases text <;> rfl

theorem checkFilledText_ofOptionText (text : Option String) :
    checkFilledText (.ofOptionText text) = if text = some "" then .error [.tooSmall]
      else .ok text := by
  cases text with
  | none => rfl
  | some s =>
    simp only [checkFilledText, checkText_ofOptionText, String.isEmpty_iff, Option.some.injEq]

theorem checkInt_eq_ok : checkInt min max (.int n) = .ok n ↔ min ≤ n ∧ ∀ hi ∈ max, n ≤ hi := by
  have hmin : (⟨n, 0⟩ : Number) < .ofInt min ↔ n < min := Number.ofInt_lt_ofInt n min
  have hmax (hi : Int) : Number.ofInt hi < ⟨n, 0⟩ ↔ hi < n := Number.ofInt_lt_ofInt hi n
  have hint : Number.isInt ⟨n, 0⟩ = true := rfl
  simp only [checkInt, hint, hmin, hmax, if_true, List.nil_append]
  by_cases hlow : n < min
  · exact iff_of_false (by simp [hlow]) fun h => Int.not_le.mpr hlow h.1
  cases max with
  | none => exact iff_of_true (by simp [hlow]) ⟨Int.not_lt.mp hlow, by simp⟩
  | some hi =>
    by_cases hhigh : hi < n
    · exact iff_of_false (by simp [hhigh]) fun h => Int.not_le.mpr hhigh (h.2 hi rfl)
    · apply iff_of_true
      · simp [hlow, hhigh]
      · exact ⟨Int.not_lt.mp hlow, by simpa using hhigh⟩

structure Valid (c : Config) : Prop where
  logFile : c.logFile ≠ some ""
  logMaxBytes : 1 ≤ c.logMaxBytes
  logMaxFiles : 1 ≤ c.logMaxFiles ∧ c.logMaxFiles ≤ 100

theorem plain_toValue (c : Config) : c.toValue.plain = c.toValue := by
  have htext (text : Option String) : (Value.ofOptionText text).plain = .ofOptionText text := by
    cases text <;> simp only [Value.ofOptionText, Value.plain]
  simp only [toValue, Value.plain, Value.plainFields, htext]

theorem ofValue_eq_ok {v : Value} {fields : List (String × Value)} (hv : v.plain = .record fields) :
    ofValue v = .ok c ↔
      checkLevel (member fields "logLevel") = .ok c.logLevel ∧
      checkFilledText (member fields "logFile") = .ok c.logFile ∧
      checkInt 1 none (member fields "logMaxBytes") = .ok c.logMaxBytes ∧
      checkInt 1 (some 100) (member fields "logMaxFiles") = .ok c.logMaxFiles ∧
      checkText (member fields "logRedact") = .ok c.logRedact ∧
      checkBool (member fields "logStdout") = .ok c.logStdout ∧
      checkKeys (fields.map Prod.fst) = .ok () := by
  simp only [ofValue, hv]
  split
  · next hlevel hfile hbytes hfiles hredact hstdout hkeys =>
    simp only [hlevel, hfile, hbytes, hfiles, hredact, hstdout, hkeys, Except.ok.injEq, and_true]
    constructor
    · rintro rfl
      exact ⟨rfl, rfl, rfl, rfl, rfl, rfl⟩
    · rintro ⟨rfl, rfl, rfl, rfl, rfl, rfl⟩
      rfl
  · next hno =>
    apply iff_of_false (by simp)
    rintro ⟨hlevel, hfile, hbytes, hfiles, hredact, hstdout, hkeys⟩
    exact hno _ _ _ _ _ _ hlevel hfile hbytes hfiles hredact hstdout hkeys

theorem ofValue_toValue : ofValue c.toValue = .ok c ↔ c.Valid := by
  have hfile : checkFilledText (.ofOptionText c.logFile) = .ok c.logFile ↔ c.logFile ≠ some "" := by
    rw [checkFilledText_ofOptionText]
    split <;> simp [*]
  rw [ofValue_eq_ok (plain_toValue c)]
  change checkLevel (.text c.logLevel.text) = _ ∧ checkFilledText (.ofOptionText c.logFile) = _ ∧
    checkInt 1 none (.int c.logMaxBytes) = _ ∧ checkInt 1 (some 100) (.int c.logMaxFiles) = _ ∧
    checkText (.ofOptionText c.logRedact) = _ ∧ checkBool (.bool c.logStdout) = _ ∧ _ ↔ _
  rw [hfile, checkInt_eq_ok, checkInt_eq_ok]
  constructor
  · rintro ⟨-, hfile, ⟨hbytes, -⟩, ⟨hone, hmax⟩, -⟩
    exact ⟨hfile, hbytes, hone, hmax 100 rfl⟩
  · rintro ⟨hfile, hbytes, hone, hmax⟩
    refine ⟨checkLevel_text _, hfile, ⟨hbytes, by simp⟩, ⟨hone, ?_⟩, checkText_ofOptionText _, rfl,
      rfl⟩
    rintro hi ⟨⟩
    exact hmax

theorem level?_eq_some {name : String} {l : Level} :
    env.choice? name Level.all Level.text = some l ↔
    ∃ s, env.raw? name = some s ∧ Text.Spells l.text s := by
  rw [Environment.choice?_eq_some Level.plain_text Level.text_injective, and_iff_right l.mem_all]

theorem positive?_eq_some (hi : Option Int) {name : String} :
    env.int? name ⟨some (.ofInt 1), hi.map .ofInt⟩ = some n ↔
      ∃ s, env.raw? name = some s ∧ Text.Denotes n s ∧ 1 ≤ n ∧ n ≤ Environment.maxSafeInt ∧
      ∀ h ∈ hi, n ≤ h := by
  rw [Environment.int?_eq_some]
  refine exists_congr fun s => and_congr_right fun _ => and_congr_right fun _ => ?_
  rw [Environment.contains_ofInt]
  constructor
  · rintro ⟨hsafe, hone, hhi⟩
    exact ⟨hone, by omega, hhi⟩
  · rintro ⟨hone, hsafe, hhi⟩
    exact ⟨by omega, hone, hhi⟩

theorem bytes?_eq_some {name : String} : env.int? name ⟨some (.ofInt 1), none⟩ = some n ↔
    ∃ s, env.raw? name = some s ∧ Text.Denotes n s ∧ 1 ≤ n ∧ n ≤ 2 ^ 53 - 1 := by
  refine (positive?_eq_some none).trans
    (exists_congr fun s => and_congr_right fun _ => and_congr_right fun _ => ?_)
  constructor
  · rintro ⟨hone, hsafe, -⟩
    exact ⟨hone, hsafe⟩
  · rintro ⟨hone, hsafe⟩
    exact ⟨hone, hsafe, by simp⟩

theorem files?_eq_some {name : String} :
    env.int? name ⟨some (.ofInt 1), some (.ofInt 100)⟩ = some n ↔
    ∃ s, env.raw? name = some s ∧ Text.Denotes n s ∧ 1 ≤ n ∧ n ≤ 100 := by
  refine (positive?_eq_some (some 100)).trans
    (exists_congr fun s => and_congr_right fun _ => and_congr_right fun _ => ?_)
  constructor
  · rintro ⟨hone, -, hmax⟩
    exact ⟨hone, hmax 100 rfl⟩
  · rintro ⟨hone, hmax⟩
    refine ⟨hone, Int.le_trans hmax (by decide), ?_⟩
    rintro hi ⟨⟩
    exact hmax

theorem valid_ofEnvironment (env : Environment) : (ofEnvironment env).Valid := by
  constructor
  · intro hfile
    obtain ⟨s, -, -, -, hne⟩ := Environment.text?_eq_some.mp hfile
    exact hne rfl
  · change 1 ≤ Option.getD _ _
    cases hn : env.int? "RULES_LOG_MAX_BYTES" ⟨some (.ofInt 1), none⟩ with
    | none => decide
    | some n =>
      obtain ⟨s, -, -, hone, -⟩ := bytes?_eq_some.mp hn
      exact hone
  · change 1 ≤ Option.getD _ _ ∧ Option.getD _ _ ≤ _
    cases hn : env.int? "RULES_LOG_MAX_FILES" ⟨some (.ofInt 1), some (.ofInt 100)⟩ with
    | none => decide
    | some n =>
      obtain ⟨s, -, -, hwithin⟩ := files?_eq_some.mp hn
      exact hwithin

theorem load_eq (env : Environment) : load env = .ok (ofEnvironment env) :=
  ofValue_toValue.mpr (valid_ofEnvironment env)

def SpellsNat (n : Nat) (s : String) : Prop :=
  ∃ sign zeros, (sign = [] ∨ sign = ['+']) ∧
  Text.Padded (sign ++ List.replicate zeros '0' ++ Nat.toDigits 10 n) s

def SpellsText (env : Environment) (name : String) : Option String → Prop
  | none => ∀ s, env.raw? name = some s → Text.isBlankText s
  | some text => ∃ s, env.raw? name = some s ∧ Text.Padded text.toList s

structure SpelledBy (c : Config) (env : Environment) : Prop where
  logLevel : ∃ s, env.raw? "RULES_LOG_LEVEL" = some s ∧ Text.Spells c.logLevel.text s
  logFile : SpellsText env "RULES_LOG_FILE" c.logFile
  logMaxBytes : ∃ s, env.raw? "RULES_LOG_MAX_BYTES" = some s ∧ SpellsNat c.logMaxBytes.toNat s
  logMaxFiles : ∃ s, env.raw? "RULES_LOG_MAX_FILES" = some s ∧ SpellsNat c.logMaxFiles.toNat s
  logRedact : SpellsText env "RULES_LOG_REDACT" c.logRedact
  logStdout : ∃ s, env.raw? "RULES_LOG_STDOUT" = some s ∧ Environment.SpellsBool c.logStdout s

theorem ofDigitChars_zeros (zeros : Nat) :
    Nat.ofDigitChars 10 (List.replicate zeros '0') 0 = 0 := by
  induction zeros with
  | zero => rfl
  | succ zeros ih => rwa [List.replicate_succ, Nat.ofDigitChars_cons]

theorem SpellsNat.denotes {n : Nat} {s : String} (h : SpellsNat n s) : Text.Denotes n s := by
  obtain ⟨sign, zeros, hsign, hpadded⟩ := h
  refine ⟨_, hpadded, ?_⟩
  have hdigits : Text.Digits (List.replicate zeros '0' ++ Nat.toDigits 10 n) := by
    refine ⟨List.append_ne_nil_of_right_ne_nil _ (Text.natDigits_ne_nil n), ?_⟩
    intro d hd
    rcases List.mem_append.mp hd with hd | hd
    · rw [List.eq_of_mem_replicate hd]
      rfl
    · exact Text.isDigit_of_mem_natDigits d hd
  have hvalue : Nat.ofDigitChars 10 (List.replicate zeros '0' ++ Nat.toDigits 10 n) 0 = n := by
    rw [Nat.ofDigitChars_append, ofDigitChars_zeros, Nat.ofDigitChars_ten_toDigits]
  rw [List.append_assoc]
  rcases hsign with rfl | rfl
  · have hn := Text.Numeral.unsigned hdigits
    rwa [hvalue] at hn
  · have hn := Text.Numeral.positive hdigits
    rwa [hvalue] at hn

theorem SpellsNat.denotes_of_pos {s : String} (h : SpellsNat n.toNat s) (hn : 1 ≤ n) :
    Text.Denotes n s := by
  have hdenotes := h.denotes
  rwa [Int.toNat_of_nonneg (Int.le_trans (by decide) hn)] at hdenotes

theorem text?_of_spellsText {name : String} {text : Option String} (h : SpellsText env name text)
    (htext : ∀ t ∈ text, t ≠ "" ∧ Text.trim t = t) : env.text? name = text := by
  cases text with
  | none => exact Environment.text?_eq_none.mpr h
  | some t =>
    obtain ⟨s, hs, hpadded⟩ := h
    obtain ⟨hne, htrim⟩ := htext t rfl
    have htrimmed : Text.Trimmed t.toList := by
      rw [Text.trimmed_iff, ← String.toList_ofList (l := Text.trimChars t.toList)]
      exact congrArg String.toList htrim
    exact Environment.text?_eq_some.mpr ⟨s, hs, hpadded, htrimmed, hne⟩

/-- A configuration that the schema accepts is read back from every environment that spells it
out. -/
theorem load_of_spelledBy {c : Config} (haccepted : ofValue c.toValue = .ok c)
    (hfile : ∀ t ∈ c.logFile, t ≠ "" ∧ Text.trim t = t)
    (hredact : ∀ t ∈ c.logRedact, t ≠ "" ∧ Text.trim t = t) (hbytes : c.logMaxBytes ≤ 2 ^ 53 - 1)
    {env : Environment} (h : c.SpelledBy env) : load env = .ok c := by
  obtain ⟨-, hone, hfiles⟩ := ofValue_toValue.mp haccepted
  obtain ⟨bytes, hrawBytes, hspelledBytes⟩ := h.logMaxBytes
  obtain ⟨files, hrawFiles, hspelledFiles⟩ := h.logMaxFiles
  have hlevel := level?_eq_some.mpr h.logLevel
  have hmaxBytes :=
    bytes?_eq_some.mpr ⟨bytes, hrawBytes, hspelledBytes.denotes_of_pos hone, hone, hbytes⟩
  have hmaxFiles :=
    files?_eq_some.mpr ⟨files, hrawFiles, hspelledFiles.denotes_of_pos hfiles.1, hfiles⟩
  have hstdout := Environment.bool?_eq_some.mpr h.logStdout
  have heq : ofEnvironment env = c := by
    simp only [ofEnvironment, Environment.choice, Environment.int, Environment.bool, hlevel,
      hmaxBytes, hmaxFiles, hstdout, text?_of_spellsText h.logFile hfile,
      text?_of_spellsText h.logRedact hredact, Option.getD_some]
  rw [load_eq, heq]

theorem load_of_spelledBy_padded :
    let c : Config := { default with
      logLevel := .debug, logFile := some "app.log", logMaxBytes := 1024, logMaxFiles :=
      100, logStdout := false }
    let env : Environment :=
      ⟨[("PATH", .text "/bin"), ("RULES_LOG_LEVEL", .text " DeBug"),
        ("RULES_LOG_FILE", .text "app.log\t"),
      ("RULES_LOG_MAX_BYTES", .text "+001024"), ("RULES_LOG_MAX_FILES", .text "100"),
      ("RULES_LOG_REDACT", .text "  "),
      ("RULES_LOG_STDOUT", .text "OFF\n")]⟩
    ofValue c.toValue = .ok c ∧ (∀ t ∈ c.logFile, t ≠ "" ∧ Text.trim t = t) ∧
      (∀ t ∈ c.logRedact, t ≠ "" ∧ Text.trim t = t) ∧ c.logMaxBytes ≤ 2 ^ 53 - 1 ∧ c.SpelledBy env ∧
      load env = .ok c := by
  intro c env
  have haccepted : ofValue c.toValue = .ok c :=
    ofValue_toValue.mpr ⟨by decide, by decide, by decide⟩
  have hfile : ∀ t ∈ c.logFile, t ≠ "" ∧ Text.trim t = t := by
    rintro t ⟨⟩
    decide
  have hredact : ∀ t ∈ c.logRedact, t ≠ "" ∧ Text.trim t = t := by
    rintro t ⟨⟩
  have hspelled : c.SpelledBy env := by
    refine ⟨⟨" DeBug", rfl, "DeBug".toList, ?_, by decide⟩, ⟨"app.log\t", rfl, ?_⟩,
      ⟨"+001024", rfl, ['+'], 2, .inr rfl, ?_⟩,
      ⟨"100", rfl, [], 0, .inl rfl, ?_⟩, ?_,
      ⟨"OFF\n", rfl, "off", by decide, "OFF".toList, ?_, by decide⟩⟩
    · exact ⟨[' '], [], List.all_eq_true.mp rfl, by decide⟩
    · exact ⟨[], ['\t'], List.all_eq_true.mp rfl, by decide⟩
    · exact ⟨[], [], List.all_eq_true.mp rfl, by decide⟩
    · exact ⟨[], [], List.all_eq_true.mp rfl, by decide⟩
    · rintro s ⟨⟩
      decide
    · exact ⟨[], ['\n'], List.all_eq_true.mp rfl, by decide⟩
  exact ⟨haccepted, hfile, hredact, by
    decide, hspelled, load_of_spelledBy haccepted hfile hredact (by decide) hspelled⟩

/-- Every environment gives a configuration that the schema accepts as it is. Each field has a
variable of its own, and it is the default just if that variable is unset, blank, not of the form,
out of bounds or a spelling of the default. -/
theorem load_falls_back (env other : Environment) :
    load env = .ok (ofEnvironment env) ∧
      ((env.raw? "RULES_LOG_LEVEL" = other.raw? "RULES_LOG_LEVEL" →
        (ofEnvironment env).logLevel = (ofEnvironment other).logLevel) ∧
      (env.raw? "RULES_LOG_FILE" = other.raw? "RULES_LOG_FILE" →
        (ofEnvironment env).logFile = (ofEnvironment other).logFile) ∧
      (env.raw? "RULES_LOG_MAX_BYTES" = other.raw? "RULES_LOG_MAX_BYTES" →
        (ofEnvironment env).logMaxBytes = (ofEnvironment other).logMaxBytes) ∧
      (env.raw? "RULES_LOG_MAX_FILES" = other.raw? "RULES_LOG_MAX_FILES" →
        (ofEnvironment env).logMaxFiles = (ofEnvironment other).logMaxFiles) ∧
      (env.raw? "RULES_LOG_REDACT" = other.raw? "RULES_LOG_REDACT" →
        (ofEnvironment env).logRedact = (ofEnvironment other).logRedact) ∧
      (env.raw? "RULES_LOG_STDOUT" = other.raw? "RULES_LOG_STDOUT" →
        (ofEnvironment env).logStdout = (ofEnvironment other).logStdout)) ∧
      ((ofEnvironment env).logLevel = default.logLevel ↔
        env.FallsBack "RULES_LOG_LEVEL" (fun l => Text.Spells l.text) (fun _ => True)
          default.logLevel) ∧
      ((ofEnvironment env).logFile = default.logFile ↔
        ∀ s, env.raw? "RULES_LOG_FILE" = some s → Text.isBlankText s) ∧
      ((ofEnvironment env).logMaxBytes = default.logMaxBytes ↔
        env.FallsBack "RULES_LOG_MAX_BYTES" Text.Denotes (fun n => 1 ≤ n ∧ n ≤ 2 ^ 53 - 1)
          default.logMaxBytes) ∧
      ((ofEnvironment env).logMaxFiles = default.logMaxFiles ↔
        env.FallsBack "RULES_LOG_MAX_FILES" Text.Denotes (fun n => 1 ≤ n ∧ n ≤ 100)
          default.logMaxFiles) ∧
      ((ofEnvironment env).logRedact = default.logRedact ↔
        ∀ s, env.raw? "RULES_LOG_REDACT" = some s → Text.isBlankText s) ∧
      ((ofEnvironment env).logStdout = default.logStdout ↔
        env.FallsBack "RULES_LOG_STDOUT" Environment.SpellsBool (fun _ => True)
          default.logStdout) := by
  have htext {name : String} : env.text? name = none ↔
      ∀ s, env.raw? name = some s → Text.isBlankText s :=
    Environment.text?_eq_none
  have hsame {name : String} (h : env.raw? name = other.raw? name) :
      env.text? name = other.text? name := by
    rw [Environment.text?, h, Environment.text?]
  refine ⟨load_eq env, ⟨?_, hsame, ?_, ?_, hsame, ?_⟩, ?_, htext, ?_, ?_, htext, ?_⟩
  · intro h
    simp only [ofEnvironment, Environment.choice, Environment.choice?, hsame h]
  · intro h
    simp only [ofEnvironment, Environment.int, Environment.int?, hsame h]
  · intro h
    simp only [ofEnvironment, Environment.int, Environment.int?, hsame h]
  · intro h
    simp only [ofEnvironment, Environment.bool, Environment.bool?, hsame h]
  · refine Environment.getD_eq_iff_fallsBack _ (fun l => ?_) Level.spells_unique
      Level.not_blank_of_spells
    simp only [and_true]
    exact level?_eq_some
  · exact Environment.getD_eq_iff_fallsBack _ (fun n => bytes?_eq_some) Text.Denotes.unique
      Text.Denotes.not_blank
  · exact Environment.getD_eq_iff_fallsBack _ (fun n => files?_eq_some) Text.Denotes.unique
      Text.Denotes.not_blank
  · refine Environment.getD_eq_iff_fallsBack _ (fun b => ?_) Environment.SpellsBool.unique
      Environment.SpellsBool.not_blank
    simp only [and_true]
    exact Environment.bool?_eq_some

end Config

end RuleForest
