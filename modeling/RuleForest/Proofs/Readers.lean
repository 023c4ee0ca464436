import Mathlib.Algebra.Ring.Nat
import RuleForest.Environment
import RuleForest.Proofs.Numerals
import RuleForest.Proofs.Trimming

namespace RuleForest

namespace Text

variable {c : Char} {cs w : List Char} {n : Int} {s word : String}

def Plain (c : Char) : Prop :=
  0 < c.toNat ∧ c.toNat < 0x80 ∧ c ≠ 'k' ∧ c.toLower = c ∧ isBlank c = false

instance (c : Char) : Decidable (Plain c) := inferInstanceAs (Decidable (_ ∧ _))

theorem toNat_ofNat (m : Nat) : (Char.ofNat m).toNat = m ∨ (Char.ofNat m).toNat = 0 := by
  unfold Char.ofNat
  by_cases h : m.isValidChar
  · rw [dif_pos h]
    exact .inl rfl
  · rw [dif_neg h]
    exact .inr rfl

theorem lowerRuns_apart :
    ∀ r ∈ lowerRuns, 0x80 ≤ r.first + r.shift ∨ r.first = r.last ∧ r.first + r.shift = 0x6B := by
  decide +kernel

theorem apply_lowerRuns {m : Nat} (h : 0x80 ≤ m) :
    0x80 ≤ CaseRun.apply lowerRuns m ∨ CaseRun.apply lowerRuns m = 0x6B := by
  unfold CaseRun.apply
  split
  · next r hr =>
    have hcovers := List.find?_some hr
    simp only [CaseRun.covers, Bool.and_eq_true, decide_eq_true_eq] at hcovers
    rcases lowerRuns_apart r (List.mem_of_find?_eq_some hr) with hfar | ⟨hone, hkelvin⟩ <;> omega
  · exact .inl h

theorem not_plain_lowerBetween (h : 0x80 ≤ c.toNat) (before after : List Char) :
    ∃ d ∈ lowerBetween before c after, ¬Plain d := by
  unfold lowerBetween
  split
  · refine ⟨_, List.mem_singleton_self _, ?_⟩
    split <;> decide
  split
  · exact ⟨'\u0307', by simp, by decide⟩
  refine ⟨_, List.mem_singleton_self _, ?_⟩
  rintro ⟨hpos, hlow, hk, -⟩
  rw [lowerChar, if_neg (by omega)] at hpos hlow hk
  rcases toNat_ofNat (CaseRun.apply lowerRuns c.toNat) with hnat | hnat
  · rcases apply_lowerRuns h with hfar | hkelvin
    · omega
    · exact hk (by rw [hkelvin])
  · omega

theorem lowerBetween_of_ascii (h : c.toNat < 0x80) (before after : List Char) :
    lowerBetween before c after = [c.toLower] := by
  have hne (d : Char) (hd : 0x80 ≤ d.toNat) : c ≠ d := by
    rintro rfl
    omega
  rw [lowerBetween, if_neg (hne 'Σ' (by decide)), if_neg (hne 'İ' (by decide)), lowerChar, if_pos h]

theorem toLower_of_not_ascii (h : 0x80 ≤ c.toNat) : c.toLower = c := by
  have hZ : ¬c.val ≤ 'Z'.val := by
    intro hle
    have hnat : c.toNat ≤ 'Z'.toNat := hle
    have hZ : 'Z'.toNat = 90 := rfl
    omega
  unfold Char.toLower
  rw [dif_neg fun h => hZ h.2]

theorem lowerFrom_eq_iff (hw : ∀ c ∈ w, Plain c) (before : List Char) :
    lowerFrom before cs = w ↔ cs.map Char.toLower = w := by
  induction cs generalizing before w with
  | nil => rfl
  | cons c cs ih =>
    rw [lowerFrom, List.map_cons]
    by_cases hc : c.toNat < 0x80
    · rw [lowerBetween_of_ascii hc, List.singleton_append]
      cases w with
      | nil => simp
      | cons d w => rw [List.cons.injEq, List.cons.injEq, ih (List.forall_mem_cons.mp hw).2]
    · apply iff_of_false
      · rintro rfl
        obtain ⟨d, hd, hplain⟩ := not_plain_lowerBetween (Nat.not_lt.mp hc) before cs
        exact hplain (hw d (List.mem_append_left _ hd))
      · rintro rfl
        have hplain := hw c.toLower List.mem_cons_self
        rw [toLower_of_not_ascii (Nat.not_lt.mp hc)] at hplain
        exact hc hplain.2.1

theorem lowerCase_eq_iff (hw : ∀ c ∈ word.toList, Plain c) (s : String) :
    lowerCase s = word ↔ s.toList.map Char.toLower = word.toList := by
  rw [lowerCase, ← String.toList_inj, String.toList_ofList, lowerFrom_eq_iff hw]

theorem lowerCase_of_plain (hw : ∀ c ∈ word.toList, Plain c) : lowerCase word = word := by
  rw [lowerCase_eq_iff hw, List.map_congr_left fun c hc => (hw c hc).2.2.2.1, List.map_id']

structure Digits (ds : List Char) : Prop where
  nonempty : ds ≠ []
  digits : ∀ d ∈ ds, d.isDigit

inductive Numeral : List Char → Int → Prop where
  | unsigned {ds : List Char} (h : Digits ds) : Numeral ds (Nat.ofDigitChars 10 ds 0)
  | positive {ds : List Char} (h : Digits ds) : Numeral ('+' :: ds) (Nat.ofDigitChars 10 ds 0)
  | negative {ds : List Char} (h : Digits ds) :
      Numeral ('-' :: ds) (-(Nat.ofDigitChars 10 ds 0 : Int))

theorem natOfDigits?_eq_some {m : Nat} :
    natOfDigits? cs = some m ↔ Digits cs ∧ Nat.ofDigitChars 10 cs 0 = m := by
  have hdigits : (!cs.isEmpty && cs.all Char.isDigit) = true ↔ Digits cs := by
    rw [Bool.and_eq_true, Bool.not_eq_true', List.isEmpty_eq_false_iff, List.all_eq_true]
    exact ⟨fun h => ⟨h.1, h.2⟩, fun h => ⟨h.nonempty, h.digits⟩⟩
  unfold natOfDigits?
  split
  · next h => rw [and_iff_right (hdigits.mp h), Option.some.injEq]
  · next h => exact iff_of_false (by simp) fun hm => h (hdigits.mpr hm.1)

theorem intOfDigits?_eq_some : intOfDigits? cs = some n ↔ Numeral cs n := by
  have hcast (ds : List Char) (f : Int → Int) :
      (do let m ← natOfDigits? ds; pure (m : Int)).map f = some n ↔
      Digits ds ∧ f (Nat.ofDigitChars 10 ds 0) = n := by
    cases hm : natOfDigits? ds with
    | none =>
      apply iff_of_false (by simp)
      intro hd
      rw [natOfDigits?_eq_some.mpr ⟨hd.1, rfl⟩] at hm
      cases hm
    | some m =>
      obtain ⟨hd, rfl⟩ := natOfDigits?_eq_some.mp hm
      simp [hd]
  unfold intOfDigits?
  split
  · next ds =>
    rw [hcast]
    constructor
    · rintro ⟨hd, rfl⟩
      exact .negative hd
    · intro h
      cases h with
      | unsigned hd => exact absurd (hd.digits _ List.mem_cons_self) (by decide)
      | negative hd => exact ⟨hd, rfl⟩
  · next ds =>
    rw [hcast]
    constructor
    · rintro ⟨hd, rfl⟩
      exact .positive hd
    · intro h
      cases h with
      | unsigned hd => exact absurd (hd.digits _ List.mem_cons_self) (by decide)
      | positive hd => exact ⟨hd, rfl⟩
  · next hminus hplus =>
    rw [hcast]
    constructor
    · rintro ⟨hd, rfl⟩
      exact .unsigned hd
    · intro h
      cases h with
      | unsigned hd => exact ⟨hd, rfl⟩
      | positive => exact absurd rfl (hplus _)
      | negative => exact absurd rfl (hminus _)

theorem numeral_intDigits (n : Int) : Numeral (intDigits n) n := by
  have hdigits (m : Nat) : Digits (natDigits m) := ⟨natDigits_ne_nil m, isDigit_of_mem_natDigits⟩
  have hvalue (m : Nat) : Nat.ofDigitChars 10 (natDigits m) 0 = m := Nat.ofDigitChars_ten_toDigits
  cases n with
  | ofNat m =>
    have h := Numeral.unsigned (hdigits m)
    rwa [hvalue] at h
  | negSucc m =>
    have h := Numeral.negative (hdigits (m + 1))
    rwa [hvalue] at h

theorem not_blank_of_isDigit (h : c.isDigit) : isBlank c = false := by
  simp only [Char.isDigit, Bool.and_eq_true, decide_eq_true_eq, ge_iff_le, UInt32.le_iff_toNat_le]
    at h
  have hnat : c.val.toNat = c.toNat := rfl
  have hzero : '0'.val.toNat = 48 := rfl
  have hnine : '9'.val.toNat = 57 := rfl
  rw [hnat, hzero, hnine] at h
  simp [isBlank]
  omega

theorem Numeral.trimmed (h : Numeral cs n) : Trimmed cs ∧ cs ≠ [] := by
  have hdigits {ds : List Char} (hd : Digits ds) : ∀ d ∈ ds, isBlank d = false := fun d hmem =>
    not_blank_of_isDigit (hd.digits d hmem)
  cases h with
  | unsigned hd => exact ⟨trimmed_of_forall (hdigits hd), hd.nonempty⟩
  | positive hd =>
    exact ⟨trimmed_of_forall (List.forall_mem_cons.mpr ⟨by decide, hdigits hd⟩),
      List.cons_ne_nil _ _⟩
  | negative hd =>
    exact ⟨trimmed_of_forall (List.forall_mem_cons.mpr ⟨by decide, hdigits hd⟩),
      List.cons_ne_nil _ _⟩

theorem not_blank_of_toLower (h : isBlank c.toLower = false) : isBlank c = false := by
  unfold Char.toLower at h
  split at h
  · next hcapital =>
    have hlow : 65 ≤ c.toNat := hcapital.1
    have hhigh : c.toNat ≤ 90 := hcapital.2
    simp [isBlank]
    omega
  · exact h

theorem trimmed_of_map_toLower (hw : ∀ c ∈ w, Plain c) (h : cs.map Char.toLower = w) :
    Trimmed cs := by
  apply trimmed_of_forall
  intro c hc
  exact not_blank_of_toLower (hw c.toLower (h ▸ List.mem_map_of_mem hc)).2.2.2.2

def Spells (word : String) (s : String) : Prop :=
  ∃ cs, Padded cs s ∧ cs.map Char.toLower = word.toList

def Denotes (n : Int) (s : String) : Prop := ∃ cs, Padded cs s ∧ Numeral cs n

theorem Spells.trimChars (h : Spells word s) (hw : ∀ c ∈ word.toList, Plain c) :
    (Text.trimChars s.toList).map Char.toLower = word.toList := by
  obtain ⟨cs, hpadded, hword⟩ := h
  rw [hpadded.trimChars_eq (trimmed_of_map_toLower hw hword), hword]

theorem Spells.unique {word' : String} (h : Spells word s) (h' : Spells word' s)
    (hw : ∀ c ∈ word.toList, Plain c) (hw' : ∀ c ∈ word'.toList, Plain c) : word = word' :=
  String.toList_inj.mp ((h.trimChars hw).symm.trans (h'.trimChars hw'))

theorem Denotes.trimChars (h : Denotes n s) : Numeral (Text.trimChars s.toList) n := by
  obtain ⟨cs, hpadded, hn⟩ := h
  rwa [hpadded.trimChars_eq hn.trimmed.1]

theorem denotes_iff : Denotes n s ↔ Numeral (trim s).toList n := by
  rw [trim, String.toList_ofList]
  exact ⟨Denotes.trimChars, fun h => ⟨_, padded_trimChars s, h⟩⟩

theorem Denotes.unique {m : Int} (hm : Denotes m s) (hn : Denotes n s) : m = n :=
  Option.some.inj ((intOfDigits?_eq_some.mpr hm.trimChars).symm.trans
    (intOfDigits?_eq_some.mpr hn.trimChars))

theorem Denotes.not_blank (h : Denotes n s) : ¬isBlankText s := by
  rw [isBlankText_iff]
  exact h.trimChars.trimmed.2

theorem Spells.not_blank (h : Spells word s) (hw : ∀ c ∈ word.toList, Plain c) (hne : word ≠ "") :
    ¬isBlankText s := by
  rw [isBlankText_iff]
  intro hnil
  have hword := h.trimChars hw
  rw [hnil] at hword
  exact hne (String.toList_eq_nil_iff.mp hword.symm)

end Text

namespace Environment

variable {env : Environment} {name s word w : String} {cs : List Char}

theorem text?_of_padded (hs : env.raw? name = some s) (hpadded : Text.Padded cs s)
    (ht : Text.Trimmed cs) (hne : cs ≠ []) :
    env.text? name = some (String.ofList cs) := by
  have htrim := hpadded.trimChars_eq ht
  rw [text?, hs, Option.bind_some, if_neg, Text.trim, htrim]
  rwa [Text.isBlankText_iff, htrim]

theorem text?_eq_some : env.text? name = some w ↔
    ∃ s, env.raw? name = some s ∧ Text.Padded w.toList s ∧ Text.Trimmed w.toList ∧ w ≠ "" := by
  constructor
  · intro h
    obtain ⟨s, hs, hw⟩ := Option.bind_eq_some_iff.mp h
    split at hw
    · cases hw
    · next hblank =>
      obtain rfl := Option.some.inj hw
      rw [Text.isBlankText_iff] at hblank
      rw [Text.trim, String.toList_ofList]
      refine ⟨s, hs, Text.padded_trimChars s, Text.trimmed_trimChars s.toList,
        fun hempty => hblank ?_⟩
      exact String.ofList_eq_empty_iff.mp hempty
  · rintro ⟨s, hs, hpadded, ht, hne⟩
    have hw := text?_of_padded hs hpadded ht fun hnil => hne (String.toList_eq_nil_iff.mp hnil)
    rwa [String.ofList_toList] at hw

theorem text?_eq_none :
    env.text? name = none ↔ ∀ s, env.raw? name = some s → Text.isBlankText s := by
  simp only [text?, Option.bind_eq_none_iff, ite_eq_left_iff, reduceCtorEq, imp_false, not_not]

theorem text?_lowerCase (hw : ∀ c ∈ word.toList, Text.Plain c) (hne : word ≠ "") :
    (∃ v, env.text? name = some v ∧ Text.lowerCase v = word) ↔
    ∃ s, env.raw? name = some s ∧ Text.Spells word s := by
  constructor
  · rintro ⟨v, hv, hword⟩
    obtain ⟨s, hs, hpadded, -⟩ := text?_eq_some.mp hv
    exact ⟨s, hs, v.toList, hpadded, (Text.lowerCase_eq_iff hw v).mp hword⟩
  · rintro ⟨s, hs, cs, hpadded, hword⟩
    refine ⟨String.ofList cs, text?_of_padded hs hpadded (Text.trimmed_of_map_toLower hw hword) ?_,
      ?_⟩
    · rintro rfl
      exact hne (String.toList_eq_nil_iff.mp hword.symm)
    · rwa [Text.lowerCase_eq_iff hw, String.toList_ofList]

theorem choice?_eq_some {α : Type} {allowed : List α} {spelling : α → String} {a : α}
    (hplain : ∀ a ∈ allowed, spelling a ≠ "" ∧ ∀ c ∈ (spelling a).toList, Text.Plain c)
    (hinj : ∀ a ∈ allowed, ∀ b ∈ allowed, spelling a = spelling b → a = b) :
    env.choice? name allowed spelling = some a ↔
      a ∈ allowed ∧ ∃ s, env.raw? name = some s ∧ Text.Spells (spelling a) s := by
  have hfind (v : String) : allowed.find?
      (fun a => Text.lowerCase (spelling a) == Text.lowerCase v) = some a ↔
      a ∈ allowed ∧ Text.lowerCase v = spelling a := by
    have hsmall {b : α} (hb : b ∈ allowed) : Text.lowerCase (spelling b) = spelling b :=
      Text.lowerCase_of_plain (hplain b hb).2
    constructor
    · intro h
      have ha := List.mem_of_find?_eq_some h
      have heq := List.find?_some h
      rw [beq_iff_eq, hsmall ha] at heq
      exact ⟨ha, heq.symm⟩
    · rintro ⟨ha, hv⟩
      cases hb : allowed.find? (fun a => Text.lowerCase (spelling a) == Text.lowerCase v) with
      | none =>
        have hno := List.find?_eq_none.mp hb a ha
        exact absurd (beq_iff_eq.mpr (by rw [hsmall ha, hv])) hno
      | some b =>
        have hmem := List.mem_of_find?_eq_some hb
        have heq := List.find?_some hb
        rw [beq_iff_eq, hsmall hmem, hv] at heq
        rw [hinj b hmem a ha heq]
  rw [choice?, Option.bind_eq_some_iff]
  constructor
  · rintro ⟨v, hv, ha⟩
    obtain ⟨ha, hword⟩ := (hfind v).mp ha
    exact ⟨ha, (text?_lowerCase (hplain a ha).2 (hplain a ha).1).mp ⟨v, hv, hword⟩⟩
  · rintro ⟨ha, hs⟩
    obtain ⟨v, hv, hword⟩ := (text?_lowerCase (hplain a ha).2 (hplain a ha).1).mpr hs
    exact ⟨v, hv, (hfind v).mpr ⟨ha, hword⟩⟩

def words (b : Bool) : List String := if b then trueWords else falseWords

theorem words_plain : ∀ b, ∀ word ∈ words b, word ≠ "" ∧ ∀ c ∈ word.toList, Text.Plain c := by
  intro b
  have hall : (words b).all fun word => word ≠ "" && word.toList.all (Text.Plain ·) := by
    cases b <;> decide
  simpa using hall

theorem words_apart : ∀ word ∈ words true, word ∉ words false := by decide

def SpellsBool (b : Bool) (s : String) : Prop := ∃ word ∈ words b, Text.Spells word s

theorem SpellsBool.unique {b b' : Bool} (h : SpellsBool b s) (h' : SpellsBool b' s) : b = b' := by
  obtain ⟨word, hmem, hword⟩ := h
  obtain ⟨word', hmem', hword'⟩ := h'
  obtain rfl := hword.unique hword' (words_plain b word hmem).2 (words_plain b' word' hmem').2
  cases b <;> cases b'
  · rfl
  · exact absurd hmem (words_apart word hmem')
  · exact absurd hmem' (words_apart word hmem)
  · rfl

theorem SpellsBool.not_blank {b : Bool} (h : SpellsBool b s) : ¬Text.isBlankText s := by
  obtain ⟨word, hmem, hword⟩ := h
  exact hword.not_blank (words_plain b word hmem).2 (words_plain b word hmem).1

theorem bool?_eq_some {b : Bool} :
    env.bool? name = some b ↔ ∃ s, env.raw? name = some s ∧ SpellsBool b s := by
  have hword (v : String) : wordAsBool? v = some b ↔ Text.lowerCase v ∈ words b := by
    have happart := words_apart (Text.lowerCase v)
    simp only [wordAsBool?, List.contains_iff_mem]
    cases b <;> simp only [words, if_true, Bool.false_eq_true, if_false] at happart ⊢ <;> split <;>
      simp_all
  rw [bool?, Option.bind_eq_some_iff]
  constructor
  · rintro ⟨v, hv, hb⟩
    have hmem := (hword v).mp hb
    obtain ⟨hne, hplain⟩ := words_plain b _ hmem
    obtain ⟨s, hs, hspells⟩ := (text?_lowerCase hplain hne).mp ⟨v, hv, rfl⟩
    exact ⟨s, hs, _, hmem, hspells⟩
  · rintro ⟨s, hs, word, hmem, hspells⟩
    obtain ⟨hne, hplain⟩ := words_plain b word hmem
    obtain ⟨v, hv, rfl⟩ := (text?_lowerCase hplain hne).mpr ⟨s, hs, hspells⟩
    exact ⟨v, hv, (hword v).mpr hmem⟩

theorem contains_iff (lo hi : Option Int) {n : Int} :
    Bounds.contains ⟨lo.map .ofInt, hi.map .ofInt⟩ n ↔ (∀ l ∈ lo, l ≤ n) ∧ ∀ h ∈ hi, n ≤ h := by
  rw [Bounds.contains, Bool.and_eq_true]
  cases lo <;> cases hi <;> simp [Number.ofInt_le_ofInt]

theorem contains_ofInt {lo n : Int} {hi : Option Int} :
    Bounds.contains ⟨some (.ofInt lo), hi.map .ofInt⟩ n ↔ lo ≤ n ∧ ∀ h ∈ hi, n ≤ h := by
  refine (contains_iff (some lo) hi).trans ?_
  simp only [Option.mem_some_iff, forall_eq']

theorem safeInt?_eq_some {n : Int} :
    safeInt? s = some n ↔ Text.Numeral s.toList n ∧ (n.natAbs : Int) ≤ maxSafeInt := by
  have hbits (m : Int) : (m.natAbs : Int) ≤ maxSafeInt ↔
      m.natAbs < Nat.pow 2 Number.significantBits := by
    have hpow : Nat.pow 2 Number.significantBits = 9007199254740992 := rfl
    rw [hpow, maxSafeInt]
    omega
  simp only [safeInt?, nearest?, isSafe, Option.map_eq_some_iff, Option.filter_eq_some_iff,
    Option.bind_eq_some_iff, Text.intOfDigits?_eq_some, Bool.and_eq_true, decide_eq_true_eq, hbits]
  constructor
  · rintro ⟨x, ⟨⟨m, hm, hx⟩, -, hsafe⟩, rfl⟩
    obtain rfl := Number.eq_of_ofFraction? hx hsafe
    exact ⟨hm, hsafe⟩
  · rintro ⟨hn, hsafe⟩
    exact ⟨.ofInt n, ⟨⟨n, hn, Number.ofFraction?_of_lt hsafe⟩, rfl, hsafe⟩, rfl⟩

theorem int?_eq_some {bounds : Bounds} {n : Int} : env.int? name bounds = some n ↔
    ∃ s, env.raw? name = some s ∧ Text.Denotes n s ∧ (n.natAbs : Int) ≤ maxSafeInt ∧
    bounds.contains n := by
  simp only [int?, Option.filter_eq_some_iff, Option.bind_eq_some_iff, safeInt?_eq_some]
  constructor
  · rintro ⟨⟨v, hv, hn, hsafe⟩, hbounds⟩
    obtain ⟨s, hs, hpadded, -⟩ := text?_eq_some.mp hv
    exact ⟨s, hs, ⟨v.toList, hpadded, hn⟩, hsafe, hbounds⟩
  · rintro ⟨s, hs, ⟨cs, hpadded, hn⟩, hsafe, hbounds⟩
    refine ⟨⟨String.ofList cs, text?_of_padded hs hpadded hn.trimmed.1 hn.trimmed.2, ?_, hsafe⟩,
      hbounds⟩
    rwa [String.toList_ofList]

/-- Just the integers that need no rounding are read, each from its numerals between blanks: what is
beyond them is rounded, but to nothing that is accepted. -/
theorem integers_read (env : Environment) (name : String) (min max : Option Int) :
    let bounds : Bounds := ⟨min.map .ofInt, max.map .ofInt⟩
    let Within (n : Int) : Prop := n.natAbs ≤ 2 ^ 53 - 1 ∧ (∀ lo ∈ min, lo ≤ n) ∧ ∀ hi ∈ max, n ≤ hi
    (∀ n, env.int? name bounds = some n ↔
      ∃ s, env.raw? name = some s ∧ Text.Numeral (Text.trim s).toList n ∧ Within n) ∧
    (∀ s n, env.raw? name = some s → Text.Numeral (Text.trim s).toList n → ¬Within n →
      env.int? name bounds = none) ∧
    ∀ n, env.raw? name = some (String.ofList (Text.intDigits n)) → Within n →
    env.int? name bounds = some n := by
  intro bounds Within
  have hsafe (n : Int) : (n.natAbs : Int) ≤ maxSafeInt ↔ n.natAbs ≤ 2 ^ 53 - 1 := by
    rw [maxSafeInt]
    omega
  have hread (n : Int) : env.int? name bounds = some n ↔
      ∃ s, env.raw? name = some s ∧ Text.Numeral (Text.trim s).toList n ∧ Within n := by
    simp only [int?_eq_some, Text.denotes_iff, contains_iff, bounds, Within, hsafe]
  refine ⟨hread, ?_, ?_⟩
  · intro s n hs hn hout
    cases hm : env.int? name bounds with
    | none => rfl
    | some m =>
      obtain ⟨s', hs', hm, hwithin⟩ := (hread m).mp hm
      obtain rfl := Option.some.inj (hs.symm.trans hs')
      exact absurd ((Text.denotes_iff.mpr hm).unique (Text.denotes_iff.mpr hn) ▸ hwithin) hout
  · intro n hs hwithin
    have hn := Text.numeral_intDigits n
    refine (hread n).mpr ⟨_, hs, ?_, hwithin⟩
    rwa [Text.trim, String.toList_ofList, String.toList_ofList, Text.trimmed_iff.mp hn.trimmed.1]

example :
    nearest? "9007199254740993" = some (.ofInt 9007199254740992) ∧
    safeInt? "9007199254740993" = none ∧
    safeInt? "-9007199254740991" = some (-9007199254740991) := by decide +kernel

def FallsBack {α : Type} (env : Environment) (name : String) (Form : α → String → Prop)
    (Within : α → Prop) (d : α) :
    Prop :=
  ∀ s, env.raw? name = some s → Text.isBlankText s ∨ (∀ a, ¬Form a s) ∨
  (∃ a, Form a s ∧ ¬Within a) ∨ Form d s

theorem getD_eq_iff_fallsBack {α : Type} {Form : α → String → Prop} {Within : α → Prop}
    {read : Option α} (d : α)
    (hread : ∀ a, read = some a ↔ ∃ s, env.raw? name = some s ∧ Form a s ∧ Within a)
    (hunique : ∀ {a b s}, Form a s → Form b s → a = b)
    (hblank : ∀ {a s}, Form a s → ¬Text.isBlankText s) :
    read.getD d = d ↔ env.FallsBack name Form Within d := by
  constructor
  · intro h s hs
    by_cases hform : ∃ a, Form a s
    · obtain ⟨a, ha⟩ := hform
      by_cases hwithin : Within a
      · rw [(hread a).mpr ⟨s, hs, ha, hwithin⟩, Option.getD_some] at h
        exact .inr (.inr (.inr (h ▸ ha)))
      · exact .inr (.inr (.inl ⟨a, ha, hwithin⟩))
    · exact .inr (.inl fun a ha => hform ⟨a, ha⟩)
  · intro h
    cases hr : read with
    | none => rfl
    | some a =>
      obtain ⟨s, hs, ha, hwithin⟩ := (hread a).mp hr
      rcases h s hs with hb | hno | ⟨b, hb, hout⟩ | hd
      · exact absurd hb (hblank ha)
      · exact absurd ha (hno a)
      · exact absurd (hunique ha hb ▸ hwithin) hout
      · exact hunique ha hd

end Environment

end RuleForest
