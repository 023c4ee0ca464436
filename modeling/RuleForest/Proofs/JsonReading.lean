import Mathlib.Data.List.Forall2
import RuleForest.Number.Quantity
import RuleForest.Proofs.JsonData
import RuleForest.Proofs.Units

namespace RuleForest

namespace Json

open Payload

def isNumeral (s : List Char) : Bool :=
  let whole := s.takeWhile Char.isDigit
  let rest := s.dropWhile Char.isDigit
  !whole.isEmpty && (whole.length == 1 || whole.head? != some '0') &&
    (rest.head? != some '.' || rest.tail.head?.any Char.isDigit)

def unsigned? (negative : Bool) (s : List Char) : Option Number :=
  if isNumeral s then (Quantity.decimalOf? s).bind (Decimal.round? negative) else none

def number? : List Char → Option Number
  | '-' :: s => unsigned? true s
  | s => unsigned? false s

theorem isNumeral_natDigits (n : Nat) : isNumeral (Text.natDigits n) = true := by
  have hzero : (Text.natDigits n).length = 1 ∨ (Text.natDigits n).head? ≠ some '0' := by
    by_cases hn : 0 < n
    · exact .inr (Text.head?_natDigits hn)
    · left
      rw [Nat.eq_zero_of_not_pos hn]
      rfl
  simpa [isNumeral, Text.takeWhile_natDigits, Text.dropWhile_natDigits, Text.natDigits_ne_nil]
    using hzero

theorem decimalOf?_natDigits (n : Nat) : Quantity.decimalOf? (Text.natDigits n) = some ⟨n, 0⟩ := by
  simp [Quantity.decimalOf?, Text.takeWhile_natDigits, Text.dropWhile_natDigits,
    Text.natOfDigits?_natDigits, Quantity.exponentOf?]

theorem unsigned?_natDigits (negative : Bool) {n : Nat}
    (hn : n < Nat.pow 2 Number.significantBits) :
    unsigned? negative (Text.natDigits n) = some (.ofInt (if negative then -n else n)) := by
  have hround : Decimal.round? negative ⟨n, 0⟩ = Number.round? negative (n * 1) 1 := rfl
  rw [unsigned?, if_pos (isNumeral_natDigits n), decimalOf?_natDigits, Option.bind_some, hround,
    Nat.mul_one, Number.round?_one negative hn]

theorem number?_digits {x : Number} (hx : x.IsSafe) : number? x.digits = some x := by
  obtain ⟨m, p⟩ := x
  obtain ⟨hp, hm⟩ := hx
  obtain rfl : p = 0 := by simpa [Number.isInt] using hp
  rw [Number.IsSafe.digits_eq ⟨hp, hm⟩]
  cases m with
  | ofNat n =>
    have hunsigned : number? (Text.natDigits n) = unsigned? false (Text.natDigits n) := by
      have hdigit := Text.isDigit_of_mem_natDigits (n := n)
      unfold number?
      split
      · next s hs =>
        rw [hs] at hdigit
        exact absurd (hdigit '-' List.mem_cons_self) (by decide)
      · rfl
    exact hunsigned.trans (unsigned?_natDigits false hm)
  | negSucc n => exact unsigned?_natDigits true hm

def escaped? : Char → Option UInt16
  | '"' => some 0x22
  | '\\' => some 0x5C
  | '/' => some 0x2F
  | 'b' => some 0x08
  | 'f' => some 0x0C
  | 'n' => some 0x0A
  | 'r' => some 0x0D
  | 't' => some 0x09
  | _ => none

def readUnits : List Char → Option (List UInt16 × List Char)
  | [] => none
  | '"' :: s => some ([], s)
  | '\\' :: 'u' :: a :: b :: c :: d :: s =>
    (Quantity.natOfDigits? 16 [a, b, c, d]).bind fun n =>
      (readUnits s).map fun r => (n.toUInt16 :: r.1, r.2)
  | '\\' :: c :: s => (escaped? c).bind fun u => (readUnits s).map fun r => (u :: r.1, r.2)
  | c :: s =>
    if c.toNat < 0x20 then none else (readUnits s).map fun r => (Text.charUnits c ++ r.1, r.2)

def wholeChar? : Text.Symbol → Option Char
  | .whole c => some c
  | .half _ => none

def name? (us : List UInt16) : Option String :=
  ((Text.symbols us).mapM wholeChar?).map String.ofList

theorem name?_units (s : String) : name? (Text.units s) = some s := by
  have hchars (cs : List Char) : (cs.map Text.Symbol.whole).mapM wholeChar? = some cs := by
    induction cs with
    | nil => rfl
    | cons c cs ih => simp [wholeChar?, ih]
  rw [name?, Text.symbols_units, hchars, Option.map_some, String.ofList_toList]

theorem digitOf?_hexDigit : ∀ n < 16, Quantity.digitOf? 16 (hexDigit n) = some n := by decide

theorem natOfDigits?_hexDigits {a b c d : Nat} (ha : a < 16) (hb : b < 16) (hc : c < 16)
    (hd : d < 16) :
    Quantity.natOfDigits? 16 [hexDigit a, hexDigit b, hexDigit c, hexDigit d] =
      some (((a * 16 + b) * 16 + c) * 16 + d) := by
  simp [Quantity.natOfDigits?, digitOf?_hexDigit a ha, digitOf?_hexDigit b hb,
    digitOf?_hexDigit c hc, digitOf?_hexDigit d hd]

theorem readUnits_escape (c : Char) (s : List Char) :
    readUnits (escape c ++ s) = (readUnits s).map fun r => (Text.charUnits c ++ r.1, r.2) := by
  unfold escape
  split_ifs with h₁ h₂ h₃ h₄ h₅ h₆ h₇ hcontrol
  · subst h₁; rfl
  · subst h₂; rfl
  · subst h₃; rfl
  · subst h₄; rfl
  · subst h₅; rfl
  · subst h₆; rfl
  · subst h₇; rfl
  · have hread := natOfDigits?_hexDigits (a := 0) (b := 0) (c := c.toNat / 16) (d := c.toNat % 16)
      (by decide) (by decide) (by omega) (by omega)
    have hdigits : ((0 * 16 + 0) * 16 + c.toNat / 16) * 16 + c.toNat % 16 = c.toNat := by omega
    have hzero : hexDigit 0 = '0' := rfl
    rw [hdigits, hzero] at hread
    simp [readUnits, hread, Text.charUnits_of_lt (c := c) (by omega)]
  · simp [readUnits, h₂, hcontrol]

theorem readUnits_escapeSymbol (symbol : Text.Symbol) (s : List Char) :
    readUnits (escapeSymbol symbol ++ s) =
      (readUnits s).map fun r => (symbol.units ++ r.1, r.2) := by
  cases symbol with
  | whole c => exact readUnits_escape c s
  | half u =>
    have hlt := u.toNat_lt
    have hread := natOfDigits?_hexDigits (a := u.toNat / 4096) (b := u.toNat / 256 % 16)
      (c := u.toNat / 16 % 16) (d := u.toNat % 16) (by omega) (by omega) (by omega) (by omega)
    have hdigits : ((u.toNat / 4096 * 16 + u.toNat / 256 % 16) * 16 + u.toNat / 16 % 16) * 16 +
        u.toNat % 16 = u.toNat := by omega
    rw [hdigits] at hread
    simp [escapeSymbol, escapeHalf, readUnits, hread, Text.Symbol.units]

theorem readUnits_quoted (us : List UInt16) (rest : List Char) :
    readUnits ((Text.symbols us).flatMap escapeSymbol ++ '"' :: rest) = some (us, rest) := by
  have hread (symbols : List Text.Symbol) :
      readUnits (symbols.flatMap escapeSymbol ++ '"' :: rest) =
        some (symbols.flatMap Text.Symbol.units, rest) := by
    induction symbols with
    | nil => rfl
    | cons symbol symbols ih =>
      rw [List.flatMap_cons, List.append_assoc, readUnits_escapeSymbol, ih]
      rfl
  rw [hread, Text.flatMap_units_symbols]

def isBlank (c : Char) : Bool := c == ' ' || c == '\n' || c == '\r' || c == '\t'

def skipBlanks (s : List Char) : List Char := s.dropWhile isBlank

def expect (c : Char) (s : List Char) : Option (List Char) :=
  match skipBlanks s with
  | [] => none
  | d :: s => if d = c then some s else none

def isWordChar (c : Char) : Bool := c.isAlphanum || c == '+' || c == '-' || c == '.'

def scalar? (word : List Char) : Option Payload :=
  if word = "null".toList then some .null
  else if word = "true".toList then some (.bool true)
  else if word = "false".toList then some (.bool false)
  else (number? word).map .number

def readScalar (s : List Char) : Option (Payload × List Char) :=
  (scalar? (s.takeWhile isWordChar)).map fun v => (v, s.dropWhile isWordChar)

variable {α : Type}

def readMany (one : List Char → Option (α × List Char)) (close : Char) :
    Nat → List Char → Option (List α × List Char)
  | 0, _ => none
  | n + 1, s =>
    (one s).bind fun x =>
      match skipBlanks x.2 with
      | [] => none
      | c :: s =>
        if c = ',' then (readMany one close n s).map fun xs => (x.1 :: xs.1, xs.2)
        else if c = close then some ([x.1], s)
        else none

def readGroup (one : List Char → Option (α × List Char)) (close : Char) (n : Nat) (s : List Char) :
    Option (List α × List Char) :=
  match expect close s with
  | some s => some ([], s)
  | none => readMany one close n s

def readMember (value : List Char → Option (Payload × List Char)) (s : List Char) :
    Option ((String × Payload) × List Char) :=
  (expect '"' s).bind fun s => (readUnits s).bind fun us => (name? us.1).bind fun k =>
    (expect ':' us.2).bind fun s => (value s).map fun v => ((k, v.1), v.2)

def readValue : Nat → List Char → Option (Payload × List Char)
  | 0, _ => none
  | n + 1, s =>
    match skipBlanks s with
    | [] => none
    | c :: s =>
      if c = '"' then (readUnits s).map fun us => (.text us.1, us.2)
      else if c = '[' then (readGroup (readValue n) ']' n s).map fun vs => (.list vs.1, vs.2)
      else if c = '\x7b' then (readGroup (readMember (readValue n)) '\x7d' n s).map fun fs =>
        (.record fs.1, fs.2)
      else readScalar (c :: s)

def read? (s : List Char) : Option Payload :=
  (readValue s.length s).bind fun r => if (skipBlanks r.2).isEmpty then some r.1 else none

def Ends (s : List Char) : Prop := ∀ c ∈ s.head?, isWordChar c = false

def Reads (one : List Char → Option (α × List Char)) (part : List Char) (x : α) : Prop :=
  ∀ rest, Ends rest → one (part ++ rest) = some (x, rest)

theorem ends_cons {c : Char} (h : isWordChar c = false) (s : List Char) : Ends (c :: s) := by
  simpa [Ends] using h

theorem skipBlanks_cons {c : Char} (h : isBlank c = false) (s : List Char) :
    skipBlanks (c :: s) = c :: s := by
  simp [skipBlanks, h]

theorem expect_cons {c d : Char} (h : isBlank d = false) (s : List Char) :
    expect c (d :: s) = if d = c then some s else none := by
  rw [expect, skipBlanks_cons h]

theorem length_le_separated {part : List Char} {parts : List (List Char)} (h : part ∈ parts) :
    part.length ≤ (separated parts).length := by
  induction parts with
  | nil => simp at h
  | cons first parts ih =>
    cases parts with
    | nil =>
      rw [separated_singleton, List.mem_singleton.mp h]
    | cons next parts =>
      rw [separated_cons_cons, List.length_append, List.length_cons]
      cases h with
      | head => omega
      | tail _ h =>
        have := ih h
        omega

theorem length_parts_le (parts : List (List Char)) :
    parts.length ≤ (separated parts).length + 1 := by
  induction parts with
  | nil => simp
  | cons first parts ih =>
    cases parts with
    | nil => simp
    | cons next parts =>
      simp only [separated_cons_cons, List.length_append, List.length_cons] at ih ⊢
      omega

section Group

variable {one : List Char → Option (α × List Char)} {close : Char} {parts : List (List Char)}
  {xs : List α} {n : Nat}

theorem readMany_separated (hblank : isBlank close = false) (hword : isWordChar close = false)
    (hcomma : close ≠ ',') (h : List.Forall₂ (Reads one) parts xs) (hne : parts ≠ [])
    (hn : parts.length ≤ n) (rest : List Char) :
    readMany one close n (separated parts ++ close :: rest) = some (xs, rest) := by
  induction h generalizing n with
  | nil => exact absurd rfl hne
  | @cons part x parts xs hpart hparts ih =>
    obtain ⟨m, rfl⟩ : ∃ m, n = m + 1 := ⟨n - 1, by simp at hn; omega⟩
    cases hparts with
    | nil =>
      have hone := hpart (close :: rest) (ends_cons hword rest)
      simp [separated_singleton, readMany, hone, skipBlanks_cons hblank, hcomma]
    | @cons next y parts xs hnext hparts =>
      have hone :=
        hpart (',' :: (separated (next :: parts) ++ close :: rest)) (ends_cons (by decide) _)
      have hrest := ih (List.cons_ne_nil _ _) (n := m) (by simpa using hn)
      simp [separated_cons_cons, readMany, hone, skipBlanks_cons (c := ',') (by decide), hrest]

theorem readGroup_separated (hblank : isBlank close = false) (hword : isWordChar close = false)
    (hcomma : close ≠ ',') (h : List.Forall₂ (Reads one) parts xs)
    (hstart : ∀ part ∈ parts, ∃ c s, part = c :: s ∧ isBlank c = false ∧ c ≠ close)
    (hn : parts.length ≤ n) (rest : List Char) :
    readGroup one close n (separated parts ++ close :: rest) = some (xs, rest) := by
  cases h with
  | nil =>
    have hexpect : expect close (close :: rest) = some rest := by
      rw [expect_cons hblank, if_pos rfl]
    have hempty : separated [] = [] := rfl
    simp only [hempty, List.nil_append, readGroup, hexpect]
  | @cons part x parts xs hpart hparts =>
    -- The first part begins with something else, so the bracket is not taken to be closed at once.
    obtain ⟨c, s, rfl, hc, hne⟩ := hstart _ List.mem_cons_self
    have hexpect : expect close (separated ((c :: s) :: parts) ++ close :: rest) = none := by
      have hsep : ∃ t, separated ((c :: s) :: parts) = c :: t := by
        cases parts with
        | nil => exact ⟨s, separated_singleton _⟩
        | cons next parts => exact ⟨_, separated_cons_cons _ _ _⟩
      obtain ⟨t, ht⟩ := hsep
      rw [ht, List.cons_append, expect_cons hc, if_neg hne]
    simp only [readGroup, hexpect]
    exact readMany_separated hblank hword hcomma (.cons hpart hparts) (List.cons_ne_nil _ _) hn rest

end Group

theorem ne_of_isWordChar {c d : Char} (hc : isWordChar c = true) (hd : isWordChar d = false) :
    c ≠ d := by
  rintro rfl
  rw [hc] at hd
  cases hd

theorem not_isBlank_of_isWordChar {c : Char} (hc : isWordChar c = true) : isBlank c = false := by
  apply Bool.eq_false_iff.mpr
  intro hb
  simp only [isBlank, Bool.or_eq_true, beq_iff_eq] at hb
  rcases hb with ((rfl | rfl) | rfl) | rfl
  all_goals exact absurd hc (by decide)

theorem readScalar_append {word rest : List Char} (hword : ∀ c ∈ word, isWordChar c = true)
    (hrest : Ends rest) :
    readScalar (word ++ rest) = (scalar? word).map fun v => (v, rest) := by
  have hrun : rest.takeWhile isWordChar = [] ∧ rest.dropWhile isWordChar = rest := by
    cases rest with
    | nil => simp
    | cons c s =>
      have hc : isWordChar c = false := hrest c rfl
      simp [hc]
  rw [readScalar, List.takeWhile_append_of_pos hword, List.dropWhile_append_of_pos hword, hrun.1,
    hrun.2, List.append_nil]

structure Spells (word : List Char) (v : Payload) : Prop where
  ne_nil : word ≠ []
  chars : word.all isWordChar = true
  scalar : scalar? word = some v

theorem Spells.read {word : List Char} {v : Payload} (h : Spells word v) (n : Nat) :
    Reads (readValue (n + 1)) word v := by
  intro rest hrest
  have hchars := List.all_eq_true.mp h.chars
  have hread := readScalar_append hchars hrest
  rw [h.scalar] at hread
  obtain ⟨c, s, rfl⟩ := List.exists_cons_of_ne_nil h.ne_nil
  have hc := hchars c List.mem_cons_self
  rw [List.cons_append] at hread ⊢
  simp only [readValue, skipBlanks_cons (not_isBlank_of_isWordChar hc),
    ne_of_isWordChar hc (d := '"') (by decide),
    ne_of_isWordChar hc (d := '[') (by decide), ne_of_isWordChar hc (d := '\x7b') (by decide),
      if_false, hread]
  rfl

theorem isDigit_or_of_mem_digits {x : Number} (hx : x.IsSafe) :
    ∀ c ∈ x.digits, c.isDigit = true ∨ c = '-' := by
  intro c hc
  rw [hx.digits_eq] at hc
  cases hm : x.mantissa with
  | ofNat n =>
    rw [hm] at hc
    exact .inl (Text.isDigit_of_mem_natDigits c hc)
  | negSucc n =>
    rw [hm] at hc
    cases hc with
    | head => exact .inr rfl
    | tail _ hc => exact .inl (Text.isDigit_of_mem_natDigits c hc)

theorem spells_digits {x : Number} (hx : x.IsSafe) : Spells x.digits (.number x) := by
  have hdigit := isDigit_or_of_mem_digits hx
  have hne (word : List Char) (hletter : (word.any fun c => !(c.isDigit || c == '-')) = true) :
      x.digits ≠ word := by
    rintro rfl
    obtain ⟨c, hc, hnot⟩ := List.any_eq_true.mp hletter
    simp only [Bool.not_eq_true', Bool.or_eq_false_iff, beq_eq_false_iff_ne] at hnot
    exact (hdigit c hc).elim (Bool.eq_false_iff.mp hnot.1) hnot.2
  constructor
  · rw [hx.digits_eq]
    cases x.mantissa with
    | ofNat n => exact Text.natDigits_ne_nil n
    | negSucc n => exact List.cons_ne_nil _ _
  · apply List.all_eq_true.mpr
    intro c hc
    rcases hdigit c hc with h | rfl
    · simp [isWordChar, Char.isAlphanum, h]
    · rfl
  · rw [scalar?, if_neg (hne "null".toList rfl), if_neg (hne "true".toList rfl),
      if_neg (hne "false".toList rfl), number?_digits hx]
    rfl

theorem write_cons {v : Payload} (h : v.IsData False) :
    ∃ c s, write v = c :: s ∧ isBlank c = false ∧ c ≠ ']' := by
  have hword {word : List Char} {v : Payload} (hs : Spells word v) :
      ∃ c s, word = c :: s ∧ isBlank c = false ∧ c ≠ ']' := by
    obtain ⟨c, s, rfl⟩ := List.exists_cons_of_ne_nil hs.ne_nil
    have hc := List.all_eq_true.mp hs.chars c List.mem_cons_self
    exact ⟨c, s, rfl, not_isBlank_of_isWordChar hc, ne_of_isWordChar hc (by decide)⟩
  cases v with
  | undefined => exact h.elim
  | null => exact ⟨_, _, rfl, by decide, by decide⟩
  | bool b => cases b <;> exact ⟨_, _, rfl, by decide, by decide⟩
  | number x => exact hword (spells_digits h)
  | text s => exact ⟨_, _, rfl, by decide, by decide⟩
  | list vs => exact ⟨_, _, rfl, by decide, by decide⟩
  | record fs => exact ⟨_, _, rfl, by decide, by decide⟩
  | exception kind message => exact h.elim
  | fault f => exact h.elim

theorem readMember_quoted {value : List Char → Option (Payload × List Char)} {v : Payload}
    {part : List Char} (h : Reads value part v) (k : String) :
    Reads (readMember value) (quoted (Text.units k) ++ ':' :: part) (k, v) := by
  intro rest hrest
  have hquote (s : List Char) : expect '"' ('"' :: s) = some s :=
    (expect_cons (by decide) _).trans (if_pos rfl)
  have hcolon : expect ':' (':' :: (part ++ rest)) = some (part ++ rest) :=
    (expect_cons (by decide) _).trans (if_pos rfl)
  simp [readMember, quoted, hquote, readUnits_quoted, name?_units, hcolon, h rest hrest]

theorem readValue_succ {c : Char} (hc : isBlank c = false) (n : Nat) (s : List Char) :
    readValue (n + 1) (c :: s) =
      if c = '"' then (readUnits s).map fun us => (.text us.1, us.2)
      else if c = '[' then (readGroup (readValue n) ']' n s).map fun vs => (.list vs.1, vs.2)
      else if c = '\x7b' then (readGroup (readMember (readValue n)) '\x7d' n s).map fun fs =>
        (.record fs.1, fs.2)
      else readScalar (c :: s) := by
  rw [readValue, skipBlanks_cons hc]

theorem pos_of_length_write_le {v : Payload} (h : v.IsData False) {n : Nat}
    (hn : (write v).length ≤ n) :
    ∃ m, n = m + 1 := by
  obtain ⟨c, s, hw, -⟩ := write_cons h
  rw [hw, List.length_cons] at hn
  exact ⟨n - 1, by omega⟩

theorem reads_text (us : List UInt16) (n : Nat) :
    Reads (readValue (n + 1)) (quoted us) (.text us) := by
  intro rest _
  rw [quoted, List.cons_append, List.cons_append, List.append_assoc, readValue_succ (by decide),
    if_pos rfl, List.singleton_append, readUnits_quoted]
  rfl

theorem reads_list {parts : List (List Char)} {vs : List Payload} {n : Nat}
    (h : List.Forall₂ (Reads (readValue n)) parts vs)
    (hstart : ∀ part ∈ parts, ∃ c s, part = c :: s ∧ isBlank c = false ∧ c ≠ ']') (hn :
    parts.length ≤ n) :
    Reads (readValue (n + 1)) ('[' :: separated parts ++ [']']) (.list vs) := by
  intro rest _
  rw [List.cons_append, List.cons_append, List.append_assoc, List.singleton_append,
    readValue_succ (by decide), if_neg (by decide), if_pos rfl,
    readGroup_separated (by decide) (by decide) (by decide) h hstart hn]
  rfl

theorem reads_record {parts : List (List Char)} {fs : List (String × Payload)} {n : Nat}
    (h : List.Forall₂ (Reads (readMember (readValue n))) parts fs)
    (hstart : ∀ part ∈ parts, ∃ s, part = '"' :: s) (hn : parts.length ≤ n) :
    Reads (readValue (n + 1)) ('\x7b' :: separated parts ++ ['\x7d']) (.record fs) := by
  intro rest _
  have hstart : ∀ part ∈ parts, ∃ c s, part = c :: s ∧ isBlank c = false ∧ c ≠ '\x7d' := by
    intro part hpart
    obtain ⟨s, rfl⟩ := hstart part hpart
    exact ⟨'"', s, rfl, by decide, by decide⟩
  rw [List.cons_append, List.cons_append, List.append_assoc, List.singleton_append,
    readValue_succ (by decide), if_neg (by decide), if_neg (by decide), if_pos rfl,
    readGroup_separated (by decide) (by decide) (by decide) h hstart hn]
  rfl

theorem writeItems_cons_mem {vs : List Payload} (h : ItemsData False vs) :
    ∀ part ∈ writeItems vs, ∃ c s, part = c :: s ∧ isBlank c = false ∧ c ≠ ']' := by
  induction vs with
  | nil => simp [writeItems]
  | cons v vs ih => exact List.forall_mem_cons.mpr ⟨write_cons h.1, ih h.2⟩

theorem writeFields_quote_mem (fs : List (String × Payload)) :
    ∀ part ∈ writeFields fs, ∃ s, part = '"' :: s := by
  induction fs with
  | nil => simp [writeFields]
  | cons f fs ih =>
    rw [writeFields_cons]
    cases f.2.isAbsent with
    | true => exact ih
    | false => exact List.forall_mem_cons.mpr ⟨⟨_, rfl⟩, ih⟩

theorem isAbsent_eq_false {v : Payload} (h : v.IsData False) : v.isAbsent = false := by
  cases v with
  | undefined => exact h.elim
  | _ => rfl

mutual

theorem reads_write : ∀ {v : Payload}, v.IsData False → ∀ {n : Nat}, (write v).length ≤ n + 1 →
    Reads (readValue (n + 1)) (write v) v
  | .null, _, n, _ => (Spells.mk (List.cons_ne_nil _ _) rfl rfl : Spells "null".toList .null).read n
  | .bool true, _, n, _ =>
    (Spells.mk (List.cons_ne_nil _ _) rfl rfl : Spells "true".toList (.bool true)).read n
  | .bool false, _, n, _ =>
    (Spells.mk (List.cons_ne_nil _ _) rfl rfl : Spells "false".toList (.bool false)).read n
  | .number _, h, n, _ => (spells_digits h).read n
  | .text s, _, n, _ => reads_text s n
  | .list vs, h, n, hn => by
    -- Two brackets pay for the step down and for the last item.
    have hlength : (separated (writeItems vs)).length + 1 ≤ n := by simpa [write] using hn
    have hcount := length_parts_le (writeItems vs)
    refine reads_list (reads_writeItems h fun part hpart => ?_) (writeItems_cons_mem h) (by omega)
    have := length_le_separated hpart
    omega
  | .record fs, h, n, hn => by
    have hlength : (separated (writeFields fs)).length + 1 ≤ n := by simpa [write] using hn
    have hcount := length_parts_le (writeFields fs)
    refine reads_record (reads_writeFields h fun part hpart => ?_) (writeFields_quote_mem fs)
      (by omega)
    have := length_le_separated hpart
    omega

theorem reads_writeItems : ∀ {vs : List Payload}, ItemsData False vs → ∀ {n : Nat},
    (∀ part ∈ writeItems vs, part.length ≤ n) →
    List.Forall₂ (Reads (readValue n)) (writeItems vs) vs
  | [], _, _, _ => .nil
  | v :: vs, h, n, hn => by
    obtain ⟨hfirst, hrest⟩ := List.forall_mem_cons.mp hn
    refine .cons ?_ (reads_writeItems h.2 hrest)
    obtain ⟨m, rfl⟩ := pos_of_length_write_le h.1 hfirst
    exact reads_write h.1 hfirst

theorem reads_writeFields : ∀ {fs : List (String × Payload)}, FieldsData False fs → ∀ {n : Nat},
    (∀ part ∈ writeFields fs, part.length ≤ n) →
    List.Forall₂ (Reads (readMember (readValue n))) (writeFields fs) fs
  | [], _, _, _ => .nil
  | (k, v) :: fs, h, n, hn => by
    have hwritten :
        writeFields ((k, v) :: fs) = (quoted (Text.units k) ++ ':' :: write v) ::
        writeFields fs := by
      rw [writeFields_cons, isAbsent_eq_false h.1]
      rfl
    rw [hwritten] at hn ⊢
    obtain ⟨hfirst, hrest⟩ := List.forall_mem_cons.mp hn
    have hvalue : (write v).length ≤ n := by
      simp only [List.length_append, List.length_cons] at hfirst
      omega
    refine .cons (readMember_quoted ?_ k) (reads_writeFields h.2 hrest)
    obtain ⟨m, rfl⟩ := pos_of_length_write_le h.1 hvalue
    exact reads_write h.1 hvalue

end

theorem read?_write {v : Payload} (h : v.IsData True) : read? (write v) = some v.settled := by
  have hdata := h.settled
  obtain ⟨n, hn⟩ := pos_of_length_write_le hdata (Nat.le_refl _)
  have hread := reads_write hdata (Nat.le_of_eq hn) [] (by simp [Ends])
  rw [List.append_nil, ← hn, write_settled] at hread
  rw [read?, hread]
  rfl

example :
    (read?
      (write (.record [("gone", .undefined),
        ("kept", .list [.undefined, .int (-20), .text [0x0A, 0xD800]])]))).map write =
    some "\x7b\"kept\":[null,-20,\"\\n\\ud800\"]\x7d".toList := by
  decide +kernel

end Json

end RuleForest
