import Mathlib.Tactic.SplitIfs
import RuleForest.Log.Logger
import RuleForest.Proofs.Numerals
import RuleForest.Proofs.PlainData

namespace RuleForest

namespace Payload

mutual

def IsData (gaps : Prop) : Payload → Prop
  | .undefined => gaps
  | .number x => x.IsSafe
  | .list items => ItemsData gaps items
  | .record fields => FieldsData gaps fields
  | .exception _ _ => False
  | .fault _ => False
  | _ => True

def ItemsData (gaps : Prop) : List Payload → Prop
  | [] => True
  | v :: vs => v.IsData gaps ∧ ItemsData gaps vs

def FieldsData (gaps : Prop) : List (String × Payload) → Prop
  | [] => True
  | (_, v) :: fs => v.IsData gaps ∧ FieldsData gaps fs

end

def isAbsent : Payload → Bool
  | .undefined => true
  | _ => false

mutual

def settled : Payload → Payload
  | .undefined => .null
  | .list items => .list (settledItems items)
  | .record fields => .record (settledFields fields)
  | v => v

def settledItems : List Payload → List Payload
  | [] => []
  | v :: vs => v.settled :: settledItems vs

def settledFields : List (String × Payload) → List (String × Payload)
  | [] => []
  | (k, v) :: fs => if v.isAbsent then settledFields fs else (k, v.settled) :: settledFields fs

end

variable {gaps : Prop}

mutual

theorem IsData.allTexts : ∀ {v : Payload}, v.IsData gaps → v.AllTexts fun _ => True
  | .undefined, _ => trivial
  | .null, _ => trivial
  | .bool _, _ => trivial
  | .number _, _ => trivial
  | .text _, _ => trivial
  | .list _, h => ItemsData.itemTexts h
  | .record _, h => FieldsData.fieldTexts h

theorem ItemsData.itemTexts :
    ∀ {vs : List Payload}, ItemsData gaps vs → ItemTexts (fun _ => True) vs
  | [], _ => trivial
  | _ :: _, h => ⟨h.1.allTexts, ItemsData.itemTexts h.2⟩

theorem FieldsData.fieldTexts :
    ∀ {fs : List (String × Payload)}, FieldsData gaps fs → FieldTexts (fun _ => True) fs
  | [], _ => trivial
  | (_, _) :: _, h => ⟨h.1.allTexts, FieldsData.fieldTexts h.2⟩

end

theorem IsData.plain_eq {v : Payload} (h : v.IsData gaps) : v.plain = v := h.allTexts.plain_eq

mutual

theorem IsData.settled : ∀ {v : Payload}, v.IsData gaps → v.settled.IsData False
  | .undefined, _ => trivial
  | .null, _ => trivial
  | .bool _, _ => trivial
  | .number _, h => h
  | .text _, _ => trivial
  | .list _, h => ItemsData.settled h
  | .record _, h => FieldsData.settled h

theorem ItemsData.settled :
    ∀ {vs : List Payload}, ItemsData gaps vs → ItemsData False (settledItems vs)
  | [], _ => trivial
  | _ :: _, h => ⟨h.1.settled, ItemsData.settled h.2⟩

theorem FieldsData.settled :
    ∀ {fs : List (String × Payload)}, FieldsData gaps fs → FieldsData False (settledFields fs)
  | [], _ => trivial
  | (_, v) :: _, h => by
    unfold settledFields
    cases v.isAbsent with
    | true => exact FieldsData.settled h.2
    | false => exact ⟨h.1.settled, FieldsData.settled h.2⟩

end

variable (secrets : List Secret)

mutual

theorem IsData.redact : ∀ {v : Payload}, v.IsData gaps → (Redaction.redact secrets v).IsData gaps
  | .undefined, h => h
  | .null, _ => trivial
  | .bool _, _ => trivial
  | .number _, h => h
  | .text _, _ => trivial
  | .list _, h => ItemsData.redact h
  | .record _, h => FieldsData.redact h

theorem ItemsData.redact :
    ∀ {vs : List Payload}, ItemsData gaps vs → ItemsData gaps (Redaction.redactItems secrets vs)
  | [], _ => trivial
  | _ :: _, h => ⟨h.1.redact, ItemsData.redact h.2⟩

theorem FieldsData.redact : ∀ {fs : List (String × Payload)}, FieldsData gaps fs →
    FieldsData gaps (Redaction.redactFields secrets fs)
  | [], _ => trivial
  | (k, _) :: _, h => by
    unfold Redaction.redactFields
    split
    · exact FieldsData.redact h.2
    · refine ⟨?_, FieldsData.redact h.2⟩
      split
      · trivial
      · exact h.1.redact

end

end Payload

namespace Json

open Payload

theorem writeFields_cons (k : String) (v : Payload) (fs : List (String × Payload)) :
    writeFields ((k, v) :: fs) =
      if v.isAbsent then writeFields fs
          else (quoted (Text.units k) ++ ':' :: write v) :: writeFields fs := by
  cases v <;> rfl

mutual

theorem write_settled : ∀ v : Payload, write v.settled = write v
  | .undefined => rfl
  | .null => rfl
  | .bool _ => rfl
  | .number _ => rfl
  | .text _ => rfl
  | .list items => by rw [settled, write, write, writeItems_settled items]
  | .record fields => by rw [settled, write, write, writeFields_settled fields]
  | .exception _ _ => rfl
  | .fault _ => rfl

theorem writeItems_settled : ∀ vs : List Payload, writeItems (settledItems vs) = writeItems vs
  | [] => rfl
  | v :: vs => congrArg₂ List.cons (write_settled v) (writeItems_settled vs)

theorem writeFields_settled :
    ∀ fs : List (String × Payload), writeFields (settledFields fs) = writeFields fs
  | [] => rfl
  | (k, v) :: fs => by
    have hpresent : v.settled.isAbsent = false := by cases v <;> rfl
    rw [settledFields, writeFields_cons]
    cases v.isAbsent with
    | true => exact writeFields_settled fs
    | false =>
      simp only [Bool.false_eq_true, if_false, writeFields_cons, hpresent, write_settled v,
        writeFields_settled fs]

end

def Unbroken (s : List Char) : Prop := ∀ c ∈ s, 0x20 ≤ c.toNat

theorem unbroken_of_decide {s : List Char} (h : (s.all fun c => decide (0x20 ≤ c.toNat)) = true) :
    Unbroken s := by
  simpa [Unbroken] using h

theorem Unbroken.append {s t : List Char} (hs : Unbroken s) (ht : Unbroken t) :
    Unbroken (s ++ t) := by
  intro c hc
  exact (List.mem_append.mp hc).elim (hs c) (ht c)

theorem Unbroken.cons {c : Char} {s : List Char} (hc : 0x20 ≤ c.toNat) (hs : Unbroken s) :
    Unbroken (c :: s) :=
  List.forall_mem_cons.mpr ⟨hc, hs⟩

theorem separated_singleton (part : List Char) : separated [part] = part := by
  simp [separated, List.intercalate, List.intersperse]

theorem separated_cons_cons (part next : List Char) (parts : List (List Char)) :
    separated (part :: next :: parts) = part ++ ',' :: separated (next :: parts) := by
  simp [separated, List.intercalate, List.intersperse]

theorem unbroken_separated {parts : List (List Char)} (h : ∀ part ∈ parts, Unbroken part) :
    Unbroken (separated parts) := by
  induction parts with
  | nil => exact unbroken_of_decide rfl
  | cons part parts ih =>
    obtain ⟨hpart, hparts⟩ := List.forall_mem_cons.mp h
    cases parts with
    | nil =>
      rw [separated_singleton]
      exact hpart
    | cons next parts =>
      rw [separated_cons_cons]
      exact hpart.append (.cons (by decide) (ih hparts))

theorem le_toNat_hexDigit : ∀ n < 16, 0x20 ≤ (hexDigit n).toNat := by decide

theorem unbroken_escape (c : Char) : Unbroken (escape c) := by
  unfold escape
  split_ifs with _ _ _ _ _ _ _ hcontrol
  iterate 7 exact unbroken_of_decide rfl
  · have hhigh := le_toNat_hexDigit (c.toNat / 16) (by omega)
    have hlow := le_toNat_hexDigit (c.toNat % 16) (by omega)
    simp [Unbroken, hhigh, hlow]
  · simpa [Unbroken] using hcontrol

theorem unbroken_escapeSymbol : ∀ symbol : Text.Symbol, Unbroken (escapeSymbol symbol)
  | .whole c => unbroken_escape c
  | .half u => by
    have hlt := u.toNat_lt
    have h₁ := le_toNat_hexDigit (u.toNat / 4096) (by omega)
    have h₂ := le_toNat_hexDigit (u.toNat / 256 % 16) (by omega)
    have h₃ := le_toNat_hexDigit (u.toNat / 16 % 16) (by omega)
    have h₄ := le_toNat_hexDigit (u.toNat % 16) (by omega)
    simp [Unbroken, escapeSymbol, escapeHalf, h₁, h₂, h₃, h₄]

theorem unbroken_quoted (us : List UInt16) : Unbroken (quoted us) := by
  apply Unbroken.append _ (unbroken_of_decide rfl)
  apply Unbroken.cons (by decide)
  intro c hc
  obtain ⟨symbol, -, hsymbol⟩ := List.mem_flatMap.mp hc
  exact unbroken_escapeSymbol symbol c hsymbol

theorem unbroken_natDigits (n : Nat) : Unbroken (Text.natDigits n) := by
  intro c hc
  have hdigit := Text.isDigit_of_mem_natDigits c hc
  simp only [Char.isDigit, Bool.and_eq_true, decide_eq_true_eq] at hdigit
  exact Nat.le_trans (by decide) (UInt32.le_iff_toNat_le.mp hdigit.1)

theorem unbroken_intDigits (n : Int) : Unbroken (Text.intDigits n) := by
  cases n with
  | ofNat n => exact unbroken_natDigits n
  | negSucc n => exact .cons (by decide) (unbroken_natDigits (n + 1))

mutual

theorem unbroken_write {gaps : Prop} : ∀ {v : Payload}, v.IsData gaps → Unbroken (write v)
  | .undefined, _ => unbroken_of_decide rfl
  | .null, _ => unbroken_of_decide rfl
  | .bool true, _ => unbroken_of_decide rfl
  | .bool false, _ => unbroken_of_decide rfl
  | .number x, h => by
    rw [write, Number.IsSafe.digits_eq h]
    exact unbroken_intDigits x.mantissa
  | .text us, _ => unbroken_quoted us
  | .list _, h =>
    (Unbroken.cons (by decide) (unbroken_separated (unbroken_writeItems h))).append
      (unbroken_of_decide rfl)
  | .record _, h =>
    (Unbroken.cons (by decide) (unbroken_separated (unbroken_writeFields h))).append
      (unbroken_of_decide rfl)

theorem unbroken_writeItems {gaps : Prop} : ∀ {vs : List Payload}, ItemsData gaps vs →
    ∀ part ∈ writeItems vs, Unbroken part
  | [], _ => by simp [writeItems]
  | _ :: _, h => List.forall_mem_cons.mpr ⟨unbroken_write h.1, unbroken_writeItems h.2⟩

theorem unbroken_writeFields {gaps : Prop} : ∀ {fs : List (String × Payload)}, FieldsData gaps fs →
    ∀ part ∈ writeFields fs, Unbroken part
  | [], _ => by simp [writeFields]
  | (k, v) :: fs, h => by
    rw [writeFields_cons]
    cases v.isAbsent with
    | true => exact unbroken_writeFields h.2
    | false =>
      refine List.forall_mem_cons.mpr ⟨?_, unbroken_writeFields h.2⟩
      exact (unbroken_quoted _).append (.cons (by decide) (unbroken_write h.1))

end

end Json

end RuleForest
