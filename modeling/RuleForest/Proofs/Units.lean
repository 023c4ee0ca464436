import Mathlib.Logic.Basic
import RuleForest.Text.Units

namespace RuleForest.Text

theorem toNat_ofNat_of_valid {n : Nat} (h : n.isValidChar) : (Char.ofNat n).toNat = n := by
  rw [Char.ofNat, dif_pos h]
  rfl

theorem charUnits_of_lt {c : Char} (h : c.toNat < 0x10000) : charUnits c = [c.toNat.toUInt16] :=
  if_pos h

theorem symbol_of_char {c : Char} (h : c.toNat < 0x10000) : symbol c.toNat.toUInt16 = .whole c := by
  have hvalid := c.valid
  simp only [UInt32.isValidChar, Nat.isValidChar] at hvalid
  have hval : c.toNat = c.val.toNat := rfl
  have hunit : c.toNat.toUInt16.toNat = c.toNat := Nat.mod_eq_of_lt h
  have hhalf : ¬(isHighHalf c.toNat.toUInt16 || isLowHalf c.toNat.toUInt16) = true := by
    simp only [isHighHalf, isLowHalf, hunit, Bool.or_eq_true, Bool.and_eq_true, decide_eq_true_eq]
    omega
  rw [symbol, if_neg hhalf, hunit, Char.ofNat_toNat]

theorem symbols_pair {n : Nat} (hlow : 0x10000 ≤ n) (hhigh : n < 0x110000) (us : List UInt16) :
    symbols ((0xD800 + (n - 0x10000) / 0x400).toUInt16 ::
      (0xDC00 + (n - 0x10000) % 0x400).toUInt16 ::
      us) = .whole (Char.ofNat n) :: symbols us := by
  generalize hu : (0xD800 + (n - 0x10000) / 0x400).toUInt16 = u
  generalize hv : (0xDC00 + (n - 0x10000) % 0x400).toUInt16 = v
  have hu : u.toNat = 0xD800 + (n - 0x10000) / 0x400 := by
    rw [← hu, Nat.toUInt16_eq, UInt16.toNat_ofNat', Nat.mod_eq_of_lt (by omega)]
  have hv : v.toNat = 0xDC00 + (n - 0x10000) % 0x400 := by
    rw [← hv, Nat.toUInt16_eq, UInt16.toNat_ofNat', Nat.mod_eq_of_lt (by omega)]
  have hpair : (isHighHalf u && isLowHalf v) = true := by
    simp only [isHighHalf, isLowHalf, hu, hv, Bool.and_eq_true, decide_eq_true_eq]
    omega
  have hjoined : 0x10000 + (u.toNat - 0xD800) * 0x400 + (v.toNat - 0xDC00) = n := by omega
  rw [symbols, if_pos hpair, joined, hjoined]

theorem symbols_charUnits_append (c : Char) (us : List UInt16) :
    symbols (charUnits c ++ us) = .whole c :: symbols us := by
  by_cases h : c.toNat < 0x10000
  · have hsymbol := symbol_of_char h
    rw [charUnits_of_lt h, List.singleton_append]
    cases us with
    | nil => simp only [symbols, hsymbol]
    | cons v us =>
      have hhigh : isHighHalf c.toNat.toUInt16 = false := by
        cases hhigh : isHighHalf c.toNat.toUInt16 with
        | false => rfl
        | true => simp [symbol, hhigh] at hsymbol
      rw [symbols, hhigh, Bool.false_and, if_neg Bool.false_ne_true, hsymbol]
  · have hvalid : c.toNat < 0x110000 := by
      have hvalid := c.valid
      simp only [UInt32.isValidChar, Nat.isValidChar] at hvalid
      change c.val.toNat < 0x110000
      omega
    rw [charUnits, if_neg h, List.cons_append, List.singleton_append,
      symbols_pair (Nat.not_lt.mp h) hvalid, Char.ofNat_toNat]

theorem symbols_units (s : String) : symbols (units s) = s.toList.map .whole := by
  unfold units
  induction s.toList with
  | nil => rfl
  | cons c cs ih => rw [List.flatMap_cons, symbols_charUnits_append, ih, List.map_cons]

theorem units_symbol (u : UInt16) : (symbol u).units = [u] := by
  have hlt := u.toNat_lt
  unfold symbol
  split
  · rfl
  · next h =>
    simp only [isHighHalf, isLowHalf, Bool.or_eq_true, Bool.and_eq_true, decide_eq_true_eq] at h
    have hchar := toNat_ofNat_of_valid (n := u.toNat) (by unfold Nat.isValidChar; omega)
    rw [Symbol.units, charUnits_of_lt (by omega), hchar]
    exact congrArg (List.cons · []) u.ofNat_toNat

theorem charUnits_joined {u v : UInt16} (hu : isHighHalf u = true) (hv : isLowHalf v = true) :
    charUnits (joined u v) = [u, v] := by
  simp only [isHighHalf, isLowHalf, Bool.and_eq_true, decide_eq_true_eq] at hu hv
  have hchar := toNat_ofNat_of_valid
    (n := 0x10000 + (u.toNat - 0xD800) * 0x400 + (v.toNat - 0xDC00))
    (by unfold Nat.isValidChar; omega)
  have hhigh : 0xD800 +
      (0x10000 + (u.toNat - 0xD800) * 0x400 + (v.toNat - 0xDC00) - 0x10000) / 0x400 = u.toNat := by
    omega
  have hlow : 0xDC00 +
      (0x10000 + (u.toNat - 0xD800) * 0x400 + (v.toNat - 0xDC00) - 0x10000) % 0x400 = v.toNat := by
    omega
  rw [joined, charUnits, hchar, if_neg (by omega), hhigh, hlow]
  exact congrArg₂ (fun a b => [a, b]) u.ofNat_toNat v.ofNat_toNat

theorem flatMap_units_symbols (us : List UInt16) : (symbols us).flatMap Symbol.units = us := by
  fun_induction symbols us with
  | case1 => rfl
  | case2 u => rw [List.flatMap_singleton, units_symbol]
  | case3 u v us hpair ih =>
    obtain ⟨hu, hv⟩ := Bool.and_eq_true_iff.mp hpair
    rw [List.flatMap_cons, ih, Symbol.units, charUnits_joined hu hv]
    rfl
  | case4 u v us hpair ih =>
    rw [List.flatMap_cons, ih, units_symbol]
    rfl

end RuleForest.Text
