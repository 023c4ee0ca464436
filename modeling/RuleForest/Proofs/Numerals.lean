import Mathlib.Data.List.TakeWhile
import RuleForest.Number.Decimal

namespace RuleForest

namespace Number

theorem ofInt_le_ofInt (m n : Int) : ofInt m ≤ ofInt n ↔ m ≤ n := by
  change m * 1 ≤ n * 1 ↔ m ≤ n
  omega

theorem ofInt_lt_ofInt (m n : Int) : ofInt m < ofInt n ↔ m < n := by
  change m * 1 < n * 1 ↔ m < n
  omega

theorem nearestInt_one (n : Nat) : nearestInt n 1 = n := by
  simp [nearestInt, Nat.mod_one]

theorem reduce_mul_pow (m : Int) (p : Nat) : reduce (m * Nat.pow 2 p) p = ofInt m := by
  induction p with
  | zero => exact congrArg ofInt (Int.mul_one m)
  | succ p ih =>
    have hdiv : m * Nat.pow 2 (p + 1) = m * Nat.pow 2 p * 2 := by
      rw [show Nat.pow 2 (p + 1) = Nat.pow 2 p * 2 from rfl, Int.natCast_mul, Int.mul_assoc]
      rfl
    rw [reduce, hdiv, if_pos (Int.mul_emod_left _ _), Int.mul_ediv_cancel _ (by decide), ih]

theorem roundTo?_one (negative : Bool) (n p : Nat) :
    roundTo? negative n 1 (.ofNat p) = some (ofInt (if negative then -n else n)) := by
  have hsigned : (if negative then -((n * Nat.pow 2 p : Nat) : Int) else (n * Nat.pow 2 p : Nat)) =
      (if negative then -n else n : Int) * Nat.pow 2 p := by
    cases negative with
    | true => simp only [if_true, Int.natCast_mul, Int.neg_mul]
    | false => simp only [Bool.false_eq_true, if_false, Int.natCast_mul]
  simp only [roundTo?, scaled, nearestInt_one, hsigned, reduce_mul_pow]

theorem le_significantPlaces (n : Nat) :
    min (maxPlaces : Int) ((significantBits - 1 : Nat) - (n.log2 : Int)) ≤
      significantPlaces n 1 := by
  have hone : Nat.log2 1 = 0 := by decide
  have hp :
      ((significantBits - 1 : Nat) : Int) - ((n.log2 : Int) - Nat.log2 1) =
      (significantBits - 1 : Nat) - (n.log2 : Int) := by
    omega
  have hle (c : Prop) [Decidable c] (p : Int) : p ≤ if c then p + 1 else p := by
    split <;> omega
  unfold significantPlaces
  rw [hp]
  exact Int.le_min.mpr ⟨Int.min_le_left _ _, Int.le_trans (Int.min_le_right _ _) (hle _ _)⟩

theorem significantPlaces_nonneg {num den : Nat} (h : num < Nat.pow 2 significantBits * den) :
    0 ≤ significantPlaces num den := by
  have hbits : significantBits = 53 := rfl
  have hlog : num.log2 ≤ significantBits + den.log2 := by
    by_cases hzero : num = 0
    · simp [hzero]
    · apply Nat.le_of_lt_succ
      rw [Nat.log2_lt hzero]
      calc num < Nat.pow 2 significantBits * den := h
        _ ≤ 2 ^ significantBits * 2 ^ (den.log2 + 1) := Nat.mul_le_mul_left _ Nat.lt_log2_self.le
        _ = 2 ^ (significantBits + den.log2).succ := (Nat.pow_add 2 _ _).symm
  refine Int.le_min.mpr ⟨Int.natCast_nonneg _, ?_⟩
  rcases Nat.lt_or_eq_of_le hlog with hlt | heq
  · split <;> omega
  · -- The numerator has one bit more than is significant, but the fraction is below the power.
    have hplaces :
        ((significantBits - 1 : Nat) : Int) - ((num.log2 : Int) - den.log2) = .negSucc 0 := by
      omega
    have hsmall : num < den * Nat.pow 2 (0 + 1) * Nat.pow 2 (significantBits - 1) := by
      calc num < Nat.pow 2 significantBits * den := h
        _ = den * Nat.pow 2 (0 + 1) * Nat.pow 2 (significantBits - 1) := by
          rw [Nat.mul_assoc, ← Nat.mul_comm den]
          rfl
    rw [hplaces]
    simp only [hsmall, if_true]
    decide

theorem round?_one (negative : Bool) {n : Nat} (hn : n < Nat.pow 2 significantBits) :
    round? negative n 1 = some (ofInt (if negative then -n else n)) := by
  have hn' : n < Nat.pow 2 significantBits * 1 := (Nat.mul_one _).symm ▸ hn
  obtain ⟨p, hp⟩ := Int.eq_ofNat_of_zero_le (significantPlaces_nonneg hn')
  rw [round?, hp]
  exact roundTo?_one negative n p

theorem le_nearestInt (num den : Nat) : num / den ≤ nearestInt num den := by
  unfold nearestInt
  dsimp only
  split <;> omega

theorem roundTo?_negSucc (negative : Bool) (num den e : Nat) :
    let m := nearestInt num (den * Nat.pow 2 (e + 1))
    let n := (if negative then -m else m : Int) * Nat.pow 2 (e + 1)
    roundTo? negative num den (.negSucc e) =
      if m * Nat.pow 2 (e + 1) < Nat.pow 2 maxBits then some (ofInt n) else none := rfl

theorem natAbs_signed_mul (negative : Bool) (m k : Nat) :
    ((if negative then -m else m : Int) * k).natAbs = m * k := by
  cases negative with
  | true => simp only [if_true, Int.natAbs_mul, Int.natAbs_neg, Int.natAbs_natCast]
  | false => simp only [Bool.false_eq_true, if_false, Int.natAbs_mul, Int.natAbs_natCast]

theorem pow_log2_le_of_roundTo? {negative : Bool} {n e : Nat} (hn : n ≠ 0) (he : e + 1 ≤ n.log2)
    {x : Number} (hx : roundTo? negative n 1 (.negSucc e) = some x) :
    Nat.pow 2 n.log2 ≤ x.mantissa.natAbs := by
  obtain ⟨k, hk⟩ := Nat.exists_eq_add_of_le' he
  have hpow : Nat.pow 2 n.log2 = Nat.pow 2 k * Nat.pow 2 (e + 1) := by
    rw [hk]
    exact Nat.pow_add 2 k (e + 1)
  have hpos : 0 < Nat.pow 2 (e + 1) := Nat.two_pow_pos (e + 1)
  have hle : Nat.pow 2 k ≤ nearestInt n (1 * Nat.pow 2 (e + 1)) := by
    apply Nat.le_trans _ (le_nearestInt _ _)
    rw [Nat.one_mul, Nat.le_div_iff_mul_le hpos, ← hpow]
    exact Nat.log2_self_le hn
  rw [roundTo?_negSucc] at hx
  split at hx
  · cases hx
    rw [hpow, ofInt, natAbs_signed_mul]
    exact Nat.mul_le_mul_right _ hle
  · cases hx

theorem pow_le_of_round? {negative : Bool} {n : Nat} (hn : Nat.pow 2 significantBits ≤ n)
    {x : Number} (hx : round? negative n 1 = some x) :
    Nat.pow 2 significantBits ≤ x.mantissa.natAbs := by
  have hne : n ≠ 0 := by
    rintro rfl
    exact absurd hn (by decide)
  have hlog : significantBits ≤ n.log2 := (Nat.le_log2 hne).mpr hn
  have hplaces := le_significantPlaces n
  rw [round?] at hx
  cases hp : significantPlaces n 1 with
  | ofNat p =>
    rw [hp, roundTo?_one] at hx
    cases hx
    cases negative <;> simpa [ofInt] using hn
  | negSucc e =>
    rw [hp] at hx hplaces
    have he : e + 1 ≤ n.log2 := by omega
    exact Nat.le_trans (Nat.pow_le_pow_right (by decide) hlog) (pow_log2_le_of_roundTo? hne he hx)

theorem ofFraction?_of_lt {n : Int} (hn : n.natAbs < Nat.pow 2 significantBits) :
    ofFraction? n 1 = some (ofInt n) := by
  rw [ofFraction?, round?_one _ hn]
  congr 2
  by_cases h : n < 0
  · simp only [h, decide_true, if_true]
    omega
  · simp only [h, decide_false, Bool.false_eq_true, if_false]
    omega

theorem eq_of_ofFraction? {n : Int} {x : Number} (hx : ofFraction? n 1 = some x)
    (hsafe : x.mantissa.natAbs < Nat.pow 2 significantBits) : x = ofInt n := by
  have hn : n.natAbs < Nat.pow 2 significantBits := by
    by_contra hlarge
    exact Nat.not_lt.mpr (pow_le_of_round? (Nat.not_lt.mp hlarge) hx) hsafe
  rw [ofFraction?_of_lt hn] at hx
  exact (Option.some.inj hx).symm

def IsSafe (x : Number) : Prop := x.isInt = true ∧ x.mantissa.natAbs < Nat.pow 2 significantBits

theorem IsSafe.digits_eq {x : Number} (h : x.IsSafe) : x.digits = Text.intDigits x.mantissa := by
  simp only [digits, h.1, h.2, decide_true, Bool.and_self, if_true]

theorem plus_ofInt {m n : Int} (h : (m + n).natAbs < Nat.pow 2 significantBits) :
    (ofInt m).plus n = ofInt (m + n) := by
  have hadd : (ofInt m).add? (ofInt n) = ofFraction? (m * 1 + n * 1) 1 := rfl
  rw [plus, hadd, Int.mul_one, Int.mul_one, ofFraction?_of_lt h, Option.getD_some]

theorem ceil_le_iff {x : Number} {c : Int} : x.ceil ≤ c ↔ x.mantissa ≤ c * x.divisor := by
  have hdivisor : (0 : Int) < x.divisor := Int.natCast_pos.mpr (Nat.two_pow_pos x.places)
  have hdiv := Int.le_ediv_iff_mul_le (a := -c) (b := -x.mantissa) hdivisor
  rw [Int.neg_mul, Int.neg_le_neg_iff] at hdiv
  rw [← hdiv, ceil]
  omega

theorem le_ofInt_iff {x : Number} {c : Int} : x ≤ .ofInt c ↔ x.ceil ≤ c := by
  rw [ceil_le_iff]
  change x.mantissa * 1 ≤ c * x.divisor ↔ _
  rw [Int.mul_one]

@[simp]
theorem ceil_ofInt (n : Int) : (ofInt n).ceil = n := by
  change -(-n / 1) = n
  rw [Int.ediv_one, Int.neg_neg]

theorem ceil_reduce_le {m c : Int} {p : Nat} (h : m ≤ c * Nat.pow 2 p) : (reduce m p).ceil ≤ c := by
  induction p generalizing m with
  | zero => simpa [reduce] using h
  | succ p ih =>
    rw [reduce]
    split
    · apply ih
      have hpow : c * (Nat.pow 2 (p + 1) : Nat) = c * Nat.pow 2 p * 2 := by
        rw [show Nat.pow 2 (p + 1) = Nat.pow 2 p * 2 from rfl, Int.natCast_mul, Int.mul_assoc]
        rfl
      omega
    · exact ceil_le_iff.mpr h

theorem nearestInt_le {num den k : Nat} (h : num ≤ k * den) : nearestInt num den ≤ k := by
  rcases Nat.eq_zero_or_pos den with rfl | hden
  · obtain rfl : num = 0 := by omega
    simp [nearestInt]
  have hq : num / den ≤ k := Nat.div_le_of_le_mul (Nat.mul_comm k den ▸ h)
  unfold nearestInt
  dsimp only
  split
  · exact hq
  · next hnot =>
    rcases Nat.lt_or_eq_of_le hq with hlt | rfl
    · exact hlt
    · have hmod : num % den = 0 := by
        have := Nat.div_add_mod num den
        rw [Nat.mul_comm] at h
        omega
      simp [hmod, hden] at hnot

theorem ceil_roundTo?_le (negative : Bool) (p : Nat) {num den c : Nat}
    (h : negative = false → num ≤ c * den) :
    ∃ x, roundTo? negative num den (.ofNat p) = some x ∧ x.ceil ≤ c := by
  refine ⟨_, rfl, ceil_reduce_le ?_⟩
  rw [← Int.natCast_mul]
  cases negative with
  | true => simp only [if_true]; omega
  | false =>
    simp only [Bool.false_eq_true, if_false]
    apply Int.ofNat_le.mpr
    apply nearestInt_le
    rw [Nat.mul_right_comm]
    exact Nat.mul_le_mul_right _ (h rfl)

theorem add?_ofInt (x : Number) (n : Int) :
    x.add? (.ofInt n) = ofFraction? (x.mantissa + n * x.divisor) x.divisor := by
  have hone : (ofInt n).divisor = 1 := rfl
  rw [add?, hone, Int.natCast_one, Int.mul_one, Nat.mul_one]
  rfl

variable {x : Number} {n : Int}

theorem add?_eq_roundTo? {c : Nat} (hnum : (x.mantissa + n * x.divisor).natAbs ≤ c * x.divisor)
    (hc : c < Nat.pow 2 significantBits) :
    ∃ p, x.add? (.ofInt n) = roundTo? (decide (x.mantissa + n * x.divisor < 0))
      (x.mantissa + n * x.divisor).natAbs x.divisor (.ofNat p) := by
  have hdivisor : 0 < x.divisor := Nat.two_pow_pos x.places
  have hlt : c * x.divisor < Nat.pow 2 significantBits * x.divisor :=
    Nat.mul_lt_mul_of_pos_right hc hdivisor
  obtain ⟨p, hp⟩ := Int.eq_ofNat_of_zero_le (significantPlaces_nonneg (Nat.lt_of_le_of_lt hnum hlt))
  refine ⟨p, ?_⟩
  rw [add?_ofInt, ofFraction?, round?, hp]
  rfl

theorem ceil_le_of_add?_neg (hneg : x.mantissa + n * x.divisor < 0) {y : Number}
    (hy : x.add? (.ofInt n) = some y) : y.ceil ≤ 0 := by
  rw [add?_ofInt, ofFraction?, decide_eq_true hneg, round?] at hy
  generalize significantPlaces _ _ = p at hy
  cases p with
  | ofNat p =>
    obtain ⟨y', hy', hle⟩ : ∃ y, roundTo? true (x.mantissa + n * x.divisor).natAbs x.divisor
        (.ofNat p) = some y ∧ y.ceil ≤ (0 : Nat) := ceil_roundTo?_le true p (by simp)
    rw [hy'] at hy
    cases hy
    exact hle
  | negSucc e =>
    rw [roundTo?_negSucc] at hy
    split at hy
    · cases hy
      rw [ceil_ofInt, if_pos rfl, Int.neg_mul]
      omega
    · cases hy

theorem ceil_plus_le (hn : n.natAbs < Nat.pow 2 significantBits)
    (hle : x.ceil + n < Nat.pow 2 significantBits) : (x.plus n).ceil ≤ max 0 (x.ceil + n) := by
  unfold plus
  rcases Int.lt_or_le (x.mantissa + n * x.divisor) 0 with hneg | hpos
  · cases hy : x.add? (.ofInt n) with
    | some y => exact Int.le_trans (ceil_le_of_add?_neg hneg hy) (Int.le_max_left _ _)
    | none =>
      rw [Option.getD_none]
      refine Int.le_trans (ceil_le_iff.mpr ?_) (Int.le_max_left _ _)
      by_contra hlarge
      -- The sum is then not below `n`.
      have hnum : (x.mantissa + n * x.divisor).natAbs ≤ n.natAbs * x.divisor := by
        rw [← Int.natAbs_natCast x.divisor, ← Int.natAbs_mul, Int.natAbs_natCast]
        omega
      obtain ⟨p, hp⟩ := add?_eq_roundTo? hnum hn
      rw [hp] at hy
      cases hy
  · have hnum : x.mantissa + n * x.divisor ≤ (x.ceil + n) * x.divisor := by
      have hceil := ceil_le_iff.mp (Int.le_refl x.ceil)
      rw [Int.add_mul]
      omega
    obtain ⟨c, hc⟩ := Int.eq_ofNat_of_zero_le (show 0 ≤ x.ceil + n by
      by_contra hlt
      have hdivisor : (0 : Int) < x.divisor := Int.natCast_pos.mpr (Nat.two_pow_pos x.places)
      have := Int.mul_neg_of_neg_of_pos (Int.not_le.mp hlt) hdivisor
      omega)
    rw [hc] at hnum hle ⊢
    rw [← Int.natCast_mul] at hnum
    have hnum : (x.mantissa + n * x.divisor).natAbs ≤ c * x.divisor := by omega
    obtain ⟨p, hp⟩ := add?_eq_roundTo? hnum (by omega)
    obtain ⟨y, hy, hceil⟩ :=
      ceil_roundTo?_le (decide (x.mantissa + n * x.divisor < 0)) p fun _ => hnum
    rw [hp, hy, Option.getD_some]
    omega

theorem ceil_plus_lt (hx : ¬x < .ofInt 1) (hle : x.ceil ≤ Nat.pow 2 significantBits) :
    (x.plus (-1)).ceil < x.ceil := by
  have hpos := ceil_pos hx
  have hceil := ceil_plus_le (x := x) (n := -1) (by decide) (by omega)
  omega

end Number

namespace Text

theorem isDigit_of_mem_natDigits {n : Nat} : ∀ c ∈ natDigits n, c.isDigit = true := by
  intro c hc
  exact Nat.isDigit_of_mem_toDigits (by omega) (by omega) hc

theorem natDigits_ne_nil (n : Nat) : natDigits n ≠ [] :=
  List.ne_nil_of_length_pos Nat.length_toDigits_pos

theorem head?_natDigits {n : Nat} (hn : 0 < n) : (natDigits n).head? ≠ some '0' := by
  induction n using Nat.strongRecOn with
  | ind n ih =>
    unfold natDigits
    by_cases hlt : n < 10
    · have hdigit : ∀ d < 10, 0 < d → [Nat.digitChar d].head? ≠ some '0' := by decide
      rw [Nat.toDigits_of_lt_base hlt]
      exact hdigit n hlt hn
    · have hne := natDigits_ne_nil (n / 10)
      have hhead := ih (n / 10) (by omega) (by omega)
      rw [Nat.toDigits_of_base_le (by omega) (by omega)]
      cases h : Nat.toDigits 10 (n / 10) with
      | nil => exact absurd h hne
      | cons c cs => simpa [natDigits, h] using hhead

theorem natOfDigits?_natDigits (n : Nat) : natOfDigits? (natDigits n) = some n := by
  have hall : (natDigits n).all Char.isDigit = true := List.all_eq_true.mpr isDigit_of_mem_natDigits
  have hread : Nat.ofDigitChars 10 (natDigits n) 0 = n := Nat.ofDigitChars_ten_toDigits
  simp only [natOfDigits?, List.isEmpty_eq_false_iff.mpr (natDigits_ne_nil n), hall, hread,
    Bool.not_false, Bool.and_self, ↓reduceIte]

theorem takeWhile_natDigits (n : Nat) : (natDigits n).takeWhile Char.isDigit = natDigits n :=
  List.takeWhile_eq_self_iff.mpr isDigit_of_mem_natDigits

theorem dropWhile_natDigits (n : Nat) : (natDigits n).dropWhile Char.isDigit = [] :=
  List.dropWhile_eq_nil_iff.mpr isDigit_of_mem_natDigits

end Text

end RuleForest
