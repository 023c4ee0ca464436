namespace RuleForest

/-- The number `mantissa / 2 ^ places` in lowest terms: either there are no places or the mantissa
is odd. -/
structure Number where
  mantissa : Int
  places : Nat
deriving DecidableEq, Repr

namespace Number

def significantBits : Nat := 53

def maxPlaces : Nat := 1074

def maxBits : Nat := 1024

def ofInt (n : Int) : Number := ⟨n, 0⟩

def isInt (x : Number) : Bool := x.places == 0

instance : Inhabited Number := ⟨ofInt 0⟩

def divisor (x : Number) : Nat := Nat.pow 2 x.places

instance : LE Number := ⟨fun x y => x.mantissa * y.divisor ≤ y.mantissa * x.divisor⟩

instance : LT Number := ⟨fun x y => x.mantissa * y.divisor < y.mantissa * x.divisor⟩

instance (x y : Number) : Decidable (x ≤ y) :=
  inferInstanceAs (Decidable (x.mantissa * y.divisor ≤ y.mantissa * x.divisor))

instance (x y : Number) : Decidable (x < y) :=
  inferInstanceAs (Decidable (x.mantissa * y.divisor < y.mantissa * x.divisor))

def reduce (m : Int) : Nat → Number
  | 0 => ofInt m
  | p + 1 => if m % 2 = 0 then reduce (m / 2) p else ⟨m, p + 1⟩

def nearestInt (num den : Nat) : Nat :=
  let q := num / den
  let r := num % den
  if 2 * r < den || (2 * r == den && q % 2 == 0) then q else q + 1

def scaled (base : Nat) (num den : Nat) : Int → Nat × Nat
  | .ofNat e => (num * Nat.pow base e, den)
  | .negSucc e => (num, den * Nat.pow base (e + 1))

def significantPlaces (num den : Nat) : Int :=
  let p : Int := (significantBits - 1 : Nat) - ((num.log2 : Int) - den.log2)
  let (n, d) := scaled 2 num den p
  min maxPlaces (if n < d * Nat.pow 2 (significantBits - 1) then p + 1 else p)

/-- The number with `p` binary places nearest to `num / den`, on a tie the one whose last bit is
even; none if it is too large. -/
def roundTo? (negative : Bool) (num den : Nat) (p : Int) : Option Number :=
  let (n, d) := scaled 2 num den p
  let m : Nat := nearestInt n d
  let signed : Int := if negative then -m else m
  match p with
  | .ofNat p => some (reduce signed p)
  | .negSucc e =>
    let factor := Nat.pow 2 (e + 1)
    if m * factor < Nat.pow 2 maxBits then some (ofInt (signed * factor)) else none

def round? (negative : Bool) (num den : Nat) : Option Number :=
  roundTo? negative num den (significantPlaces num den)

def ofFraction? (num : Int) (den : Nat) : Option Number := round? (decide (num < 0)) num.natAbs den

def add? (x y : Number) : Option Number :=
  ofFraction? (x.mantissa * y.divisor + y.mantissa * x.divisor) (x.divisor * y.divisor)

/-- The sum, rounded; nothing is added to a number next to which there is no other. -/
def plus (x : Number) (n : Int) : Number := (x.add? (.ofInt n)).getD x

def ceil (x : Number) : Int := -(-x.mantissa / x.divisor)

theorem ceil_pos {x : Number} (h : ¬x < ofInt 1) : 0 < x.ceil := by
  have hdivisor : (0 : Int) < x.divisor := Int.natCast_pos.mpr (Nat.two_pow_pos x.places)
  have hle : 1 * (x.divisor : Int) ≤ x.mantissa * 1 := Int.not_lt.mp h
  have hneg : -x.mantissa / x.divisor < 0 := Int.ediv_lt_of_lt_mul hdivisor (by omega)
  unfold ceil
  omega

end Number

end RuleForest
