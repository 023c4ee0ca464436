import RuleForest.Number
import RuleForest.Text.Numeral

namespace RuleForest

structure Decimal where
  coefficient : Nat
  exponent : Int
deriving DecidableEq, Repr

namespace Decimal

def strip (fuel : Nat) (d : Decimal) : Decimal :=
  match fuel with
  | 0 => d
  | fuel + 1 =>
    if d.coefficient % 10 = 0 then strip fuel ⟨d.coefficient / 10, d.exponent + 1⟩ else d

def round? (negative : Bool) (d : Decimal) : Option Number :=
  let (num, den) := Number.scaled 10 d.coefficient 1 d.exponent
  Number.round? negative num den

def maxDigits : Nat := 17

def leadingPlace (num den : Nat) : Int :=
  if den ≤ num then (Text.natDigits (num / den)).length
  else 1 - ((Text.natDigits ((den - 1) / num)).length : Int)

def neighbours (num den digits : Nat) : List Decimal :=
  let e := leadingPlace num den - digits
  let (n, d) := Number.scaled 10 num den (-e)
  [Number.nearestInt n d, n / d, n / d + 1].map fun c => ⟨c, e⟩

/-- The shortest decimal that reads back as the positive number `x`, and of these the nearest. -/
def shortest (x : Number) : Decimal :=
  let num := x.mantissa.natAbs
  let den := x.divisor
  let found := (List.range maxDigits).findSome? fun n =>
    (neighbours num den (n + 1)).find? fun d => d.round? false == some ⟨num, x.places⟩
  (found.getD ⟨num * Nat.pow 5 x.places, -x.places⟩).strip maxDigits

end Decimal

structure Decimal.Layout where
  maxWhole : Nat
  maxZeros : Nat

namespace Decimal.Layout

def write (l : Layout) (d : Decimal) : List Char :=
  let ds := Text.natDigits d.coefficient
  let point : Int := ds.length + d.exponent
  if ds.length ≤ point ∧ point ≤ l.maxWhole then
    ds ++ List.replicate d.exponent.toNat '0'
  else if 0 < point ∧ point ≤ l.maxWhole then
    ds.take point.toNat ++ '.' :: ds.drop point.toNat
  else if point ≤ 0 ∧ -l.maxZeros ≤ point then
    '0' :: '.' :: List.replicate (-point).toNat '0' ++ ds
  else
    ds.take 1 ++ (if ds.length = 1 then [] else '.' :: ds.drop 1) ++
      'e' :: (if point ≤ 0 then '-' else '+') :: Text.natDigits (point - 1).natAbs

end Decimal.Layout

namespace Number

def layout : Decimal.Layout := ⟨21, 5⟩

def digits (x : Number) : List Char :=
  if x.isInt && x.mantissa.natAbs < Nat.pow 2 significantBits then
    Text.intDigits x.mantissa
  else
    (if x.mantissa < 0 then ['-'] else []) ++ layout.write (Decimal.shortest x)

def text (x : Number) : String := String.ofList x.digits

end Number

end RuleForest
