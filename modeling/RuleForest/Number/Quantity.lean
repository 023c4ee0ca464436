import RuleForest.Number.Decimal
import RuleForest.Text.Blank

namespace RuleForest

inductive Quantity where
  | finite (x : Number)
  | infinite (negative : Bool)
deriving DecidableEq, Repr

namespace Quantity

def ofInt (n : Int) : Quantity := finite (.ofInt n)

def le : Quantity → Quantity → Bool
  | infinite true, _ => true
  | _, infinite false => true
  | finite x, finite y => decide (x ≤ y)
  | _, _ => false

instance : LE Quantity := ⟨fun x y => x.le y = true⟩

instance (x y : Quantity) : Decidable (x ≤ y) := inferInstanceAs (Decidable (x.le y = true))

def maxDecimalPlaces : Nat := 400

def ofDecimal (negative : Bool) (d : Decimal) : Quantity :=
  let point : Int := (Text.natDigits d.coefficient).length + d.exponent
  if d.coefficient = 0 ∨ point < -maxDecimalPlaces then
    ofInt 0
  else if maxDecimalPlaces < point then
    infinite negative
  else
    (d.round? negative).elim (infinite negative) finite

def exponentOf? : List Char → Option Int
  | [] => some 0
  | c :: s => if c = 'e' ∨ c = 'E' then Text.intOfDigits? s else none

def decimalOf? (s : List Char) : Option Decimal :=
  let whole := s.takeWhile Char.isDigit
  let (places, rest) :=
    match s.dropWhile Char.isDigit with
    | '.' :: s => (s.takeWhile Char.isDigit, s.dropWhile Char.isDigit)
    | s => ([], s)
  match Text.natOfDigits? (whole ++ places), exponentOf? rest with
  | some coefficient, some e => some ⟨coefficient, e - places.length⟩
  | _, _ => none

def unsigned? (negative : Bool) (s : List Char) : Option Quantity :=
  if s = "Infinity".toList then some (infinite negative)
  else (decimalOf? s).map (ofDecimal negative)

def baseOf? (c : Char) : Option Nat :=
  match c.toLower with
  | 'x' => some 16
  | 'o' => some 8
  | 'b' => some 2
  | _ => none

def digitOf? (base : Nat) (c : Char) : Option Nat :=
  let n := if c.isDigit then c.toNat - 48 else if c.isAlpha then c.toLower.toNat - 87 else base
  if n < base then some n else none

def natOfDigits? (base : Nat) (ds : List Char) : Option Nat :=
  if ds.isEmpty then none
  else ds.foldlM (fun n c => (digitOf? base c).map fun d => n * base + d) 0

def ofNat (n : Nat) : Quantity := (Number.ofFraction? n 1).elim (infinite false) finite

def ofChars? (s : List Char) : Option Quantity :=
  match Text.trimChars s with
  | [] => some (ofInt 0)
  | '+' :: s => unsigned? false s
  | '-' :: s => unsigned? true s
  | '0' :: c :: ds =>
    match baseOf? c with
    | some base => (natOfDigits? base ds).map ofNat
    | none => unsigned? false ('0' :: c :: ds)
  | s => unsigned? false s

def ofText? (s : String) : Option Quantity := ofChars? s.toList

end Quantity

end RuleForest
