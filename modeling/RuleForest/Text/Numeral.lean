namespace RuleForest.Text

def natDigits (n : Nat) : List Char := Nat.toDigits 10 n

def natOfDigits? (ds : List Char) : Option Nat :=
  if !ds.isEmpty && ds.all Char.isDigit then some (Nat.ofDigitChars 10 ds 0) else none

def intDigits : Int → List Char
  | .ofNat n => natDigits n
  | .negSucc n => '-' :: natDigits (n + 1)

def intOfDigits? : List Char → Option Int
  | '-' :: ds => (natOfDigits? ds).map fun n => -(n : Int)
  | '+' :: ds => (natOfDigits? ds).map fun n => (n : Int)
  | ds => (natOfDigits? ds).map fun n => (n : Int)

def ofNat (n : Nat) : String := String.ofList (natDigits n)

end RuleForest.Text
