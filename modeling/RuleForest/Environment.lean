import RuleForest.Value
import RuleForest.Text.Blank
import RuleForest.Text.LowerCase

namespace RuleForest

structure Environment where
  entries : List (String × Value) := []

namespace Environment

def trueWords : List String := ["1", "true", "yes", "on"]

def falseWords : List String := ["0", "false", "no", "off"]

def maxSafeInt : Int := 9007199254740991

structure Bounds where
  min : Option Number := none
  max : Option Number := none

def Bounds.contains (b : Bounds) (n : Int) : Bool :=
  b.min.all (fun lo => decide (lo ≤ .ofInt n)) && b.max.all (fun hi => decide (.ofInt n ≤ hi))

def raw? (env : Environment) (name : String) : Option String :=
  match env.entries.find? fun v => v.1 == name with
  | some (_, .text s) => some s
  | _ => none

def text? (env : Environment) (name : String) : Option String :=
  (env.raw? name).bind fun s => if Text.isBlankText s then none else some (Text.trim s)

def wordAsBool? (word : String) : Option Bool :=
  let w := Text.lowerCase word
  if trueWords.contains w then some true else if falseWords.contains w then some false else none

def bool? (env : Environment) (name : String) : Option Bool := (env.text? name).bind wordAsBool?

def bool (env : Environment) (name : String) (default : Bool) : Bool :=
  (env.bool? name).getD default

/-- The number nearest to the integer that the digits denote; none if every number is too small. -/
def nearest? (s : String) : Option Number :=
  (Text.intOfDigits? s.toList).bind fun n => Number.ofFraction? n 1

def isSafe (x : Number) : Bool := x.isInt && decide (x.mantissa.natAbs ≤ maxSafeInt)

def safeInt? (s : String) : Option Int := ((nearest? s).filter isSafe).map Number.mantissa

def int? (env : Environment) (name : String) (bounds : Bounds) : Option Int :=
  ((env.text? name).bind safeInt?).filter bounds.contains

def int (env : Environment) (name : String) (default : Int) (bounds : Bounds) : Int :=
  (env.int? name bounds).getD default

def choice? {α : Type} (env : Environment) (name : String) (allowed : List α)
    (spelling : α → String) :
    Option α :=
  (env.text? name).bind fun s =>
    allowed.find? fun a => Text.lowerCase (spelling a) == Text.lowerCase s

def choice {α : Type} (env : Environment) (name : String) (allowed : List α) (spelling : α → String)
    (default : α) : α :=
  (env.choice? name allowed spelling).getD default

end Environment

end RuleForest
