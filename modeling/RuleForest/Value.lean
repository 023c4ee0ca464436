import RuleForest.Number.Decimal

namespace RuleForest

inductive Stage where
  | preExecute
  | execute
  | postExecute
deriving DecidableEq, Repr

inductive ChainLimit where
  | children
  | roots
deriving DecidableEq, Repr

inductive ErrorKind where
  | unnamed
  | named (name : String)
  | abort
  | conversion
deriving DecidableEq, Repr

mutual

inductive Value where
  | undefined
  | null
  | bool (b : Bool)
  | number (x : Number)
  | text (s : String)
  | list (items : List Value)
  | record (fields : List (String × Value))
  | exception (kind : ErrorKind) (message : String)
  | fault (f : Fault)

inductive Fault where
  | contextMissing
  | absentRule (index : Option Number)
  | chainArity (limit : ChainLimit) (count : Number)
  | ownership (rule parent message : String)
  | cancelled (rule reason : Option String) (cause : Option Value)
  | evaluation (rule : String) (cause : Value)
  | execution (rule : String) (stage : Stage) (cause : Value)
  | invalidStrategy (given : String)
  | missingKey (key : String)
  | general (message code hint : String) (details : Value) (cause : Option Value)

end

instance : Inhabited Value := ⟨.undefined⟩

@[match_pattern] abbrev Value.int (n : Int) : Value := .number ⟨n, 0⟩

namespace ErrorKind

def name : ErrorKind → String
  | unnamed => "Error"
  | named name => name
  | abort => "AbortError"
  | conversion => "TypeError"

end ErrorKind

namespace Stage

def text : Stage → String
  | preExecute => "pre_execute"
  | execute => "execute"
  | postExecute => "post_execute"

end Stage

namespace ChainLimit

def text : ChainLimit → String
  | children => "children"
  | roots => "roots"

end ChainLimit

def errorText (name message : String) : String :=
  if name.isEmpty then message else if message.isEmpty then name else name ++ ": " ++ message

namespace Fault

def name : Fault → String
  | contextMissing => "RuleContextMissingError"
  | absentRule _ => "NilRuleError"
  | chainArity _ _ => "ChainArityError"
  | ownership _ _ _ => "RuleOwnershipError"
  | cancelled _ _ _ => "RuleCancelledError"
  | evaluation _ _ => "RuleEvaluationError"
  | execution _ _ _ => "RuleExecutionError"
  | invalidStrategy _ => "InvalidRuleStrategyError"
  | missingKey _ => "MissingContextKeyError"
  | general _ _ _ _ _ => "RuleEngineError"

end Fault

mutual

/-- The text of a value inside a message. Of an error that is the cause of a failure only the
message is shown. -/
def Value.shown (asCause : Bool) : Value → String
  | .undefined => "undefined"
  | .null => "null"
  | .bool true => "true"
  | .bool false => "false"
  | .number x => x.text
  | .text s => s
  | .list items => ",".intercalate (Value.itemTexts items)
  | .record _ => "[object Object]"
  | .exception kind message => if asCause then message else errorText kind.name message
  | .fault f => if asCause then f.message else errorText f.name f.message

def Value.itemTexts : List Value → List String
  | [] => []
  | .undefined :: vs => "" :: Value.itemTexts vs
  | .null :: vs => "" :: Value.itemTexts vs
  | v :: vs => v.shown false :: Value.itemTexts vs

def Fault.message : Fault → String
  | .contextMissing => "rule context cannot be nil"
  | .absentRule none => "rule cannot be nil"
  | .absentRule (some i) => "rule at index " ++ i.text ++ " is nil"
  | .chainArity .children _ => "chain rule can only have one child"
  | .chainArity .roots _ => "chain rule runner only supports one rule"
  | .ownership _ _ message => message
  | .cancelled _ reason _ =>
    match reason with
    | none => "rule execution cancelled"
    | some r => if r.isEmpty then "rule execution cancelled" else "rule execution cancelled: " ++ r
  | .evaluation rule cause => "evaluation of " ++ rule ++ " failed: " ++ cause.shown true
  | .execution rule stage cause => stage.text ++ " of " ++ rule ++ " failed: " ++ cause.shown true
  | .invalidStrategy given => "invalid rule strategy: " ++ given
  | .missingKey key => "key '" ++ key ++ "' not found in rule context"
  | .general message _ _ _ _ => message

end

mutual

/-- Whether a value can be turned into a text. A record with a member of the conversion's own name
hides the conversion, and a list needs the texts of its items. -/
def Value.hasText : Value → Bool
  | .list items => Value.haveTexts items
  | .record fields => !fields.any fun f => f.1 == "toString"
  | _ => true

def Value.haveTexts : List Value → Bool
  | [] => true
  | v :: vs => v.hasText && Value.haveTexts vs

end

def conversionError : Value := .exception .conversion "Cannot convert object to primitive value"

def Fault.showing (v : Value) (f : Fault) : Except Value Fault :=
  if v.hasText then .ok f else .error conversionError

namespace Value

def toText (v : Value) : String := v.shown false

def same : Value → Value → Bool
  | undefined, undefined => true
  | null, null => true
  | bool a, bool b => a == b
  | number x, number y => x == y
  | text s, text t => s == t
  | _, _ => false

def isGiven : Value → Bool
  | undefined => false
  | null => false
  | bool b => b
  | number x => x.mantissa != 0
  | text s => !s.isEmpty
  | _ => true

def ofOptionText : Option String → Value
  | none => null
  | some s => text s

end Value

end RuleForest
