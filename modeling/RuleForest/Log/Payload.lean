import RuleForest.Text.Units
import RuleForest.Value.Plain

namespace RuleForest

/-- What a log call carries: a value whose texts are units, so that halves can stand alone in it. -/
inductive Payload where
  | undefined
  | null
  | bool (b : Bool)
  | number (x : Number)
  | text (units : List UInt16)
  | list (items : List Payload)
  | record (fields : List (String × Payload))
  | exception (kind : ErrorKind) (message : String)
  | fault (f : Fault)

namespace Payload

instance : Inhabited Payload := ⟨undefined⟩

@[match_pattern] abbrev int (n : Int) : Payload := number ⟨n, 0⟩

abbrev string (s : String) : Payload := text (Text.units s)

mutual

def ofValue : Value → Payload
  | .undefined => undefined
  | .null => null
  | .bool b => bool b
  | .number x => number x
  | .text s => string s
  | .list items => list (ofItems items)
  | .record fields => record (ofFields fields)
  | .exception kind message => exception kind message
  | .fault f => fault f

def ofItems : List Value → List Payload
  | [] => []
  | v :: vs => ofValue v :: ofItems vs

def ofFields : List (String × Value) → List (String × Payload)
  | [] => []
  | (k, v) :: fs => (k, ofValue v) :: ofFields fs

end

mutual

def plain : Payload → Payload
  | list items => list (plainItems items)
  | record fields => record (plainFields fields)
  | exception kind message => ofValue (Value.exception kind message).plain
  | fault f => ofValue (Value.fault f).plain
  | p => p

def plainItems : List Payload → List Payload
  | [] => []
  | p :: ps => p.plain :: plainItems ps

def plainFields : List (String × Payload) → List (String × Payload)
  | [] => []
  | (k, p) :: fs => (k, p.plain) :: plainFields fs

end

def standardErrorNames : List String :=
  ["EvalError", "RangeError", "ReferenceError", "SyntaxError", "TypeError", "URIError"]

mutual

/-- A payload as a listener gets it: an error keeps its message and only a standard name. -/
def copied : Payload → Payload
  | list items => list (copiedItems items)
  | record fields => record (copiedFields fields)
  | exception (.named name) message =>
    exception (if standardErrorNames.contains name then .named name else .unnamed) message
  | fault f => exception .unnamed f.message
  | p => p

def copiedItems : List Payload → List Payload
  | [] => []
  | p :: ps => p.copied :: copiedItems ps

def copiedFields : List (String × Payload) → List (String × Payload)
  | [] => []
  | (k, p) :: fs => (k, p.copied) :: copiedFields fs

end

end Payload

end RuleForest
