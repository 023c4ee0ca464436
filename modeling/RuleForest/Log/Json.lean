import RuleForest.Log.Payload

namespace RuleForest

namespace Json

def hexDigit (n : Nat) : Char := if n < 10 then Char.ofNat (48 + n) else Char.ofNat (87 + n)

def escape (c : Char) : List Char :=
  if c = '"' then ['\\', '"']
  else if c = '\\' then ['\\', '\\']
  else if c = '\n' then ['\\', 'n']
  else if c = '\r' then ['\\', 'r']
  else if c = '\t' then ['\\', 't']
  else if c = '\x08' then ['\\', 'b']
  else if c = '\x0c' then ['\\', 'f']
  else if c.toNat < 0x20 then
    ['\\', 'u', '0', '0', hexDigit (c.toNat / 16), hexDigit (c.toNat % 16)]
  else [c]

def escapeHalf (u : UInt16) : List Char :=
  let n := u.toNat
  ['\\', 'u', hexDigit (n / 4096), hexDigit (n / 256 % 16), hexDigit (n / 16 % 16),
    hexDigit (n % 16)]

def escapeSymbol : Text.Symbol → List Char
  | .whole c => escape c
  | .half u => escapeHalf u

def quoted (us : List UInt16) : List Char := '"' :: (Text.symbols us).flatMap escapeSymbol ++ ['"']

def separated (parts : List (List Char)) : List Char := [','].intercalate parts

mutual

/-- Members without a value are left out; items without one are written as null. -/
def write : Payload → List Char
  | .undefined => "null".toList
  | .null => "null".toList
  | .bool true => "true".toList
  | .bool false => "false".toList
  | .number x => x.digits
  | .text us => quoted us
  | .list items => '[' :: separated (writeItems items) ++ [']']
  | .record fields => '\x7b' :: separated (writeFields fields) ++ ['\x7d']
  | .exception _ _ => "null".toList
  | .fault _ => "null".toList

def writeItems : List Payload → List (List Char)
  | [] => []
  | p :: ps => write p :: writeItems ps

def writeFields : List (String × Payload) → List (List Char)
  | [] => []
  | (_, .undefined) :: fs => writeFields fs
  | (k, p) :: fs => (quoted (Text.units k) ++ ':' :: write p) :: writeFields fs

end

end Json

def Payload.json (p : Payload) : String := String.ofList (Json.write p.plain)

end RuleForest
