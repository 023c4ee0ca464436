import RuleForest.Log.Payload
import RuleForest.Text.Blank
import RuleForest.Text.LowerCase
import RuleForest.Text.Occurrence
import RuleForest.Text.Pattern

namespace RuleForest

namespace Redaction

def mark : String := "[REDACTED]"

def enableWords : List String := ["on", "true", "yes", "1", "enable", "enabled"]

def disableWords : List String := ["off", "false", "no", "0", "disable", "disabled"]

def sensitiveKeys : List String :=
  ["authorization", "x-api-key", "api-key", "api_key", "token", "access_token", "refresh_token",
    "password", "secret", "cookie"]

def isSensitive (key : String) : Bool := sensitiveKeys.contains (Text.lowerCase key)

structure Directives where
  enabled : Bool
  tokens : List String
deriving DecidableEq, Repr

def words (raw : String) : List String :=
  ((Text.splitAt ',' raw.toList).map fun w => String.ofList (Text.trimChars w)).filter (!·.isEmpty)

def toggle? (word : String) : Option Bool :=
  let w := Text.lowerCase word
  if disableWords.contains w then some false else if enableWords.contains w then some true else none

def Directives.ofWords (words : List String) : Directives :=
  let tokens := words.filter fun w => (toggle? w).isNone
  { enabled := (words.filterMap toggle?).getLast?.getD !tokens.isEmpty
    tokens := tokens.eraseDups }

def Directives.parse (raw : Option String) : Directives := .ofWords (raw.elim [] words)

end Redaction

inductive Secret where
  | literal (units : List UInt16)
  | pattern (p : Text.Pattern)

namespace Secret

def mark : List UInt16 := Text.units Redaction.mark

def scrubOne : Secret → List UInt16 → List UInt16
  | literal w, us => if w.isEmpty then us else Text.replaceAll w mark us
  | pattern p, us => p.replaceUnits mark us

def sameLiteral : Secret → Secret → Bool
  | literal v, literal w => v == w
  | _, _ => false

def distinct (secrets : List Secret) : List Secret := secrets.eraseDupsBy sameLiteral

def scrub (secrets : List Secret) (us : List UInt16) : List UInt16 :=
  secrets.foldl (fun us secret => secret.scrubOne us) us

end Secret

namespace Redaction

/-- The member name that names a record's parent; a member of this name is not carried over. -/
def parentKey : String := "__proto__"

mutual

def redact (secrets : List Secret) : Payload → Payload
  | .text us => .text (Secret.scrub secrets us)
  | .list items => .list (redactItems secrets items)
  | .record fields => .record (redactFields secrets fields)
  | p => p

def redactItems (secrets : List Secret) : List Payload → List Payload
  | [] => []
  | p :: ps => redact secrets p :: redactItems secrets ps

def redactFields (secrets : List Secret) : List (String × Payload) → List (String × Payload)
  | [] => []
  | (k, p) :: fs =>
    if k = parentKey then
      redactFields secrets fs
    else
      (k, if isSensitive k then .string mark else redact secrets p) :: redactFields secrets fs

end

end Redaction

end RuleForest
