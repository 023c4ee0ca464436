import RuleForest.Config
import RuleForest.Value.Plain

namespace RuleForest.Config

inductive Mismatch where
  | invalidType
  | invalidChoice
  | tooSmall
  | tooBig
  | unknownKeys (keys : List String)
deriving DecidableEq, Repr

structure Issue where
  field : Option String
  mismatch : Mismatch
deriving DecidableEq, Repr

abbrev Checked (α : Type) := Except (List Mismatch) α

def checkLevel : Value → Checked Level
  | .text s =>
    match Level.ofText? s with
    | some l => .ok l
    | none => .error [.invalidChoice]
  | _ => .error [.invalidType]

def checkText : Value → Checked (Option String)
  | .null => .ok none
  | .text s => .ok (some s)
  | _ => .error [.invalidType]

def checkFilledText (v : Value) : Checked (Option String) :=
  match checkText v with
  | .ok (some s) => if s.isEmpty then .error [.tooSmall] else .ok (some s)
  | r => r

/-- A number that is not an integer is compared with the bounds too. -/
def checkInt (min : Int) (max : Option Int) : Value → Checked Int
  | .number x =>
    let mismatches := (if x.isInt then [] else [.invalidType]) ++
      (if x < .ofInt min then [.tooSmall] else []) ++
      (if max.any (fun hi => decide (.ofInt hi < x)) then [.tooBig] else [])
    if mismatches.isEmpty then .ok x.mantissa else .error mismatches
  | _ => .error [.invalidType]

def checkBool : Value → Checked Bool
  | .bool b => .ok b
  | _ => .error [.invalidType]

def fieldNames : List String :=
  ["logLevel", "logFile", "logMaxBytes", "logMaxFiles", "logRedact", "logStdout"]

def checkKeys (keys : List String) : Checked Unit :=
  match keys.filter fun k => !fieldNames.contains k with
  | [] => .ok ()
  | unknown => .error [.unknownKeys unknown]

def issues {α : Type} (field : Option String) : Checked α → List Issue
  | .ok _ => []
  | .error ms => ms.map (Issue.mk field)

def member (fields : List (String × Value)) (name : String) : Value :=
  match fields.find? fun f => f.1 == name with
  | some f => f.2
  | none => .undefined

def ofValue (v : Value) : Except (List Issue) Config :=
  match v.plain with
  | .record fields =>
    let level := checkLevel (member fields "logLevel")
    let file := checkFilledText (member fields "logFile")
    let maxBytes := checkInt 1 none (member fields "logMaxBytes")
    let maxFiles := checkInt 1 (some 100) (member fields "logMaxFiles")
    let redact := checkText (member fields "logRedact")
    let stdout := checkBool (member fields "logStdout")
    let keys := checkKeys (fields.map Prod.fst)
    match level, file, maxBytes, maxFiles, redact, stdout, keys with
    | .ok logLevel, .ok logFile, .ok logMaxBytes, .ok logMaxFiles, .ok logRedact, .ok logStdout,
        .ok () =>
      .ok { logLevel, logFile, logMaxBytes, logMaxFiles, logRedact, logStdout }
    | _, _, _, _, _, _, _ =>
      .error (issues (some "logLevel") level ++ issues (some "logFile") file ++
        issues (some "logMaxBytes") maxBytes ++ issues (some "logMaxFiles") maxFiles ++
        issues (some "logRedact") redact ++ issues (some "logStdout") stdout ++ issues none keys)
  | _ => .error [⟨none, .invalidType⟩]

def load (env : Environment) : Except (List Issue) Config := ofValue (ofEnvironment env).toValue

end RuleForest.Config
