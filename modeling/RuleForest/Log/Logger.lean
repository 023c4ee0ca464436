import RuleForest.Config
import RuleForest.Log.Json
import RuleForest.Log.Redaction

namespace RuleForest

structure LogEntry where
  timestamp : String
  level : Level
  message : String
  payload : Payload

namespace LogEntry

def toPayload (e : LogEntry) : Payload :=
  .record [
    ("timestamp", .string e.timestamp),
    ("level", .string e.level.text),
    ("message", .string e.message),
    ("payload", e.payload)]

def line (e : LogEntry) : String := e.toPayload.json ++ "\n"

end LogEntry

structure LogCall where
  level : Level
  message : String
  payload : Payload := .undefined

/-- What a listener to a log throws at an entry, if anything. -/
abbrev Listener := LogCall → Option Value

structure Logger where
  minLevel : Level
  file : Option String
  maxFileBytes : Number
  maxFiles : Number
  secrets : List Secret
  redacts : Bool
  stdout : Bool
  listener : Option Listener

namespace Logger

structure Options where
  minLevel : Option Level := none
  file : Option String := none
  maxFileBytes : Option Number := none
  maxFiles : Option Number := none
  secrets : Option (List Secret) := none
  redacts : Option Bool := none
  stdout : Option Bool := none
  listener : Option Listener := none

def atLeastOne (x : Number) : Number := if x < .ofInt 1 then .ofInt 1 else x

/-- At least one file is kept. Redaction is on by itself if there are secrets. -/
def ofOptions (o : Options) : Logger :=
  let secrets := Secret.distinct (o.secrets.getD [])
  { minLevel := o.minLevel.getD .debug
    file := o.file
    maxFileBytes := o.maxFileBytes.getD (.ofInt Config.defaultMaxBytes)
    maxFiles := atLeastOne (o.maxFiles.getD (.ofInt Config.defaultMaxFiles))
    secrets
    redacts := o.redacts.getD !secrets.isEmpty
    stdout := o.stdout.getD true
    listener := o.listener }

def ofConfig (c : Config) : Logger :=
  let redaction := Redaction.Directives.parse c.logRedact
  ofOptions {
    minLevel := some c.logLevel
    file := c.logFile
    maxFileBytes := some (.ofInt c.logMaxBytes)
    maxFiles := some (.ofInt c.logMaxFiles)
    secrets := some (redaction.tokens.map fun token => .literal (Text.units token))
    redacts := some redaction.enabled
    stdout := some c.logStdout }

def isEnabled (l : Logger) (level : Level) : Bool := decide (l.minLevel.priority ≤ level.priority)

def shownPayload (l : Logger) (payload : Payload) : Payload :=
  if l.redacts then Redaction.redact l.secrets payload.plain else payload

def entry? (l : Logger) (timestamp : String) (call : LogCall) : Option LogEntry :=
  if l.isEnabled call.level then
    some
      { timestamp, level := call.level, message := call.message,
        payload := l.shownPayload call.payload }
  else
    none

def heard? (l : Logger) (timestamp : String) (call : LogCall) : Option LogEntry :=
  if l.listener.isSome then
    (l.entry? timestamp call).map fun e => { e with payload := e.payload.copied }
  else
    none

def objection? (l : Logger) (call : LogCall) : Option Value :=
  if l.isEnabled call.level then
    l.listener.bind fun listen =>
      listen { call with payload := (l.shownPayload call.payload).copied }
  else
    none

def printed? (l : Logger) (timestamp : String) (call : LogCall) : Option String :=
  if l.stdout then (l.entry? timestamp call).map LogEntry.line else none

end Logger

end RuleForest
