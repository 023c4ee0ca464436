import RuleForest.Environment
import RuleForest.Log.Level

namespace RuleForest

structure Config where
  logLevel : Level
  logFile : Option String
  logMaxBytes : Int
  logMaxFiles : Int
  logRedact : Option String
  logStdout : Bool
deriving DecidableEq, Repr

namespace Config

def defaultMaxBytes : Int := 5 * 1024 * 1024

def defaultMaxFiles : Int := 5

def default : Config where
  logLevel := .warn
  logFile := none
  logMaxBytes := defaultMaxBytes
  logMaxFiles := defaultMaxFiles
  logRedact := none
  logStdout := true

def ofEnvironment (env : Environment) : Config where
  logLevel := env.choice "RULES_LOG_LEVEL" Level.all Level.text default.logLevel
  logFile := env.text? "RULES_LOG_FILE"
  logMaxBytes := env.int "RULES_LOG_MAX_BYTES" default.logMaxBytes { min := some (.ofInt 1) }
  logMaxFiles := env.int "RULES_LOG_MAX_FILES" default.logMaxFiles
    { min := some (.ofInt 1), max := some (.ofInt 100) }
  logRedact := env.text? "RULES_LOG_REDACT"
  logStdout := env.bool "RULES_LOG_STDOUT" default.logStdout

def toValue (c : Config) : Value :=
  .record [
    ("logLevel", .text c.logLevel.text),
    ("logFile", .ofOptionText c.logFile),
    ("logMaxBytes", .int c.logMaxBytes),
    ("logMaxFiles", .int c.logMaxFiles),
    ("logRedact", .ofOptionText c.logRedact),
    ("logStdout", .bool c.logStdout)]

end Config

end RuleForest
