namespace RuleForest

inductive Level where
  | debug
  | info
  | warn
  | error
deriving DecidableEq, Repr

namespace Level

def all : List Level := [debug, info, warn, error]

def text : Level → String
  | debug => "debug"
  | info => "info"
  | warn => "warn"
  | error => "error"

def ofText? (s : String) : Option Level := all.find? fun l => l.text == s

def priority : Level → Nat
  | debug => 0
  | info => 1
  | warn => 2
  | error => 3

end Level

end RuleForest
