import RuleForest.Value

namespace RuleForest.Fault

def code : Fault → String
  | contextMissing => "E-RULE-CONTEXT"
  | absentRule _ => "E-RULE-NIL"
  | chainArity _ _ => "E-RULE-CHAIN-ARITY"
  | ownership _ _ _ => "E-RULE-OWNERSHIP"
  | cancelled _ _ _ => "E-RULE-CANCELLED"
  | evaluation _ _ => "E-RULE-EVAL"
  | execution _ _ _ => "E-RULE-EXEC"
  | invalidStrategy _ => "E-RULE-STRATEGY"
  | missingKey _ => "E-RULE-CONTEXT-KEY"
  | general _ code _ _ _ => code

def hint : Fault → String
  | contextMissing => "create a RuleContext before running the rules"
  | absentRule _ => "remove empty entries from the rule list"
  | chainArity .children _ => "use a best_first rule to branch"
  | chainArity .roots _ => "pass a single root to a chain run"
  | ownership _ _ _ => "build a separate rule instance for each position in the tree"
  | cancelled _ _ _ => "the run was cancelled by its issuer"
  | evaluation _ _ => "inspect the error cause"
  | execution _ _ _ => "inspect the error cause"
  | invalidStrategy _ => "use \"chain\" or \"best_first\""
  | missingKey _ => "seed the key before reading it"
  | general _ _ hint _ _ => hint

def details : Fault → Value
  | contextMissing => .record []
  | absentRule index => .record [("index", index.elim .null .number)]
  | chainArity limit count => .record [("reason", .text limit.text), ("count", .number count)]
  | ownership rule parent _ => .record [("rule", .text rule), ("parent", .text parent)]
  | cancelled rule reason _ =>
    .record [("rule", .ofOptionText rule), ("reason", .ofOptionText reason)]
  | evaluation rule _ => .record [("rule", .text rule)]
  | execution rule stage _ => .record [("rule", .text rule), ("phase", .text stage.text)]
  | invalidStrategy given => .record [("strategy", .text given)]
  | missingKey key => .record [("key", .text key)]
  | general _ _ _ details _ => details

def cause? : Fault → Option Value
  | cancelled _ _ cause => cause
  | evaluation _ cause => some cause
  | execution _ _ cause => some cause
  | general _ _ _ _ cause => cause
  | _ => none

def isCancellation : Fault → Bool
  | cancelled _ _ _ => true
  | _ => false

def alreadyOwned (rule parent : String) : Fault :=
  .ownership rule parent ("rule " ++ rule ++ " already has a parent")

def wouldCycle (rule parent : String) : Fault :=
  .ownership rule parent ("adding " ++ rule ++ " under " ++ parent ++ " creates a cycle")

end RuleForest.Fault
