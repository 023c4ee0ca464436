import RuleForest.Fault

namespace RuleForest

mutual

/-- A value with every error in it replaced by a record of the error's members. A name is a member
only if it was given. -/
def Value.plain : Value → Value
  | .list items => .list (Value.plainItems items)
  | .record fields => .record (Value.plainFields fields)
  | .exception (.named name) _ => .record [("name", .text name)]
  | .exception _ _ => .record []
  | .fault f =>
    .record [("code", .text f.code), ("hint", .text f.hint), ("details", f.plainDetails),
      ("name", .text f.name)]
  | v => v

def Value.plainItems : List Value → List Value
  | [] => []
  | v :: vs => v.plain :: Value.plainItems vs

def Value.plainFields : List (String × Value) → List (String × Value)
  | [] => []
  | (k, v) :: fs => (k, v.plain) :: Value.plainFields fs

def Fault.plainDetails : Fault → Value
  | .general _ _ _ details _ => details.plain
  | f => f.details

end

end RuleForest
