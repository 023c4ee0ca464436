import RuleForest.Forest.Adoption

namespace RuleForest

inductive BuildOption (H : Type) where
  | name (s : String)
  | hook (phase : Phase) (h : H)
  | children (batch : List (Option RuleId))

namespace Forest

variable {H : Type}

def setName (f : Forest H) (id : RuleId) (name : String) : Forest H :=
  f.update id fun r => r.setName name

def setHook (f : Forest H) (id : RuleId) (phase : Phase) (hook : H) : Forest H :=
  f.update id fun r => r.setHook phase hook

def applyOption (f : Forest H) (id : RuleId) : BuildOption H → Except Fault (Forest H)
  | .name s => .ok (f.setName id s)
  | .hook phase h => .ok (f.setHook id phase h)
  | .children batch => f.addChildren id batch

def applyOptions (id : RuleId) : List (BuildOption H) → Forest H → Forest H × Option Fault
  | [], f => (f, none)
  | o :: os, f =>
    match f.applyOption id o with
    | .ok f => applyOptions id os f
    | .error fault => (f, some fault)

/-- Makes a rule with an automatic name and applies the options. After a fault the children that
were already attached are free again and the rule is gone; its automatic name is not given again. -/
def build (f : Forest H) (strategy : Strategy) (options : List (BuildOption H)) :
    Forest H × Except Fault RuleId :=
  let (id, f) := f.create strategy none
  match applyOptions id options f with
  | (f, none) => (f, .ok id)
  | (f, some fault) => ((f.release id).discardLast, .error fault)

end Forest

end RuleForest
