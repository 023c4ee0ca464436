import RuleForest.Forest

namespace RuleForest.Forest

variable {H : Type}

def ancestors (f : Forest H) : Nat → RuleId → List RuleId
  | 0, _ => []
  | limit + 1, id => id :: (match f.ownerOf id with
    | some owner => f.ancestors limit owner
    | none => [])

/-- Owners never go around in a circle, so a walk is no longer than the forest. -/
def lineage (f : Forest H) (id : RuleId) : List RuleId := f.ancestors f.rules.size id

def adoptionFault? (f : Forest H) (parent : RuleId) (pending : List RuleId) (child : RuleId) :
    Option Fault :=
  if (f.ownerOf child).isSome || pending.contains child then
    some (.alreadyOwned (f.nameOf child) (f.nameOf parent))
  else if (f.lineage parent).contains child then
    some (.wouldCycle (f.nameOf child) (f.nameOf parent))
  else
    none

def checkEntries (f : Forest H) (parent : RuleId) (pending : List RuleId) :
    List (Option RuleId) → Except Fault (List RuleId)
  | [] => .ok pending
  | none :: _ => .error (.absentRule (some (.ofInt pending.length)))
  | some child :: rest =>
    match f.adoptionFault? parent pending child with
    | some fault => .error fault
    | none => f.checkEntries parent (pending ++ [child]) rest

def checkBatch (f : Forest H) (parent : RuleId) (batch : List (Option RuleId)) :
    Except Fault (List RuleId) :=
  match f.get? parent with
  | none => .error (.absentRule none)
  | some rule =>
    let count := rule.children.length + batch.length
    if rule.strategy = .chain ∧ 1 < count then
      .error (.chainArity .children (.ofInt count))
    else
      f.checkEntries parent [] (batch.map f.present?)

def attach (f : Forest H) (parent child : RuleId) : Forest H :=
  (f.update child fun r => { r with owner := some parent }).update parent fun r =>
    { r with children := r.children ++ [child] }

/-- Appends a batch of children, all of them or, after a fault, none. -/
def addChildren (f : Forest H) (parent : RuleId) (batch : List (Option RuleId)) :
    Except Fault (Forest H) :=
  (f.checkBatch parent batch).map fun children =>
    children.foldl (fun f child => f.attach parent child) f

def release (f : Forest H) (parent : RuleId) : Forest H :=
  ((f.childrenOf parent).foldl (fun f child => f.update child fun r => { r with owner := none })
    f).update parent fun r => { r with children := [] }

end RuleForest.Forest
