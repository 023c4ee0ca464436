import RuleForest.Value

namespace RuleForest

/-- Entries stand in the order in which their keys last became present. -/
structure Context (α : Type) where
  entries : List (String × α)

namespace Context

variable {α : Type}

def empty : Context α := ⟨[]⟩

instance : Inhabited (Context α) := ⟨empty⟩

def insertEntry (key : String) (value : α) : List (String × α) → List (String × α)
  | [] => [(key, value)]
  | e :: es => if e.1 = key then (key, value) :: es else e :: insertEntry key value es

def set (c : Context α) (key : String) (value : α) : Context α := ⟨insertEntry key value c.entries⟩

def ofPairs (pairs : List (String × α)) : Context α := pairs.foldl (fun c p => c.set p.1 p.2) empty

def contains (c : Context α) (key : String) : Bool := c.entries.any fun e => e.1 == key

def get? (c : Context α) (key : String) : Option α :=
  (c.entries.find? fun e => e.1 == key).map Prod.snd

def mustGet (c : Context α) (key : String) : Except Fault α :=
  match c.get? key with
  | some value => .ok value
  | none => .error (.missingKey key)

def delete (c : Context α) (key : String) : Bool × Context α :=
  (c.contains key, ⟨c.entries.filter fun e => e.1 != key⟩)

def keys (c : Context α) : List String := c.entries.map Prod.fst

def size (c : Context α) : Nat := c.entries.length

end Context

namespace Context

def peek (c : Context Value) (key : String) : Value := (c.get? key).getD .undefined

def toRecord (c : Context Value) : Value := .record c.entries

end Context

end RuleForest
