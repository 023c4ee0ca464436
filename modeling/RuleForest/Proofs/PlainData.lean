import Mathlib.Logic.Basic
import RuleForest.Log.Payload

namespace RuleForest

namespace Payload

mutual

def AllTexts (P : List UInt16 → Prop) : Payload → Prop
  | text us => P us
  | list items => ItemTexts P items
  | record fields => FieldTexts P fields
  | exception _ _ => False
  | fault _ => False
  | _ => True

def ItemTexts (P : List UInt16 → Prop) : List Payload → Prop
  | [] => True
  | p :: ps => p.AllTexts P ∧ ItemTexts P ps

def FieldTexts (P : List UInt16 → Prop) : List (String × Payload) → Prop
  | [] => True
  | (_, p) :: fs => p.AllTexts P ∧ FieldTexts P fs

end

variable {P : List UInt16 → Prop}

mutual

theorem AllTexts.copied_eq : ∀ {p : Payload}, p.AllTexts P → p.copied = p
  | undefined, _ => rfl
  | null, _ => rfl
  | bool _, _ => rfl
  | number _, _ => rfl
  | text _, _ => rfl
  | list _, h => congrArg list (ItemTexts.copied_eq h)
  | record _, h => congrArg record (FieldTexts.copied_eq h)

theorem ItemTexts.copied_eq : ∀ {ps : List Payload}, ItemTexts P ps → copiedItems ps = ps
  | [], _ => rfl
  | _ :: _, h => congrArg₂ List.cons h.1.copied_eq (ItemTexts.copied_eq h.2)

theorem FieldTexts.copied_eq :
    ∀ {fs : List (String × Payload)}, FieldTexts P fs → copiedFields fs = fs
  | [], _ => rfl
  | (k, _) :: _, h =>
    congrArg₂ List.cons (congrArg (Prod.mk k) h.1.copied_eq) (FieldTexts.copied_eq h.2)

end

mutual

theorem AllTexts.plain_eq : ∀ {p : Payload}, p.AllTexts P → p.plain = p
  | undefined, _ => rfl
  | null, _ => rfl
  | bool _, _ => rfl
  | number _, _ => rfl
  | text _, _ => rfl
  | list _, h => congrArg list (ItemTexts.plain_eq h)
  | record _, h => congrArg record (FieldTexts.plain_eq h)

theorem ItemTexts.plain_eq : ∀ {ps : List Payload}, ItemTexts P ps → plainItems ps = ps
  | [], _ => rfl
  | _ :: _, h => congrArg₂ List.cons h.1.plain_eq (ItemTexts.plain_eq h.2)

theorem FieldTexts.plain_eq :
    ∀ {fs : List (String × Payload)}, FieldTexts P fs → plainFields fs = fs
  | [], _ => rfl
  | (k, _) :: _, h =>
    congrArg₂ List.cons (congrArg (Prod.mk k) h.1.plain_eq) (FieldTexts.plain_eq h.2)

end

theorem ofOptionText_allTexts :
    ∀ s : Option String, (ofValue (.ofOptionText s)).AllTexts fun _ => True
  | none => trivial
  | some _ => trivial

mutual

theorem ofValue_plain_allTexts : ∀ v : Value, (ofValue v.plain).AllTexts fun _ => True
  | .undefined => trivial
  | .null => trivial
  | .bool _ => trivial
  | .number _ => trivial
  | .text _ => trivial
  | .list items => ofValue_plainItems_allTexts items
  | .record fields => ofValue_plainFields_allTexts fields
  | .exception (.named _) _ => ⟨trivial, trivial⟩
  | .exception .unnamed _ => trivial
  | .exception .abort _ => trivial
  | .exception .conversion _ => trivial
  | .fault f => ⟨trivial, trivial, ofValue_plainDetails_allTexts f, trivial, trivial⟩

theorem ofValue_plainItems_allTexts :
    ∀ vs : List Value, ItemTexts (fun _ => True) (ofItems (Value.plainItems vs))
  | [] => trivial
  | v :: vs => ⟨ofValue_plain_allTexts v, ofValue_plainItems_allTexts vs⟩

theorem ofValue_plainFields_allTexts :
    ∀ fs : List (String × Value), FieldTexts (fun _ => True) (ofFields (Value.plainFields fs))
  | [] => trivial
  | (_, v) :: fs => ⟨ofValue_plain_allTexts v, ofValue_plainFields_allTexts fs⟩

theorem ofValue_plainDetails_allTexts :
    ∀ f : Fault, (ofValue f.plainDetails).AllTexts fun _ => True
  | .general _ _ _ details _ => ofValue_plain_allTexts details
  | .contextMissing => trivial
  | .absentRule none => ⟨trivial, trivial⟩
  | .absentRule (some _) => ⟨trivial, trivial⟩
  | .chainArity _ _ => ⟨trivial, trivial, trivial⟩
  | .ownership _ _ _ => ⟨trivial, trivial, trivial⟩
  | .cancelled rule reason _ => ⟨ofOptionText_allTexts rule, ofOptionText_allTexts reason, trivial⟩
  | .evaluation _ _ => ⟨trivial, trivial⟩
  | .execution _ _ _ => ⟨trivial, trivial, trivial⟩
  | .invalidStrategy _ => ⟨trivial, trivial⟩
  | .missingKey _ => ⟨trivial, trivial⟩

end

mutual

theorem plain_allTexts : ∀ p : Payload, p.plain.AllTexts fun _ => True
  | undefined => trivial
  | null => trivial
  | bool _ => trivial
  | number _ => trivial
  | text _ => trivial
  | list items => plainItems_allTexts items
  | record fields => plainFields_allTexts fields
  | exception kind message => ofValue_plain_allTexts (.exception kind message)
  | fault f => ofValue_plain_allTexts (.fault f)

theorem plainItems_allTexts : ∀ ps : List Payload, ItemTexts (fun _ => True) (plainItems ps)
  | [] => trivial
  | p :: ps => ⟨plain_allTexts p, plainItems_allTexts ps⟩

theorem plainFields_allTexts :
    ∀ fs : List (String × Payload), FieldTexts (fun _ => True) (plainFields fs)
  | [] => trivial
  | (_, p) :: fs => ⟨plain_allTexts p, plainFields_allTexts fs⟩

end

end Payload

end RuleForest
