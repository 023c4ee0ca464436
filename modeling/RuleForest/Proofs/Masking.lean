import RuleForest.Proofs.Patterns

namespace RuleForest

namespace Secret

open Text

def OccursIn (s : List UInt16) : Secret → Prop
  | literal w => w ≠ [] ∧ w <:+: s
  | pattern p => p.FoundIn s

variable {secret : Secret} {secrets : List Secret} {s : List UInt16}

theorem scrubOne_of_not_occursIn (h : ¬secret.OccursIn s) : secret.scrubOne s = s := by
  cases secret with
  | literal w =>
    rw [scrubOne]
    split
    · rfl
    · next hw => exact replaceAll_of_not_infix fun hinfix => h ⟨by simpa using hw, hinfix⟩
  | pattern p => exact Pattern.replaceUnits_of_not_foundIn h

theorem scrub_of_not_occursIn (h : ∀ secret ∈ secrets, ¬secret.OccursIn s) : scrub secrets s = s :=
  scrub_of_fixed fun secret hmem => scrubOne_of_not_occursIn (h secret hmem)

end Secret

namespace Redaction

mutual

/-- The second value is the first with a mark for whatever stands under a sensitive key, with the
other texts scrubbed and without the members whose names are lost. Nothing else is changed. -/
inductive Masked (secrets : List Secret) (Lost : String → Prop) : Payload → Payload → Prop where
  | undefined : Masked secrets Lost .undefined .undefined
  | null : Masked secrets Lost .null .null
  | bool (b : Bool) : Masked secrets Lost (.bool b) (.bool b)
  | number (x : Number) : Masked secrets Lost (.number x) (.number x)
  | text (us : List UInt16) : Masked secrets Lost (.text us) (.text (Secret.scrub secrets us))
  | list {vs ws : List Payload} (h : MaskedItems secrets Lost vs ws) :
      Masked secrets Lost (.list vs) (.list ws)
  | record {fs gs : List (String × Payload)} (h : MaskedFields secrets Lost fs gs) :
    Masked secrets Lost (.record fs) (.record gs)

inductive MaskedItems (secrets : List Secret) (Lost : String → Prop) :
    List Payload → List Payload → Prop where
  | nil : MaskedItems secrets Lost [] []
  | cons {v w : Payload} {vs ws : List Payload} (h : Masked secrets Lost v w)
      (hs : MaskedItems secrets Lost vs ws) :
    MaskedItems secrets Lost (v :: vs) (w :: ws)

inductive MaskedFields (secrets : List Secret) (Lost : String → Prop) :
    List (String × Payload) → List (String × Payload) → Prop where
  | nil : MaskedFields secrets Lost [] []
  | lost {k : String} (v : Payload) {fs gs : List (String × Payload)} (hk : Lost k)
      (hs : MaskedFields secrets Lost fs gs) :
    MaskedFields secrets Lost ((k, v) :: fs) gs
  | hidden {k : String} (v : Payload) {fs gs : List (String × Payload)} (hk : ¬Lost k)
      (hhidden : isSensitive k = true)
    (hs : MaskedFields secrets Lost fs gs) :
    MaskedFields secrets Lost ((k, v) :: fs) ((k, .string mark) :: gs)
  | shown {k : String} {v w : Payload} {fs gs : List (String × Payload)} (hk : ¬Lost k)
      (hshown : isSensitive k = false)
    (h : Masked secrets Lost v w) (hs : MaskedFields secrets Lost fs gs) :
    MaskedFields secrets Lost ((k, v) :: fs) ((k, w) :: gs)

end

mutual

def Keeps (Lost : String → Prop) : Payload → Prop
  | .list items => ItemsKeep Lost items
  | .record fields => FieldsKeep Lost fields
  | _ => True

def ItemsKeep (Lost : String → Prop) : List Payload → Prop
  | [] => True
  | v :: vs => Keeps Lost v ∧ ItemsKeep Lost vs

def FieldsKeep (Lost : String → Prop) : List (String × Payload) → Prop
  | [] => True
  | (k, v) :: fs => ¬Lost k ∧ (isSensitive k = false → Keeps Lost v) ∧ FieldsKeep Lost fs

end

variable (secrets : List Secret)

mutual

theorem redact_masked :
    ∀ {v : Payload}, v.AllTexts (fun _ => True) →
    Masked secrets (· = parentKey) v (redact secrets v)
  | .undefined, _ => .undefined
  | .null, _ => .null
  | .bool b, _ => .bool b
  | .number x, _ => .number x
  | .text s, _ => .text s
  | .list _, h => .list (redactItems_masked h)
  | .record _, h => .record (redactFields_masked h)

theorem redactItems_masked : ∀ {vs : List Payload}, Payload.ItemTexts (fun _ => True) vs →
    MaskedItems secrets (· = parentKey) vs (redactItems secrets vs)
  | [], _ => .nil
  | _ :: _, h => .cons (redact_masked h.1) (redactItems_masked h.2)

theorem redactFields_masked :
    ∀ {fs : List (String × Payload)}, Payload.FieldTexts (fun _ => True) fs →
    MaskedFields secrets (· = parentKey) fs (redactFields secrets fs)
  | [], _ => .nil
  | (k, v) :: fs, h => by
    have hs := redactFields_masked h.2
    unfold redactFields
    -- A member is lost before it is asked whether its key is sensitive.
    split
    · next hk => exact .lost v hk hs
    · next hk =>
      cases hsensitive : isSensitive k with
      | true => exact .hidden v hk hsensitive hs
      | false => exact .shown hk hsensitive (redact_masked h.1) hs

end

variable {secrets} {Lost : String → Prop}

mutual

theorem Masked.whole :
    ∀ {v w : Payload}, Masked secrets Lost v w → Keeps Lost v → Masked secrets (fun _ => False) v w
  | _, _, .undefined, _ => .undefined
  | _, _, .null, _ => .null
  | _, _, .bool b, _ => .bool b
  | _, _, .number x, _ => .number x
  | _, _, .text s, _ => .text s
  | _, _, .list h, hkeeps => .list (h.whole hkeeps)
  | _, _, .record h, hkeeps => .record (h.whole hkeeps)

theorem MaskedItems.whole :
    ∀ {vs ws : List Payload}, MaskedItems secrets Lost vs ws → ItemsKeep Lost vs →
    MaskedItems secrets (fun _ => False) vs ws
  | _, _, .nil, _ => .nil
  | _, _, .cons h hs, hkeeps => .cons (h.whole hkeeps.1) (hs.whole hkeeps.2)

theorem MaskedFields.whole :
    ∀ {fs gs : List (String × Payload)}, MaskedFields secrets Lost fs gs → FieldsKeep Lost fs →
    MaskedFields secrets (fun _ => False) fs gs
  | _, _, .nil, _ => .nil
  | _, _, .lost _ hk _, hkeeps => absurd hk hkeeps.1
  | _, _, .hidden v _ hhidden hs, hkeeps => .hidden v not_false hhidden (hs.whole hkeeps.2.2)
  | _, _, .shown _ hshown h hs, hkeeps =>
    .shown not_false hshown (h.whole (hkeeps.2.1 hshown)) (hs.whole hkeeps.2.2)

end

end Redaction

namespace Logger

open Redaction

/-- What a logger that redacts shows of a payload has its shape, and differs from it only under
sensitive keys and in texts with a secret; but members that are named like the parent of a record
are lost. One that does not redact shows the payload as it is. -/
theorem payload_masked (l : Logger) (timestamp : String) (call : LogCall)
    (henabled : l.isEnabled call.level = true) (hplain : call.payload.AllTexts fun _ => True) :
    ∃ e, l.entry? timestamp call = some e ∧
      (∀ heard, l.heard? timestamp call = some heard → heard.payload = e.payload) ∧
      (l.redacts = true →
        Masked l.secrets (· = parentKey) call.payload e.payload ∧
        (Keeps (· = parentKey) call.payload →
          Masked l.secrets (fun _ => False) call.payload e.payload)) ∧
      (∀ us, (∀ secret ∈ l.secrets, ¬secret.OccursIn us) → Secret.scrub l.secrets us = us) ∧
      (l.redacts = false → e.payload = call.payload) := by
  have hentry :
      l.entry? timestamp call = some ⟨timestamp, call.level, call.message,
        l.shownPayload call.payload⟩ := by
    unfold entry?
    rw [if_pos henabled]
  have htexts : (l.shownPayload call.payload).AllTexts fun _ => True := by
    unfold shownPayload
    split
    · exact redact_allTexts (fun _ => trivial) trivial (Payload.plain_allTexts call.payload)
    · exact hplain
  refine ⟨_, hentry, fun heard hheard => heard_payload_eq hentry htexts hheard, ?_, ?_, ?_⟩
  · intro hredacts
    have hmasked : Masked l.secrets (· = parentKey) call.payload (l.shownPayload call.payload) := by
      rw [shownPayload, if_pos hredacts, hplain.plain_eq]
      exact redact_masked l.secrets hplain
    exact ⟨hmasked, hmasked.whole⟩
  · exact fun s hs => Secret.scrub_of_not_occursIn hs
  · intro hredacts
    rw [shownPayload, hredacts, if_neg Bool.false_ne_true]

theorem payload_masked_nested :
    let l :=
      ofOptions {
        secrets :=
          some [.literal (Text.units "sk-"), .pattern ⟨⟨[(48, 57)], true⟩, [], true, false⟩] }
    let payload : Payload := .record [("b", .list [.null, .string "sk-12", .record []]),
      ("Token", .record [("__proto__", .null)]),
      ("a", .record [("1", .int 7), ("b", .bool true), ("note", .string "none")])]
    let call : LogCall := { level := .info, message := "m", payload }
    l.isEnabled call.level = true ∧ (payload.AllTexts fun _ => True) ∧ l.redacts = true ∧
    Keeps (· = parentKey) payload ∧
      ∃ e, l.entry? "2024-01-01T00:00:00.000Z" call = some e ∧
      Masked l.secrets (fun _ => False) payload e.payload := by
  intro l payload call
  have hplain : payload.AllTexts fun _ => True := by
    simp [payload, Payload.AllTexts, Payload.FieldTexts, Payload.ItemTexts]
  have hsensitive : isSensitive "Token" = true := by decide
  have hkeeps : Keeps (· = parentKey) payload := by
    simp [payload, Keeps, FieldsKeep, ItemsKeep, hsensitive, parentKey]
  obtain ⟨e, he, -, hredacted, -⟩ := payload_masked l "2024-01-01T00:00:00.000Z" call rfl hplain
  exact ⟨rfl, hplain, rfl, hkeeps, e, he, (hredacted rfl).2 hkeeps⟩

theorem payload_masked_needs_names :
    let l := ofOptions { redacts := some true }
    let payload : Payload := .record [("__proto__", .int 1)]
    l.redacts = true ∧ (payload.AllTexts fun _ => True) ∧
      ∃ e, l.entry? "2024-01-01T00:00:00.000Z" { level := .info, message := "m", payload } =
        some e ∧
        e.payload = .record [] ∧ ¬Masked l.secrets (fun _ => False) payload e.payload := by
  intro l payload
  refine ⟨rfl, ⟨trivial, trivial⟩, _, rfl, rfl, ?_⟩
  change ¬Masked l.secrets (fun _ => False) (.record [("__proto__", .int 1)]) (.record [])
  intro h
  cases h with
  | record hfields =>
    cases hfields with
    | lost v hk hs => exact hk

end Logger

end RuleForest
