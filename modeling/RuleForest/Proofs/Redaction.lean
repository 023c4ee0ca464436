import Mathlib.Data.List.Forall2
import RuleForest.Proofs.Mirroring

namespace RuleForest

namespace Redaction

mutual

inductive Alike : Payload → Payload → Prop where
  | same (v : Payload) : Alike v v
  | list {vs ws : List Payload} (h : AlikeItems vs ws) : Alike (.list vs) (.list ws)
  | record {fs gs : List (String × Payload)} (h : AlikeFields fs gs) :
    Alike (.record fs) (.record gs)

inductive AlikeItems : List Payload → List Payload → Prop where
  | nil : AlikeItems [] []
  | cons {v w : Payload} {vs ws : List Payload} (h : Alike v w) (hs : AlikeItems vs ws) :
    AlikeItems (v :: vs) (w :: ws)

inductive AlikeFields : List (String × Payload) → List (String × Payload) → Prop where
  | nil : AlikeFields [] []
  | hidden {k : String} (v w : Payload) {fs gs : List (String × Payload)}
    (h : isSensitive k = true) (hs : AlikeFields fs gs) : AlikeFields ((k, v) :: fs) ((k, w) :: gs)
  | shown {k : String} {v w : Payload} {fs gs : List (String × Payload)} (h : Alike v w)
    (hs : AlikeFields fs gs) : AlikeFields ((k, v) :: fs) ((k, w) :: gs)

end

variable (secrets : List Secret)

mutual

theorem Alike.redact_eq : ∀ {v w : Payload}, Alike v w →
    redact secrets v.plain = redact secrets w.plain
  | _, _, .same _ => rfl
  | _, _, .list h => congrArg Payload.list h.redact_eq
  | _, _, .record h => congrArg Payload.record h.redact_eq

theorem AlikeItems.redact_eq : ∀ {vs ws : List Payload}, AlikeItems vs ws →
    redactItems secrets (Payload.plainItems vs) = redactItems secrets (Payload.plainItems ws)
  | _, _, .nil => rfl
  | _, _, .cons h hs => congrArg₂ List.cons h.redact_eq hs.redact_eq

theorem AlikeFields.redact_eq : ∀ {fs gs : List (String × Payload)}, AlikeFields fs gs →
    redactFields secrets (Payload.plainFields fs) = redactFields secrets (Payload.plainFields gs)
  | _, _, .nil => rfl
  | _, _, .hidden v w h hs => by
    simp only [Payload.plainFields, redactFields, h, ↓reduceIte, hs.redact_eq]
  | _, _, .shown h hs => by
    simp only [Payload.plainFields, redactFields, h.redact_eq, hs.redact_eq]

end

end Redaction

structure LogCall.Alike (c d : String × LogCall) : Prop where
  time : c.1 = d.1
  level : c.2.level = d.2.level
  message : c.2.message = d.2.message
  payload : Redaction.Alike c.2.payload d.2.payload

namespace LogCall.Alike

variable {l : Logger} {c d : String × LogCall}

theorem shownPayload_eq (h : LogCall.Alike c d) (hl : l.redacts = true) :
    l.shownPayload c.2.payload = l.shownPayload d.2.payload := by
  simp only [Logger.shownPayload, hl, ↓reduceIte, h.payload.redact_eq]

theorem entry?_eq (h : LogCall.Alike c d) (hl : l.redacts = true) :
    l.entry? c.1 c.2 = l.entry? d.1 d.2 := by
  rw [Logger.entry?, Logger.entry?, h.time, h.level, h.message, h.shownPayload_eq hl]

theorem objection?_eq (h : LogCall.Alike c d) (hl : l.redacts = true) :
    l.objection? c.2 = l.objection? d.2 := by
  rw [Logger.objection?, Logger.objection?, h.level, h.message, h.shownPayload_eq hl]

theorem printed?_eq (h : LogCall.Alike c d) (hl : l.redacts = true) :
    l.printed? c.1 c.2 = l.printed? d.1 d.2 := by
  rw [Logger.printed?, Logger.printed?, h.entry?_eq hl]

theorem heard?_eq (h : LogCall.Alike c d) (hl : l.redacts = true) :
    l.heard? c.1 c.2 = l.heard? d.1 d.2 := by
  rw [Logger.heard?, Logger.heard?, h.entry?_eq hl]

variable [FileSystem]

theorem mirror_eq (h : LogCall.Alike c d) (hl : l.redacts = true) (m : Mirror) (t : FileTree) :
    Mirror.log l c.1 m t c.2 = Mirror.log l d.1 m t d.2 := by
  rw [Mirror.log, Mirror.log, h.entry?_eq hl, h.objection?_eq hl]

theorem logAll_eq {calls others : List (String × LogCall)}
    (h : List.Forall₂ LogCall.Alike calls others) (hl : l.redacts = true) (m : Mirror)
    (t : FileTree) :
    Mirror.logAll l m t calls = Mirror.logAll l m t others := by
  induction h generalizing m t with
  | nil => rfl
  | cons h _ ih => simp only [Mirror.logAll, h.mirror_eq hl, ih]

end LogCall.Alike

namespace Logger

theorem map_eq_of_alike {α : Type} {f : String → LogCall → α}
    {calls others : List (String × LogCall)} (h : List.Forall₂ LogCall.Alike calls others)
    (hf : ∀ {c d : String × LogCall}, LogCall.Alike c d → f c.1 c.2 = f d.1 d.2) :
    (calls.map fun c => f c.1 c.2) = others.map fun c => f c.1 c.2 := by
  rw [← List.forall₂_eq_eq_eq, List.forall₂_map_left_iff, List.forall₂_map_right_iff]
  exact h.imp fun _ _ hc => hf hc

/-- Nothing that stands under a sensitive key shows in what a logger with redaction prints, passes
on or leaves in files. -/
theorem sinks_of_alike [FileSystem] (l : Logger) (hl : l.redacts = true)
    {calls others : List (String × LogCall)} (h : List.Forall₂ LogCall.Alike calls others) :
    (calls.map fun c => l.printed? c.1 c.2) = (others.map fun c => l.printed? c.1 c.2) ∧
      (calls.map fun c => l.heard? c.1 c.2) = (others.map fun c => l.heard? c.1 c.2) ∧
      (∀ m t, Mirror.logAll l m t calls = Mirror.logAll l m t others) ∧
      Mirror.leave l calls = Mirror.leave l others := by
  have hfiles (m : Mirror) (t : FileTree) :
      Mirror.logAll l m t calls = Mirror.logAll l m t others :=
    LogCall.Alike.logAll_eq h hl m t
  refine ⟨map_eq_of_alike h fun hc => hc.printed?_eq hl,
    map_eq_of_alike h fun hc => hc.heard?_eq hl, hfiles, ?_⟩
  unfold Mirror.leave
  cases Mirror.ofLogger? l with
  | none => rfl
  | some m => simp only [hfiles]

def signIn (password : Payload) : String × LogCall :=
  ("2024-01-01T00:00:00.000Z", {
    level := .info
    message := "sign-in"
    payload := .record [("users", .list [.record [("id", .int 7), ("Password", password)]])] })

theorem sinks_of_alike_signIn :
    letI := FileSystem.ordinary
    let l :=
      ofOptions { file := some "x.log", redacts := some true, listener := some fun _ => none }
    let calls := [signIn (.string "open sesame")]
    let others := [signIn (.record [("old", .list [.null])])]
    l.redacts = true ∧ List.Forall₂ LogCall.Alike calls others ∧
      (calls.map fun c => l.printed? c.1 c.2) = (others.map fun c => l.printed? c.1 c.2) ∧
      (calls.map fun c => l.heard? c.1 c.2) = (others.map fun c => l.heard? c.1 c.2) ∧
      Mirror.leave l calls = Mirror.leave l others := by
  let _ := FileSystem.ordinary
  intro l calls others
  have hsensitive : Redaction.isSensitive "Password" = true := by decide
  have hfields : Redaction.AlikeFields [("id", .int 7), ("Password", .string "open sesame")]
      [("id", .int 7), ("Password", .record [("old", .list [.null])])] :=
    .shown (.same _) (.hidden _ _ hsensitive .nil)
  have hpayload : Redaction.Alike (signIn (.string "open sesame")).2.payload
      (signIn (.record [("old", .list [.null])])).2.payload :=
    .record (.shown (.list (.cons (.record hfields) .nil)) .nil)
  have halike : List.Forall₂ LogCall.Alike calls others := .cons ⟨rfl, rfl, rfl, hpayload⟩ .nil
  obtain ⟨hprinted, hheard, -, hleave⟩ := sinks_of_alike l rfl halike
  exact ⟨rfl, halike, hprinted, hheard, hleave⟩

end Logger

end RuleForest
