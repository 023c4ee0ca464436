import RuleForest.Proofs.Rejection

namespace RuleForest

structure Fault.Akin (f g : Fault) : Prop where
  name : g.name = f.name
  message : g.message = f.message
  code : g.code = f.code
  hint : g.hint = f.hint
  details : g.details = f.details

namespace Fault

variable {f g : Fault}

theorem Akin.refl (f : Fault) : f.Akin f := ⟨rfl, rfl, rfl, rfl, rfl⟩

theorem akin_cancelled (rule reason : Option String) (cause cause' : Option Value) :
    (cancelled rule reason cause).Akin (.cancelled rule reason cause') := ⟨rfl, rfl, rfl, rfl, rfl⟩

theorem message_evaluation (rule : String) (cause : Value) :
    (evaluation rule cause).message = "evaluation of " ++ rule ++ " failed: " ++ cause.shown true :=
  rfl

theorem message_execution (rule : String) (stage : Stage) (cause : Value) :
    (execution rule stage cause).message =
      stage.text ++ " of " ++ rule ++ " failed: " ++ cause.shown true := rfl

theorem isCancellation_eq (f : Fault) : f.isCancellation = (f.name == "RuleCancelledError") := by
  cases f <;> simp [isCancellation, name]

theorem exists_missingKey_iff :
    (∃ key, f = .missingKey key) ↔ f.name = "MissingContextKeyError" := by
  cases f <;> simp [name]

end Fault

inductive Value.Akin : Value → Value → Prop where
  | refl (v : Value) : Akin v v
  | fault {f g : Fault} (akin : f.Akin g) : Akin (.fault f) (.fault g)

namespace Value.Akin

variable {v w : Value}

theorem shown (h : v.Akin w) (asCause : Bool) : w.shown asCause = v.shown asCause := by
  cases h with
  | refl => rfl
  | fault akin => simp only [Value.shown, akin.name, akin.message]

theorem isGiven (h : v.Akin w) : w.isGiven = v.isGiven := by cases h <;> rfl

theorem hasText (h : v.Akin w) : w.hasText = v.hasText := by cases h <;> rfl

theorem same (h : v.Akin w) (u : Value) : w.same u = v.same u := by cases h <;> rfl

theorem isAbortError (h : v.Akin w) : isAbortError w = isAbortError v := by cases h <;> rfl

theorem isCancellation (h : v.Akin w) : isCancellation w = isCancellation v := by
  cases h with
  | refl => rfl
  | fault akin => simp only [RuleForest.isCancellation, Fault.isCancellation_eq, akin.name]

theorem failurePayload (h : v.Akin w) : Act.failurePayload w = Act.failurePayload v := by
  cases h with
  | refl => rfl
  | fault akin => simp only [Act.failurePayload, akin.name, akin.message]

theorem missingKey (h : v.Akin w) :
    (∃ key, w = .fault (.missingKey key)) ↔ ∃ key, v = .fault (.missingKey key) := by
  cases h with
  | refl => exact Iff.rfl
  | fault akin =>
    simp only [Value.fault.injEq]
    rw [Fault.exists_missingKey_iff, Fault.exists_missingKey_iff, akin.name]

theorem phase (h : v.Akin w) (phase : Phase) (rule : String) :
    (phase.fault rule v).Akin (phase.fault rule w) where
  name := by cases phase <;> rfl
  message := by
    cases phase with
    | evaluate =>
      rw [Phase.fault, Phase.fault, Fault.message_evaluation, Fault.message_evaluation, h.shown]
    | stage s =>
      rw [Phase.fault, Phase.fault, Fault.message_execution, Fault.message_execution, h.shown]
  code := by cases phase <;> rfl
  hint := by cases phase <;> rfl
  details := by cases phase <;> rfl

end Value.Akin

structure Thrown.Akin (x x' : Thrown) : Prop where
  value : x.value.Akin x'.value
  reasonOf : x'.reasonOf = x.reasonOf

namespace Thrown.Akin

variable {x x' : Thrown}

theorem refl (x : Thrown) : x.Akin x := ⟨.refl _, rfl⟩

theorem ofFault {f g : Fault} (h : f.Akin g) : (Thrown.ofFault f).Akin (.ofFault g) :=
  ⟨.fault h, rfl⟩

theorem lasts (h : x.Akin x') : x'.Lasts ↔ x.Lasts := by
  unfold Thrown.Lasts
  rw [h.value.missingKey, h.value.isCancellation]

theorem isReasonOf (h : x.Akin x') (id : SignalId) (reason : Value) :
    x'.isReasonOf id reason = x.isReasonOf id reason := by
  unfold Thrown.isReasonOf
  rw [h.reasonOf, h.value.same]

end Thrown.Akin

theorem Value.Akin.showing {v w : Value} (h : v.Akin w) {f g : Fault} (hfault : f.Akin g) :
    (Thrown.showing v f).Akin (.showing w g) := by
  rcases Thrown.showing_cases v f with ⟨hv, hx⟩ | ⟨hv, hx⟩ <;>
    rcases Thrown.showing_cases w g with ⟨hw, hx'⟩ | ⟨hw, hx'⟩ <;> rw [hx, hx']
  · exact .ofFault hfault
  · exact absurd (h.hasText.trans hv) hw
  · exact absurd (h.hasText.symm.trans hw) hv
  · exact .refl _

inductive Ending.Akin {α : Type} : Ending α → Ending α → Prop where
  | done (a : α) : Akin (.done a) (.done a)
  | thrown {x x' : Thrown} (akin : x.value.Akin x'.value) : Akin (.thrown x) (.thrown x')
  | exhausted : Akin .exhausted .exhausted

def Ending.text? {α : Type} : Ending α → Option String
  | .thrown x => some x.value.toText
  | _ => none

theorem Ending.Akin.text?_eq {α : Type} {r r' : Ending α} (h : r.Akin r') : r'.text? = r.text? := by
  cases h with
  | thrown akin => exact congrArg some (akin.shown false)
  | _ => rfl

end RuleForest
