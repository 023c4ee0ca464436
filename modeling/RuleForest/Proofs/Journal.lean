import Mathlib.Data.List.Forall2
import RuleForest.Proofs.Account
import RuleForest.Proofs.Units

namespace RuleForest

variable {H N : Type}

def Event.message? : Event N → Option (Logger × LogCall)
  | .logged logger call => some (logger, call)
  | _ => none

section

variable {b : Behavior H N} {binding : Binding} {f : Forest H}

end

namespace Act

variable {b : Behavior H N} {binding : Binding} {rule : RuleId} {rules : List RuleId} {depth : Nat}
variable {e e₁ : Engine H} {x : Thrown}

theorem serve_thrown {strategy : Strategy} {own : List (Event N)}
    (served : serve b (run b depth) rule binding strategy e = ⟨.thrown x, e₁, own⟩) :
    x.Proper ∨ Objected binding own x := by
  rcases serve_blames served with ⟨reason, -, -, rfl⟩ | hobjected | hmisfires | ⟨-, hx⟩
  · exact .inl (.inl rfl)
  · exact .inr hobjected
  · exact .inl (.inl hmisfires.isEngineError)
  · exact .inl (.inr hx)

theorem Traverses.proper {o : Outcome H N Unit} (h : Traverses b binding depth rules e o)
    (hx : o.ending = .thrown x) : x.Proper ∨ Objected binding o.events x := by
  have hraised {e : Engine H} {rule : RuleId} {es : List (Event N)} {x : Thrown}
      (h : x.Proper ∨ Objected binding es x) :
      (binding.raised (e.forest.nameOf rule) x).Proper ∨
        Objected binding (es ++ [e.report binding rule .failed])
          (binding.raised (e.forest.nameOf rule) x) := by
    rw [Binding.raised]
    cases ho : binding.objection (e.forest.nameOf rule) .failed with
    | none => exact h.imp id fun h => h.append _
    | some v => exact .inr (.reporter (List.mem_append_right _ List.mem_cons_self) ho rfl)
  induction h generalizing x with
  | nil => cases hx
  | declined found served rest ih => exact (ih hx).imp id fun h => h.prepend _
  | passed found served below goesOn rest ihBelow ih => exact (ih hx).imp id fun h => h.prepend _
  | stopped => cases hx
  | failed found served =>
    cases hx
    exact hraised (serve_thrown served)
  | failedBelow found served below ih =>
    cases hx
    exact hraised ((ih rfl).imp id fun h => h.prepend _)

end Act

def Request.objection (request : Request) (name : String) (status : Status) : Option Value :=
  request.reporter.bind fun report => report name status

def Value.named? : Value → Option (String × String)
  | .exception kind message => some (kind.name, message)
  | .fault f => some (f.name, f.message)
  | _ => none

theorem Thrown.Proper.named {x : Thrown} (h : x.Proper) : x.value.named?.isSome := by
  rcases h with h | rfl
  · cases hv : x.value <;> first | rfl | simp [hv, isEngineError] at h
  · rfl

namespace Act

end Act

end RuleForest
