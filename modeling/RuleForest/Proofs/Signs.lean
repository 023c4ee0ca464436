import RuleForest.Proofs.Traversal

namespace RuleForest

variable {H N : Type}

inductive Sign where
  | hook (rule : RuleId) (phase : Phase)
  | report (rule : RuleId) (name : String) (status : Status)
deriving DecidableEq

def Sign.rule : Sign → RuleId
  | hook rule _ => rule
  | report rule _ _ => rule

def Event.sign? : Event N → Option Sign
  | .invoked rule phase _ => some (.hook rule phase)
  | .reached rule name status _ => some (.report rule name status)
  | _ => none

def signs (events : List (Event N)) : List Sign := events.filterMap Event.sign?

@[simp]
theorem signs_nil : signs ([] : List (Event N)) = [] := rfl

@[simp]
theorem signs_append (before after : List (Event N)) :
    signs (before ++ after) = signs before ++ signs after :=
  List.filterMap_append

@[simp]
theorem signs_invoked (rule : RuleId) (phase : Phase) (view : View) (es : List (Event N)) :
    signs (.invoked rule phase view :: es) = .hook rule phase :: signs es := rfl

@[simp]
theorem signs_reached (rule : RuleId) (name : String) (status : Status) (reported : Bool)
    (es : List (Event N)) :
    signs (.reached rule name status reported :: es) = .report rule name status :: signs es := rfl

@[simp]
theorem signs_logged (logger : Logger) (call : LogCall) (es : List (Event N)) :
    signs (.logged logger call :: es) = signs es := rfl

theorem signs_of_logged (logger : Logger) {es : List (Event N)}
    (h : ∀ event ∈ es, ∃ call, event = .logged logger call) : signs es = [] := by
  rw [signs, List.filterMap_eq_nil_iff]
  intro event hm
  obtain ⟨call, rfl⟩ := h event hm
  rfl

@[simp]
theorem signs_closing (request : Request) (logger : Logger) (r : Ending Unit) :
    signs (request.closing logger r : List (Event N)) = [] :=
  signs_of_logged logger fun _ => Request.closing_logged

@[simp]
theorem signs_started (request : Request) (logger : Logger) (es : List (Event N)) :
    signs (request.started logger :: es) = signs es := rfl

theorem signs_run (request : Request) (logger : Logger) (r : Ending Unit) (es : List (Event N)) :
    signs (request.started logger :: (es ++ request.closing logger r)) = signs es := by
  rw [signs_started, signs_append, signs_closing, List.append_nil]

@[simp]
theorem signs_telling (binding : Binding) (rule : RuleId) (name : String) (strategy : Strategy)
    (children : Nat) (status : Status) :
    signs (binding.telling rule name strategy children status : List (Event N)) =
      [.report rule name status] := by
  rw [Binding.telling, signs_reached, signs_of_logged binding.logger]
  intro event hm
  split at hm
  · exact absurd hm List.not_mem_nil
  · obtain ⟨call, -, rfl⟩ := List.mem_map.mp hm
    exact ⟨call, rfl⟩

def Touched (w : List Sign) (rule : RuleId) : Prop := ∃ s ∈ w, s.rule = rule

def Reached (w : List Sign) (rule : RuleId) (status : Status) : Prop :=
  ∃ name, .report rule name status ∈ w

section

variable {u v w : List Sign} {rule : RuleId} {status : Status}

@[simp]
theorem not_touched_nil (rule : RuleId) : ¬Touched [] rule := by simp [Touched]

@[simp]
theorem touched_append : Touched (u ++ v) rule ↔ Touched u rule ∨ Touched v rule := by
  simp only [Touched, List.mem_append, or_and_right, exists_or]

@[simp]
theorem not_reached_nil (rule : RuleId) (status : Status) :
    ¬Reached [] rule status := by simp [Reached]

@[simp]
theorem reached_append :
    Reached (u ++ v) rule status ↔ Reached u rule status ∨ Reached v rule status := by
  simp only [Reached, List.mem_append, exists_or]

theorem touched_of_report {name : String} (h : .report rule name status ∈ w) : Touched w rule :=
  ⟨_, h, rfl⟩

theorem Reached.touched (h : Reached w rule status) : Touched w rule := by
  obtain ⟨name, h⟩ := h
  exact touched_of_report h

theorem reached_append_left (h : ¬Touched v rule) :
    Reached (u ++ v) rule status ↔ Reached u rule status := by
  rw [reached_append]
  exact ⟨fun hr => hr.elim id fun hv => absurd hv.touched h, .inl⟩

theorem reached_append_right (h : ¬Touched u rule) :
    Reached (u ++ v) rule status ↔ Reached v rule status := by
  rw [reached_append]
  exact ⟨fun hr => hr.elim (fun hu => absurd hu.touched h) id, .inr⟩

end

def Event.OfHook : Event N → Prop
  | .invoked _ _ _ => False
  | .reached _ _ _ _ => False
  | .logged _ _ => False
  | _ => True

def Event.Flat : Event N → Prop
  | .nested _ => False
  | _ => True

theorem signs_of_ofHook {es : List (Event N)} (h : ∀ event ∈ es, event.OfHook) : signs es = [] := by
  rw [signs, List.filterMap_eq_nil_iff]
  intro event hm
  have hev := h event hm
  cases event <;> first | rfl | exact hev.elim

namespace Act

variable {α β : Type}

theorem forall_bind {Q : Event N → Prop} {act : Act H N α} {f : α → Act H N β} {e : Engine H}
    (ha : ∀ event ∈ (act e).events, Q event) (hf : ∀ a e, ∀ event ∈ (f a e).events, Q event) :
    ∀ event ∈ ((act >>= f) e).events, Q event := by
  rcases bind_cases act f e with ⟨a, e₁, es, h, ho⟩ | ⟨x, e₁, es, h, ho⟩ | ⟨e₁, es, h, ho⟩ <;>
    rw [h] at ha <;> rw [ho]
  · intro event hm
    exact (List.mem_append.mp hm).elim (ha event) (hf a e₁ event)
  · exact ha
  · exact ha

theorem perform_events (op : Operation H N) (runs : Request → Act H N Unit) (view : View)
    (e : Engine H) :
    ∀ event ∈ (op.perform runs view e).events, event.OfHook ∧ (op.StartsNoRun → event.Flat) := by
  have hnil : ∀ event ∈ ([] : List (Event N)), event.OfHook ∧ (op.StartsNoRun → event.Flat) := by
    simp
  have hone {event : Event N} (h : event.OfHook) (hflat : op.StartsNoRun → event.Flat) :
      ∀ event' ∈ [event], event'.OfHook ∧ (op.StartsNoRun → event'.Flat) := by
    intro event' hm
    rw [List.mem_singleton.mp hm]
    exact ⟨h, hflat⟩
  cases op with
  | log call => exact hone trivial fun _ => trivial
  | note n => exact hone trivial fun _ => trivial
  | cancel handle reason =>
    simp only [Operation.perform, cancel]
    intro event hm
    rcases List.mem_append.mp hm with hm | hm
    · split at hm
      · rw [List.mem_singleton.mp hm]
        exact ⟨trivial, fun _ => trivial⟩
      · simp at hm
    · obtain ⟨notice, -, rfl⟩ := List.mem_map.mp hm
      exact ⟨trivial, fun _ => trivial⟩
  | abort controller reason =>
    simp only [Operation.perform, abort]
    split
    · exact hone trivial fun _ => trivial
    · exact hnil
  | throwIfAborted =>
    simp only [Operation.perform, throwIfAborted]
    split <;> exact hnil
  | throwIfCancelled handle =>
    simp only [Operation.perform, throwIfCancelled]
    split <;> exact hnil
  | addChildren rule batch =>
    rcases h : e.forest.addChildren rule batch with fault | g <;>
      simp only [Operation.perform, ofExcept, state_bind_apply, h] <;> exact hnil
  | run request =>
    simp only [Operation.perform]
    rcases hr : runs request e with ⟨⟨⟩ | x | _, e₁, es⟩
    · have hn : (runs request).asNested e = ⟨.done (), e₁, [.nested es]⟩ := by
        simp only [asNested, hr]
      rw [bind_of_done (attempt_of_done hn)]
      exact hone trivial id
    · have hn : (runs request).asNested e = ⟨.thrown x, e₁, [.nested es]⟩ := by
        simp only [asNested, hr]
      rw [bind_of_done (attempt_of_thrown hn)]
      exact hone trivial id
    · have hn : (runs request).asNested e = ⟨.exhausted, e₁, [.nested es]⟩ := by
        simp only [asNested, hr]
      rw [bind_of_exhausted (attempt_of_exhausted hn)]
      exact hone trivial id
  | _ => exact hnil

theorem perform_ofHook (op : Operation H N) (runs : Request → Act H N Unit) (view : View)
    (e : Engine H) :
    ∀ event ∈ (op.perform runs view e).events, event.OfHook :=
  fun event hm => (perform_events op runs view e event hm).1

theorem carryOut_ofHook (runs : Request → Act H N Unit) (view : View) (p : Program H N α)
    (e : Engine H) :
    ∀ event ∈ (p.carryOut runs view e).events, event.OfHook := by
  induction p generalizing e with
  | done a => simp [Program.carryOut]
  | fail x => simp [Program.carryOut]
  | step op next ih => exact forall_bind (perform_ofHook op runs view e) ih

theorem carryOut_flat {p : Program H N α} (noRun : p.Obeys Operation.StartsNoRun)
    (runs : Request → Act H N Unit) (view : View) (e : Engine H) :
    ∀ event ∈ (p.carryOut runs view e).events, event.Flat := by
  induction p generalizing e with
  | done a => simp [Program.carryOut]
  | fail x => simp [Program.carryOut]
  | step op next ih =>
    exact forall_bind (fun event hm => (perform_events op runs view e event hm).2 noRun.1)
      fun a e => ih a (noRun.2 a) e

theorem call_flat {b : Behavior H N} (noRun : b.Obeys Operation.StartsNoRun)
    (runs : Request → Act H N Unit) (h : H) (phase : Phase) (view : View) (e : Engine H) :
    ∀ event ∈ (b.call runs h phase view e).events, event.Flat := by
  cases phase with
  | stage s => exact carryOut_flat (noRun.execute h s view) runs view e
  | evaluate =>
    exact forall_bind (carryOut_flat (noRun.evaluate h view) runs view e) fun verdict e => by simp

theorem call_ofHook (b : Behavior H N) (runs : Request → Act H N Unit) (h : H) (phase : Phase)
    (view : View) (e : Engine H) : ∀ event ∈ (b.call runs h phase view e).events, event.OfHook := by
  cases phase with
  | stage s => exact carryOut_ofHook runs view _ e
  | evaluate => exact forall_bind (carryOut_ofHook runs view _ e) fun verdict e => by simp

theorem call_signs (b : Behavior H N) (runs : Request → Act H N Unit) (h : H) (phase : Phase)
    (view : View) (e : Engine H) : signs (b.call runs h phase view e).events = [] :=
  signs_of_ofHook (call_ofHook b runs h phase view e)

end Act

end RuleForest
