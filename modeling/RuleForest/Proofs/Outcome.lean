import RuleForest.Engine.Run

namespace RuleForest

variable {H N α β : Type}

def Ending.barring (objection : Option Value) : Ending Unit :=
  objection.elim (.done ()) fun v => .thrown { value := v }

@[simp]
theorem Ending.barring_none : barring none = .done () := rfl

@[simp]
theorem Ending.barring_some (v : Value) : barring (some v) = .thrown { value := v } := rfl

@[simp]
theorem Ending.barring_ne_exhausted (objection : Option Value) :
    barring objection ≠ .exhausted := by
  cases objection <;> simp

namespace Outcome

def after (events : List (Event N)) (o : Outcome H N α) : Outcome H N α :=
  ⟨o.ending, o.engine, events ++ o.events⟩

@[simp]
theorem after_mk (events more : List (Event N)) (r : Ending α) (e : Engine H) :
    after events ⟨r, e, more⟩ = ⟨r, e, events ++ more⟩ := rfl

@[simp]
theorem after_ending (events : List (Event N)) (o : Outcome H N α) :
    (o.after events).ending = o.ending := rfl

@[simp]
theorem after_engine (events : List (Event N)) (o : Outcome H N α) :
    (o.after events).engine = o.engine := rfl

@[simp]
theorem after_events (events : List (Event N)) (o : Outcome H N α) :
    (o.after events).events = events ++ o.events := rfl

@[simp]
theorem after_nil (o : Outcome H N α) : o.after [] = o := rfl

@[simp]
theorem after_after (first second : List (Event N)) (o : Outcome H N α) :
    (o.after second).after first = o.after (first ++ second) := by
  simp only [after, List.append_assoc]

end Outcome

namespace Act

variable {act : Act H N α} {f : α → Act H N β} {e e₁ : Engine H} {es : List (Event N)}

theorem bind_of_done {a : α} (h : act e = ⟨.done a, e₁, es⟩) :
    (act >>= f) e = (f a e₁).after es := by
  change Act.bind act f e = _
  simp only [Act.bind, h]
  rfl

theorem bind_of_thrown {x : Thrown} (h : act e = ⟨.thrown x, e₁, es⟩) :
    (act >>= f) e = ⟨.thrown x, e₁, es⟩ := by
  change Act.bind act f e = _
  simp only [Act.bind, h]

theorem bind_of_exhausted (h : act e = ⟨.exhausted, e₁, es⟩) :
    (act >>= f) e = ⟨.exhausted, e₁, es⟩ := by
  change Act.bind act f e = _
  simp only [Act.bind, h]

theorem bind_cases (act : Act H N α) (f : α → Act H N β) (e : Engine H) :
    (∃ a e₁ es, act e = ⟨.done a, e₁, es⟩ ∧ (act >>= f) e = (f a e₁).after es) ∨
      (∃ x e₁ es, act e = ⟨.thrown x, e₁, es⟩ ∧ (act >>= f) e = ⟨.thrown x, e₁, es⟩) ∨
      (∃ e₁ es, act e = ⟨.exhausted, e₁, es⟩ ∧ (act >>= f) e = ⟨.exhausted, e₁, es⟩) := by
  rcases h : act e with ⟨a | x | _, e₁, es⟩
  · exact .inl ⟨a, e₁, es, rfl, bind_of_done h⟩
  · exact .inr (.inl ⟨x, e₁, es, rfl, bind_of_thrown h⟩)
  · exact .inr (.inr ⟨e₁, es, rfl, bind_of_exhausted h⟩)

theorem bind_pure_events (act : Act H N α) (b : β) (e : Engine H) :
    ((act >>= fun _ => pure b) e).events = (act e).events := by
  rcases bind_cases act (fun _ => pure b) e
    with ⟨a, e₁, es, h, ho⟩ | ⟨x, e₁, es, h, ho⟩ | ⟨e₁, es, h, ho⟩ <;>
    rw [ho, h]
  exact List.append_nil es

@[simp]
theorem pure_apply (a : α) (e : Engine H) : (pure a : Act H N α) e = ⟨.done a, e, []⟩ := rfl

@[simp]
theorem fail_apply (x : Thrown) (e : Engine H) : (fail x : Act H N α) e = ⟨.thrown x, e, []⟩ := rfl

@[simp]
theorem failWith_apply (fault : Fault) (e : Engine H) :
    (failWith fault : Act H N α) e = ⟨.thrown (.ofFault fault), e, []⟩ := rfl

@[simp]
theorem exhausted_apply (e : Engine H) : (exhausted : Act H N α) e = ⟨.exhausted, e, []⟩ := rfl

@[simp]
theorem state_apply (e : Engine H) : (state : Act H N (Engine H)) e = ⟨.done e, e, []⟩ := rfl

@[simp]
theorem emit_apply (es : List (Event N)) (e : Engine H) :
    (emit es : Act H N Unit) e = ⟨.done (), e, es⟩ := rfl

@[simp]
theorem update_apply (g : Engine H → Engine H) (e : Engine H) :
    (update g : Act H N Unit) e = ⟨.done (), g e, []⟩ := rfl

theorem log_apply (logger : Logger) (call : LogCall) (e : Engine H) :
    (log logger call : Act H N Unit) e =
      ⟨.barring (logger.objection? call), e, [.logged logger call]⟩ := by
  cases h : logger.objection? call <;> simp only [log, h] <;> rfl

@[simp]
theorem ruleName_apply (rule : RuleId) (e : Engine H) :
    (ruleName rule : Act H N String) e = ⟨.done (e.forest.nameOf rule), e, []⟩ := rfl

@[simp]
theorem hook?_apply (rule : RuleId) (phase : Phase) (e : Engine H) :
    (hook? rule phase : Act H N (Option H)) e =
      ⟨.done ((e.forest.get? rule).bind fun r => r.hook? phase), e, []⟩ :=
  rfl

@[simp]
theorem hook?_bind_apply (rule : RuleId) (phase : Phase) (f : Option H → Act H N β) (e : Engine H) :
    (hook? rule phase >>= f) e = f ((e.forest.get? rule).bind fun r => r.hook? phase) e := rfl

@[simp]
theorem state_bind_apply (f : Engine H → Act H N β) (e : Engine H) : (state >>= f) e = f e e := rfl

@[simp]
theorem pure_bind_apply (a : α) (f : α → Act H N β) (e : Engine H) :
    ((pure a : Act H N α) >>= f) e = f a e := rfl

@[simp]
theorem fail_bind_apply (x : Thrown) (f : α → Act H N β) (e : Engine H) :
    ((fail x : Act H N α) >>= f) e = ⟨.thrown x, e, []⟩ := rfl

@[simp]
theorem failWith_bind_apply (fault : Fault) (f : α → Act H N β) (e : Engine H) :
    ((failWith fault : Act H N α) >>= f) e = ⟨.thrown (.ofFault fault), e, []⟩ := rfl

@[simp]
theorem emit_bind_apply (es : List (Event N)) (f : Unit → Act H N β) (e : Engine H) :
    (emit es >>= f) e = (f () e).after es := rfl

@[simp]
theorem update_bind_apply (g : Engine H → Engine H) (f : Unit → Act H N β) (e : Engine H) :
    (update g >>= f) e = f () (g e) := rfl

@[simp]
theorem ruleName_bind_apply (rule : RuleId) (f : String → Act H N β) (e : Engine H) :
    (ruleName rule >>= f) e = f (e.forest.nameOf rule) e := rfl

theorem attempt_of_done {a : α} (h : act e = ⟨.done a, e₁, es⟩) :
    act.attempt e = ⟨.done (.ok a), e₁, es⟩ := by
  simp only [attempt, h]

theorem attempt_of_thrown {x : Thrown} (h : act e = ⟨.thrown x, e₁, es⟩) :
    act.attempt e = ⟨.done (.error x), e₁, es⟩ := by
  simp only [attempt, h]

theorem attempt_of_exhausted (h : act e = ⟨.exhausted, e₁, es⟩) :
    act.attempt e = ⟨.exhausted, e₁, es⟩ := by
  simp only [attempt, h]

theorem attempt_cases (act : Act H N α) (e : Engine H) :
    (∃ a e₁ es, act e = ⟨.done a, e₁, es⟩ ∧ act.attempt e = ⟨.done (.ok a), e₁, es⟩) ∨
      (∃ x e₁ es, act e = ⟨.thrown x, e₁, es⟩ ∧ act.attempt e = ⟨.done (.error x), e₁, es⟩) ∨
      (∃ e₁ es, act e = ⟨.exhausted, e₁, es⟩ ∧ act.attempt e = ⟨.exhausted, e₁, es⟩) := by
  rcases h : act e with ⟨a | x | _, e₁, es⟩
  · exact .inl ⟨a, e₁, es, rfl, attempt_of_done h⟩
  · exact .inr (.inl ⟨x, e₁, es, rfl, attempt_of_thrown h⟩)
  · exact .inr (.inr ⟨e₁, es, rfl, attempt_of_exhausted h⟩)

end Act

end RuleForest
