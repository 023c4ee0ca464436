import RuleForest.Proofs.Interchange

namespace RuleForest

variable {H N α : Type}

/-- The one cancels the handle `i` with the reason `s` where the other aborts the controller in its
place with that text; else they do the same. Errors that they throw or report may differ in their
causes, as those do that runs within them end with. Neither a hook that is lent the signal nor a log
throws its reason. -/
inductive Program.Twin (i : SignalId) (s : String) (signal : Option SignalId)
    (results : α → α → Prop) :
    Program H N α → Program H N α → Prop where
  | done {a a' : α} (result : results a a') : Twin i s signal results (.done a) (.done a')
  | fail {x x' : Thrown} (akin : x.Akin x') (foreign : signal = some i → x'.value ≠ .text s) :
      Twin i s signal results (.fail x) (.fail x')
  | step {op : Operation H N} {next next' : op.Response → Program H N α}
      (spares : op.Spares i signal)
      (rest : ∀ answer, Twin i s signal results (next answer) (next' answer)) :
      Twin i s signal results (.step op next) (.step op next')
  | log {call : LogCall} {next next' : Option Value → Program H N α}
      (rest : ∀ answer, answer ≠ some (.text s) →
        Twin i s signal results (next answer) (next' answer)) :
      Twin i s signal results (.step (.log call) next) (.step (.log call) next')
  | run {request : Request} {next next' : Option Thrown → Program H N α}
      (logs : ∀ l, request.logger = some l → l.Withholds s)
      (rest : ∀ answer answer',
        Option.Rel (fun x x' =>
          x.Akin x' ∧ (x'.value = .text s → MayThrow request.reporter (.text s))) answer answer' →
          Twin i s signal results (next answer) (next' answer')) :
      Twin i s signal results (.step (.run request) next) (.step (.run request) next')
  | cancel {next : CancelOutcome → Program H N α} {next' : Unit → Program H N α}
      (rest : ∀ outcome, Twin i s signal results (next outcome) (next' ())) :
      Twin i s signal results (.step (.cancel i (some s)) next) (.step (.abort i (.text s)) next')

structure Behavior.Twins (i : SignalId) (s : String) (b b' : Behavior H N) : Prop where
  evaluate (h : H) (view : View) :
    (b.evaluate h view).Twin i s view.signal (Verdict.Rel Value.Akin) (b'.evaluate h view)
  execute (h : H) (stage : Stage) (view : View) :
    (b.execute h stage view).Twin i s view.signal (Option.Rel Value.Akin) (b'.execute h stage view)

section

variable {i : SignalId} {s : String} {view : View} {runs runs' : Request → Act H N Unit}

theorem Program.Twin.paired (given : Text.isBlankText s = false) {results : α → α → Prop}
    {p p' : Program H N α} (h : p.Twin i s view.signal results p') (told : view.logger.Withholds s)
    (hruns : (interchange H N i s).Runs runs runs') :
    (interchange H N i s).Keeps ((interchange H N i s).raised view.signal) results
      (p.carryOut runs view)
      (p'.carryOut runs' view) := by
  have sound := interchange_sound (H := H) (N := N) (i := i) given
  induction h with
  | done result => exact .pure sound result
  | fail akin foreign => exact .fail sound ⟨akin, foreign⟩
  | step spares rest ih =>
    apply Pairing.Keeps.bind sound (spares.paired given)
    rintro answer _ rfl
    exact ih answer
  | @log call next next' rest ih =>
    intro e e' h
    exact (ih _ (told call) e e' h).after sound.toComposes rfl
  | @run request next next' logs rest ih =>
    have hlent : (interchange H N i s).Lends request.context request.signal request.logger :=
      { Scope.all_covers _ _ with log := logs _ }
    refine Pairing.Keeps.bind sound ?_ ih
    apply Pairing.Keeps.bind sound ((hruns request hlent).asNested sound).attempt
    rintro _ _ (rfl | what)
    · exact .pure sound .none
    · exact .pure sound (.some what)
  | cancel rest ih =>
    exact .bind sound (fun _ _ h => interchange_swapped h.1 h.2) fun outcome _ _ => ih outcome

theorem Behavior.Twins.hooks (given : Text.isBlankText s = false) {b b' : Behavior H N}
    (twins : b.Twins i s b') :
    (interchange H N i s).Hooks b b' where
  evaluate h _ _ _ lent hruns := (twins.evaluate h _).paired given (lent.log rfl) hruns
  execute h stage _ _ _ lent hruns := (twins.execute h stage _).paired given (lent.log rfl) hruns

end

namespace Act

/-- Whether a run is cancelled through a handle or through a controller, before it or by a hook: it
invokes the same hooks, reports and logs the same, leaves the same contexts and comes to the same
end, or both throw errors of the same class with the same message and details. -/
theorem run_cancelled_either_way {i : SignalId} {s : String} (given : Text.isBlankText s = false)
    {b b' : Behavior H N} (twins : b.Twins i s b') {e e' : Engine H} (h : e.Interchanged i s e')
    (logs : e.LogWithholds s) (depth : Nat) (request : Request)
    (log : ∀ l, request.logger = some l → l.Withholds s) :
    (run b depth request e).ending.Akin (run b' depth request e').ending ∧
      withoutNotices (run b' depth request e').events =
        withoutNotices (run b depth request e).events ∧
      (run b depth request e).engine.Interchanged i s (run b' depth request e').engine := by
  have lent : (interchange H N i s).Lends request.context request.signal request.logger :=
    { Scope.all_covers _ _ with log := log _ }
  have hrun :=
    (interchange_sound given).run (twins.hooks given) (.inl (Eq.refl depth)) lent e e' ⟨h, logs⟩
  generalize run b depth request e = o at hrun ⊢
  generalize run b' depth request e' = o' at hrun ⊢
  cases hrun with
  | done answer state events => exact ⟨answer ▸ .done _, events, state.1⟩
  | thrown what state events => exact ⟨.thrown what.1.value, events, state.1⟩
  | exhausted state events => exact ⟨.exhausted, events, state.1⟩
  | cut lax => exact lax.elim

end Act

theorem Engine.interchanged_add (e : Engine H) {s : String} {signal signal' : Signal}
    (h : Signals.Swapped s (some signal.front) (some signal'.front)) :
    (e.addSignal signal).2.Interchanged e.signals.all.size s (e.addSignal signal').2 where
  forest := rfl
  contexts := rfl
  defaultLogger := rfl
  environment := rfl
  swapped := by
    simp only [Engine.addSignal, Signals.add, Signals.front?, Signals.get?,
      Array.getElem?_push_size, Option.map_some]
    exact h
  others id hid := by
    simp only [Engine.addSignal, Signals.add, Signals.front?, Signals.get?, Array.getElem?_push,
      if_neg hid]

def nest : Engine Bool where
  forest := { rules := #[{ strategy := .chain, name := "outer", execution := some true },
    { strategy := .chain, name := "inner", execution := some false }] }
  contexts := #[.empty]

def lend (rule : RuleId) : Request :=
  { Request.chain (some 0) (some rule) with signal := some 0, logger := some (.ofOptions {}) }

theorem lend_withholds {rule : RuleId} {l : Logger} (h : (lend rule).logger = some l) (s : String) :
    l.Withholds s := by
  cases h
  exact Logger.withholds_of_unheard rfl s

def stopping (stop : Program Bool Unit Unit) : Behavior Bool Unit where
  evaluate _ _ := .done { shouldExecute := true }
  execute
    | true, _, _ => do
      stop
      (← Program.perform (.run (lend 1))).elim (.done none) .fail
    | false, _, _ => .done none

def byHandle (s : String) : Behavior Bool Unit :=
  stopping (do let _ ← Program.perform (.cancel 0 (some s)))

def byController (s : String) : Behavior Bool Unit :=
  stopping (Program.perform (.abort 0 (.text s)))

theorem byHandle_twins (s : String) : (byHandle s).Twins 0 s (byController s) where
  evaluate _ _ := .done ⟨rfl, .none⟩
  execute h _ view := by
    cases h with
    | true =>
      refine .cancel fun _ => .run (fun l hl => lend_withholds hl s) ?_
      rintro _ _ (what | _)
      · exact .fail what.1 fun _ hx => (not_mayThrow_none _ (what.2 hx)).elim
      · exact .done .none
    | false => exact .done .none

namespace Act

theorem run_cancelled_either_way_inner :
    let e := (nest.addSignal (.handle { clock := fun _ => .ofInt 0 })).2
    let e' := (nest.addSignal (.controller none)).2
    let o := run (byHandle "stop") 2 (lend 0) e
    let o' := run (byController "stop") 2 (lend 0) e'
    Text.isBlankText "stop" = false ∧ (byHandle "stop").Twins 0 "stop" (byController "stop") ∧
      e.Interchanged 0 "stop" e' ∧ e.LogWithholds "stop" ∧
      o.ending.text? = some "RuleCancelledError: rule execution cancelled: stop" ∧
      o.ending.Akin o'.ending ∧ withoutNotices o'.events = withoutNotices o.events ∧
      o.engine.Interchanged 0 "stop" o'.engine := by
  intro e e' o o'
  have given : Text.isBlankText "stop" = false := by decide +kernel
  have h : e.Interchanged 0 "stop" e' := nest.interchanged_add .opened
  have twins := byHandle_twins "stop"
  have logs : e.LogWithholds "stop" := by rintro l ⟨⟩
  exact ⟨given, twins, h, logs, by decide +kernel,
    run_cancelled_either_way given twins h logs 2 (lend 0) fun _ hl => lend_withholds hl "stop"⟩

theorem run_cancelled_either_way_needs_reason :
    let e := (nest.addSignal (.handle { clock := fun _ => .ofInt 0 })).2
    let e' := (nest.addSignal (.controller none)).2
    (byHandle " ").Twins 0 " " (byController " ") ∧ e.Interchanged 0 " " e' ∧
      ¬(run (byHandle " ") 2 (lend 0) e).ending.Akin
        (run (byController " ") 2 (lend 0) e').ending := by
  intro e e'
  have htext :
      (run (byHandle " ") 2 (lend 0) e).ending.text? =
      some "RuleCancelledError: rule execution cancelled:  " := by
    decide +kernel
  have htext' :
      (run (byController " ") 2 (lend 0) e').ending.text? =
      some "RuleCancelledError: rule execution cancelled" := by
    decide +kernel
  refine ⟨byHandle_twins " ", nest.interchanged_add .opened, ?_⟩
  intro akin
  exact absurd akin.text?_eq (by rw [htext, htext']; decide)

end Act

end RuleForest
