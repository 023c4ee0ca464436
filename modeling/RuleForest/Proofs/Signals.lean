import RuleForest.Proofs.Invariants

namespace RuleForest

variable {H N : Type}

namespace Handle

theorem request_of_announced {h : Handle} {a : Announcement} (ha : h.announced = some a)
    (reason : Option String) :
    h.request reason = (.alreadyCancelled, h) := by
  simp [request, isCancelled, ha]

theorem request_of_open {h : Handle} (ha : h.announced = none) (reason : Option String) :
    h.request reason =
      (.requested,
        { h with announced := some ⟨reason, h.clock h.readings⟩, readings := h.readings + 1 }) := by
  simp [request, isCancelled, ha]

theorem request_announced {h : Handle} {a : Announcement} (ha : h.announced = some a)
    (reason : Option String) :
    (h.request reason).2.announced = some a := by
  rw [request_of_announced ha, ha]

theorem react_announced {h : Handle} {a : Announcement} (ha : h.announced = some a)
    (rs : List Reaction) :
    (react rs h).1.announced = some a := by
  induction rs generalizing h with
  | nil => exact ha
  | cons r rs ih =>
    cases r with
    | cancel reason => exact ih (request_announced ha reason)
    | dispose id => exact ih ha

theorem announcement_of_announced {h : Handle} {a : Announcement} (ha : h.announced = some a) :
    h.announcement = (a, h) := by
  simp only [announcement, ha]

theorem announce_announced {h : Handle} {a : Announcement} (ha : h.announced = some a)
    (ss : List Subscription) :
    (announce ss h).1.announced = some a := by
  induction ss generalizing h with
  | nil => exact ha
  | cons s ss ih =>
    have hd : (h.dispose s.id).announced = some a := ha
    simp only [announce, announcement_of_announced hd]
    split
    · exact ih (react_announced hd _)
    · exact ih ha

theorem cancel_of_announced {h : Handle} {a : Announcement} (ha : h.announced = some a)
    (reason : Option String) : h.cancel reason = (.alreadyCancelled, h, []) := by
  rw [cancel, request_of_announced ha]

theorem cancel_of_open {h : Handle} (ha : h.announced = none) (reason : Option String) :
    ∃ h' notices, h.cancel reason = (.requested, h', notices) ∧
      h'.announced = some ⟨reason, h.clock h.readings⟩ := by
  refine ⟨_, _, by rw [cancel, request_of_open ha], ?_⟩
  exact announce_announced rfl _

end Handle

namespace Signal

@[simp]
theorem dispose_reason? (id : Nat) (s : Signal) : (s.dispose id).reason? = s.reason? := by
  cases s <;> rfl

theorem abort_reason? {s : Signal} {r : Value} (h : s.reason? = some r) (reason : Value) :
    s.abort reason = s := by
  cases s with
  | controller given =>
    simp only [reason?] at h
    subst h
    rfl
  | handle hd => rfl

end Signal

namespace Signals

@[simp]
theorem get?_update (ss : Signals) (id i : SignalId) (f : Signal → Signal) :
    (ss.update id f).get? i = if id = i then (ss.get? i).map f else ss.get? i := by
  simp only [get?, update, Array.getElem?_modify]

def reason? (ss : Signals) (id : SignalId) : Option Value := (ss.get? id).bind Signal.reason?

theorem get?_dispose (ss : Signals) (subscription : Nat) (id : SignalId) :
    (ss.dispose subscription).get? id = (ss.get? id).map (Signal.dispose subscription) :=
  Array.getElem?_map

@[simp]
theorem dispose_reason? (ss : Signals) (subscription : Nat) (id : SignalId) :
    (ss.dispose subscription).reason? id = ss.reason? id := by
  rw [reason?, get?_dispose, reason?]
  cases ss.get? id <;> simp

theorem foldl_reason? {β : Type} {f : Signals → β → Signals} {id : SignalId}
    (hf : ∀ ss b, (f ss b).reason? id = ss.reason? id) (ss : Signals) (bs : List β) :
    (bs.foldl f ss).reason? id = ss.reason? id := by
  induction bs generalizing ss with
  | nil => rfl
  | cons b bs ih => rw [List.foldl_cons, ih, hf]

theorem abort_reason? {ss : Signals} {id : SignalId} {r : Value} (h : ss.reason? id = some r)
    (controller : SignalId) (reason : Value) :
    (ss.abort controller reason).reason? id = some r := by
  obtain ⟨s, hs, hr⟩ := Option.bind_eq_some_iff.mp h
  simp only [Signals.reason?, abort, get?_update]
  split
  · simp only [hs, Option.map_some, Option.bind_some, Signal.abort_reason? hr, hr]
  · exact h

theorem cancel_cases (ss : Signals) (id : SignalId) (reason : Option String) :
    ss.cancel id reason = (.alreadyCancelled, ss, []) ∨
      ∃ h ss' notices, ss.get? id = some (.handle h) ∧ h.announced = none ∧
        ss.cancel id reason = (.requested, ss', notices) ∧
        ∀ i, ss'.reason? i = if i = id then some (.fault (.cancelled none reason none))
          else ss.reason? i := by
  unfold cancel
  rcases hget : ss.get? id with _ | (given | h)
  · exact .inl rfl
  · exact .inl rfl
  · cases ha : h.announced with
    | some a =>
      left
      have hself : (ss.update id fun _ => .handle h) = ss := by
        have hall : ss.all.modify id (fun _ => Signal.handle h) = ss.all := by
          apply Array.ext_getElem?
          intro i
          rw [Array.getElem?_modify]
          split
          · next hi =>
            have hget' : ss.all[id]? = some (.handle h) := hget
            rw [← hi, hget', Option.map_some]
          · rfl
        simp only [update, hall]
      simp only [Handle.cancel_of_announced ha, List.foldl_nil, hself]
    | none =>
      right
      obtain ⟨h', notices, hc, ha'⟩ := Handle.cancel_of_open ha reason
      refine ⟨h, _, notices, rfl, ha, by simp only [hc]; rfl, ?_⟩
      intro i
      rw [foldl_reason? fun ss n => by cases n <;> simp]
      simp only [Signals.reason?, get?_update, eq_comm (a := id)]
      split
      · next hi =>
        simp only [hi, hget, Option.map_some, Option.bind_some, Signal.reason?, ha']
      · rfl

theorem any_aborted (ss : Signals) (id : SignalId) :
    (ss.get? id).any Signal.aborted = (ss.reason? id).isSome := by
  rw [reason?]
  cases ss.get? id <;> rfl

end Signals

theorem Engine.isAborted_some (e : Engine H) (id : SignalId) :
    e.isAborted (some id) = (e.signals.reason? id).isSome := e.signals.any_aborted id

theorem Act.abort_apply (controller : SignalId) (reason : Value) (e : Engine H) :
    (Act.abort controller reason e : Outcome H N Unit) =
      ⟨.done (), { e with signals := e.signals.abort controller reason },
        if !(e.signals.reason? controller).isSome &&
          ((e.signals.abort controller reason).reason? controller).isSome then
          [.aborted controller]
        else []⟩ := by
  simp only [Act.abort, Engine.isAborted_some, Signals.any_aborted]

theorem Act.throwIfAborted_some (id : SignalId) (e : Engine H) :
    (Act.throwIfAborted (some id) e : Outcome H N Unit) =
      (e.signals.reason? id).elim ⟨.done (), e, []⟩
      fun reason => ⟨.thrown { value := reason, reasonOf := some id }, e, []⟩ := by
  simp only [Signals.reason?, Act.throwIfAborted, Engine.signal?, Option.bind_some]
  cases (e.signals.get? id).bind Signal.reason? <;> rfl

inductive Event.Aborts (signal : SignalId) : Event N → Prop where
  | here : Aborts signal (.aborted signal)
  | nested {events : List (Event N)} {event : Event N} (mem : event ∈ events)
      (h : Aborts signal event) :
    Aborts signal (.nested events)

structure Engine.KeepsReasons (e : Engine H) (events : List (Event N)) (e' : Engine H) : Prop where
  stays (id : SignalId) (r : Value) : e.signals.reason? id = some r → e'.signals.reason? id = some r
  aborts : ∀ event ∈ events, ∀ id, event.Aborts id → (e'.signals.reason? id).isSome
  marks (id : SignalId) : e.signals.reason? id = none → (e'.signals.reason? id).isSome →
    ∃ event ∈ events, event.Aborts id

namespace Engine.KeepsReasons

theorem of_signals_eq {e e' : Engine H} (h : e'.signals = e.signals) {events : List (Event N)}
    (hev : ∀ event ∈ events, ∀ id, ¬event.Aborts id) : e.KeepsReasons events e' where
  stays id r hr := by rw [h, hr]
  aborts event hmem id ha := (hev event hmem id ha).elim
  marks id hn hs := by simp [h, hn] at hs

theorem append {e e₁ e₂ : Engine H} {before after : List (Event N)} (h : e.KeepsReasons before e₁)
    (h' : e₁.KeepsReasons after e₂) : e.KeepsReasons (before ++ after) e₂ where
  stays id r hr := h'.stays id r (h.stays id r hr)
  aborts event hmem id ha := by
    rcases List.mem_append.mp hmem with hmem | hmem
    · obtain ⟨r, hr⟩ := Option.isSome_iff_exists.mp (h.aborts event hmem id ha)
      exact Option.isSome_iff_exists.mpr ⟨r, h'.stays id r hr⟩
    · exact h'.aborts event hmem id ha
  marks id hn hs := by
    cases hr : e₁.signals.reason? id with
    | none =>
      obtain ⟨event, hmem, ha⟩ := h'.marks id hr hs
      exact ⟨event, List.mem_append_right before hmem, ha⟩
    | some r =>
      obtain ⟨event, hmem, ha⟩ := h.marks id hn (Option.isSome_iff_exists.mpr ⟨r, hr⟩)
      exact ⟨event, List.mem_append_left after hmem, ha⟩

theorem nested {e e₁ : Engine H} {events : List (Event N)} (h : e.KeepsReasons events e₁) :
    e.KeepsReasons [.nested events] e₁ where
  stays := h.stays
  aborts event hmem id ha := by
    rw [List.mem_singleton.mp hmem] at ha
    cases ha with
    | nested hmem' ha' => exact h.aborts _ hmem' id ha'
  marks id hn hs := by
    obtain ⟨event, hmem, ha⟩ := h.marks id hn hs
    exact ⟨_, List.mem_singleton_self _, .nested hmem ha⟩

theorem upkeep : Upkeep (KeepsReasons (H := H) (N := N)) where
  nil e := of_signals_eq rfl (by simp)
  append := append
  nested := nested
  invoked e rule phase view := of_signals_eq rfl (by simp; intro id h; cases h)
  reached e rule name status reported := of_signals_eq (by rfl) (by simp; intro id h; cases h)
  logged e logger call := of_signals_eq rfl (by simp; intro id h; cases h)
  bound e binding rule := of_signals_eq (by rfl) (by simp)
  logger e := of_signals_eq (by unfold Engine.demandLogger; split <;> rfl) (by simp)

theorem cancel (e : Engine H) (handle : SignalId) (reason : Option String) :
    e.KeepsReasons (Act.cancel handle reason e : Outcome H N CancelOutcome).events
      (Act.cancel handle reason e : Outcome H N CancelOutcome).engine := by
  rcases e.signals.cancel_cases handle reason with hc | ⟨h, ss', notices, hget, ha, hc, hreason⟩ <;>
    simp only [Act.cancel, hc]
  · exact of_signals_eq rfl (by simp)
  · constructor
    · intro id r hr
      rw [hreason]
      split
      · next hi =>
        rw [hi, Signals.reason?, hget, Option.bind_some, Signal.reason?, ha] at hr
        simp at hr
      · exact hr
    · intro event hmem id hab
      rw [List.mem_append, List.mem_singleton, List.mem_map] at hmem
      rcases hmem with rfl | ⟨n, -, rfl⟩
      · cases hab
        rw [hreason, if_pos rfl]
        rfl
      · cases hab
    · intro id hn hs
      rw [hreason] at hs
      split at hs
      · next hi =>
        rw [hi]
        exact ⟨_, List.mem_append_left _ (List.mem_singleton_self _), .here⟩
      · simp [hn] at hs

theorem abort (e : Engine H) (controller : SignalId) (reason : Value) :
    e.KeepsReasons (Act.abort controller reason e : Outcome H N Unit).events
      (Act.abort controller reason e : Outcome H N Unit).engine := by
  rw [Act.abort_apply]
  constructor
  case stays =>
    intro id r hr
    exact Signals.abort_reason? hr controller reason
  case aborts =>
    intro event hmem id hab
    split at hmem
    · next hstarts =>
      rw [List.mem_singleton.mp hmem] at hab
      cases hab
      exact (Bool.and_eq_true_iff.mp hstarts).2
    · simp at hmem
  case marks =>
    intro id hn hs
    by_cases hi : controller = id
    · subst hi
      exact ⟨_, by rw [hn, hs]; exact List.mem_singleton_self _, .here⟩
    · have hsame : (e.signals.abort controller reason).reason? id = e.signals.reason? id := by
        simp only [Signals.reason?, Signals.abort, Signals.get?_update, if_neg hi]
      simp [hsame, hn] at hs

theorem upheld (op : Operation H N) : op.Upheld KeepsReasons := by
  intro runs view hruns
  have hsilent {β : Type} {act : Act H N β} (h : ∀ e, (act e).engine.signals = e.signals)
      (hev : ∀ e, ∀ event ∈ (act e).events, ∀ id, ¬event.Aborts id) : act.Upholds KeepsReasons :=
    fun e => of_signals_eq (h e) (hev e)
  have hquiet {β : Type} {act : Act H N β} (h : ∀ e, (act e).engine.signals = e.signals)
      (hev : ∀ e, (act e).events = []) : act.Upholds KeepsReasons :=
    hsilent h fun e => by simp [hev e]
  -- Requests and aborts are the two operations that change a signal, a nested run may contain both.
  cases op with
  | cancel handle reason => exact fun e => cancel e handle reason
  | abort controller reason => exact fun e => abort e controller reason
  | run request =>
    apply Act.Upholds.bind upkeep (Act.Upholds.asNested upkeep (hruns request)).attempt
    intro answer
    cases answer <;> exact Act.Upholds.pure upkeep _
  | throwIfAborted =>
    apply hquiet <;> intro e <;> simp only [Operation.perform, Act.throwIfAborted] <;> split <;> rfl
  | throwIfCancelled handle =>
    apply hquiet <;> intro e <;> simp only [Operation.perform, Act.throwIfCancelled] <;> split <;>
      rfl
  | addChildren rule batch =>
    apply hquiet <;> intro e <;>
      rcases h : e.forest.addChildren rule batch with fault | g <;>
      simp [Operation.perform, Act.ofExcept, h, Engine.updateForest]
  | log call =>
    refine hsilent (fun e => rfl) ?_
    intro e event hmem id hab
    rw [List.mem_singleton.mp hmem] at hab
    cases hab
  | note n =>
    refine hsilent (fun e => rfl) ?_
    intro e event hmem id hab
    rw [List.mem_singleton.mp hmem] at hab
    cases hab
  | _ => exact hquiet (fun e => rfl) fun e => rfl

end Engine.KeepsReasons

end RuleForest
