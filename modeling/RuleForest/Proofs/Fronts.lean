import RuleForest.Proofs.Announcement

namespace RuleForest

namespace Signal

def isHandle : Signal → Bool
  | controller _ => false
  | handle _ => true

def front (s : Signal) : Bool × Option Value := (s.isHandle, s.reason?)

theorem front_forget (notices : List Notice) (s : Signal) : (s.forget notices).front = s.front := by
  cases s <;> rfl

theorem front_abort {s s' : Signal} (h : s'.front = s.front) (reason : Value) :
    (s'.abort reason).front = (s.abort reason).front := by
  have hreason : s'.reason? = s.reason? := congrArg Prod.snd h
  cases s with
  | controller given =>
    cases s' with
    | controller given' =>
      obtain rfl : given' = given := hreason
      rfl
    | handle hd => simp [front, isHandle] at h
  | handle hd =>
    cases s' with
    | controller given => simp [front, isHandle] at h
    | handle hd' => exact h

theorem front_abort_text {s : Signal} {given : Option Value} (h : s.front = (false, given))
    (t : String) :
    (s.abort (.text t)).front = (false, some (given.getD (.text t))) := by
  cases s with
  | controller given' =>
    obtain rfl : given' = given := congrArg Prod.snd h
    cases given' <;> rfl
  | handle hd => simp [front, isHandle] at h

theorem exists_handle_of_front {s : Signal} (h : s.front = (true, none)) :
    ∃ hd, s = .handle hd ∧ hd.announced = none := by
  cases s with
  | controller given => simp [front, isHandle] at h
  | handle hd => exact ⟨hd, rfl, Option.map_eq_none_iff.mp (congrArg Prod.snd h)⟩

end Signal

namespace Signals

variable {ss ss' : Signals} {id : SignalId}

def front? (ss : Signals) (id : SignalId) : Option (Bool × Option Value) :=
  (ss.get? id).map Signal.front

theorem reason?_eq (ss : Signals) (id : SignalId) :
    ss.reason? id = (ss.front? id).bind Prod.snd := by
  rw [reason?, front?, Option.bind_map]
  rfl

theorem front?_update (f : Signal → Signal) (i : SignalId) :
    (ss.update id f).front? i = if id = i then (ss.get? i).map fun s =>
      (f s).front else ss.front? i := by
  rw [front?, get?_update]
  split
  · rw [Option.map_map]
    rfl
  · rfl

theorem front?_abort (h : ss'.front? id = ss.front? id) (controller : SignalId) (reason : Value) :
    (ss'.abort controller reason).front? id = (ss.abort controller reason).front? id := by
  rw [abort, abort, front?_update, front?_update]
  split
  · unfold front? at h
    cases hs : ss.get? id with
    | none =>
      rw [hs, Option.map_none, Option.map_eq_none_iff] at h
      rw [h]
    | some s =>
      rw [hs, Option.map_some, Option.map_eq_some_iff] at h
      obtain ⟨s', hs', hfront⟩ := h
      rw [hs']
      exact congrArg some (Signal.front_abort hfront reason)
  · exact h

theorem front?_abort_text {given : Option Value} (h : ss.front? id = some (false, given))
    (t : String) (i : SignalId) :
    (ss.abort id (.text t)).front? i = if id = i then some (false, some (given.getD (.text t)))
      else ss.front? i := by
  rw [abort, front?_update]
  split
  · next hi =>
    subst hi
    obtain ⟨s, hs, hfront⟩ := Option.map_eq_some_iff.mp h
    rw [hs, Option.map_some, Signal.front_abort_text hfront]
  · rfl

theorem front?_forget (notices : List Notice) (id : SignalId) :
    (ss.forget notices).front? id = ss.front? id := by
  rw [front?, get?_forget, Option.map_map]
  exact congrFun (congrArg Option.map (funext (Signal.front_forget notices))) (ss.get? id)

theorem cancel_of_front (h : ss.front? id = some (true, none)) (reason : Option String) :
    ∃ ss' notices, ss.cancel id reason = (.requested, ss', notices) ∧
      ∀ i, ss'.front? i = if id = i then some (true, some (.fault (.cancelled none reason none)))
        else ss.front? i := by
  obtain ⟨s, hs, hfront⟩ := Option.map_eq_some_iff.mp h
  obtain ⟨hd, rfl, hopen⟩ := Signal.exists_handle_of_front hfront
  obtain ⟨hd', notices, hcancel, hannounced⟩ := Handle.cancel_of_open hopen reason
  refine ⟨_, notices, by rw [cancel_of_get? hs, hcancel], ?_⟩
  intro i
  rw [front?_forget, front?_update]
  split
  · next hi =>
    subst hi
    rw [hs, Option.map_some, Signal.front, Signal.reason?, hannounced]
    rfl
  · rfl

theorem cancel_of_front_ne (h : ss.front? id ≠ some (true, none)) (reason : Option String) :
    ss.cancel id reason = (.alreadyCancelled, ss, []) := by
  rcases ss.cancel_cases id reason with hc | ⟨hd, -, -, hs, hopen, -⟩
  · exact hc
  · exact absurd (by rw [front?, hs, Option.map_some, Signal.front, Signal.reason?, hopen]; rfl) h

end Signals

end RuleForest
