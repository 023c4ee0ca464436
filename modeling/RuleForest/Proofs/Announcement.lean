import Mathlib.Data.List.Induction
import RuleForest.Proofs.Dispatch

namespace RuleForest

namespace Signal

def forget (notices : List Notice) : Signal → Signal
  | handle h => handle (h.forget notices)
  | s => s

end Signal

namespace Signals

def forget (notices : List Notice) (ss : Signals) : Signals :=
  { ss with all := ss.all.map (Signal.forget notices) }

theorem get?_forget (ss : Signals) (notices : List Notice) (id : SignalId) :
    (ss.forget notices).get? id = (ss.get? id).map (Signal.forget notices) := by
  simp only [get?, forget, Array.getElem?_map]

theorem forget_cons (ss : Signals) (n : Notice) (notices : List Notice) :
    ss.forget (n :: notices) = (ss.forget [n]).forget notices := by
  have hall : Signal.forget (n :: notices) = Signal.forget notices ∘ Signal.forget [n] := by
    funext s
    cases s with
    | controller reason => rfl
    | handle h => exact congrArg Signal.handle (h.forget_append [n] notices)
  simp only [forget, Array.map_map, hall]

theorem forget_disposed (ss : Signals) (subscription : Nat) :
    ss.forget [.disposed subscription] = ss.dispose subscription := by
  have hall : Signal.forget [.disposed subscription] = Signal.dispose subscription := by
    funext s
    cases s with
    | controller reason => rfl
    | handle h => exact congrArg Signal.handle (h.forget_disposed subscription)
  simp only [forget, dispose, hall]

theorem forget_of_none {notices : List Notice} (hn : ∀ id, Notice.disposed id ∉ notices)
    (ss : Signals) :
    ss.forget notices = ss := by
  have hall : Signal.forget notices = id := by
    funext s
    cases s with
    | controller reason => rfl
    | handle h => exact congrArg Signal.handle (h.forget_of_none hn)
  simp only [forget, hall, Array.map_id]

theorem foldl_dispose (notices : List Notice) (ss : Signals) :
    notices.foldl (fun ss n => match n with
    | .disposed n => ss.dispose n
    | _ => ss) ss = ss.forget notices := by
  induction notices generalizing ss with
  | nil => exact (forget_of_none (fun _ => List.not_mem_nil) ss).symm
  | cons n notices ih =>
    rw [List.foldl_cons, forget_cons, ih]
    cases n with
    | disposed subscription => rw [forget_disposed]
    | heard subscription a =>
      have hn : ∀ id, Notice.disposed id ∉ [Notice.heard subscription a] := by simp
      rw [forget_of_none hn]
    | answered outcome =>
      have hn : ∀ id, Notice.disposed id ∉ [Notice.answered outcome] := by simp
      rw [forget_of_none hn]

theorem cancel_of_get? {ss : Signals} {id : SignalId} {h : Handle}
    (hget : ss.get? id = some (.handle h)) (reason : Option String) : ss.cancel id reason =
      ((h.cancel reason).1, (ss.update id fun _ => .handle (h.cancel reason).2.1).forget
        (h.cancel reason).2.2,
        (h.cancel reason).2.2) := by
  simp only [cancel, hget]
  exact congrArg (fun ss' => ((h.cancel reason).1, ss', (h.cancel reason).2.2)) (foldl_dispose _ _)

theorem cancel_of_not_handle {ss : Signals} {id : SignalId}
    (hget : ∀ h, ss.get? id ≠ some (.handle h)) (reason : Option String) :
    ss.cancel id reason = (.alreadyCancelled, ss, []) := by
  unfold cancel
  split
  case h_1 h hsome => exact (hget h hsome).elim
  case h_2 => rfl

inductive Call where
  | create (s : Signal)
  | abort (controller : SignalId) (reason : Value)
  | cancel (handle : SignalId) (reason : Option String)
  | subscribe (handle : SignalId) (react : Announcement → List Reaction)
  | dispose (subscription : Nat)

namespace Call

def apply (ss : Signals) : Call → Signals
  | create s => (ss.add s).2
  | abort controller reason => ss.abort controller reason
  | cancel handle reason => (ss.cancel handle reason).2.1
  | subscribe handle react => ss.subscribe handle react
  | dispose subscription => ss.dispose subscription

def notices (ss : Signals) : Call → List Notice
  | cancel handle reason => (ss.cancel handle reason).2.2
  | dispose subscription => [.disposed subscription]
  | _ => []

def request? (id : SignalId) : Call → Option (Option String)
  | cancel handle reason => if handle = id then some reason else none
  | _ => none

end Call

def after (ss : Signals) (calls : List Call) : Signals := calls.foldl Call.apply ss

def noticed (ss : Signals) : List Call → List Notice
  | [] => []
  | c :: calls => c.notices ss ++ (c.apply ss).noticed calls

theorem after_concat (ss : Signals) (calls : List Call) (c : Call) :
    ss.after (calls ++ [c]) = c.apply (ss.after calls) := by
  rw [after, List.foldl_append]
  rfl

theorem noticed_concat (ss : Signals) (calls : List Call) (c : Call) :
    ss.noticed (calls ++ [c]) = ss.noticed calls ++ c.notices (ss.after calls) := by
  induction calls generalizing ss with
  | nil => simp [noticed, after]
  | cons c' calls ih => simp only [List.cons_append, noticed, ih, List.append_assoc]; rfl

def Subscribed (start : Signals) (handle : SignalId) (calls : List Call) (s : Subscription) :
    Prop :=
  ∃ before since, calls = before ++ .subscribe handle s.react :: since ∧
    s.id = (start.after before).subscribed ∧
    Notice.disposed s.id ∉ (start.after (before ++ [.subscribe handle s.react])).noticed since

theorem subscribed_concat {start : Signals} {handle : SignalId} {calls : List Call} {c : Call}
    {s : Subscription} :
    start.Subscribed handle (calls ++ [c]) s ↔
      (start.Subscribed handle calls s ∧ Notice.disposed s.id ∉ c.notices (start.after calls)) ∨
        (c = .subscribe handle s.react ∧ s.id = (start.after calls).subscribed) := by
  have hcalls (before since : List Call) :
      (start.after (before ++ [.subscribe handle s.react])).after since =
      start.after (before ++ .subscribe handle s.react :: since) := by
    rw [after, after, after, ← List.foldl_append, List.append_assoc, List.singleton_append]
  constructor
  · rintro ⟨before, since, hsplit, hid, hkept⟩
    rcases since.eq_nil_or_concat with rfl | ⟨since, c', rfl⟩
    · obtain ⟨rfl, hc⟩ := List.append_inj' hsplit rfl
      exact .inr ⟨List.singleton_inj.mp hc, hid⟩
    · rw [List.concat_eq_append, ← List.cons_append, ← List.append_assoc] at hsplit
      obtain ⟨rfl, hc⟩ := List.append_inj' hsplit rfl
      obtain rfl := List.singleton_inj.mp hc
      rw [List.concat_eq_append, noticed_concat, List.mem_append, not_or, hcalls] at hkept
      exact .inl ⟨⟨before, since, rfl, hid, hkept.1⟩, hkept.2⟩
  · rintro (⟨⟨before, since, rfl, hid, hkept⟩, hc⟩ | ⟨rfl, hid⟩)
    · refine ⟨before, since ++ [c], by rw [List.append_assoc, List.cons_append], hid, ?_⟩
      rw [noticed_concat, List.mem_append, not_or, hcalls]
      exact ⟨hkept, hc⟩
    · exact ⟨calls, [], rfl, hid, List.not_mem_nil⟩

def Call.joins (ss : Signals) (handle : SignalId) : Call → List Subscription
  | subscribe id react => if id = handle then [⟨ss.subscribed, react⟩] else []
  | _ => []

theorem Call.mem_joins {ss : Signals} {handle : SignalId} {c : Call} {s : Subscription} :
    s ∈ c.joins ss handle ↔ c = subscribe handle s.react ∧ s.id = ss.subscribed := by
  cases c with
  | subscribe id react =>
    rw [joins]
    split
    case isTrue h =>
      subst h
      constructor
      · intro hs
        obtain rfl := List.mem_singleton.mp hs
        exact ⟨rfl, rfl⟩
      · rintro ⟨hc, hid⟩
        cases hc
        exact List.mem_singleton.mpr (by rw [← hid])
    case isFalse h =>
      refine iff_of_false List.not_mem_nil ?_
      rintro ⟨hc, -⟩
      cases hc
      exact h rfl
  | _ => simp [joins]

theorem Call.subscribed_apply (ss : Signals) (handle : SignalId) (c : Call) :
    ss.subscribed + (c.joins ss handle).length ≤ (c.apply ss).subscribed := by
  cases c with
  | subscribe id react =>
    rw [joins]
    split
    · exact Nat.le_refl _
    · exact Nat.le_succ _
  | cancel id reason =>
    by_cases h : ∃ h, ss.get? id = some (.handle h)
    · obtain ⟨h, hget⟩ := h
      simp only [apply, cancel_of_get? hget]
      exact Nat.le_refl _
    · simp only [apply, cancel_of_not_handle (not_exists.mp h)]
      exact Nat.le_refl _
  | _ => exact Nat.le_refl _

theorem Call.get?_apply {ss : Signals} {id : SignalId} {h : Handle} {c : Call}
    (hget : ss.get? id = some (.handle h)) (hc : c.request? id = none) :
    (c.apply ss).get? id = some (.handle
      { h with subscriptions := (h.forget (c.notices ss)).subscriptions ++ c.joins ss id }) := by
  have hquiet : h = { h with subscriptions := (h.forget []).subscriptions ++ [] } := by
    rw [Handle.forget_nil, List.append_nil]
  cases c with
  | create s =>
    have hlt : id < ss.all.size := (Array.getElem?_eq_some_iff.mp hget).1
    simp only [apply, notices, joins, ← hquiet, add, get?, Array.getElem?_push,
      if_neg (Nat.ne_of_lt hlt)]
    exact hget
  | abort controller reason =>
    simp only [apply, notices, joins, ← hquiet, Signals.abort, get?_update, hget]
    split <;> rfl
  | cancel handle reason =>
    have hne : handle ≠ id := by
      rintro rfl
      simp [request?] at hc
    by_cases hh : ∃ g, ss.get? handle = some (.handle g)
    · obtain ⟨g, hg⟩ := hh
      simp only [apply, notices, joins, cancel_of_get? hg, get?_forget, get?_update, if_neg hne,
        hget, List.append_nil]
      rfl
    · simp only [apply, notices, joins, cancel_of_not_handle (not_exists.mp hh), ← hquiet, hget]
  | subscribe handle react =>
    simp only [apply, notices, joins, Handle.forget_nil, Signals.subscribe]
    have hsub (ss : Signals) (n : Nat) : Signals.get? { ss with subscribed := n } id = ss.get? id :=
      rfl
    rw [hsub, get?_update, hget]
    split
    · rfl
    · rw [List.append_nil]
  | dispose subscription =>
    simp only [apply, notices, joins, ← forget_disposed, get?_forget, hget, List.append_nil]
    rfl

structure Pending (start : Signals) (id : SignalId) (clock : Nat → Number) (calls : List Call)
    (h : Handle) : Prop where
  found : (start.after calls).get? id = some (.handle h)
  unasked : h.announced = none
  unread : h.readings = 0
  clock : h.clock = clock
  ascending : h.subscriptions.Pairwise fun s s' => s.id < s'.id
  below : ∀ s ∈ h.subscriptions, s.id < (start.after calls).subscribed
  subscribed : ∀ s, s ∈ h.subscriptions ↔ start.Subscribed id calls s

theorem Pending.concat {start : Signals} {id : SignalId} {clock : Nat → Number} {calls : List Call}
    {h : Handle} (hp : start.Pending id clock calls h) {c : Call} (hc : c.request? id = none) :
    ∃ h', start.Pending id clock (calls ++ [c]) h' := by
  have hle := c.subscribed_apply (start.after calls) id
  let subscriptions :=
    (h.forget (c.notices (start.after calls))).subscriptions ++ c.joins (start.after calls) id
  refine ⟨{ h with subscriptions }, ?_, hp.unasked, hp.unread, hp.clock, ?_, ?_, ?_⟩
  case refine_1 =>
    rw [after_concat]
    exact Call.get?_apply hp.found hc
  case refine_2 =>
    rw [List.pairwise_append]
    refine ⟨hp.ascending.filter _, ?_, ?_⟩
    · cases c with
      | subscribe handle react =>
        rw [Call.joins]
        split
        · exact List.pairwise_singleton _ _
        · exact List.Pairwise.nil
      | _ => exact List.Pairwise.nil
    · intro s hs s' hs'
      rw [(Call.mem_joins.mp hs').2]
      exact hp.below s (Handle.mem_forget.mp hs).1
  case refine_3 =>
    intro s hs
    rw [after_concat]
    rcases List.mem_append.mp hs with hs | hs
    · have hlt := hp.below s (Handle.mem_forget.mp hs).1
      omega
    · have hpos := List.length_pos_of_mem hs
      have hid := (Call.mem_joins.mp hs).2
      omega
  case refine_4 =>
    intro s
    rw [List.mem_append, Handle.mem_forget, Call.mem_joins, hp.subscribed, subscribed_concat]

theorem cancel_of_announced {ss : Signals} {id : SignalId} {h : Handle} {a : Announcement}
    (hget : ss.get? id = some (.handle h)) (ha : h.announced = some a) (reason : Option String) :
    ss.cancel id reason = (.alreadyCancelled, ss, []) := by
  rcases ss.cancel_cases id reason with hc | ⟨h', ss', notices, hget', ha', -⟩
  · exact hc
  · rw [hget] at hget'
    cases hget'
    rw [ha] at ha'
    cases ha'

example :
    let calls : List Call :=
      [.subscribe 0 fun _ => [.cancel (some "again"), .dispose 2], .subscribe 0 fun _ => [],
      .subscribe 0 fun _ => []]
    let ss := (Signals.add {} (.handle { clock := fun n => .ofInt n })).2.after calls
    (ss.cancel 0 (some "stop")).2.2 = [.heard 0 ⟨some "stop", .ofInt 0⟩,
      .answered .alreadyCancelled, .disposed 2,
      .heard 1 ⟨some "stop", .ofInt 0⟩] := by
  rfl

end Signals

end RuleForest
