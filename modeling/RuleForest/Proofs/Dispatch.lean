import RuleForest.Proofs.Signals

namespace RuleForest

def Reaction.notice : Reaction → Notice
  | .cancel _ => .answered .alreadyCancelled
  | .dispose id => .disposed id

namespace Handle

def forget (notices : List Notice) (h : Handle) : Handle :=
  { h with subscriptions := h.subscriptions.filter fun s => .disposed s.id ∉ notices }

@[simp]
theorem mem_forget {h : Handle} {notices : List Notice} {s : Subscription} :
    s ∈ (h.forget notices).subscriptions ↔ s ∈ h.subscriptions ∧ .disposed s.id ∉ notices := by
  simp only [forget, List.mem_filter, decide_eq_true_eq]

theorem forget_of_none {notices : List Notice} (hn : ∀ id, Notice.disposed id ∉ notices)
    (h : Handle) :
    h.forget notices = h := by
  simp only [forget, hn, not_false_eq_true, decide_true, List.filter_true]

theorem forget_nil (h : Handle) : h.forget [] = h := forget_of_none (fun _ => List.not_mem_nil) h

theorem forget_append (h : Handle) (before after : List Notice) :
    h.forget (before ++ after) = (h.forget before).forget after := by
  simp only [forget, List.filter_filter, List.mem_append, not_or, Bool.decide_and, Bool.and_comm]

theorem forget_disposed (h : Handle) (id : Nat) : h.forget [.disposed id] = h.dispose id := by
  simp only [forget, dispose, List.mem_singleton, Notice.disposed.injEq, bne, decide_not]
  rfl

structure Shows (h : Handle) (a : Announcement) : Prop where
  cancelled : h.isCancelled = true
  reason : h.reason = a.reason
  cancelledAt : h.cancelledAt = some a.time
  signal : (Signal.handle h).reason? = some (.fault (.cancelled none a.reason none))
  readings : h.readings = 1

end Handle

end RuleForest
