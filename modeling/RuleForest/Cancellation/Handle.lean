import RuleForest.Number

namespace RuleForest

inductive CancelOutcome where
  | requested
  | alreadyCancelled
deriving DecidableEq, Repr

def CancelOutcome.text : CancelOutcome → String
  | requested => "requested"
  | alreadyCancelled => "already_cancelled"

structure Announcement where
  reason : Option String
  time : Number
deriving DecidableEq, Repr

inductive Reaction where
  | cancel (reason : Option String)
  | dispose (subscription : Nat)

structure Subscription where
  id : Nat
  react : Announcement → List Reaction

inductive Notice where
  | heard (subscription : Nat) (announcement : Announcement)
  | answered (outcome : CancelOutcome)
  | disposed (subscription : Nat)
deriving DecidableEq, Repr

structure Handle where
  clock : Nat → Number
  readings : Nat := 0
  announced : Option Announcement := none
  subscriptions : List Subscription := []

namespace Handle

def isCancelled (h : Handle) : Bool := h.announced.isSome

def reason (h : Handle) : Option String := h.announced.bind Announcement.reason

def cancelledAt (h : Handle) : Option Number := h.announced.map Announcement.time

def subscribe (h : Handle) (s : Subscription) : Handle :=
  { h with subscriptions := h.subscriptions ++ [s] }

def dispose (h : Handle) (id : Nat) : Handle :=
  { h with subscriptions := h.subscriptions.filter fun s => s.id != id }

def hasSubscription (h : Handle) (id : Nat) : Bool := h.subscriptions.any fun s => s.id == id

def request (h : Handle) (reason : Option String) : CancelOutcome × Handle :=
  if h.isCancelled then
    (.alreadyCancelled, h)
  else
    (.requested,
      { h with announced := some ⟨reason, h.clock h.readings⟩, readings := h.readings + 1 })

def react : List Reaction → Handle → Handle × List Notice
  | [], h => (h, [])
  | .cancel reason :: rs, h =>
    let (outcome, h) := h.request reason
    let (h, notices) := react rs h
    (h, .answered outcome :: notices)
  | .dispose id :: rs, h =>
    let (h, notices) := react rs (h.dispose id)
    (h, .disposed id :: notices)

def announcement (h : Handle) : Announcement × Handle :=
  match h.announced with
  | some a => (a, h)
  | none => (⟨none, h.clock h.readings⟩, { h with readings := h.readings + 1 })

/-- Calls the listeners in order. Each is called once, and not if it was disposed before its
turn. -/
def announce : List Subscription → Handle → Handle × List Notice
  | [], h => (h, [])
  | s :: ss, h =>
    if h.hasSubscription s.id then
      let (a, h) := (h.dispose s.id).announcement
      let (h, reactions) := h.react (s.react a)
      let (h, later) := announce ss h
      (h, .heard s.id a :: reactions ++ later)
    else
      announce ss h

def cancel (h : Handle) (reason : Option String) : CancelOutcome × Handle × List Notice :=
  match h.request reason with
  | (.alreadyCancelled, h) => (.alreadyCancelled, h, [])
  | (.requested, h) => (.requested, h.announce h.subscriptions)

end Handle

end RuleForest
