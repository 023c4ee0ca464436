import RuleForest.Text.CaseData

namespace RuleForest.Text

/-- The upper case of a unit, where that is one unit; ASCII only for ASCII. -/
def upperUnit (u : Nat) : Nat :=
  if u < 0x80 then (Char.ofNat u).toUpper.toNat else CaseRun.apply upperRuns u

def CaseRun.preimage? (r : CaseRun) (n : Nat) : Option Nat :=
  let m := (n - r.shift).toNat
  if r.covers m then some m else none

def caseVariants (u : Nat) : List Nat :=
  let upper := upperUnit u
  let candidates := u :: upper :: (upper + 32) :: upperRuns.filterMap (·.preimage? upper)
  candidates.filter fun v => upperUnit v == upper

end RuleForest.Text
