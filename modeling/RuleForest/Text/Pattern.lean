import RuleForest.Text.CaseFolding
import RuleForest.Text.Units

namespace RuleForest.Text

/-- A class of units; with `repeats` it takes the longest non-empty run. -/
structure Piece where
  ranges : List (Nat × Nat)
  repeats : Bool
deriving DecidableEq, Repr

structure Pattern where
  first : Piece
  others : List Piece
  everywhere : Bool
  foldsCase : Bool
deriving DecidableEq, Repr

namespace Piece

def contains (p : Piece) (u : Nat) : Bool := p.ranges.any fun r => r.1 ≤ u && u ≤ r.2

def accepts (foldsCase : Bool) (p : Piece) (u : UInt16) : Bool :=
  if foldsCase then (caseVariants u.toNat).any p.contains else p.contains u.toNat

def afterRun (foldsCase : Bool) (p : Piece) (s : List UInt16) : List UInt16 :=
  if p.repeats then s.dropWhile (p.accepts foldsCase) else s

def rest? (foldsCase : Bool) : List Piece → List UInt16 → Option (List UInt16)
  | [], s => some s
  | _ :: _, [] => none
  | p :: ps, u :: s =>
    if p.accepts foldsCase u then rest? foldsCase ps (p.afterRun foldsCase s) else none

theorem length_afterRun_le (fold : Bool) (p : Piece) (s : List UInt16) :
    (p.afterRun fold s).length ≤ s.length := by
  unfold afterRun
  split
  · exact (s.dropWhile_sublist _).length_le
  · exact Nat.le_refl _

theorem length_of_rest? {fold : Bool} {ps : List Piece} {s t : List UInt16}
    (h : rest? fold ps s = some t) : t.length ≤ s.length := by
  fun_induction rest? fold ps s with
  | case1 s => simp_all
  | case2 => simp at h
  | case3 p ps u s _ ih =>
    have := ih h
    have := p.length_afterRun_le fold s
    simp only [List.length_cons]
    omega
  | case4 => simp at h

theorem length_of_rest?_cons {fold : Bool} {p : Piece} {ps : List Piece} {s t : List UInt16}
    (h : rest? fold (p :: ps) s = some t) : t.length < s.length := by
  cases s with
  | nil => simp [rest?] at h
  | cons u s =>
    simp only [rest?] at h
    split at h
    · have := length_of_rest? h
      have := p.length_afterRun_le fold s
      simp only [List.length_cons]
      omega
    · simp at h

end Piece

namespace Pattern

def pieces (p : Pattern) : List Piece := p.first :: p.others

def rest? (p : Pattern) (s : List UInt16) : Option (List UInt16) :=
  Piece.rest? p.foldsCase p.pieces s

def replaceUnits (p : Pattern) (filler : List UInt16) : List UInt16 → List UInt16
  | [] => []
  | u :: s =>
    match h : p.rest? (u :: s) with
    | some t =>
      have : t.length < (u :: s).length := Piece.length_of_rest?_cons h
      filler ++ if p.everywhere then replaceUnits p filler t else t
    | none => u :: replaceUnits p filler s
termination_by s => s.length
decreasing_by
  · exact this
  · simp

def only (u : Nat) : Nat × Nat := (u, u)

def isOnly (r : Nat × Nat) : Bool := r.1 == r.2

def escaped (u : Nat) : Nat × Nat := if u = 'd'.toNat then ('0'.toNat, '9'.toNat) else only u

structure ClassReading where
  ranges : List (Nat × Nat) := []
  last : Option (Nat × Nat) := none
  dash : Bool := false
  escape : Bool := false

namespace ClassReading

/-- A dash between two single units makes a range, and one beside digits stands for itself. -/
def take (c : ClassReading) (r : Nat × Nat) : ClassReading :=
  match c.last, c.dash with
  | some l, true =>
    if isOnly l && isOnly r then { ranges := (l.1, r.1) :: c.ranges }
    else { ranges := r :: only '-'.toNat :: l :: c.ranges }
  | some l, false => { ranges := l :: c.ranges, last := some r }
  | none, _ => { ranges := c.ranges, last := some r }

def close (c : ClassReading) : List (Nat × Nat) :=
  ((if c.dash then [only '-'.toNat] else []) ++ c.last.toList ++ c.ranges).reverse

end ClassReading

inductive Reading where
  | outside
  | escape
  | inside (c : ClassReading)

def readInside (ps : List Piece) (c : ClassReading) (u : Nat) : List Piece × Reading :=
  if c.escape then (ps, .inside (c.take (escaped u)))
  else if u = ']'.toNat then (⟨c.close, false⟩ :: ps, .outside)
  else if u = '\\'.toNat then (ps, .inside { c with escape := true })
  else if u = '-'.toNat && c.last.isSome && !c.dash then (ps, .inside { c with dash := true })
  else (ps, .inside (c.take (only u)))

def readUnit : List Piece × Reading → Nat → Option (List Piece × Reading)
  | (ps, .outside), u =>
    if u = '\\'.toNat then some (ps, .escape)
    else if u = '['.toNat then some (ps, .inside {})
    else if u = '+'.toNat then
      match ps with
      | p :: ps => some ({ p with repeats := true } :: ps, .outside)
      | [] => none
    else some (⟨[only u], false⟩ :: ps, .outside)
  | (ps, .escape), u => some (⟨[escaped u], false⟩ :: ps, .outside)
  | (ps, .inside c), u => some (readInside ps c u)

def ofSource? (source flags : String) : Option Pattern :=
  match ((units source).map UInt16.toNat).foldlM readUnit ([], .outside) with
  | some (ps, .outside) =>
    match ps.reverse with
    | first :: others =>
      some
        { first, others, everywhere := flags.toList.contains 'g',
          foldsCase := flags.toList.contains 'i' }
    | [] => none
  | _ => none

end Pattern

end RuleForest.Text
