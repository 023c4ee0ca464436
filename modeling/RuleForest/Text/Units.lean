namespace RuleForest.Text

def charUnits (c : Char) : List UInt16 :=
  if c.toNat < 0x10000 then [c.toNat.toUInt16]
  else
    [(0xD800 + (c.toNat - 0x10000) / 0x400).toUInt16,
      (0xDC00 + (c.toNat - 0x10000) % 0x400).toUInt16]

def units (s : String) : List UInt16 := s.toList.flatMap charUnits

def isHighHalf (u : UInt16) : Bool := 0xD800 ≤ u.toNat && u.toNat < 0xDC00

def isLowHalf (u : UInt16) : Bool := 0xDC00 ≤ u.toNat && u.toNat < 0xE000

def joined (high low : UInt16) : Char :=
  Char.ofNat (0x10000 + (high.toNat - 0xD800) * 0x400 + (low.toNat - 0xDC00))

inductive Symbol where
  | whole (c : Char)
  /-- A half that stands alone, which is no character. -/
  | half (u : UInt16)
deriving DecidableEq, Repr

def Symbol.units : Symbol → List UInt16
  | whole c => charUnits c
  | half u => [u]

def symbol (u : UInt16) : Symbol :=
  if isHighHalf u || isLowHalf u then .half u else .whole (Char.ofNat u.toNat)

def symbols : List UInt16 → List Symbol
  | [] => []
  | [u] => [symbol u]
  | u :: v :: us =>
    if isHighHalf u && isLowHalf v then .whole (joined u v) :: symbols us
    else symbol u :: symbols (v :: us)

def unitsLe (s t : String) : Bool := !(units t).lex (units s) fun u v => decide (u < v)

end RuleForest.Text
