import RowStream.Memory.Scope

/-!
# Scratch buffers

Text functions build their results in a scratch buffer. Its capacity is accounted before the
text grows, doubles when it has to grow, and is kept when the text is cleared, so that one buffer
serves all rows of an operator.
-/

namespace RowStream

/-- The least power of two that is at least `n`. -/
def leastPowerOfTwo (n : Nat) : Nat := if n ≤ 1 then 1 else 1 <<< (Nat.log2 (n - 1) + 1)

/-- A growing text and the scope that holds its capacity. -/
structure Scratch where
  scope : Scope
  text : String
  deriving DecidableEq

namespace Scratch

/-- The smallest capacity that is accounted. -/
def leastCapacity : Nat := 64

def new (label : String) : Scratch := ⟨.new label, ""⟩

def length (s : Scratch) : Nat := s.text.utf8ByteSize

def isEmpty (s : Scratch) : Bool := s.text.isEmpty

/-- Forgets the text and keeps the capacity. -/
def clear (s : Scratch) : Scratch := { s with text := "" }

/-- The capacity to account for a text of this length. -/
def capacityFor (length : Nat) : Nat := max (leastPowerOfTwo length) leastCapacity

/-- Accounts the capacity for so many more bytes of text. -/
def reserve (additional : Nat) : Metered MemoryError Scratch Unit := do
  let s ← Metered.read id
  let needed := s.length + additional
  if needed ≤ s.scope.held then pure ()
  else
    let missing := capacityFor needed - s.scope.held
    Metered.zoom scope (fun s scope => { s with scope }) (Scope.add missing)

/-- Appends a text. -/
def push (t : String) : Metered MemoryError Scratch Unit := do
  reserve t.utf8ByteSize
  Metered.modifyState fun s => { s with text := s.text ++ t }

/-- Appends a character. -/
def pushChar (c : Char) : Metered MemoryError Scratch Unit := do
  reserve c.utf8Size
  Metered.modifyState fun s => { s with text := s.text.push c }

/-- Forgets the text and gives the capacity back. -/
def release (s : Scratch) (b : Budget) : Scratch × Budget :=
  let (scope, b) := s.scope.release b
  (⟨scope, ""⟩, b)

end Scratch

end RowStream
