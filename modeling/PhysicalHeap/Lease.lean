import PhysicalHeap.Arena

namespace PhysicalHeap

/-- An allocation with an owner, who gives it back by dropping the lease. -/
structure Lease where
  address : Address
  length : Word
  deriving DecidableEq

namespace Lease

open Step Machine

/-- Takes blocks for `size` bytes. The length of the lease is worked out in a section of its own,
and nothing is recorded if that already fails. -/
def take (s : Arena) (size : Word) : Step Machine (Option Lease) := do
  match ← attempt (s.critical (judged (s.grid.roundUp size))) with
  | .error _ => return none
  | .ok n =>
    match ← s.allocate size with
    | none => return none
    | some a => return some ⟨a, n⟩

def isEmpty (l : Lease) : Bool := l.length == 0

def extent (l : Lease) : Extent := ⟨l.address.word.toNat, l.length.toNat⟩

def read (l : Lease) (m : Machine) : Runs := m.memory.window l.extent.start l.extent.length

def write (l : Lease) (offset : Word) (byte : UInt8) : Step Machine Unit := do
  if offset < l.length then
    modify fun m => { m with memory := m.memory.fill (l.extent.start + offset.toNat) 1 byte }
  else throw (.halted (.outOfBounds l.length.toNat offset.toNat))

def scrub (l : Lease) : Step Machine Unit :=
  modify fun m => { m with memory := Scrub.extent l.extent m.memory }

/-- Gives the blocks back. A refusal is recorded and goes no further. -/
def drop (s : Arena) (l : Lease) : Step Machine Unit := do
  let _ ← attempt (s.release l.address)

def text (l : Lease) (stats : Stats) : String :=
  Report.record "HeapRegion" [("heap", Arena.text stats), ("addr", l.address.tagged),
    ("len", toString l.length)]

end Lease

end PhysicalHeap
