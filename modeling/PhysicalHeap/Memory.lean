import PhysicalHeap.Failure
import PhysicalHeap.Memory.Extent
import PhysicalHeap.Memory.Runs

namespace PhysicalHeap

/-- The bytes of the machine's memory from address zero on. All bytes past the last run are zero. -/
structure Memory where
  runs : Runs
  deriving DecidableEq

namespace Memory

def blank : Memory := ⟨[]⟩

def byteAt (m : Memory) (a : Nat) : UInt8 := m.runs.byteAt a

/-- The `n` bytes from `start` on, as runs that are as long as they can be. -/
def window (m : Memory) (start n : Nat) : Runs := Runs.front n (m.runs.rest start)

def read (m : Memory) (start n : Nat) : List UInt8 := (m.window start n).expand

def overlay (m : Memory) (start : Nat) (bytes : Runs) : Memory :=
  ⟨(m.runs.front start).append (bytes.append (m.runs.rest (start + bytes.length)))⟩

def write (m : Memory) (start : Nat) (bytes : List UInt8) : Memory :=
  m.overlay start (Runs.ofList bytes)

def fill (m : Memory) (start n : Nat) (b : UInt8) : Memory := m.overlay start (Runs.push b n [])

theorem byteAt_overlay (m : Memory) (start : Nat) (bytes : Runs) (a : Nat) :
    (m.overlay start bytes).byteAt a =
      if start ≤ a ∧ a < start + bytes.length then bytes.byteAt (a - start) else m.byteAt a := by
  simp only [byteAt, overlay, Runs.byteAt_append, Runs.length_front, Runs.byteAt_front,
    Runs.byteAt_rest]
  by_cases h : a < start
  · simp [h, Nat.not_le_of_lt h]
  · by_cases hb : a - start < bytes.length
    · have : a < start + bytes.length := by omega
      simp [h, hb, this, Nat.le_of_not_lt h]
    · have h1 : ¬ a < start + bytes.length := by omega
      have h2 : start + bytes.length + (a - start - bytes.length) = a := by omega
      simp [h, hb, h1, h2]

theorem byteAt_fill (m : Memory) (start n : Nat) (b : UInt8) (a : Nat) :
    (m.fill start n b).byteAt a = if start ≤ a ∧ a < start + n then b else m.byteAt a := by
  simp only [fill, byteAt_overlay, Runs.length_push, Runs.length, Runs.byteAt_push, Nat.add_zero]
  by_cases h : start ≤ a ∧ a < start + n
  · have : a - start < n := by omega
    simp [h, this]
  · simp [h]

theorem byteAt_write (m : Memory) (start : Nat) (bytes : List UInt8) (a : Nat) :
    (m.write start bytes).byteAt a =
      if start ≤ a ∧ a < start + bytes.length then bytes[a - start]?.getD 0 else m.byteAt a := by
  simp only [write, byteAt_overlay, Runs.length_ofList, Runs.byteAt_ofList]

theorem length_read (m : Memory) (start n : Nat) : (m.read start n).length = n := by
  simp [read, window, Runs.length_expand, Runs.length_front]

theorem getElem?_read (m : Memory) (start n i : Nat) :
    (m.read start n)[i]? = if i < n then some (m.byteAt (start + i)) else none := by
  simp only [read, window, Runs.getElem?_expand, Runs.length_front, Runs.byteAt_front,
    Runs.byteAt_rest, byteAt]
  by_cases h : i < n <;> simp [h]

end Memory

namespace Scrub

def all (bytes : List UInt8) : List UInt8 := bytes.map fun _ => 0

/-- Clears the bytes from `start` up to `stop`. Bounds outside the bytes stop the computation. -/
def slice (start stop : Nat) (bytes : List UInt8) : Except Failure (List UInt8) :=
  if bytes.length < start then halt (.sliceStart start bytes.length)
  else if bytes.length < stop then halt (.sliceStop stop bytes.length)
  else if stop < start then halt (.sliceOrder start stop)
  else .ok (bytes.take start ++ all ((bytes.take stop).drop start) ++ bytes.drop stop)

def extent (x : Extent) (m : Memory) : Memory := m.fill x.start x.length 0

end Scrub

end PhysicalHeap
