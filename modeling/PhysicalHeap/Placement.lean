import PhysicalHeap.Address
import PhysicalHeap.Memory.Extent

namespace PhysicalHeap

/-- Where a heap and its table are put in memory. -/
structure Placement where
  base : Word
  size : Word
  tableBase : Word
  blockSize : Word
  deriving DecidableEq

namespace Placement

def total (p : Placement) : Nat := (p.size / p.blockSize).toNat

def stop (p : Placement) : Except Failure Address := do
  let base ← Address.ofWord p.base
  match base.add? p.size with
  | some a => return a
  | none => refuse .reversed

def heapExtent (p : Placement) : Extent := ⟨p.base.toNat, p.size.toNat⟩

def tableExtent (p : Placement) : Extent := ⟨p.tableBase.toNat, p.total⟩

/-- Whether heap and table both lie in the memory there is, apart from each other. -/
def fits (p : Placement) (ram : Extent) : Bool :=
  p.tableExtent.isWithin ram && p.heapExtent.isWithin ram && !p.heapExtent.overlaps p.tableExtent

def text (p : Placement) : String :=
  Report.record "HeapLayout" [("heap_base", toString p.base), ("heap_size", toString p.size),
    ("table_base", toString p.tableBase), ("block_size", toString p.blockSize)]

end Placement

end PhysicalHeap
