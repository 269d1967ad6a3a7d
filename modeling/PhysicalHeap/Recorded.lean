import PhysicalHeap.Grid
import PhysicalHeap.Journal

namespace PhysicalHeap

structure Recorded where
  table : Table
  journal : Journal
  deriving DecidableEq

namespace Recorded

open Step

variable {α : Type}

def onTable (f : Step Table α) : Step Recorded α :=
  focus Recorded.table (fun t r => { r with table := t }) f

def note (n : Notice) : Step Recorded Unit :=
  modify fun r => { r with journal := r.journal.record n }

def create (base stop : Address) (blockSize : Word) : Step Recorded Grid := do
  let g ← onTable (Grid.create base stop blockSize)
  note (.created base stop (← get).table.length blockSize)
  return g

def allocate (g : Grid) (n : Nat) : Step Recorded Address := do
  let a ← onTable (g.allocate n)
  note (.taken n a)
  return a

def malloc (g : Grid) (size : Word) : Step Recorded Address := do
  allocate g (← judged (g.blocksFor size))

def free (g : Grid) (a : Address) : Step Recorded Unit := do
  let n ← onTable (g.free a)
  note (.freed n a)

end Recorded

end PhysicalHeap
