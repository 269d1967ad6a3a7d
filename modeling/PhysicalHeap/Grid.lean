import PhysicalHeap.Address
import PhysicalHeap.Table

namespace PhysicalHeap

/-- Where the blocks of a heap lie: block `i` starts `i` block sizes above the base. How many blocks
there are, and which of them are taken, is in the table. -/
structure Grid where
  base : Address
  blockSize : Word
  blockSize_ne : blockSize ≠ 0

structure Stats where
  blockSize : Word
  total : Nat
  free : Nat
  used : Nat
  deriving DecidableEq

def Stats.text (s : Stats) : String :=
  Report.record "HeapStats" [("block_size", toString s.blockSize), ("total_blocks", toString s.total),
    ("free_blocks", toString s.free), ("used_blocks", toString s.used)]

namespace Grid

open Step

/-- Lays a grid over the bytes from `base` up to `stop`, and frees every entry of the table, which
has to have one entry per block. A refusal leaves the table as it was. -/
def create (base stop : Address) (blockSize : Word) : Step Table Grid := do
  if h : blockSize = 0 then throw (.refused .zeroBlock)
  else if !base.isMultipleOf blockSize || !stop.isMultipleOf blockSize then
    throw (.refused .unaligned)
  else
    match stop.since? base with
    | none => throw (.refused .reversed)
    | some span =>
      let expected := (span / blockSize).toNat
      let t ← get
      if t.length ≠ expected then throw (.refused (.tableLength expected t.length))
      else
        set t.clear
        return ⟨base, blockSize, h⟩

def stop (g : Grid) (t : Table) : Except Failure Address := do
  Address.ofWord (← exact (g.base.word.toNat + t.length * g.blockSize.toNat))

def address (g : Grid) (t : Table) (i : Nat) : Except Failure Address := do
  if i < t.length then Address.ofWord (← exact (g.base.word.toNat + i * g.blockSize.toNat))
  else halt .noSuchBlock

def blockAt (g : Grid) (t : Table) (a : Address) : Except Failure Nat :=
  match a.since? g.base with
  | none => refuse .foreignAddress
  | some offset =>
    if offset % g.blockSize ≠ 0 then refuse .foreignAddress
    else
      let i := (offset / g.blockSize).toNat
      if i < t.length then .ok i else refuse .foreignAddress

def roundUp (g : Grid) (size : Word) : Except Failure Word :=
  match Word.roundUp? size g.blockSize with
  | some n => .ok n
  | none => refuse .exhausted

def blocksFor (g : Grid) (size : Word) : Except Failure Nat := do
  return ((← g.roundUp size) / g.blockSize).toNat

/-- Takes the leftmost run of `n` free blocks. The address is worked out before the table is
written. -/
def allocate (g : Grid) (n : Nat) : Step Table Address := do
  let t ← get
  let start ← judged (t.findRun n)
  let a ← judged (g.address t start)
  Table.markTaken start n
  return a

/-- Gives back the allocation that starts at the address, and answers its length in blocks. -/
def free (g : Grid) (a : Address) : Step Table Nat := do
  Table.markFree (← judged (g.blockAt (← get) a))

def lengthAt (g : Grid) (t : Table) (a : Address) : Except Failure Nat := do
  t.chainLength (← g.blockAt t a)

def stats (g : Grid) (t : Table) : Stats :=
  ⟨g.blockSize, t.length, t.countFree, t.length - t.countFree⟩

def text (g : Grid) (t : Table) : String :=
  Report.record "Heap" [("table", t.text), ("base", g.base.tagged),
    ("block_size", toString g.blockSize)]

end Grid

end PhysicalHeap
