import PhysicalHeap.Step
import PhysicalHeap.Entry

namespace PhysicalHeap

/-- One entry per block, in order. The table is the only record of what is allocated. -/
abbrev Table := List Entry

namespace Table

def countFree (t : Table) : Nat := t.countP Entry.isFree

def clear (t : Table) : Table := t.map fun _ => Entry.free

/-- Scans for `n` free entries in a row. Entry `i` is the next one, and the `run` entries before it
from `start` on are free. -/
def scan (n : Nat) : (i start run : Nat) → Table → Option Nat
  | _, _, _, [] => none
  | i, start, run, e :: t =>
    if e.isFree then
      let start := if run = 0 then i else start
      if run + 1 = n then some start else scan n (i + 1) start (run + 1) t
    else scan n (i + 1) start 0 t

def findRun (t : Table) (n : Nat) : Except Failure Nat :=
  if n = 0 then refuse .nothingAsked
  else
    match scan n 0 0 0 t with
    | some start => .ok start
    | none => refuse .exhausted

/-- Writes the links `i, i + 1, …` of an allocation of `n` blocks that starts at block `start`.
The entries passed so far are `done`, the last one first. -/
def writeLinks (start n : Nat) : (i : Nat) → (done : List Entry) → Table →
    EStateM.Result Failure Table Unit
  | i, done, rest =>
    if n ≤ i then .ok () (done.reverse ++ rest)
    else
      match exact (start + i) with
      | .error e => .error e (done.reverse ++ rest)
      | .ok _ =>
        match rest with
        | [] => .error (.halted (.outOfBounds done.length (start + i))) done.reverse
        | _ :: rest => writeLinks start n (i + 1) (Entry.link n i :: done) rest

/-- Marks `n` blocks from `start` on as one allocation. A run past the end of the table stops there,
after the entries before the end have been written. -/
def markTaken (start n : Nat) : Step Table Unit := fun t =>
  writeLinks start n 0 (t.take start).reverse (t.drop start)

def checkHead (t : Table) (i : Nat) : Except Failure Unit :=
  match t[i]? with
  | none => refuse .foreignAddress
  | some e =>
    if e.isFree then refuse .notTaken
    else if e.isFirst then .ok ()
    else refuse .notHead

/-- Passes the entries up to and including the first that does not go on in the next block. Answers
how many were passed, counted from `passed`, and what comes after them. -/
def passChain : (passed : Nat) → Table → Nat × Table
  | passed, [] => (passed, [])
  | passed, e :: rest => if e.hasNext then passChain (passed + 1) rest else (passed + 1, rest)

def markFree (start : Nat) : Step Table Nat := fun t =>
  match t.checkHead start with
  | .error e => .error e t
  | .ok () =>
    let (passed, rest) := passChain 0 (t.drop start)
    .ok passed (t.take start ++ List.replicate passed Entry.free ++ rest)

/-- The number of blocks of the allocation that starts at the block: the entries that go on, and one
more unless the table ends first. -/
def chainLength (t : Table) (start : Nat) : Except Failure Nat := do
  t.checkHead start
  return min (((t.drop start).takeWhile Entry.hasNext).length + 1) (t.length - start)

def text (t : Table) : String :=
  Report.record "BlockTable" [("total", toString t.length), ("free", toString t.countFree)]

end Table

end PhysicalHeap
