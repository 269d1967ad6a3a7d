import PhysicalHeap.Machine
import PhysicalHeap.Placement
import PhysicalHeap.Recorded

namespace PhysicalHeap

/-- A heap that serves the whole machine. Its table lies in memory, and every access to it runs with
interrupts masked. -/
structure Arena extends Placement where
  blockSize_ne : blockSize ≠ 0

namespace Arena

open Step Machine

variable {α : Type}

def grid (s : Arena) : Grid := ⟨⟨s.base⟩, s.blockSize, s.blockSize_ne⟩

def table (s : Arena) (m : Machine) : Table := m.memory.read s.tableBase.toNat s.total

def onTable (s : Arena) (f : Step Recorded α) : Step Machine α :=
  focus (fun m => ⟨s.table m, m.journal⟩)
    (fun r m => { m with memory := m.memory.write s.tableBase.toNat r.table, journal := r.journal }) f

def critical (s : Arena) (f : Step Recorded α) : Step Machine α := masked (s.onTable f)

/-- Sets up the heap with all blocks free. The closing record names the end of the heap, which is
worked out only if the record is admitted. -/
def init (p : Placement) : Step Machine Arena := do
  if h : p.blockSize = 0 then throw (.refused .zeroBlock)
  else
    let s : Arena := ⟨p, h⟩
    let stop ← judged p.stop
    match ← attempt (s.onTable (Recorded.create ⟨p.base⟩ stop p.blockSize)) with
    | .error r =>
      note (.notReady r)
      throw (.refused r)
    | .ok g =>
      let m ← get
      if m.journal.admits .info then
        let stop ← judged (g.stop (s.table m))
        note (.ready g.base stop s.total p.blockSize p.tableBase)
      return s

/-- Takes blocks for `size` bytes; a refusal is recorded and answered with nothing. -/
def allocate (s : Arena) (size : Word) : Step Machine (Option Address) := do
  match ← attempt (s.critical (Recorded.malloc s.grid size)) with
  | .ok a => return some a
  | .error r =>
    note (.noRoom size r)
    return none

def allocateZeroed (s : Arena) (size : Word) : Step Machine (Option Address) := do
  let taken ← attempt (s.critical do
    let n ← judged (s.grid.roundUp size)
    let a ← Recorded.malloc s.grid size
    return (a, n))
  match taken with
  | .ok (a, n) =>
    modify fun m => { m with memory := Scrub.extent ⟨a.word.toNat, n.toNat⟩ m.memory }
    return some a
  | .error r =>
    note (.noRoomZeroed size r)
    return none

/-- Gives an allocation back. A refusal is recorded as an error. -/
def release (s : Arena) (a : Address) : Step Machine Unit := do
  match ← attempt (s.critical (Recorded.free s.grid a)) with
  | .ok () => return ()
  | .error r =>
    note (.notReleased a r)
    throw (.refused r)

def allocateRaw (s : Arena) (size : Word) : Step Machine Word := do
  match ← s.allocate size with
  | some a => return a.word
  | none => return Address.null.word

/-- Gives an allocation back by its bare pointer, and answers a status code: zero or negative. -/
def releaseRaw (s : Arena) (pointer : Word) : Step Machine Int := do
  let a ← judged (Address.ofWord pointer)
  match ← attempt (s.release a) with
  | .ok () => return 0
  | .error r => return r.status

def lengthAt (s : Arena) (a : Address) : Step Machine Nat :=
  s.critical do judged (s.grid.lengthAt (← get).table a)

def stats (s : Arena) : Step Machine Stats :=
  s.critical do return s.grid.stats (← get).table

def text (stats : Stats) : String := Report.record "KernelHeap" [("stats", stats.text)]

end Arena

end PhysicalHeap
