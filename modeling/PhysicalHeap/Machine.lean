import PhysicalHeap.Step
import PhysicalHeap.Journal
import PhysicalHeap.Memory

namespace PhysicalHeap

/-- The state of the machine: its memory, how many interrupt masks are held, and its journal. -/
structure Machine where
  memory : Memory
  masks : Word
  journal : Journal
  deriving DecidableEq

namespace Machine

variable {α : Type}

def mask (m : Machine) : Machine := { m with masks := m.masks + 1 }

def unmask (m : Machine) : Machine := { m with masks := m.masks - 1 }

/-- Runs a step with interrupts masked. The mask is given up however the step ends. -/
def masked (f : Step Machine α) : Step Machine α := fun m =>
  match f.run m.mask with
  | .ok a m => .ok a m.unmask
  | .error e m => .error e m.unmask

def note (n : Notice) : Step Machine Unit :=
  modify fun m => { m with journal := m.journal.record n }

@[simp] theorem run_masked (f : Step Machine α) (m : Machine) :
    (masked f).run m = match f.run m.mask with
      | .ok a m => .ok a m.unmask
      | .error e m => .error e m.unmask := rfl

end Machine

end PhysicalHeap
