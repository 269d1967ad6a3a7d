import PhysicalHeap.Console
import PhysicalHeap.Journal.Notice

namespace PhysicalHeap

/-- A journal keeps the notices it admits, and prints each of them as one line on a console. -/
structure Journal where
  threshold : Threshold
  console : Console
  kept : List Notice
  deriving DecidableEq

namespace Journal

def admits (j : Journal) (l : Level) : Bool := j.threshold.admits l

def record (j : Journal) (n : Notice) : Journal :=
  if j.admits n.level then { j with console := j.console.write n.line, kept := j.kept ++ [n] } else j

inductive InstallError where
  | alreadyInstalled
  deriving DecidableEq

def InstallError.message : InstallError → String
  | alreadyInstalled =>
    "attempted to set a logger after the logging system was already initialized"

/-- A journal is installed once, when the machine starts. A later attempt is turned down and leaves
the threshold as it was. -/
def install (_ : Journal) (_ : Threshold) : Except InstallError Journal := .error .alreadyInstalled

theorem threshold_record (j : Journal) (n : Notice) : (j.record n).threshold = j.threshold := by
  by_cases h : j.admits n.level <;> simp [record, h]

theorem admits_record (j : Journal) (n : Notice) (l : Level) : (j.record n).admits l = j.admits l := by
  rw [admits, admits, threshold_record]

end Journal

end PhysicalHeap
