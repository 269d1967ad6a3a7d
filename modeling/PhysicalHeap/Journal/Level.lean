namespace PhysicalHeap

inductive Level where
  | error
  | warn
  | info
  | debug
  | trace
  deriving DecidableEq

namespace Level

def all : List Level := [error, warn, info, debug, trace]

def rank : Level → Nat
  | error => 1
  | warn => 2
  | info => 3
  | debug => 4
  | trace => 5

def label : Level → String
  | error => "ERROR"
  | warn => "WARN"
  | info => "INFO"
  | debug => "DEBUG"
  | trace => "TRACE"

def ofLabel? (s : String) : Option Level := all.find? fun l => l.label = s.toUpper

end Level

/-- The least grave level that is still recorded; none turns recording off. -/
abbrev Threshold := Option Level

namespace Threshold

def admits (t : Threshold) (l : Level) : Bool :=
  match t with
  | none => false
  | some least => l.rank ≤ least.rank

def label : Threshold → String
  | none => "OFF"
  | some l => l.label

def ofLabel? (s : String) : Option Threshold :=
  if s.toUpper = label none then some none else (Level.ofLabel? s).map some

end Threshold

end PhysicalHeap
