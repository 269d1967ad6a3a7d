import PhysicalHeap.Word

namespace PhysicalHeap

/-- Why a request is turned down. A refused request leaves the heap as it was. -/
inductive Refusal where
  | unaligned
  | tableLength (expected actual : Nat)
  | zeroBlock
  | reversed
  | nothingAsked
  | exhausted
  | foreignAddress
  | notTaken
  | notHead
  deriving DecidableEq

/-- Why a computation stops at once. What it has written by then stays written. -/
inductive Fault where
  | wideAddress
  | noSuchBlock
  | overflow
  | outOfBounds (length index : Nat)
  | sliceStart (start length : Nat)
  | sliceStop (stop length : Nat)
  | sliceOrder (start stop : Nat)
  | abort (reason : String)
  deriving DecidableEq

inductive Failure where
  | refused (r : Refusal)
  | halted (f : Fault)
  deriving DecidableEq

namespace Refusal

def message : Refusal → String
  | unaligned => "heap bounds not aligned to block size"
  | tableLength expected actual =>
    "block table holds " ++ toString actual ++ " entries, heap spans " ++ toString expected ++ " blocks"
  | zeroBlock => "block size must be non-zero"
  | reversed => "heap end below heap start"
  | nothingAsked => "zero-sized allocation"
  | exhausted => "out of heap memory"
  | foreignAddress => "address not a heap block"
  | notTaken => "block is not allocated"
  | notHead => "block is not the start of an allocation"

def invalidCode : Nat := 2

def exhaustedCode : Nat := 3

/-- The negative status code a caller sees who only gets a number. -/
def status : Refusal → Int
  | exhausted => -(exhaustedCode : Int)
  | _ => -(invalidCode : Int)

end Refusal

def Fault.message : Fault → String
  | wideAddress => "assertion failed: addr <= 0x0000_FFFF_FFFF_FFFF"
  | noSuchBlock => "assertion failed: index < self.total_blocks()"
  | overflow => "arithmetic overflow"
  | outOfBounds length index =>
    "index out of bounds: the len is " ++ toString length ++ " but the index is " ++ toString index
  | sliceStart start length =>
    "range start index " ++ toString start ++ " out of range for slice of length " ++ toString length
  | sliceStop stop length =>
    "range end index " ++ toString stop ++ " out of range for slice of length " ++ toString length
  | sliceOrder start stop =>
    "slice index starts at " ++ toString start ++ " but ends at " ++ toString stop
  | abort reason => reason

def refuse (r : Refusal) : Except Failure α := .error (.refused r)

def halt (f : Fault) : Except Failure α := .error (.halted f)

/-- The word of an exact number; a number of more than 64 bits stops the computation. -/
def exact (n : Nat) : Except Failure Word :=
  match Word.ofNat? n with
  | some w => .ok w
  | none => halt .overflow

theorem exact_eq_ok {n : Nat} {w : Word} : exact n = .ok w ↔ w.toNat = n := by
  unfold exact
  rw [← Word.ofNat?_eq_some]
  cases Word.ofNat? n <;> simp [halt]

end PhysicalHeap
