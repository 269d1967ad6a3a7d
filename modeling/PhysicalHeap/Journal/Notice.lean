import PhysicalHeap.Address
import PhysicalHeap.Journal.Level

namespace PhysicalHeap

/-- What a journal can be told: what happened to the heap, or a remark in words of one's own. -/
inductive Notice where
  | created (base stop : Address) (total : Nat) (blockSize : Word)
  | taken (n : Nat) (a : Address)
  | freed (n : Nat) (a : Address)
  | notReady (r : Refusal)
  | ready (base stop : Address) (total : Nat) (blockSize tableBase : Word)
  | noRoom (size : Word) (r : Refusal)
  | noRoomZeroed (size : Word) (r : Refusal)
  | notReleased (a : Address) (r : Refusal)
  | remark (l : Level) (target text : String)
  deriving DecidableEq

namespace Notice

def level : Notice → Level
  | created .. => .debug
  | taken .. => .trace
  | freed .. => .trace
  | notReady .. => .error
  | ready .. => .info
  | noRoom .. => .warn
  | noRoomZeroed .. => .warn
  | notReleased .. => .error
  | remark l .. => l

def target : Notice → String
  | created .. => "blockheap_kernel::mm::heap"
  | taken .. => "blockheap_kernel::mm::heap"
  | freed .. => "blockheap_kernel::mm::heap"
  | remark _ target _ => target
  | _ => "blockheap_kernel::mm::kheap"

def text : Notice → String
  | created base stop total blockSize =>
    "heap created: " ++ base.text ++ ".." ++ stop.text ++ " (" ++ toString total ++ " blocks of " ++
      toString blockSize ++ " bytes)"
  | taken n a => "heap: " ++ toString n ++ " blocks at " ++ a.text
  | freed n a => "heap: freed " ++ toString n ++ " blocks at " ++ a.text
  | notReady r => "failed to create kernel heap: " ++ r.message
  | ready base stop total blockSize tableBase =>
    "kernel heap: " ++ base.text ++ ".." ++ stop.text ++ ", " ++ toString total ++ " blocks of " ++
      toString blockSize ++ " bytes, table at 0x" ++ Word.hex 1 tableBase
  | noRoom size r => "kernel heap: allocation of " ++ toString size ++ " bytes failed: " ++ r.message
  | noRoomZeroed size r =>
    "kernel heap: zeroed allocation of " ++ toString size ++ " bytes failed: " ++ r.message
  | notReleased a r => "kernel heap: rejected release of " ++ a.text ++ ": " ++ r.message
  | remark _ _ text => text

def line (n : Notice) : String :=
  "[" ++ n.level.label ++ "] " ++ n.target ++ ": " ++ n.text ++ "\n"

end Notice

end PhysicalHeap
