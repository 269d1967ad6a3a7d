import PhysicalHeap.Word

namespace PhysicalHeap

/-- The status byte of a block. The low four bits say whether the block is taken, the two high bits
how it hangs together with the blocks beside it. -/
abbrev Entry := UInt8

namespace Entry

def free : Entry := 0x00

def taken : Entry := 0x01

def first : Entry := 0x40

def next : Entry := 0x80

def known : Entry := 0xC1

/-- Only the low four bits count: a free block may carry any high bits. -/
def isFree (e : Entry) : Bool := e &&& 0x0F == 0

def has (e flags : Entry) : Bool := e &&& flags == flags

def isFirst (e : Entry) : Bool := e.has first

def hasNext (e : Entry) : Bool := e.has next

def isEmpty (e : Entry) : Bool := e == 0

def overlaps (e flags : Entry) : Bool := e &&& flags != 0

def without (e flags : Entry) : Entry := e &&& ~~~flags

def truncate (e : Entry) : Entry := e &&& known

def complement (e : Entry) : Entry := truncate (~~~e)

/-- The byte itself if all its bits have a meaning. -/
def strict? (e : Entry) : Option Entry := if (e.without known).isEmpty then some e else none

/-- Entry number `i` of an allocation of `n` blocks. -/
def link (n i : Nat) : Entry :=
  taken ||| (if i = 0 then first else 0) ||| (if i + 1 < n then next else 0)

def text (e : Entry) : String :=
  let names := [(taken, "TAKEN"), (first, "IS_FIRST"), (next, "HAS_NEXT")].filterMap fun f =>
    if e.has f.1 then some f.2 else none
  let rest := e.without known
  let parts := if rest.isEmpty && !names.isEmpty then names
    else names ++ ["0x" ++ Word.hex 1 rest.toUInt64]
  "BlockFlags(" ++ " | ".intercalate parts ++ ")"

end Entry

end PhysicalHeap
