import PhysicalHeap.Word

namespace PhysicalHeap

/-- The transmit side of a serial device. Before it takes a byte its flag register reads "full" for
`busy` polls; `waited` counts the polls since the last byte. -/
structure Transmitter where
  busy : Nat
  idle : UInt32
  waited : Nat
  polls : Nat
  sent : Array UInt8
  deriving DecidableEq

namespace Transmitter

def full : UInt32 := 0x20

/-- The flag register. The device sets the other flags as it likes. -/
def flags (d : Transmitter) : UInt32 :=
  if d.waited < d.busy then d.idle ||| full else d.idle &&& ~~~full

def isFull (d : Transmitter) : Bool := d.flags &&& full != 0

def poll (d : Transmitter) : Transmitter := { d with waited := d.waited + 1, polls := d.polls + 1 }

theorem or_full_and_full (f : UInt32) : (f ||| full) &&& full = full := by
  apply UInt32.toBitVec_inj.1
  ext i
  simp only [UInt32.toBitVec_and, UInt32.toBitVec_or, BitVec.getElem_and, BitVec.getElem_or]
  cases full.toBitVec[i] <;> simp

theorem isFull_eq (d : Transmitter) : d.isFull = decide (d.waited < d.busy) := by
  by_cases h : d.waited < d.busy
  · have hz : full ≠ 0 := by decide
    simp [isFull, flags, h, or_full_and_full, hz]
  · have hf : (d.idle &&& ~~~full) &&& full = 0 := by
      rw [UInt32.and_assoc, UInt32.not_and_self, UInt32.and_zero]
    simp [isFull, flags, h, hf]

theorem isFull_iff (d : Transmitter) : d.isFull = true ↔ d.waited < d.busy := by
  rw [isFull_eq, decide_eq_true_iff]

/-- Polls until the device is not full. It cannot stay full for longer than it is busy. -/
def await (d : Transmitter) : Transmitter := if d.isFull then d.poll.await else d.poll
termination_by d.busy - d.waited
decreasing_by
  have hw : d.waited < d.busy := d.isFull_iff.1 ‹_›
  simp only [poll]
  omega

def put (d : Transmitter) (b : UInt8) : Transmitter := { d with sent := d.sent.push b, waited := 0 }

def send (d : Transmitter) (b : UInt8) : Transmitter := d.await.put b

def configure (d : Transmitter) (busy : Nat) (idle : UInt32) : Transmitter :=
  { d with busy := busy, idle := idle, waited := 0 }

end Transmitter

namespace Text

def newline : UInt8 := 0x0A

def carriageReturn : UInt8 := 0x0D

def bytes (s : String) : List UInt8 := s.toList.flatMap String.utf8EncodeChar

end Text

/-- A serial console: a device behind a driver that stays silent until it has been told to start. -/
structure Console where
  base : Word
  ready : Bool
  device : Transmitter
  deriving DecidableEq

/-- Sends a byte of text. A carriage return goes out before a newline. -/
def Transmitter.sendText (d : Transmitter) (b : UInt8) : Transmitter :=
  if b = Text.newline then (d.send Text.carriageReturn).send b else d.send b

namespace Console

def start (c : Console) : Console := { c with ready := true }

/-- Sends a text. Before the start it is dropped without touching the device. -/
def write (c : Console) (s : String) : Console :=
  if c.ready then { c with device := (Text.bytes s).foldl Transmitter.sendText c.device } else c

def writeChar (c : Console) (x : Char) : Console := c.write (String.singleton x)

def writeLine (c : Console) (s : String) : Console := (c.write s).write "\n"

end Console

end PhysicalHeap
