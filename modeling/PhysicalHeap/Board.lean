import PhysicalHeap.Machine
import PhysicalHeap.Placement

namespace PhysicalHeap

namespace Board

def version : String := "0.3.0"

def ramBase : Word := 0x40000000

def ram : Extent := ⟨ramBase.toNat, 0x8000000⟩

def kernelBase : Word := 0x40080000

def serialBase : Word := 0x09000000

/-- Whether the registers of a serial device may be looked for at the address: it is aligned to four
bytes, and leaves room for the registers in the page of the device. -/
def isSerial (base : Word) : Bool :=
  base % 4 == 0 && serialBase ≤ base && base < serialBase + 0xFE4

/-- Sixty-four MiB in pages, with the table well clear of the kernel image. -/
def placement : Placement := ⟨0x42000000, 0x4000000, 0x41000000, Address.pageSize⟩

def console (base : Word) : Console := ⟨base, false, ⟨0, 0, 0, 0, #[]⟩⟩

def machine : Machine := ⟨Memory.blank, 0, ⟨none, (console serialBase).start, []⟩⟩

end Board

end PhysicalHeap
