import PhysicalHeap.Failure

namespace PhysicalHeap

/-- A physical address. It has a word of its own so that it is not taken for a size. -/
structure Address where
  word : Word
  deriving DecidableEq

namespace Address

def null : Address := ⟨0⟩

/-- Physical addresses have 48 bits: the first address past them. -/
def limit : Word := 0x1000000000000

/-- The address of a word that names one; a word of more than 48 bits stops the computation. -/
def ofWord (w : Word) : Except Failure Address :=
  if w < limit then .ok ⟨w⟩ else halt .wideAddress

/-- The address `n` bytes on. Only the 64-bit sum is checked, so the result may exceed 48 bits. -/
def add? (a : Address) (n : Word) : Option Address := (Word.add? a.word n).map Address.mk

def since? (a base : Address) : Option Word := Word.sub? a.word base.word

def pageSize : Word := 4096

def pageMask : Word := pageSize - 1

def isPageAligned (a : Address) : Bool := a.word &&& pageMask == 0

def isNull (a : Address) : Bool := a.word == 0

/-- Whether the address is a multiple of `step`. Nothing is a multiple of zero here. -/
def isMultipleOf (a : Address) (step : Word) : Bool := step != 0 && a.word % step == 0

def compare (a b : Address) : Ordering := Ord.compare a.word b.word

def text (a : Address) : String := "0x" ++ a.word.hex 16

def tagged (a : Address) : String := "PhysAddr(" ++ a.text ++ ")"

theorem ofWord_eq_ok {w : Word} {a : Address} :
    ofWord w = .ok a ↔ a.word = w ∧ w.toNat < limit.toNat := by
  rw [ofWord, ← UInt64.lt_iff_toNat_lt]
  by_cases h : w < limit
  · rw [if_pos h, Except.ok.injEq, and_iff_left h]
    exact ⟨fun e => e ▸ rfl, fun e => by cases a; exact congrArg mk e.symm⟩
  · rw [if_neg h]
    exact ⟨fun e => (by cases e), fun e => absurd e.2 h⟩

theorem add?_eq_some {a b : Address} {n : Word} :
    a.add? n = some b ↔ b.word.toNat = a.word.toNat + n.toNat := by
  rw [← Word.add?_eq_some]
  cases b
  simp [add?]

theorem since?_eq_some {a base : Address} {n : Word} :
    a.since? base = some n ↔ a.word.toNat = base.word.toNat + n.toNat := Word.sub?_eq_some

theorem since?_eq_none {a base : Address} :
    a.since? base = none ↔ a.word.toNat < base.word.toNat := Word.sub?_eq_none

theorem isMultipleOf_iff {a : Address} {step : Word} :
    a.isMultipleOf step = true ↔ step.toNat ≠ 0 ∧ step.toNat ∣ a.word.toNat := by
  have h0 : step = 0 ↔ step.toNat = 0 := by rw [← UInt64.toNat_inj]; rfl
  have hm : a.word % step = 0 ↔ a.word.toNat % step.toNat = 0 := by
    rw [← UInt64.toNat_inj, UInt64.toNat_mod]; rfl
  simp [isMultipleOf, h0, hm, Nat.dvd_iff_mod_eq_zero]

end Address

end PhysicalHeap
