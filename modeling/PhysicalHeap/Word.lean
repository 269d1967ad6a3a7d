namespace PhysicalHeap

/-- A machine word: sizes, addresses and registers have 64 bits. -/
abbrev Word := UInt64

namespace Word

def range : Nat := UInt64.size

def ofNat? (n : Nat) : Option Word := if n < range then some (UInt64.ofNat n) else none

def add? (a b : Word) : Option Word := ofNat? (a.toNat + b.toNat)

def sub? (a b : Word) : Option Word := if b ≤ a then some (a - b) else none

/-- The least multiple of `step` that is at least `n`. There is none for step zero, and none in 64
bits when the last multiple lies below `n`. -/
def roundUp? (n step : Word) : Option Word :=
  if step = 0 then none
  else if n % step = 0 then some n
  else add? (n - n % step) step

theorem ofNat?_eq_some {n : Nat} {w : Word} : ofNat? n = some w ↔ w.toNat = n := by
  unfold ofNat? range
  constructor
  · intro h
    split at h
    · next hn =>
      obtain rfl := Option.some.inj h
      exact UInt64.toNat_ofNat_of_lt' hn
    · exact absurd h (by simp)
  · rintro rfl
    rw [if_pos w.toNat_lt, UInt64.ofNat_toNat]

theorem ofNat?_eq_none {n : Nat} : ofNat? n = none ↔ range ≤ n := by
  unfold ofNat?
  split <;> simp <;> omega

theorem add?_eq_some {a b c : Word} : add? a b = some c ↔ c.toNat = a.toNat + b.toNat :=
  ofNat?_eq_some

theorem add?_eq_none {a b : Word} : add? a b = none ↔ range ≤ a.toNat + b.toNat :=
  ofNat?_eq_none

theorem sub?_eq_some {a b c : Word} : sub? a b = some c ↔ a.toNat = b.toNat + c.toNat := by
  unfold sub?
  constructor
  · intro h
    split at h
    · next hle =>
      obtain rfl := Option.some.inj h
      have hb := UInt64.le_iff_toNat_le.1 hle
      rw [UInt64.toNat_sub_of_le a b hle]
      omega
    · exact absurd h (by simp)
  · intro h
    have hle : b ≤ a := UInt64.le_iff_toNat_le.2 (by omega)
    rw [if_pos hle]
    congr 1
    apply UInt64.toNat_inj.1
    rw [UInt64.toNat_sub_of_le a b hle]
    omega

theorem sub?_eq_none {a b : Word} : sub? a b = none ↔ a.toNat < b.toNat := by
  unfold sub?
  split
  · next h => simp [UInt64.le_iff_toNat_le.1 h]
  · next h => simpa [UInt64.le_iff_toNat_le] using h

def hex (width : Nat) (w : Word) : String :=
  let digits := Nat.toDigits 16 w.toNat
  String.ofList (List.replicate (width - digits.length) '0' ++ digits)

end Word

def Report.record (name : String) (fields : List (String × String)) : String :=
  name ++ " \x7b " ++ ", ".intercalate (fields.map fun f => f.1 ++ ": " ++ f.2) ++ " \x7d"

end PhysicalHeap
