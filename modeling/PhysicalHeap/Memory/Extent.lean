namespace PhysicalHeap

/-- A range of addresses. Its end is an exact number, so no range wraps around. -/
structure Extent where
  start : Nat
  length : Nat
  deriving DecidableEq

namespace Extent

def stop (x : Extent) : Nat := x.start + x.length

/-- An empty range also has to lie inside. -/
def isWithin (x outer : Extent) : Bool := outer.start ≤ x.start && x.stop ≤ outer.stop

def overlaps (x y : Extent) : Bool := x.start < y.stop && y.start < x.stop

instance : Membership Nat Extent := ⟨fun x a => x.start ≤ a ∧ a < x.stop⟩

instance (a : Nat) (x : Extent) : Decidable (a ∈ x) :=
  inferInstanceAs (Decidable (x.start ≤ a ∧ a < x.stop))

theorem mem_iff {a : Nat} {x : Extent} : a ∈ x ↔ x.start ≤ a ∧ a < x.stop := Iff.rfl

theorem isWithin_iff {x outer : Extent} :
    x.isWithin outer = true ↔ outer.start ≤ x.start ∧ x.stop ≤ outer.stop := by
  simp only [isWithin, Bool.and_eq_true, decide_eq_true_eq]

theorem overlaps_eq_false {x y : Extent} :
    x.overlaps y = false ↔ y.stop ≤ x.start ∨ x.stop ≤ y.start := by
  simp only [overlaps, Bool.and_eq_false_iff, decide_eq_false_iff_not, Nat.not_lt]

theorem not_mem_of_not_overlaps {x y : Extent} {a : Nat} (h : x.overlaps y = false) (hx : a ∈ x) :
    a ∉ y := by
  rw [overlaps_eq_false] at h
  rw [mem_iff] at hx ⊢
  omega

theorem mem_of_isWithin {x outer : Extent} {a : Nat} (h : x.isWithin outer = true) (hx : a ∈ x) :
    a ∈ outer := by
  obtain ⟨hlo, hhi⟩ := isWithin_iff.1 h
  exact ⟨Nat.le_trans hlo hx.1, Nat.lt_of_lt_of_le hx.2 hhi⟩

end Extent

end PhysicalHeap
