import Mathlib.Order.Bounds.Basic
import PhysicalHeap.Proofs.Blocks

namespace PhysicalHeap

def multiplesFrom (n step : Nat) : Set Nat := {m | step ∣ m ∧ n ≤ m}

theorem isLeast_multiplesFrom (n : Nat) {step : Nat} (hs : 0 < step) :
    IsLeast (multiplesFrom n step) (stepsFor n step * step) := by
  constructor
  · exact ⟨Nat.dvd_mul_left _ _, (stepsFor_le_iff hs).1 (Nat.le_refl _)⟩
  · rintro m ⟨⟨k, rfl⟩, hm⟩
    rw [Nat.mul_comm step k] at hm ⊢
    exact Nat.mul_le_mul_right step ((stepsFor_le_iff hs).2 hm)

namespace Word

variable {n n' step r : Word}

theorem roundUp?_zero (n : Word) : roundUp? n 0 = none := if_pos rfl

theorem roundUp?_eq_some_iff :
    roundUp? n step = some r ↔ 0 < step.toNat ∧ IsLeast (multiplesFrom n.toNat step.toNat) r.toNat := by
  by_cases hs : step = 0
  · subst hs
    rw [roundUp?_zero]
    exact ⟨fun h => (by cases h), fun h => absurd h.1 (Nat.lt_irrefl 0)⟩
  · have hleast := isLeast_multiplesFrom n.toNat (toNat_pos hs)
    rw [roundUp?_eq_some hs]
    exact ⟨fun h => ⟨toNat_pos hs, h ▸ hleast⟩, fun h => h.2.unique hleast⟩

theorem roundUp?_eq_none_iff :
    roundUp? n step = none ↔
      step.toNat = 0 ∨ ∃ m, IsLeast (multiplesFrom n.toNat step.toNat) m ∧ range ≤ m := by
  by_cases hs : step = 0
  · subst hs
    exact iff_of_true (roundUp?_zero n) (.inl rfl)
  · have hpos := toNat_pos hs
    have hleast := isLeast_multiplesFrom n.toNat hpos
    rw [roundUp?_eq_ofNat? hs, ofNat?_eq_none]
    constructor
    · exact fun h => .inr ⟨_, hleast, h⟩
    · rintro (h | ⟨m, hm, hle⟩)
      · omega
      · exact hm.unique hleast ▸ hle

theorem roundUp?_roundUp? (h : roundUp? n step = some r) : roundUp? r step = some r := by
  obtain ⟨hs, ⟨hdvd, -⟩, -⟩ := roundUp?_eq_some_iff.1 h
  exact roundUp?_eq_some_iff.2 ⟨hs, ⟨hdvd, Nat.le_refl _⟩, fun _ hm => hm.2⟩

theorem roundUp?_mono {r' : Word} (hn : n ≤ n') (h : roundUp? n' step = some r') :
    ∃ r, roundUp? n step = some r ∧ r ≤ r' := by
  obtain ⟨hs, ⟨hdvd, hge⟩, -⟩ := roundUp?_eq_some_iff.1 h
  have hr' : r'.toNat ∈ multiplesFrom n.toNat step.toNat :=
    ⟨hdvd, Nat.le_trans (UInt64.le_iff_toNat_le.1 hn) hge⟩
  cases hr : roundUp? n step with
  | some r => exact ⟨r, rfl, UInt64.le_iff_toNat_le.2 ((roundUp?_eq_some_iff.1 hr).2.2 hr')⟩
  | none =>
    obtain h0 | ⟨m, hm, hle⟩ := roundUp?_eq_none_iff.1 hr
    · omega
    · exact absurd r'.toNat_lt (Nat.not_lt_of_le (Nat.le_trans hle (hm.2 hr')))

theorem toNat_sub_mod (n step : Word) :
    (n - n % step).toNat + n.toNat % step.toNat = n.toNat := by
  have hle : n % step ≤ n := by
    rw [UInt64.le_iff_toNat_le, UInt64.toNat_mod]
    exact Nat.mod_le _ _
  rw [UInt64.toNat_sub_of_le n _ hle, UInt64.toNat_mod]
  exact Nat.sub_add_cancel (Nat.mod_le _ _)

/-- A number is rounded up to the least multiple, in exact numbers, that is not below it. It is not if
there are no multiples but zero, or if that multiple is no word. So what is rounded up stays as it is, and
the order of numbers is kept. On the way nothing wraps around: the number less its remainder, and that
plus a step, are as in exact numbers. -/
theorem rounded_to_least (n step : Word) :
    let multiples := multiplesFrom n.toNat step.toNat
    (∀ r, (roundUp? n step).map UInt64.toNat = some r ↔
      0 < step.toNat ∧ IsLeast multiples r ∧ r < range) ∧
    (roundUp? n step = none ↔ step.toNat = 0 ∨ ∃ m, IsLeast multiples m ∧ range ≤ m) ∧
    (∀ r, roundUp? n step = some r → roundUp? r step = some r) ∧
    (∀ n' r', n ≤ n' → roundUp? n' step = some r' → ∃ r, roundUp? n step = some r ∧ r ≤ r') ∧
    (n - n % step).toNat + n.toNat % step.toNat = n.toNat ∧
    (n % step ≠ 0 → ∀ r, roundUp? n step = some r → r.toNat = (n - n % step).toNat + step.toNat) := by
  intro multiples
  refine ⟨fun r => ?_, roundUp?_eq_none_iff, fun r => roundUp?_roundUp?, fun n' r' => roundUp?_mono,
    toNat_sub_mod n step, fun hm r hr => ?_⟩
  · rw [Option.map_eq_some_iff]
    constructor
    · rintro ⟨w, hw, rfl⟩
      obtain ⟨hs, hleast⟩ := roundUp?_eq_some_iff.1 hw
      exact ⟨hs, hleast, w.toNat_lt⟩
    · rintro ⟨hs, hleast, hlt⟩
      have hw : (UInt64.ofNat r).toNat = r := UInt64.toNat_ofNat_of_lt' hlt
      exact ⟨_, roundUp?_eq_some_iff.2 ⟨hs, hw.symm ▸ hleast⟩, hw⟩
  · have hs : step ≠ 0 := by
      rintro rfl
      rw [roundUp?_zero] at hr
      cases hr
    rw [roundUp?, if_neg hs, if_neg hm] at hr
    exact add?_eq_some.1 hr

theorem rounded_to_least_past_range :
    let step : Word := 0xFFFFFFFFFFFFFFFE
    let n : Word := 0xFFFFFFFFFFFFFFFD
    let n' : Word := 0xFFFFFFFFFFFFFFFF
    roundUp? n step = some step ∧ IsLeast (multiplesFrom n.toNat step.toNat) step.toNat ∧
      roundUp? n' step = none ∧ ∃ m, IsLeast (multiplesFrom n'.toNat step.toNat) m ∧ range ≤ m := by
  intro step n n'
  obtain ⟨hsome, -, -, -, -, -⟩ := rounded_to_least n step
  obtain ⟨-, hnone, -, -, -, -⟩ := rounded_to_least n' step
  have hn : roundUp? n step = some step := by decide
  have hn' : roundUp? n' step = none := by decide
  obtain ⟨-, hleast, -⟩ := (hsome step.toNat).1 (by rw [hn]; rfl)
  exact ⟨hn, hleast, hn', (hnone.1 hn').resolve_left (by decide)⟩

end Word

end PhysicalHeap
