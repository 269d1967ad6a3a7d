import PhysicalHeap.Grid

namespace PhysicalHeap

def stepsFor (n step : Nat) : Nat := (n + (step - 1)) / step

theorem stepsFor_le_iff {n step k : Nat} (hs : 0 < step) : stepsFor n step ≤ k ↔ n ≤ k * step := by
  rw [stepsFor, Nat.div_le_iff_le_mul_add_pred hs, Nat.mul_comm]
  omega

theorem stepsFor_of_mod_eq {n step : Nat} (hs : 0 < step) (h : n % step = 0) :
    stepsFor n step * step = n := by
  have hn := Nat.div_add_mod n step
  rw [h, Nat.add_zero] at hn
  have hd : (n + (step - 1)) / step = n / step := by
    have hsum : n + (step - 1) = step * (n / step) + (step - 1) := by rw [hn]
    rw [hsum, Nat.mul_add_div hs, Nat.div_eq_of_lt (Nat.sub_lt hs Nat.one_pos), Nat.add_zero]
  rw [stepsFor, hd, Nat.mul_comm, hn]

theorem stepsFor_of_mod_ne {n step : Nat} (hs : 0 < step) (h : n % step ≠ 0) :
    stepsFor n step * step = n - n % step + step := by
  have hn := Nat.div_add_mod n step
  have hr := Nat.mod_lt n hs
  have hd : (n + (step - 1)) / step = n / step + 1 := by
    have hsum : n + (step - 1) = step * (n / step) + (n % step + (step - 1)) := by omega
    have hone : (n % step + (step - 1)) / step = 1 :=
      Nat.div_eq_of_lt_le (by omega) (by omega)
    rw [hsum, Nat.mul_add_div hs, hone]
  rw [stepsFor, hd, Nat.add_mul, Nat.one_mul, Nat.mul_comm]
  omega

namespace Word

theorem toNat_pos {w : Word} (h : w ≠ 0) : 0 < w.toNat := by
  apply Nat.pos_of_ne_zero
  intro h0
  exact h (UInt64.toNat_inj.1 h0)

theorem roundUp?_eq_some {n step r : Word} (hs : step ≠ 0) :
    roundUp? n step = some r ↔ r.toNat = stepsFor n.toNat step.toNat * step.toNat := by
  have hm : n % step = 0 ↔ n.toNat % step.toNat = 0 := by
    rw [← UInt64.toNat_inj, UInt64.toNat_mod]
    rfl
  rw [roundUp?, if_neg hs]
  by_cases h : n % step = 0
  · rw [if_pos h, stepsFor_of_mod_eq (toNat_pos hs) (hm.1 h), Option.some.injEq, ← UInt64.toNat_inj]
    exact eq_comm
  · have hle : n % step ≤ n := by
      rw [UInt64.le_iff_toNat_le, UInt64.toNat_mod]
      exact Nat.mod_le _ _
    rw [if_neg h, add?_eq_some, stepsFor_of_mod_ne (toNat_pos hs) (fun h0 => h (hm.2 h0)),
      UInt64.toNat_sub_of_le _ _ hle, UInt64.toNat_mod]

theorem roundUp?_eq_ofNat? {n step : Word} (hs : step ≠ 0) :
    roundUp? n step = ofNat? (stepsFor n.toNat step.toNat * step.toNat) := by
  apply Option.ext
  intro r
  rw [roundUp?_eq_some hs, ofNat?_eq_some]

end Word

theorem Address.toNat_inj {a b : Address} (h : a.word.toNat = b.word.toNat) : a = b := by
  cases a
  cases b
  exact congrArg mk (UInt64.toNat_inj.1 h)

namespace Grid

def place (g : Grid) (i : Nat) : Nat := g.base.word.toNat + i * g.blockSize.toNat

theorem blockSize_pos (g : Grid) : 0 < g.blockSize.toNat := Word.toNat_pos g.blockSize_ne

theorem place_zero (g : Grid) : g.place 0 = g.base.word.toNat := by
  rw [place, Nat.zero_mul, Nat.add_zero]

theorem place_inj {g : Grid} {i j : Nat} (h : g.place i = g.place j) : i = j :=
  Nat.eq_of_mul_eq_mul_right g.blockSize_pos (Nat.add_left_cancel h)

theorem place_add (g : Grid) (i j : Nat) : g.place (i + j) = g.place i + j * g.blockSize.toNat := by
  rw [place, place, Nat.add_mul, Nat.add_assoc]

theorem place_le {g : Grid} {i j : Nat} (h : i ≤ j) : g.place i ≤ g.place j :=
  Nat.add_le_add_left (Nat.mul_le_mul_right _ h) _

theorem place_lt {g : Grid} {i j : Nat} (h : i < j) : g.place i < g.place j :=
  Nat.add_lt_add_left (Nat.mul_lt_mul_of_pos_right h g.blockSize_pos) _

theorem lt_of_place_lt {g : Grid} {i j : Nat} (h : g.place i < g.place j) : i < j := by
  apply Nat.lt_of_not_le
  intro hle
  exact absurd (g.place_le hle) (Nat.not_le_of_lt h)

theorem exists_place {g : Grid} {n p : Nat} :
    (∃ i < n, p = g.place i) ↔
      g.base.word.toNat ≤ p ∧ p < g.place n ∧ g.blockSize.toNat ∣ p - g.base.word.toNat := by
  constructor
  · rintro ⟨i, hi, rfl⟩
    refine ⟨Nat.le_add_right _ _, place_lt hi, ?_⟩
    rw [place, Nat.add_sub_cancel_left]
    exact Nat.dvd_mul_left _ _
  · rintro ⟨hlo, hhi, i, hi⟩
    have hp : p = g.place i := by
      rw [place, Nat.mul_comm, ← hi, Nat.add_sub_cancel' hlo]
    exact ⟨i, lt_of_place_lt (hp ▸ hhi), hp⟩

theorem address_eq_ok {g : Grid} {t : Table} {i : Nat} {a : Address} :
    g.address t i = .ok a ↔
      i < t.length ∧ a.word.toNat = g.place i ∧ g.place i < Address.limit.toNat := by
  rw [address]
  by_cases hi : i < t.length
  · rw [if_pos hi]
    cases hw : exact (g.base.word.toNat + i * g.blockSize.toNat) with
    | ok w =>
      have hp : w.toNat = g.place i := exact_eq_ok.1 hw
      change Address.ofWord w = .ok a ↔ _
      rw [Address.ofWord_eq_ok, ← hp, ← UInt64.toNat_inj]
      exact ⟨fun h => ⟨hi, h⟩, fun h => h.2⟩
    | error e =>
      refine ⟨fun h => (by cases h), fun ⟨_, ha, _⟩ => ?_⟩
      have hok : exact (g.base.word.toNat + i * g.blockSize.toNat) = .ok a.word := exact_eq_ok.2 ha
      rw [hok] at hw
      cases hw
  · rw [if_neg hi]
    exact ⟨fun h => (by cases h), fun h => absurd h.1 hi⟩

theorem blockAt_eq_ok {g : Grid} {t : Table} {a : Address} {i : Nat} :
    g.blockAt t a = .ok i ↔ i < t.length ∧ a.word.toNat = g.place i := by
  have hb := g.blockSize_pos
  rw [blockAt]
  cases ho : a.since? g.base with
  | none =>
    have hlt := Address.since?_eq_none.1 ho
    refine ⟨fun h => (by cases h), fun ⟨_, ha⟩ => ?_⟩
    rw [place] at ha
    omega
  | some offset =>
    have hoff := Address.since?_eq_some.1 ho
    have hm : offset % g.blockSize = 0 ↔ offset.toNat % g.blockSize.toNat = 0 := by
      rw [← UInt64.toNat_inj, UInt64.toNat_mod]
      rfl
    have hplace : ∀ j, a.word.toNat = g.place j ↔ offset.toNat = j * g.blockSize.toNat := by
      intro j
      rw [place]
      omega
    dsimp only
    by_cases h : offset % g.blockSize ≠ 0
    · rw [if_pos h]
      refine ⟨fun h' => (by cases h'), fun ⟨_, ha⟩ => absurd (hm.2 ?_) h⟩
      rw [(hplace i).1 ha]
      exact Nat.mul_mod_left _ _
    · have hdvd := hm.1 (Decidable.not_not.1 h)
      have hdiv : ∀ j, offset.toNat = j * g.blockSize.toNat ↔ offset.toNat / g.blockSize.toNat = j := by
        intro j
        rw [Nat.div_eq_iff_eq_mul_left hb (Nat.dvd_of_mod_eq_zero hdvd)]
      rw [if_neg h, UInt64.toNat_div, hplace, hdiv]
      by_cases hl : offset.toNat / g.blockSize.toNat < t.length
      · rw [if_pos hl, Except.ok.injEq]
        exact ⟨fun hi => ⟨hi ▸ hl, hi⟩, fun hi => hi.2⟩
      · rw [if_neg hl]
        exact ⟨fun h' => (by cases h'), fun ⟨hi, hi'⟩ => absurd (hi' ▸ hi) hl⟩

theorem blockAt_eq_error {g : Grid} {t : Table} {a : Address} {e : Failure}
    (h : g.blockAt t a = .error e) : e = .refused .foreignAddress := by
  rw [blockAt] at h
  cases ho : a.since? g.base with
  | none =>
    rw [ho] at h
    exact (Except.error.inj h).symm
  | some offset =>
    rw [ho] at h
    dsimp only at h
    by_cases hm : offset % g.blockSize ≠ 0
    · rw [if_pos hm] at h
      exact (Except.error.inj h).symm
    · rw [if_neg hm] at h
      by_cases hl : (offset / g.blockSize).toNat < t.length
      · rw [if_pos hl] at h
        cases h
      · rw [if_neg hl] at h
        exact (Except.error.inj h).symm

end Grid

end PhysicalHeap
