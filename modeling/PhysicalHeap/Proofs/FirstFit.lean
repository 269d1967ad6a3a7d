import PhysicalHeap.Proofs.Addressing

namespace PhysicalHeap

open Step

namespace Table

variable {t : Table} {s n : Nat}

def chained (t : Table) (s n : Nat) : Table := t.take s ++ (Entry.chain n ++ t.drop (s + n))

theorem length_chained (h : s + n ≤ t.length) : (t.chained s n).length = t.length := by
  have hl := length_splice (t := t) (u := Entry.chain n) (s := s) (by rwa [Entry.length_chain])
  rwa [Entry.length_chain] at hl

theorem getElem?_chained (h : s + n ≤ t.length) (i : Nat) :
    (t.chained s n)[i]? = if s ≤ i ∧ i < s + n then some (Entry.link n (i - s)) else t[i]? := by
  have hi := getElem?_splice (t := t) (u := Entry.chain n) (s := s) (by rwa [Entry.length_chain]) i
  rw [Entry.length_chain] at hi
  rw [chained, hi]
  by_cases hr : s ≤ i ∧ i < s + n
  · rw [if_pos hr, if_pos hr, Entry.getElem?_chain (by omega)]
  · rw [if_neg hr, if_neg hr]

theorem chained_ne_iff (h : s + n ≤ t.length) (hf : t.FreeRun s n) (i : Nat) :
    (t.chained s n)[i]? ≠ t[i]? ↔ s ≤ i ∧ i < s + n := by
  rw [getElem?_chained h]
  by_cases hi : s ≤ i ∧ i < s + n
  · rw [if_pos hi, iff_true_right hi]
    intro he
    obtain ⟨e, hfree, hlow⟩ := hf (i - s) (by omega)
    rw [Nat.add_sub_cancel' hi.1, ← he, Option.some.injEq] at hfree
    rw [← hfree, Entry.isFree_link] at hlow
    cases hlow
  · rw [if_neg hi, iff_false_right hi]
    exact fun hne => hne rfl

theorem chainLength_chained (hn : n ≠ 0) (h : s + n ≤ t.length) : (t.chained s n).chainLength s = .ok n := by
  obtain ⟨k, rfl⟩ := Nat.exists_eq_succ_of_ne_zero hn
  have hs : (t.take s).length = s := by
    rw [List.length_take]
    omega
  have hc := chainLength_append (t.take s) (t.drop (s + (k + 1))) k
  rwa [hs] at hc

end Table

namespace Grid

variable {g : Grid}

theorem lengthAt_chained {t : Table} {s n : Nat} {a : Address} (hn : n ≠ 0) (h : s + n ≤ t.length)
    (ha : a.word.toNat = g.place s) : g.lengthAt (t.chained s n) a = .ok n := by
  have hb : g.blockAt (t.chained s n) a = .ok s :=
    blockAt_eq_ok.2 ⟨by rw [Table.length_chained h]; omega, ha⟩
  rw [lengthAt, hb]
  exact Table.chainLength_chained hn h

theorem le_needed (g : Grid) {size : Word} : size.toNat ≤ g.needed size * g.blockSize.toNat :=
  (stepsFor_le_iff g.blockSize_pos).1 (Nat.le_refl (g.needed size))

theorem needed_eq_zero_iff {size : Word} : g.needed size = 0 ↔ size = 0 := by
  rw [← Nat.le_zero, needed, stepsFor_le_iff g.blockSize_pos, Nat.zero_mul, Nat.le_zero,
    ← UInt64.toNat_inj]
  rfl

end Grid

namespace Recorded

variable {g : Grid} {r r' : Recorded} {size : Word} {s : Nat} {e : Refusal}

theorem run_malloc_refused (hr : g.place r.table.length < Word.range)
    (hf : r.table.findRun (g.needed size) = refuse e) :
    (malloc g size).run r = .error (.refused e) r := by
  rw [malloc_eq_allocate hr, run_allocate, Grid.run_allocate, hf]
  rfl

theorem findRun_of_malloc_refused (hr : g.place r.table.length < Word.range)
    (h : (malloc g size).run r = .error (.refused e) r') :
    r.table.findRun (g.needed size) = refuse e := by
  have ho := Grid.answered_allocate hr (g.needed size)
  rw [malloc_eq_allocate hr, run_allocate] at h
  generalize (g.allocate (g.needed size)).run r.table = o at ho h
  cases ho with
  | refused hf =>
    cases h
    exact hf
  | wide | taken => cases h

theorem run_malloc_wide (hr : g.place r.table.length < Word.range)
    (hf : r.table.findRun (g.needed size) = .ok s) (hw : Address.limit.toNat ≤ g.place s) :
    (malloc g size).run r = .error (.halted .wideAddress) r := by
  rw [malloc_eq_allocate hr, run_allocate, Grid.allocate_wide hr hf hw]

theorem run_malloc_taken (hr : g.place r.table.length < Word.range)
    (hf : r.table.findRun (g.needed size) = .ok s) (hlt : g.place s < Address.limit.toNat) :
    ∃ a, a.word.toNat = g.place s ∧ (malloc g size).run r =
      .ok a ⟨r.table.chained s (g.needed size), r.journal.record (.taken (g.needed size) a)⟩ := by
  have ho := answered_malloc hr size
  generalize (malloc g size).run r = o at ho ⊢
  cases ho with
  | refused hno => exact absurd hf (hno s)
  | wide hf' hw =>
    cases hf.symm.trans hf'
    exact absurd hw (Nat.not_le_of_lt hlt)
  | taken hf' ha ht =>
    cases hf.symm.trans hf'
    exact ⟨_, ha, ht ▸ rfl⟩

theorem malloc_error (hr : g.place r.table.length < Word.range) {f : Failure}
    (h : (malloc g size).run r = .error f r') : r' = r := by
  have ho := answered_malloc hr size
  rw [h] at ho
  cases ho with
  | refused | wide => rfl

/-- Blocks for a number of bytes are looked for from the base on: the leftmost free blocks that are as
many as the bytes need, in exact numbers, are taken, and these blocks only. If there are no such blocks, as
for bytes that are too many to be rounded up to whole blocks, nothing is taken, and neither is it when the
blocks start past the last address. -/
theorem malloc_first_fit {base stop : Address} {blockSize : Word} {r₀ r₁ : Recorded} {g : Grid}
    (h : (create base stop blockSize).run r₀ = .ok g r₁) {r : Recorded}
    (hl : r.table.length = r₁.table.length) (size : Word) :
    let k := stepsFor size.toNat blockSize.toNat
    let place := fun s => base.word.toNat + s * blockSize.toNat
    let o := (malloc g size).run r
    (∀ j, k ≤ j ↔ size.toNat ≤ j * blockSize.toNat) ∧
    (size = 0 → o = .error (.refused .nothingAsked) r) ∧
    (size ≠ 0 →
      (o = .error (.refused .exhausted) r ↔ ∀ s, ¬ r.table.FreeRun s k) ∧
      (Word.range ≤ k * blockSize.toNat → o = .error (.refused .exhausted) r) ∧
      ∀ s, r.table.FreeRun s k → (∀ i, r.table.FreeRun i k → s ≤ i) →
        (Address.limit.toNat ≤ place s → o = .error (.halted .wideAddress) r) ∧
        (place s < Address.limit.toNat →
          ∃ a t, o = .ok a ⟨t, r.journal.record (.taken k a)⟩ ∧ a.word.toNat = place s ∧
            base.word.toNat ≤ a.word.toNat ∧ a.word.toNat + size.toNat ≤ stop.word.toNat ∧
            ∀ i, t[i]? ≠ r.table[i]? ↔ s ≤ i ∧ i < s + k)) ∧
    ∀ e r', o = .error e r' → r' = r := by
  intro k place o
  obtain ⟨rfl, rfl, -, hp⟩ := Command.created h
  rw [← hl] at hp
  have hr : g.place r.table.length < Word.range := hp ▸ stop.word.toNat_lt
  have hcover : ∀ j, k ≤ j ↔ size.toNat ≤ j * g.blockSize.toNat :=
    fun j => stepsFor_le_iff g.blockSize_pos
  refine ⟨hcover, fun h0 => ?_, fun h0 => ?_, fun e r' he => malloc_error hr he⟩
  · apply run_malloc_refused hr
    rw [g.needed_eq_zero_iff.2 h0]
    rfl
  have hk : k ≠ 0 := fun hk => h0 (g.needed_eq_zero_iff.1 hk)
  have hexhausted : o = .error (.refused .exhausted) r ↔ ∀ s, ¬ r.table.FreeRun s k := by
    constructor
    · intro ho
      exact (Table.findRun_eq_exhausted_iff.1 (findRun_of_malloc_refused hr ho)).2
    · intro hno
      exact run_malloc_refused hr (Table.findRun_eq_exhausted_iff.2 ⟨hk, hno⟩)
  refine ⟨hexhausted, fun hwide => hexhausted.2 fun s hs => ?_, fun s hs hleast => ?_⟩
  · -- blocks that are there have a length in bytes that a word can tell
    obtain ⟨i, -, hf⟩ := Table.findRun_of_free hk hs
    obtain ⟨w, hw⟩ := Grid.roundUp_of_findRun hr hf
    exact absurd w.toNat_lt (Nat.not_lt_of_le (Grid.roundUp_eq_ok.1 hw ▸ hwide))
  · have hf : r.table.findRun k = .ok s := Table.findRun_eq_ok_iff.2 ⟨hk, hs, hleast⟩
    have hle := Table.le_length_of_findRun hf
    refine ⟨run_malloc_wide hr hf, fun hlt => ?_⟩
    obtain ⟨a, ha, ho⟩ := run_malloc_taken hr hf hlt
    refine ⟨a, _, ho, ha, ?_, ?_, Table.chained_ne_iff hle hs⟩
    · rw [ha]
      exact Nat.le_add_right _ _
    · have hend := g.place_le hle
      rw [hp, g.place_add, ← ha] at hend
      have hsize := (hcover k).1 (Nat.le_refl k)
      omega

theorem malloc_first_fit_high_bits :
    let r₀ : Recorded := ⟨List.replicate 6 0xFF, Board.machine.journal⟩
    let r₁ : Recorded := ⟨List.replicate 6 0, Board.machine.journal⟩
    let g : Grid := ⟨⟨0x42000004⟩, 7, by decide⟩
    let r : Recorded := ⟨[0x01, 0x40, 0xF0, 0x41, 0x00, 0x80], Board.machine.journal⟩
    (create ⟨0x42000004⟩ ⟨0x4200002E⟩ 7).run r₀ = .ok g r₁ ∧ r.table.length = r₁.table.length ∧
      (malloc g 0).run r = .error (.refused .nothingAsked) r ∧
      (malloc g 0xFFFFFFFFFFFFFFFF).run r = .error (.refused .exhausted) r ∧
      r.table.FreeRun 1 2 ∧
      ∃ t, (malloc g 8).run r = .ok ⟨0x4200000B⟩ ⟨t, r.journal.record (.taken 2 ⟨0x4200000B⟩)⟩ ∧
        ∀ i, t[i]? ≠ r.table[i]? ↔ 1 ≤ i ∧ i < 3 := by
  intro r₀ r₁ g r
  have h : (create ⟨0x42000004⟩ ⟨0x4200002E⟩ 7).run r₀ = .ok g r₁ := rfl
  have hl : r.table.length = r₁.table.length := rfl
  have hf : r.table.findRun 2 = .ok 1 := rfl
  obtain ⟨-, hfree, hleast⟩ := Table.findRun_eq_ok_iff.1 hf
  obtain ⟨-, hzero, -, -⟩ := malloc_first_fit h hl 0
  obtain ⟨-, -, hmost, -⟩ := malloc_first_fit h hl 0xFFFFFFFFFFFFFFFF
  obtain ⟨-, -, height, -⟩ := malloc_first_fit h hl 8
  obtain ⟨-, -, htaken⟩ := height (by decide)
  obtain ⟨-, htaken⟩ := htaken 1 hfree hleast
  obtain ⟨a, t, ho, ha, -, -, ht⟩ := htaken (by decide)
  obtain rfl : a = ⟨0x4200000B⟩ := Address.toNat_inj ha
  exact ⟨h, hl, hzero rfl, (hmost (by decide)).2.1 (by decide), hfree, t, ho, ht⟩

end Recorded

end PhysicalHeap
