import PhysicalHeap.Proofs.FirstFit

namespace PhysicalHeap

open Step

theorem Entry.link_of_lt {n i : Nat} (h : i + 1 < n) : link n i = if i = 0 then 0xC1 else 0x81 := by
  rw [link, if_pos h]
  by_cases hi : i = 0
  · simp only [hi, if_true]
    decide
  · simp only [hi, if_false]
    decide

namespace Table

variable {t : Table} {s n : Nat}

/-- The table with entries from `s` on made the start of a chain of `n` blocks, as many as there are. -/
def overrun (t : Table) (s n : Nat) : Table :=
  t.take s ++ (List.range (t.length - s)).map (Entry.link n)

theorem length_overrun (t : Table) (s n : Nat) : (t.overrun s n).length = t.length := by
  rw [overrun, List.length_append, List.length_take, List.length_map, List.length_range]
  omega

theorem getElem?_overrun (h : t.length < s + n) (i : Nat) :
    (t.overrun s n)[i]? =
      if s ≤ i ∧ i < t.length then some (if i = s then 0xC1 else 0x81) else t[i]? := by
  by_cases hl : i < t.length
  · by_cases hs : s ≤ i
    · have htake : (t.take s).length = s := by
        rw [List.length_take]
        omega
      have hzero : i - s = 0 ↔ i = s := by omega
      rw [if_pos ⟨hs, hl⟩, overrun, List.getElem?_append_right (by omega), htake, List.getElem?_map,
        List.getElem?_range (by omega), Option.map_some, Entry.link_of_lt (by omega)]
      simp only [hzero]
    · have htake : i < (t.take s).length := by
        rw [List.length_take]
        omega
      rw [if_neg (fun hi => hs hi.1), overrun, List.getElem?_append_left htake,
        List.getElem?_take_of_lt (Nat.lt_of_not_le hs)]
  · rw [if_neg (fun hi => hl hi.2), List.getElem?_eq_none (Nat.le_of_not_lt hl)]
    exact List.getElem?_eq_none (Nat.le_of_not_lt (length_overrun t s n ▸ hl))

theorem run_markTaken_zero (s : Nat) (t : Table) : (markTaken s 0).run t = .ok () t := by
  have hstop : ∀ u, writeLinks s 0 0 (t.take s).reverse u = .ok () (t.take s ++ u) := by
    intro u
    cases u <;> rw [writeLinks, if_pos (Nat.le_refl 0), List.reverse_reverse]
  have hrun := hstop (t.drop s)
  rwa [List.take_append_drop] at hrun

theorem run_markTaken_past (ht : t.length < Word.range) (hs : s < Word.range) (hn : n ≠ 0)
    (h : t.length < s + n) :
    (markTaken s n).run t =
      .error (.halted (.outOfBounds t.length (max s t.length))) (t.overrun s n) := by
  have hindex : s + 0 + (t.drop s).length = max s t.length := by
    rw [List.length_drop]
    omega
  have hlength : (t.take s).reverse.length + (t.drop s).length = t.length := by
    rw [List.length_reverse, List.length_take, List.length_drop]
    omega
  change writeLinks s n 0 _ _ = _
  rw [writeLinks_of_lt 0 _ _ (by rw [hindex]; omega) (by rw [List.length_drop]; omega), hindex,
    hlength, List.reverse_reverse, List.length_drop, ← List.range_eq_range', overrun]

theorem getElem?_chained_entries (hn : 0 < n) (h : s + n ≤ t.length) (i : Nat) :
    (t.chained s n)[i]? =
      if s ≤ i ∧ i < s + n then (Segment.chain (n - 1)).entries[i - s]? else t[i]? := by
  rw [getElem?_chained h, Segment.entries_chain, Nat.sub_add_cancel hn]
  by_cases hi : s ≤ i ∧ i < s + n
  · rw [if_pos hi, if_pos hi, Entry.getElem?_chain (by omega)]
  · rw [if_neg hi, if_neg hi]

theorem run_markFree_chained (hn : n ≠ 0) (h : s + n ≤ t.length) :
    (markFree s).run (t.chained s n) = .ok n ((t.chained s n).cleared s n) :=
  run_markFree_of_chainLength (chainLength_chained hn h)

theorem getElem?_cleared_chained (h : s + n ≤ t.length) (i : Nat) :
    ((t.chained s n).cleared s n)[i]? = if s ≤ i ∧ i < s + n then some Entry.free else t[i]? := by
  rw [getElem?_cleared (by rwa [length_chained h]), getElem?_chained h]
  by_cases hi : s ≤ i ∧ i < s + n <;> simp [hi]

/-- Blocks that are marked as one allocation read back as one, whatever stands beside them: their entries
are its chain, its length is told from its first block, and freeing that block frees them and nothing else.
Blocks past the end of the table stop the marking at the first entry that is missing, with all entries before
it written as ones that go on. -/
theorem marks_read_back {t : Table} (ht : t.length < Word.range) (start n : Word) :
    let s := start.toNat
    let k := n.toNat
    let o := (markTaken s k).run t
    (k = 0 → o = .ok () t) ∧
    (0 < k → s + k ≤ t.length → ∃ t' t'', o = .ok () t' ∧
      (∀ i, t'[i]? = if s ≤ i ∧ i < s + k then (Segment.chain (k - 1)).entries[i - s]? else t[i]?) ∧
      (∀ (g : Grid) (a : Address), a.word.toNat = g.place s → g.lengthAt t' a = .ok k) ∧
      (markFree s).run t' = .ok k t'' ∧
      ∀ i, t''[i]? = if s ≤ i ∧ i < s + k then some 0x00 else t[i]?) ∧
    (0 < k → t.length < s + k → ∃ t',
      o = .error (.halted (.outOfBounds t.length (max s t.length))) t' ∧
      (∀ i, t'[i]? = if s ≤ i ∧ i < t.length then some (if i = s then 0xC1 else 0x81) else t[i]?) ∧
      ∀ i e, s ≤ i → t'[i]? = some e → e.hasNext = true) := by
  intro s k o
  refine ⟨fun h0 => ?_, fun hk hl => ?_, fun hk hl => ?_⟩
  · change (markTaken s k).run t = _
    rw [h0, run_markTaken_zero]
  · have hn : k ≠ 0 := Nat.ne_of_gt hk
    exact ⟨t.chained s k, (t.chained s k).cleared s k, run_markTaken hl (by omega),
      getElem?_chained_entries hk hl, fun g a ha => Grid.lengthAt_chained hn hl ha,
      run_markFree_chained hn hl, getElem?_cleared_chained hl⟩
  · refine ⟨t.overrun s k, run_markTaken_past ht start.toNat_lt (Nat.ne_of_gt hk) hl,
      getElem?_overrun hl, fun i e hs he => ?_⟩
    have hlt := (List.getElem?_eq_some_iff.1 he).1
    rw [length_overrun] at hlt
    rw [getElem?_overrun hl, if_pos ⟨hs, hlt⟩, Option.some.injEq] at he
    subst he
    by_cases hi : i = s
    · simp only [hi, if_true]
      decide
    · simp only [hi, if_false]
      decide

theorem marks_read_back_neighbours :
    let t : Table := [0x81, 0xFF, 0x00, 0x41, 0xC1]
    (∃ t' t'', (markTaken 1 3).run t = .ok () t' ∧
      t'[0]? = some 0x81 ∧ t'[1]? = some 0xC1 ∧ t'[2]? = some 0x81 ∧ t'[3]? = some 0x01 ∧
      t'[4]? = some 0xC1 ∧ (markFree 1).run t' = .ok 3 t'' ∧
      t''[0]? = some 0x81 ∧ t''[3]? = some 0x00 ∧ t''[4]? = some 0xC1) ∧
    (∃ t', (markTaken 3 0xFFFFFFFFFFFFFFFF).run t = .error (.halted (.outOfBounds 5 5)) t' ∧
      t'[2]? = some 0x00 ∧ t'[3]? = some 0xC1 ∧ t'[4]? = some 0x81) ∧
    ∃ t', (markTaken 0xFFFFFFFFFFFFFFFF 1).run t =
      .error (.halted (.outOfBounds 5 0xFFFFFFFFFFFFFFFF)) t' ∧ ∀ i < 5, t'[i]? = t[i]? := by
  intro t
  have ht : t.length < Word.range := by decide
  obtain ⟨-, hinside, -⟩ := marks_read_back ht 1 3
  obtain ⟨-, -, hmany⟩ := marks_read_back ht 3 0xFFFFFFFFFFFFFFFF
  obtain ⟨-, -, hpast⟩ := marks_read_back ht 0xFFFFFFFFFFFFFFFF 1
  obtain ⟨t₁, t₂, hmark, h₁, -, hfree, h₂⟩ := hinside (by decide) (by decide)
  obtain ⟨t₃, hstop, h₃, -⟩ := hmany (by decide) (by decide)
  obtain ⟨t₄, hstop', h₄, -⟩ := hpast (by decide) (by decide)
  refine ⟨⟨t₁, t₂, hmark, h₁ 0, h₁ 1, h₁ 2, h₁ 3, h₁ 4, hfree, h₂ 0, h₂ 3, h₂ 4⟩,
    ⟨t₃, hstop, h₃ 2, h₃ 3, h₃ 4⟩, t₄, hstop', fun i hi => (h₄ i).trans (if_neg fun h => ?_)⟩
  exact absurd h.1 (Nat.not_le_of_lt (Nat.lt_of_lt_of_le hi (by decide)))

/-- The `n` entries from `s` on go together, and no more: each but the last goes on in the next one, and the
last does not, unless the table ends there. Nothing is said of what they are otherwise. -/
def Linked (t : Table) (s n : Nat) : Prop :=
  (∀ i, s ≤ i → i + 1 < s + n → ∃ e, t[i]? = some e ∧ e.hasNext = true) ∧
    (s + n < t.length → ∃ e, t[s + (n - 1)]? = some e ∧ e.hasNext = false)

theorem walk_hasNext (t : Table) :
    (∀ i < (t.takeWhile Entry.hasNext).length, ∃ e, t[i]? = some e ∧ e.hasNext = true) ∧
      ((t.takeWhile Entry.hasNext).length < t.length →
        ∃ e, t[(t.takeWhile Entry.hasNext).length]? = some e ∧ e.hasNext = false) := by
  induction t with
  | nil => exact ⟨fun i hi => absurd hi (Nat.not_lt_zero i), fun h => absurd h (Nat.lt_irrefl 0)⟩
  | cons e t ih =>
    obtain ⟨hpassed, hstop⟩ := ih
    by_cases he : e.hasNext = true
    · rw [List.takeWhile_cons_of_pos he, List.length_cons, List.length_cons]
      refine ⟨fun i hi => ?_, fun h => hstop (Nat.lt_of_succ_lt_succ h)⟩
      cases i with
      | zero => exact ⟨e, rfl, he⟩
      | succ i => exact hpassed i (Nat.lt_of_succ_lt_succ hi)
    · rw [List.takeWhile_cons_of_neg he]
      exact ⟨fun i hi => absurd hi (Nat.not_lt_zero i),
        fun _ => ⟨e, rfl, Bool.eq_false_iff.2 he⟩⟩

theorem lt_length_of_checkHead (h : t.checkHead s = .ok ()) : s < t.length := by
  refine Nat.lt_of_not_le fun hle => ?_
  rw [checkHead_of_le hle] at h
  cases h

theorem linked_of_chainLength (h : t.chainLength s = .ok n) :
    0 < n ∧ s + n ≤ t.length ∧ t.Linked s n := by
  obtain ⟨hhead, hn⟩ := chainLength_eq_ok.1 h
  have hs := lt_length_of_checkHead hhead
  obtain ⟨hpassed, hstop⟩ := walk_hasNext (t.drop s)
  rw [List.length_drop] at hstop
  refine ⟨by omega, by omega, fun i hi hlt => ?_, fun hlt => ?_⟩
  · obtain ⟨e, he, hnext⟩ := hpassed (i - s) (by omega)
    rw [List.getElem?_drop, Nat.add_sub_cancel' hi] at he
    exact ⟨e, he, hnext⟩
  · -- the walk stopped inside of the table, so it is not the table that ended it
    have hm : ((t.drop s).takeWhile Entry.hasNext).length = n - 1 := by omega
    obtain ⟨e, he, hnext⟩ := hstop (by omega)
    rw [hm, List.getElem?_drop] at he
    exact ⟨e, he, hnext⟩

theorem checkHead_cleared (hn : 0 < n) (h : s + n ≤ t.length) :
    (t.cleared s n).checkHead s = refuse .notTaken := by
  rw [checkHead, getElem?_cleared h, if_pos (by omega)]
  rfl

theorem run_markFree_ne_halted (t : Table) (i : Nat) (f : Fault) (t' : Table) :
    (markFree i).run t ≠ .error (.halted f) t' := by
  cases hc : t.checkHead i with
  | ok u =>
    rw [run_markFree_ok hc]
    exact fun h => (by cases h)
  | error e =>
    obtain ⟨r, -, rfl⟩ := checkHead_eq_error hc
    rw [run_markFree_error hc]
    exact fun h => (by cases h)

end Table

namespace Grid

variable {g : Grid} {t : Table} {a : Address} {e : Failure} {n : Nat}

theorem lengthAt_eq_ok :
    g.lengthAt t a = .ok n ↔ ∃ s, g.blockAt t a = .ok s ∧ t.chainLength s = .ok n := by
  rw [lengthAt]
  constructor
  · intro h
    cases hs : g.blockAt t a with
    | ok s =>
      rw [hs] at h
      exact ⟨s, rfl, h⟩
    | error e =>
      rw [hs] at h
      cases h
  · rintro ⟨s, hs, h⟩
    rw [hs]
    exact h

theorem lengthAt_eq_error (h : g.lengthAt t a = .error e) :
    g.blockAt t a = .error e ∨ ∃ s, g.blockAt t a = .ok s ∧ t.checkHead s = .error e := by
  rw [lengthAt] at h
  cases hs : g.blockAt t a with
  | ok s =>
    rw [hs] at h
    exact Or.inr ⟨s, rfl, Table.chainLength_eq_error.1 h⟩
  | error e' =>
    rw [hs] at h
    exact Or.inl (congrArg Except.error (Except.error.inj h))

theorem run_free_cleared {s : Nat} (hs : g.blockAt t a = .ok s) (hn : 0 < n) (hl : s + n ≤ t.length) :
    (g.free a).run (t.cleared s n) = .error (.refused .notTaken) (t.cleared s n) := by
  obtain ⟨hlt, ha⟩ := blockAt_eq_ok.1 hs
  have hs' : g.blockAt (t.cleared s n) a = .ok s :=
    blockAt_eq_ok.2 ⟨by rwa [Table.length_cleared hl], ha⟩
  rw [run_free, hs']
  exact Table.run_markFree_error (Table.checkHead_cleared hn hl)

end Grid

namespace Recorded

/-- How telling the length at an address and giving the address back end, of one table. -/
inductive Measured (g : Grid) (r : Recorded) (a : Address) :
    Except Failure Nat → EStateM.Result Failure Recorded Unit → Prop where
  | refused {f : Refusal} (hf : f ∈ [Refusal.foreignAddress, .notTaken, .notHead]) :
    Measured g r a (.error (.refused f)) (.error (.refused f) r)
  | freed {s n : Nat} (hs : g.blockAt r.table a = .ok s) (hpos : 0 < n) (hl : s + n ≤ r.table.length)
    (hlinked : r.table.Linked s n)
    (hmark : (Table.markFree s).run r.table = .ok n (r.table.cleared s n)) :
    Measured g r a (.ok n) (.ok () ⟨r.table.cleared s n, r.journal.record (.freed n a)⟩)

theorem measured_free (g : Grid) (r : Recorded) (a : Address) :
    Measured g r a (g.lengthAt r.table a) ((free g a).run r) := by
  rw [run_free]
  cases hm : g.lengthAt r.table a with
  | ok n =>
    obtain ⟨s, hs, hn⟩ := Grid.lengthAt_eq_ok.1 hm
    obtain ⟨hpos, hl, hlinked⟩ := Table.linked_of_chainLength hn
    have hmark := Table.run_markFree_of_chainLength hn
    rw [Grid.run_free, hs]
    dsimp only
    rw [hmark]
    exact .freed hs hpos hl hlinked hmark
  | error e =>
    obtain hs | ⟨s, hs, hhead⟩ := Grid.lengthAt_eq_error hm
    · obtain rfl := Grid.blockAt_eq_error hs
      rw [Grid.run_free, hs]
      exact .refused (by simp)
    · obtain ⟨f, hf, rfl⟩ := Table.checkHead_eq_error hhead
      rw [Grid.run_free, hs]
      dsimp only
      rw [Table.run_markFree_error hhead]
      exact .refused hf

/-- Whatever the table holds, an address has a length if and only if it can be given back, and both are
refused for the same reason otherwise, with nothing changed. The length is the number of blocks that go
together from there on. These are freed, and no others, and the address cannot be given back once more.
None of this stops the computation. -/
theorem freed_as_measured (g : Grid) (r : Recorded) (a : Address) :
    let t := r.table
    let o := (free g a).run r
    ((∃ n, g.lengthAt t a = .ok n) ↔ ∃ r', o = .ok () r') ∧
    (∀ e, g.lengthAt t a = .error e ↔ o = .error e r) ∧
    (∀ e r', o = .error e r' →
      r' = r ∧ ∃ f ∈ [Refusal.foreignAddress, .notTaken, .notHead], e = .refused f) ∧
    (∀ n, g.lengthAt t a = .ok n → ∃ s t', g.blockAt t a = .ok s ∧
      0 < n ∧ s + n ≤ t.length ∧ t.Linked s n ∧
      (Table.markFree s).run t = .ok n t' ∧
      o = .ok () ⟨t', r.journal.record (.freed n a)⟩ ∧
      (∀ i, t'[i]? = if s ≤ i ∧ i < s + n then some 0x00 else t[i]?) ∧
      ∀ j, (free g a).run ⟨t', j⟩ = .error (.refused .notTaken) ⟨t', j⟩) ∧
    ∀ i f t', (Table.markFree i).run t ≠ .error (.halted f) t' := by
  intro t o
  have ho : Measured g r a (g.lengthAt t a) o := measured_free g r a
  generalize g.lengthAt t a = m at ho ⊢
  clear_value o
  cases ho with
  | refused hf =>
    refine ⟨⟨fun ⟨_, h⟩ => (by cases h), fun ⟨_, h⟩ => (by cases h)⟩, fun e => ?_, fun e r' h => ?_,
      fun n h => (by cases h), Table.run_markFree_ne_halted t⟩
    · exact ⟨fun h => (by cases h; rfl), fun h => (by cases h; rfl)⟩
    · cases h
      exact ⟨rfl, _, hf, rfl⟩
  | @freed s n hs hpos hl hlinked hmark =>
    refine ⟨⟨fun _ => ⟨_, rfl⟩, fun _ => ⟨n, rfl⟩⟩, fun e => ?_, fun e r' h => (by cases h),
      fun n' h => ?_, Table.run_markFree_ne_halted t⟩
    · exact ⟨fun h => (by cases h), fun h => (by cases h)⟩
    · cases h
      refine ⟨s, _, hs, hpos, hl, hlinked, hmark, rfl, Table.getElem?_cleared hl, fun j => ?_⟩
      rw [run_free, Grid.run_free_cleared hs hpos hl]

theorem freed_as_measured_malformed :
    let g : Grid := ⟨⟨0x42000000⟩, 4096, by decide⟩
    let r : Recorded := ⟨[0xC1, 0x80, 0x41, 0xC1], Board.machine.journal⟩
    g.lengthAt r.table ⟨0x42000000⟩ = .ok 3 ∧
      (∃ r', (free g ⟨0x42000000⟩).run r = .ok () r' ∧ (∀ i < 3, r'.table[i]? = some 0x00) ∧
        r'.table[3]? = some 0xC1 ∧
        (free g ⟨0x42000000⟩).run r' = .error (.refused .notTaken) r') ∧
      g.lengthAt r.table ⟨0x42003000⟩ = .ok 1 ∧
      (∃ r', (free g ⟨0x42003000⟩).run r = .ok () r' ∧ r'.table[2]? = some 0x41 ∧
        r'.table[3]? = some 0x00) ∧
      (free g ⟨0x42001000⟩).run r = .error (.refused .notTaken) r := by
  intro g r
  have h₀ : g.blockAt r.table ⟨0x42000000⟩ = .ok 0 := Grid.blockAt_eq_ok.2 ⟨by decide, by decide⟩
  have h₁ : g.blockAt r.table ⟨0x42001000⟩ = .ok 1 := Grid.blockAt_eq_ok.2 ⟨by decide, by decide⟩
  have h₃ : g.blockAt r.table ⟨0x42003000⟩ = .ok 3 := Grid.blockAt_eq_ok.2 ⟨by decide, by decide⟩
  have hthree : g.lengthAt r.table ⟨0x42000000⟩ = .ok 3 := Grid.lengthAt_eq_ok.2 ⟨0, h₀, rfl⟩
  have hone : g.lengthAt r.table ⟨0x42003000⟩ = .ok 1 := Grid.lengthAt_eq_ok.2 ⟨3, h₃, rfl⟩
  have hnone : g.lengthAt r.table ⟨0x42001000⟩ = .error (.refused .notTaken) := by
    rw [Grid.lengthAt, h₁]
    rfl
  obtain ⟨-, -, -, hfirst, -⟩ := freed_as_measured g r ⟨0x42000000⟩
  obtain ⟨-, -, -, hlast, -⟩ := freed_as_measured g r ⟨0x42003000⟩
  obtain ⟨s, t, hs, -, -, -, -, ho, ht, hagain⟩ := hfirst 3 hthree
  obtain ⟨s', t', hs', -, -, -, -, ho', ht', -⟩ := hlast 1 hone
  obtain rfl : 0 = s := Except.ok.inj (h₀.symm.trans hs)
  obtain rfl : 3 = s' := Except.ok.inj (h₃.symm.trans hs')
  exact ⟨hthree, ⟨_, ho, fun i hi => (ht i).trans (if_pos ⟨Nat.zero_le i, hi⟩), ht 3, hagain _⟩,
    hone, ⟨_, ho', ht' 2, ht' 3⟩, ((freed_as_measured g r ⟨0x42001000⟩).2.1 _).1 hnone⟩

end Recorded

end PhysicalHeap
