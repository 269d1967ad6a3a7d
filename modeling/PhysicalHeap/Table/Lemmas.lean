import PhysicalHeap.Table

namespace PhysicalHeap

namespace Entry

def chain (n : Nat) : List Entry := (List.range n).map (link n)

theorem length_chain (n : Nat) : (chain n).length = n := by simp [chain]

theorem chain_one : chain 1 = [0x41] := rfl

theorem chain_add_two (n : Nat) : chain (n + 2) = 0xC1 :: (List.replicate n 0x81 ++ [0x01]) := by
  have hm : ∀ i < n, (link (n + 2) ∘ Nat.succ) i = (0x81 : Entry) := by
    intro i hi
    have : i + 1 + 1 < n + 2 := by omega
    simp [link, this]
    decide
  have hr : (List.range n).map (link (n + 2) ∘ Nat.succ) = List.replicate n (0x81 : Entry) := by
    apply List.ext_getElem
    · simp
    · intro i h _
      simp only [List.getElem_map, List.getElem_range, List.getElem_replicate]
      exact hm i (by simpa using h)
  have hf : link (n + 2) 0 = 0xC1 := by
    simp [link]
    decide
  have hl : link (n + 2) (n + 1) = 0x01 := by
    simp [link]
    decide
  rw [chain, List.range_succ_eq_map, List.map_cons, hf, List.map_map, List.range_succ, List.map_append,
    hr]
  simp [hl]

end Entry

theorem exact_of_lt {n : Nat} (h : n < Word.range) : ∃ w, exact n = .ok w :=
  ⟨UInt64.ofNat n, exact_eq_ok.2 (UInt64.toNat_ofNat_of_lt' h)⟩

namespace Table

theorem writeLinks_of_le {start n : Nat} (hs : start + n ≤ Word.range) (i : Nat) (done : List Entry)
    (t : Table) (hn : n ≤ i + t.length) :
    writeLinks start n i done t =
      .ok () (done.reverse ++ ((List.range' i (n - i)).map (Entry.link n) ++ t.drop (n - i))) := by
  induction t generalizing i done with
  | nil =>
    have h : n ≤ i := by simpa using hn
    rw [writeLinks, if_pos h]
    simp [Nat.sub_eq_zero_of_le h]
  | cons e t ih =>
    rw [writeLinks]
    by_cases h : n ≤ i
    · rw [if_pos h]
      simp [Nat.sub_eq_zero_of_le h]
    · obtain ⟨w, hw⟩ := exact_of_lt (n := start + i) (by omega)
      have hl : n ≤ i + 1 + t.length := by simp at hn; omega
      have hd : n - i = n - (i + 1) + 1 := by omega
      rw [if_neg h, hw]
      simp only [ih (i + 1) (Entry.link n i :: done) hl, hd, List.range'_succ]
      simp

theorem writeLinks_of_lt {start n : Nat} (i : Nat) (done : List Entry) (t : Table)
    (hb : start + i + t.length < Word.range) (hn : i + t.length < n) :
    writeLinks start n i done t =
      .error (.halted (.outOfBounds (done.length + t.length) (start + i + t.length)))
        (done.reverse ++ (List.range' i t.length).map (Entry.link n)) := by
  induction t generalizing i done with
  | nil =>
    have h : ¬ n ≤ i := by simp at hn; omega
    obtain ⟨w, hw⟩ := exact_of_lt (n := start + i) (by simpa using hb)
    rw [writeLinks, if_neg h, hw]
    simp
  | cons e t ih =>
    have h : ¬ n ≤ i := by simp at hn; omega
    obtain ⟨w, hw⟩ := exact_of_lt (n := start + i) (by simp at hb; omega)
    rw [writeLinks, if_neg h, hw]
    simp only [List.length_cons] at hb hn ⊢
    rw [ih (i + 1) (Entry.link n i :: done) (by omega) (by omega)]
    simp only [List.length_cons, List.range'_succ, List.map_cons, List.reverse_cons,
      List.append_assoc, List.singleton_append]
    have h1 : done.length + 1 + t.length = done.length + (t.length + 1) := by omega
    have h2 : start + (i + 1) + t.length = start + i + (t.length + 1) := by omega
    rw [h1, h2]

theorem run_markTaken {t : Table} {start n : Nat} (hn : start + n ≤ t.length)
    (hs : start + n ≤ Word.range) :
    (markTaken start n).run t = .ok () (t.take start ++ (Entry.chain n ++ t.drop (start + n))) := by
  change writeLinks start n 0 _ _ = _
  rw [writeLinks_of_le hs 0 _ _ (by simp; omega)]
  simp [Entry.chain, List.range_eq_range']

theorem reached_writeLinks_length (start n i : Nat) (done : List Entry) (t : Table) :
    (reached (writeLinks start n i done t)).length = done.length + t.length := by
  induction t generalizing i done with
  | nil =>
    rw [writeLinks]
    split
    · simp
    · cases exact (start + i) <;> simp
  | cons e t ih =>
    rw [writeLinks]
    split
    · simp
    · cases exact (start + i) with
      | error e => simp
      | ok w =>
        simp only [ih, List.length_cons]
        omega

theorem length_reached_markTaken (start n : Nat) (t : Table) :
    (reached ((markTaken start n).run t)).length = t.length := by
  change (reached (writeLinks start n 0 _ _)).length = _
  rw [reached_writeLinks_length]
  simp
  omega

theorem passChain_eq (k : Nat) (t : Table) :
    passChain k t =
      (k + min ((t.takeWhile Entry.hasNext).length + 1) t.length,
        t.drop ((t.takeWhile Entry.hasNext).length + 1)) := by
  induction t generalizing k with
  | nil => simp [passChain]
  | cons e t ih =>
    by_cases h : e.hasNext
    · simp only [passChain, h, if_true, ih, List.takeWhile_cons_of_pos, List.length_cons,
        List.drop_succ_cons]
      congr 1
      omega
    · simp [passChain, h]

theorem length_passChain (k : Nat) (t : Table) :
    (passChain k t).1 + (passChain k t).2.length = k + t.length := by
  rw [passChain_eq]
  simp
  omega

theorem run_markFree_error {t : Table} {start : Nat} {e : Failure} (h : t.checkHead start = .error e) :
    (markFree start).run t = .error e t := by
  simp only [EStateM.run, markFree, h]

theorem run_markFree_ok {t : Table} {start : Nat} (h : t.checkHead start = .ok ()) :
    (markFree start).run t = .ok (passChain 0 (t.drop start)).1
      (t.take start ++ List.replicate (passChain 0 (t.drop start)).1 Entry.free ++
        (passChain 0 (t.drop start)).2) := by
  simp only [EStateM.run, markFree, h]

theorem chainLength_eq_ok {t : Table} {start n : Nat} :
    t.chainLength start = .ok n ↔ t.checkHead start = .ok () ∧
      min (((t.drop start).takeWhile Entry.hasNext).length + 1) (t.length - start) = n := by
  rw [chainLength]
  cases t.checkHead start with
  | ok u =>
    change Except.ok _ = Except.ok n ↔ _
    rw [Except.ok.injEq]
    exact (and_iff_right rfl).symm
  | error e => exact ⟨fun h => (by cases h), fun h => (by cases h.1)⟩

theorem chainLength_eq_error {t : Table} {start : Nat} {e : Failure} :
    t.chainLength start = .error e ↔ t.checkHead start = .error e := by
  rw [chainLength]
  cases t.checkHead start with
  | ok u => exact ⟨fun h => (by cases h), fun h => (by cases h)⟩
  | error e' =>
    change Except.error e' = _ ↔ _
    rw [Except.error.injEq, Except.error.injEq]

theorem run_markFree_of_chainLength {t : Table} {start n : Nat} (h : t.chainLength start = .ok n) :
    (markFree start).run t =
      .ok n (t.take start ++ (List.replicate n Entry.free ++ t.drop (start + n))) := by
  obtain ⟨hhead, hn⟩ := chainLength_eq_ok.1 h
  have hrest : (t.drop start).drop (((t.drop start).takeWhile Entry.hasNext).length + 1) =
      t.drop (start + n) := by
    rw [List.drop_drop, ← hn]
    by_cases hend : ((t.drop start).takeWhile Entry.hasNext).length + 1 ≤ t.length - start
    · rw [Nat.min_eq_left hend]
    · -- the walk has run off the end of the table, and nothing comes after it
      rw [List.drop_eq_nil_of_le (by omega), List.drop_eq_nil_of_le (by omega)]
  rw [run_markFree_ok hhead, passChain_eq, Nat.zero_add, List.length_drop, hn, hrest,
    List.append_assoc]

theorem length_reached_markFree (start : Nat) (t : Table) :
    (reached ((markFree start).run t)).length = t.length := by
  cases h : t.checkHead start with
  | error e => rw [run_markFree_error h, reached_error]
  | ok u =>
    have := length_passChain 0 (t.drop start)
    rw [run_markFree_ok h, reached_ok]
    simp at this ⊢
    omega

end Table

end PhysicalHeap
