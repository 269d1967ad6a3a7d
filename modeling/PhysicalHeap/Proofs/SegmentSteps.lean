import PhysicalHeap.Proofs.FreeRun

namespace PhysicalHeap

open Segments

namespace Table

theorem checkHead_free (pre post : Segments) :
    checkHead (table (pre ++ .free :: post)) (table pre).length = refuse .notTaken := by
  rw [checkHead, getElem?_table_free]
  rfl

theorem checkHead_chain {k j : Nat} (h : j ≤ k) (pre post : Segments) :
    checkHead (table (pre ++ .chain k :: post)) ((table pre).length + j) =
      if j = 0 then .ok () else refuse .notHead := by
  rw [checkHead, getElem?_table_chain h]
  simp only [Entry.isFree_link, Entry.isFirst_link, Bool.false_eq_true, if_false, decide_eq_true_eq]

theorem checkHead_of_le {t : Table} {i : Nat} (h : t.length ≤ i) :
    checkHead t i = refuse .foreignAddress := by
  rw [checkHead, List.getElem?_eq_none h]

theorem checkHead_eq_error {t : Table} {i : Nat} {e : Failure} (h : t.checkHead i = .error e) :
    ∃ r ∈ [Refusal.foreignAddress, .notTaken, .notHead], e = .refused r := by
  rw [checkHead] at h
  cases hi : t[i]? with
  | none =>
    rw [hi] at h
    exact ⟨.foreignAddress, by simp, (Except.error.inj h).symm⟩
  | some x =>
    rw [hi] at h
    dsimp only at h
    by_cases hfree : x.isFree = true
    · rw [if_pos hfree] at h
      exact ⟨.notTaken, by simp, (Except.error.inj h).symm⟩
    · rw [if_neg hfree] at h
      by_cases hfirst : x.isFirst = true
      · rw [if_pos hfirst] at h
        cases h
      · rw [if_neg hfirst] at h
        exact ⟨.notHead, by simp, (Except.error.inj h).symm⟩

theorem takeWhile_chain (k : Nat) (t : Table) :
    ((Entry.chain (k + 1) ++ t).takeWhile Entry.hasNext).length = k := by
  cases k with
  | zero => rfl
  | succ k =>
    have hm : ∀ e ∈ List.replicate k (0x81 : Entry), e.hasNext = true := by
      intro e he
      obtain rfl := List.eq_of_mem_replicate he
      rfl
    have hc : Entry.hasNext 0xC1 = true := rfl
    have hl : Entry.hasNext 0x01 = false := rfl
    rw [Entry.chain_add_two, List.cons_append, List.takeWhile_cons_of_pos hc, List.append_assoc,
      List.takeWhile_append_of_pos hm, List.cons_append, List.takeWhile_cons_of_neg (by simp [hl])]
    simp

theorem chainLength_append (u v : Table) (k : Nat) :
    chainLength (u ++ (Entry.chain (k + 1) ++ v)) u.length = .ok (k + 1) := by
  have hhead : checkHead (u ++ (Entry.chain (k + 1) ++ v)) u.length = .ok () := by
    have hget : (u ++ (Entry.chain (k + 1) ++ v))[u.length]? = some (Entry.link (k + 1) 0) := by
      rw [List.getElem?_append_right (Nat.le_refl _), Nat.sub_self,
        List.getElem?_append_left (by rw [Entry.length_chain]; exact Nat.succ_pos k),
        Entry.getElem?_chain (Nat.succ_pos k)]
    rw [checkHead, hget]
    simp only [Entry.isFree_link, Entry.isFirst_link, Bool.false_eq_true, if_false, decide_true, if_true]
  have hlen : k + 1 ≤ (u ++ (Entry.chain (k + 1) ++ v)).length - u.length := by
    rw [List.length_append, Nat.add_sub_cancel_left, List.length_append, Entry.length_chain]
    exact Nat.le_add_right _ _
  rw [chainLength, hhead, List.drop_left, takeWhile_chain]
  exact congrArg Except.ok (Nat.min_eq_left hlen)

theorem drop_chain (u v : Table) (n : Nat) : (u ++ (Entry.chain n ++ v)).drop (u.length + n) = v := by
  rw [← List.append_assoc, List.drop_left' (by rw [List.length_append, Entry.length_chain])]

theorem run_markFree_chain (pre post : Segments) (k : Nat) :
    (markFree (table pre).length).run (table (pre ++ .chain k :: post)) =
      .ok (k + 1) (table (pre ++ (List.replicate (k + 1) .free ++ post))) := by
  have ht : table (pre ++ .chain k :: post) = table pre ++ (Entry.chain (k + 1) ++ table post) := by
    rw [table_append, table_cons, Segment.entries_chain]
  rw [ht, run_markFree_of_chainLength (chainLength_append _ _ k), List.take_left, drop_chain,
    table_append, table_append, table_free]

theorem run_markTaken_free {pre post : Segments} {k : Nat}
    (h : (table (pre ++ (List.replicate (k + 1) .free ++ post))).length ≤ Word.range) :
    (markTaken (table pre).length (k + 1)).run (table (pre ++ (List.replicate (k + 1) .free ++ post))) =
      .ok () (table (pre ++ .chain k :: post)) := by
  have ht : table (pre ++ (List.replicate (k + 1) .free ++ post)) =
      table pre ++ (List.replicate (k + 1) Entry.free ++ table post) := by
    rw [table_append, table_append, table_free]
  have hl : (table pre).length + (k + 1) ≤
      (table (pre ++ (List.replicate (k + 1) .free ++ post))).length := by
    rw [ht]
    simp
  have hd : (table pre ++ (List.replicate (k + 1) Entry.free ++ table post)).drop
      ((table pre).length + (k + 1)) = table post := by
    rw [← List.append_assoc, List.drop_left' (by simp)]
  rw [run_markTaken hl (Nat.le_trans hl h), ht, List.take_left, hd, table_append, table_cons,
    Segment.entries_chain]

end Table

end PhysicalHeap
