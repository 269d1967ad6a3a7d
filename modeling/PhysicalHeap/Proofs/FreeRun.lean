import PhysicalHeap.Proofs.Segment

namespace PhysicalHeap

namespace Table

/-- What a scan finds is free: of the blocks from `s` on, those before block `i` were passed, and
the others are entries of the table that is left. -/
theorem scan_eq_some {n i start run s : Nat} {t : Table} (h : scan n i start run t = some s)
    (hs : run ≠ 0 → start + run = i) :
    i ≤ s + run ∧ ∀ j, i ≤ j → s ≤ j → j < s + n → ∃ e, t[j - i]? = some e ∧ e.isFree = true := by
  induction t generalizing i start run with
  | nil => cases h
  | cons e t ih =>
    have hnext : ∀ {j : Nat}, i + 1 ≤ j → (e :: t)[j - i]? = t[j - (i + 1)]? := by
      intro j hj
      have hd : j - i = j - (i + 1) + 1 := by omega
      rw [hd, List.getElem?_cons_succ]
    rw [scan] at h
    by_cases he : e.isFree = true
    · have hstart : (if run = 0 then i else start) + run = i := by
        by_cases h0 : run = 0
        · simp [h0]
        · simpa [h0] using hs h0
      simp only [he, if_true] at h
      by_cases hn : run + 1 = n
      · rw [if_pos hn, Option.some.injEq] at h
        refine ⟨by omega, fun j hij _ hj => ⟨e, ?_, he⟩⟩
        have hd : j - i = 0 := by omega
        rw [hd, List.getElem?_cons_zero]
      · rw [if_neg hn] at h
        obtain ⟨hle, hfree⟩ := ih h (fun _ => by omega)
        refine ⟨by omega, fun j hij hsj hj => ?_⟩
        by_cases hd : j = i
        · subst j
          exact ⟨e, by rw [Nat.sub_self, List.getElem?_cons_zero], he⟩
        · have hlt : i + 1 ≤ j := by omega
          rw [hnext hlt]
          exact hfree j hlt hsj hj
    · rw [if_neg he] at h
      obtain ⟨hle, hfree⟩ := ih h (fun h0 => absurd rfl h0)
      refine ⟨by omega, fun j hij hsj hj => ?_⟩
      have hlt : i + 1 ≤ j := by omega
      rw [hnext hlt]
      exact hfree j hlt hsj hj

/-- If the blocks from `s` on are free, a scan stops there at the latest: before it reaches them, or
while it has passed some of them. -/
theorem scan_of_free {n i start run s : Nat} {t : Table} (hn : run < n)
    (hs : run ≠ 0 → start + run = i) (hi : i ≤ s ∨ run ≠ 0 ∧ start ≤ s)
    (h : ∀ j, i ≤ j → s ≤ j → j < s + n → ∃ e, t[j - i]? = some e ∧ e.isFree = true) :
    ∃ s' ≤ s, scan n i start run t = some s' := by
  induction t generalizing i start run with
  | nil =>
    -- the block that is due is one of the free ones, but nothing is left
    obtain ⟨e, he, -⟩ := h (max i s) (Nat.le_max_left _ _) (Nat.le_max_right _ _) (by omega)
    cases he
  | cons e t ih =>
    have hnext : ∀ j, i + 1 ≤ j → s ≤ j → j < s + n →
        ∃ e, t[j - (i + 1)]? = some e ∧ e.isFree = true := by
      intro j hij hsj hj
      obtain ⟨e', he', hfree⟩ := h j (Nat.le_of_succ_le hij) hsj hj
      have hd : j - i = j - (i + 1) + 1 := by omega
      rw [hd, List.getElem?_cons_succ] at he'
      exact ⟨e', he', hfree⟩
    rw [scan]
    by_cases he : e.isFree = true
    · have hstart : (if run = 0 then i else start) + run = i ∧ (if run = 0 then i else start) ≤ s := by
        by_cases h0 : run = 0
        · rw [if_pos h0]
          omega
        · rw [if_neg h0]
          have := hs h0
          omega
      obtain ⟨hsum, hle⟩ := hstart
      rw [if_pos he]
      by_cases hrun : run + 1 = n
      · simp only [hrun, if_true]
        exact ⟨_, hle, rfl⟩
      · simp only [hrun, if_false]
        exact ih (by omega) (fun _ => by omega) (Or.inr ⟨Nat.succ_ne_zero _, hle⟩) hnext
    · rw [if_neg he]
      have hlt : i + 1 ≤ s := by
        apply Nat.lt_of_not_le
        intro hsi
        have hin : i < s + n := by
          obtain hi | ⟨h0, hstart⟩ := hi
          · omega
          · have := hs h0
            omega
        obtain ⟨e', he', hfree⟩ := h i (Nat.le_refl _) hsi hin
        rw [Nat.sub_self, List.getElem?_cons_zero, Option.some.injEq] at he'
        exact he (he' ▸ hfree)
      exact ih (by omega) (fun h0 => absurd rfl h0) (Or.inl hlt) hnext

/-- The `n` entries from `s` on are all in the table, and free. -/
def FreeRun (t : Table) (s n : Nat) : Prop := ∀ j < n, ∃ e, t[s + j]? = some e ∧ e.isFree = true

theorem FreeRun.le_length {n s : Nat} {t : Table} (h : t.FreeRun s n) (hn : n ≠ 0) :
    s + n ≤ t.length := by
  obtain ⟨e, he, -⟩ := h (n - 1) (by omega)
  obtain ⟨hlt, -⟩ := List.getElem?_eq_some_iff.1 he
  omega

theorem freeRun_iff {n s : Nat} {t : Table} (hn : n ≠ 0) :
    t.FreeRun s n ↔
      s + n ≤ t.length ∧ ∀ i e, s ≤ i → i < s + n → t[i]? = some e → e.toNat % 16 = 0 := by
  constructor
  · intro h
    refine ⟨h.le_length hn, fun i e hsi hi he => ?_⟩
    obtain ⟨e', he', hfree⟩ := h (i - s) (by omega)
    rw [Nat.add_sub_cancel' hsi, he, Option.some.injEq] at he'
    exact Entry.isFree_iff.1 (he' ▸ hfree)
  · rintro ⟨hl, hlow⟩ j hj
    have he : t[s + j]? = some t[s + j] := List.getElem?_eq_getElem (by omega)
    exact ⟨_, he, Entry.isFree_iff.2 (hlow _ _ (by omega) (by omega) he)⟩

theorem findRun_eq_ok {n s : Nat} {t : Table} (h : t.findRun n = .ok s) : n ≠ 0 ∧ t.FreeRun s n := by
  rw [findRun] at h
  by_cases hn : n = 0
  · rw [if_pos hn] at h
    cases h
  · rw [if_neg hn] at h
    cases hf : scan n 0 0 0 t with
    | none =>
      rw [hf] at h
      cases h
    | some s' =>
      rw [hf] at h
      obtain rfl := Except.ok.inj h
      obtain ⟨-, hfree⟩ := scan_eq_some hf (fun h0 => absurd rfl h0)
      exact ⟨hn, fun j hj => hfree (s' + j) (Nat.zero_le _) (by omega) (by omega)⟩

theorem le_length_of_findRun {n s : Nat} {t : Table} (h : t.findRun n = .ok s) : s + n ≤ t.length := by
  obtain ⟨hn, hfree⟩ := findRun_eq_ok h
  exact hfree.le_length hn

theorem findRun_of_free {n s : Nat} {t : Table} (hn : n ≠ 0) (h : t.FreeRun s n) :
    ∃ s' ≤ s, t.findRun n = .ok s' := by
  have hscan : ∃ s' ≤ s, scan n 0 0 0 t = some s' := by
    refine scan_of_free (Nat.pos_of_ne_zero hn) (fun h0 => absurd rfl h0) (Or.inl (Nat.zero_le s)) ?_
    intro j _ hsj hj
    obtain ⟨e, he, hfree⟩ := h (j - s) (by omega)
    rw [Nat.add_sub_cancel' hsj] at he
    exact ⟨e, he, hfree⟩
  obtain ⟨s', hle, hs'⟩ := hscan
  exact ⟨s', hle, by rw [findRun, if_neg hn, hs']⟩

theorem findRun_eq_ok_iff {n s : Nat} {t : Table} :
    t.findRun n = .ok s ↔ n ≠ 0 ∧ t.FreeRun s n ∧ ∀ i, t.FreeRun i n → s ≤ i := by
  constructor
  · intro h
    obtain ⟨hn, hfree⟩ := findRun_eq_ok h
    refine ⟨hn, hfree, fun i hi => ?_⟩
    obtain ⟨s', hle, hs'⟩ := findRun_of_free hn hi
    obtain rfl := Except.ok.inj (h.symm.trans hs')
    exact hle
  · rintro ⟨hn, hfree, hleast⟩
    obtain ⟨s', hle, hs'⟩ := findRun_of_free hn hfree
    obtain rfl := Nat.le_antisymm hle (hleast s' (findRun_eq_ok hs').2)
    exact hs'

theorem findRun_eq_exhausted_iff {n : Nat} {t : Table} :
    t.findRun n = refuse .exhausted ↔ n ≠ 0 ∧ ∀ s, ¬ t.FreeRun s n := by
  by_cases hn : n = 0
  · rw [findRun, if_pos hn]
    exact ⟨fun h => (by cases h), fun h => absurd hn h.1⟩
  · constructor
    · intro h
      refine ⟨hn, fun s hs => ?_⟩
      obtain ⟨s', -, hs'⟩ := findRun_of_free hn hs
      cases h.symm.trans hs'
    · rintro ⟨-, hno⟩
      cases hf : t.findRun n with
      | ok s => exact absurd (findRun_eq_ok hf).2 (hno s)
      | error e =>
        rw [findRun, if_neg hn] at hf
        cases hs : scan n 0 0 0 t with
        | none =>
          rw [hs] at hf
          exact hf.symm
        | some s =>
          rw [hs] at hf
          cases hf

/-- The search finds the leftmost place where `n` entries in a row lie in the table and have nothing in
their low halves, whatever their high bits are, and fails if and only if there is no such place. A run that
a taken entry or the end of the table cuts short is never found. -/
theorem findRun_leftmost (t : Table) {n : Nat} (hn : 1 ≤ n) :
    let Fits := fun s =>
      s + n ≤ t.length ∧ ∀ i e, s ≤ i → i < s + n → t[i]? = some e → e.toNat % 16 = 0
    (∀ s, t.findRun n = .ok s ↔ Fits s ∧ ∀ i, Fits i → s ≤ i) ∧
    (t.findRun n = refuse .exhausted ↔ ∀ s, ¬ Fits s) ∧
    (∀ s i e, s ≤ i → i < s + n → t[i]? = some e → e.toNat % 16 ≠ 0 → t.findRun n ≠ .ok s) ∧
    (∀ s, t.length < s + n → t.findRun n ≠ .ok s) ∧
    (t.length < n → t.findRun n = refuse .exhausted) := by
  intro Fits
  have h0 : n ≠ 0 := Nat.ne_of_gt hn
  have hfits : ∀ s, t.FreeRun s n ↔ Fits s := fun _ => freeRun_iff h0
  have hok : ∀ s, t.findRun n = .ok s ↔ Fits s ∧ ∀ i, Fits i → s ≤ i := by
    intro s
    rw [findRun_eq_ok_iff, and_iff_right h0]
    simp only [hfits]
  have hno : t.findRun n = refuse .exhausted ↔ ∀ s, ¬ Fits s := by
    rw [findRun_eq_exhausted_iff, and_iff_right h0]
    simp only [hfits]
  refine ⟨hok, hno, fun s i e hsi hi he htaken hs => ?_, fun s hlt hs => ?_, fun hlt => ?_⟩
  · exact htaken (((hok s).1 hs).1.2 i e hsi hi he)
  · exact absurd ((hok s).1 hs).1.1 (Nat.not_le_of_lt hlt)
  · refine hno.2 fun s hs => ?_
    have := hs.1
    omega

theorem findRun_leftmost_high_bits :
    let t : Table := [0x01, 0xC0, 0x30, 0x41, 0x00]
    t.findRun 2 = .ok 1 ∧ t.findRun 3 ≠ .ok 1 ∧ t.findRun 2 ≠ .ok 4 ∧
      t.findRun 6 = refuse .exhausted := by
  intro t
  obtain ⟨hfound, -, -, hend, -⟩ := findRun_leftmost t (n := 2) (by decide)
  obtain ⟨-, -, hcut, -, -⟩ := findRun_leftmost t (n := 3) (by decide)
  obtain ⟨-, -, -, -, hmany⟩ := findRun_leftmost t (n := 6) (by decide)
  refine ⟨(hfound 1).2 ⟨⟨by decide, fun i e hlo hhi he => ?_⟩, fun i hi => ?_⟩, ?_, ?_, ?_⟩
  · obtain rfl | rfl : i = 1 ∨ i = 2 := by omega
    · cases he
      rfl
    · cases he
      rfl
  · refine Nat.pos_of_ne_zero fun h0 => ?_
    subst h0
    exact absurd (hi.2 0 0x01 (Nat.le_refl 0) (by decide) rfl) (by decide)
  · exact hcut 1 3 0x41 (by decide) (by decide) rfl (by decide)
  · exact hend 4 (by decide)
  · exact hmany (by decide)

theorem getElem?_clear {t : Table} {i : Nat} (h : i < t.length) : t.clear[i]? = some Entry.free := by
  rw [clear, List.getElem?_map, List.getElem?_eq_getElem h]
  rfl

theorem findRun_clear {n : Nat} {t : Table} (hn : n ≠ 0) (hl : n ≤ t.length) :
    t.clear.findRun n = .ok 0 := by
  obtain ⟨s, hs, hf⟩ := findRun_of_free (s := 0) (t := t.clear) hn fun j hj => by
    rw [Nat.zero_add]
    exact ⟨_, getElem?_clear (Nat.lt_of_lt_of_le hj hl), rfl⟩
  rwa [Nat.le_zero.1 hs] at hf

theorem findRun_chain (n : Nat) (t : Table) : findRun (Entry.chain n ++ Entry.free :: t) 1 = .ok n := by
  have hn : (Entry.chain n ++ Entry.free :: t)[n + 0]? = some Entry.free := by
    rw [Nat.add_zero, List.getElem?_append_right (Nat.le_of_eq (Entry.length_chain n)),
      Entry.length_chain, Nat.sub_self, List.getElem?_cons_zero]
  obtain ⟨s, hs, hf⟩ := findRun_of_free (s := n) Nat.one_ne_zero fun j hj => by
    rw [Nat.lt_one_iff.1 hj]
    exact ⟨_, hn, rfl⟩
  obtain hlt | rfl := Nat.lt_or_eq_of_le hs
  · obtain ⟨e, he, hfree⟩ := (findRun_eq_ok hf).2 0 Nat.one_pos
    rw [Nat.add_zero, List.getElem?_append_left (by rwa [Entry.length_chain]),
      Entry.getElem?_chain hlt] at he
    rw [← Option.some.inj he, Entry.isFree_link] at hfree
    cases hfree
  · exact hf

theorem findRun_eq_error {n : Nat} {t : Table} {e : Failure} (h : t.findRun n = .error e) :
    ∃ r, e = .refused r := by
  rw [findRun] at h
  by_cases hn : n = 0
  · rw [if_pos hn] at h
    exact ⟨_, (Except.error.inj h).symm⟩
  · rw [if_neg hn] at h
    cases hf : scan n 0 0 0 t with
    | none =>
      rw [hf] at h
      exact ⟨_, (Except.error.inj h).symm⟩
    | some s =>
      rw [hf] at h
      cases h

end Table

namespace Segments

theorem eq_free_append {n : Nat} (ss : Segments)
    (h : ∀ j < n, ∃ e, (table ss)[j]? = some e ∧ e.isFree = true) :
    ∃ post, ss = List.replicate n .free ++ post := by
  induction n generalizing ss with
  | zero => exact ⟨ss, rfl⟩
  | succ n ih =>
    obtain ⟨e, he, hfree⟩ := h 0 (Nat.succ_pos n)
    cases ss with
    | nil => cases he
    | cons s ss =>
      cases s with
      | free =>
        obtain ⟨post, rfl⟩ := ih ss fun j hj => h (j + 1) (by omega)
        exact ⟨post, rfl⟩
      | chain k =>
        have hlink := getElem?_table_chain (Nat.zero_le k) [] ss
        obtain rfl := Option.some.inj (he.symm.trans hlink)
        rw [Entry.isFree_link] at hfree
        cases hfree

theorem exists_free_run {n s : Nat} {ss : Segments} (hn : n ≠ 0) (h : (table ss).FreeRun s n) :
    ∃ pre post, ss = pre ++ (List.replicate n .free ++ post) ∧ s = (table pre).length := by
  obtain ⟨e, he, hfree⟩ := h 0 (Nat.pos_of_ne_zero hn)
  obtain ⟨hlt, -⟩ := List.getElem?_eq_some_iff.1 he
  obtain ⟨pre, u, post, j, rfl, hj, hu⟩ := exists_split hlt
  cases u with
  | free =>
    obtain rfl : s = (table pre).length := by
      rw [Segment.length] at hu
      omega
    obtain ⟨rest, hrest⟩ := eq_free_append (n := n) (.free :: post) fun i hi => by
      obtain ⟨e, he, hfree⟩ := h i hi
      rw [table_append, List.getElem?_append_right (Nat.le_add_right _ _),
        Nat.add_sub_cancel_left] at he
      exact ⟨e, he, hfree⟩
    exact ⟨pre, rest, by rw [hrest], rfl⟩
  | chain k =>
    rw [hj, getElem?_table_chain (Nat.le_of_lt_succ hu)] at he
    obtain rfl := Option.some.inj he
    rw [Entry.isFree_link] at hfree
    cases hfree

end Segments

end PhysicalHeap
