import PhysicalHeap.Proofs.Blocks
import PhysicalHeap.Proofs.SegmentSteps

namespace PhysicalHeap

open Step Segments

namespace Table

/-- How freeing from block `i` on ends, by the segment that the block lies in. -/
inductive Freed (ss : Segments) : Nat → EStateM.Result Failure Table Nat → Prop where
  | outside {i : Nat} (h : ss.table.length ≤ i) :
    Freed ss i (.error (.refused .foreignAddress) ss.table)
  | free {pre post : Segments} (h : ss = pre ++ .free :: post) :
    Freed ss pre.table.length (.error (.refused .notTaken) ss.table)
  | inside {pre post : Segments} {k j : Nat} (h : ss = pre ++ .chain k :: post) (hj : 0 < j)
    (hk : j ≤ k) : Freed ss (pre.table.length + j) (.error (.refused .notHead) ss.table)
  | head {pre post : Segments} {k : Nat} (h : ss = pre ++ .chain k :: post) :
    Freed ss pre.table.length
      (.ok (k + 1) (table (pre ++ (List.replicate (k + 1) .free ++ post))))

theorem freed_markFree (ss : Segments) (i : Nat) : Freed ss i ((markFree i).run ss.table) := by
  by_cases hi : i < ss.table.length
  · obtain ⟨pre, s, post, j, hs, rfl, hj⟩ := exists_split hi
    cases s with
    | free =>
      obtain rfl : j = 0 := Nat.lt_one_iff.1 hj
      have hhead := checkHead_free pre post
      rw [← hs] at hhead
      rw [Nat.add_zero, run_markFree_error hhead]
      exact Freed.free hs
    | chain k =>
      have hk : j ≤ k := Nat.le_of_lt_succ hj
      cases j with
      | zero =>
        have hrun := run_markFree_chain pre post k
        rw [← hs] at hrun
        rw [Nat.add_zero, hrun]
        exact Freed.head hs
      | succ j =>
        have hhead := checkHead_chain hk pre post
        rw [← hs, if_neg (Nat.succ_ne_zero j)] at hhead
        rw [run_markFree_error hhead]
        exact Freed.inside hs (Nat.succ_pos j) hk
  · have hle := Nat.le_of_not_lt hi
    rw [run_markFree_error (checkHead_of_le hle)]
    exact Freed.outside hle

end Table

namespace Grid

def needed (g : Grid) (size : Word) : Nat := stepsFor size.toNat g.blockSize.toNat

theorem roundUp_eq_ok {g : Grid} {size r : Word} :
    g.roundUp size = .ok r ↔ r.toNat = g.needed size * g.blockSize.toNat := by
  rw [needed, ← Word.roundUp?_eq_some g.blockSize_ne, roundUp]
  cases Word.roundUp? size g.blockSize with
  | none => exact ⟨fun h => (by cases h), fun h => (by cases h)⟩
  | some w => rw [Except.ok.injEq, Option.some.injEq]

theorem roundUp_eq_error {g : Grid} {size : Word} {e : Failure} (h : g.roundUp size = .error e) :
    e = .refused .exhausted := by
  rw [roundUp] at h
  cases hr : Word.roundUp? size g.blockSize with
  | none =>
    rw [hr] at h
    exact (Except.error.inj h).symm
  | some w =>
    rw [hr] at h
    cases h

theorem blocksFor_of_roundUp {g : Grid} {size r : Word} (h : g.roundUp size = .ok r) :
    g.blocksFor size = .ok (g.needed size) := by
  have hr := roundUp_eq_ok.1 h
  rw [blocksFor, h]
  change Except.ok (r / g.blockSize).toNat = _
  rw [UInt64.toNat_div, hr, Nat.mul_div_cancel _ g.blockSize_pos]

theorem blocksFor_eq_error {g : Grid} {size : Word} {e : Failure} (h : g.roundUp size = .error e) :
    g.blocksFor size = .error e := by
  rw [blocksFor, h]
  rfl

/-- How a grid over a table of `n` entries is judged: by the first objection that there is to it. -/
inductive Judged (base stop : Address) (blockSize : Word) (n : Nat) : Except Failure Grid → Prop where
  | zeroBlock (h0 : blockSize = 0) : Judged base stop blockSize n (.error (.refused .zeroBlock))
  | unaligned (h0 : blockSize ≠ 0)
    (hd : ¬ (blockSize.toNat ∣ base.word.toNat ∧ blockSize.toNat ∣ stop.word.toNat)) :
    Judged base stop blockSize n (.error (.refused .unaligned))
  | reversed (h0 : blockSize ≠ 0)
    (hd : blockSize.toNat ∣ base.word.toNat ∧ blockSize.toNat ∣ stop.word.toNat)
    (hlt : stop.word.toNat < base.word.toNat) :
    Judged base stop blockSize n (.error (.refused .reversed))
  | tableLength (h0 : blockSize ≠ 0)
    (hd : blockSize.toNat ∣ base.word.toNat ∧ blockSize.toNat ∣ stop.word.toNat)
    (hle : base.word.toNat ≤ stop.word.toNat)
    (hl : n * blockSize.toNat ≠ stop.word.toNat - base.word.toNat) :
    Judged base stop blockSize n (.error (.refused
      (.tableLength ((stop.word.toNat - base.word.toNat) / blockSize.toNat) n)))
  | laid (h0 : blockSize ≠ 0)
    (hd : blockSize.toNat ∣ base.word.toNat ∧ blockSize.toNat ∣ stop.word.toNat)
    (hle : base.word.toNat ≤ stop.word.toNat)
    (hl : n * blockSize.toNat = stop.word.toNat - base.word.toNat) :
    Judged base stop blockSize n (.ok ⟨base, blockSize, h0⟩)

namespace Judged

variable {base stop : Address} {blockSize : Word} {n : Nat} {v w : Except Failure Grid}

theorem unique (hv : Judged base stop blockSize n v) (hw : Judged base stop blockSize n w) : v = w := by
  cases hv with
  | zeroBlock h0 =>
    cases hw with
    | zeroBlock => rfl
    | unaligned h | reversed h | tableLength h | laid h => exact absurd h0 h
  | unaligned h0 hd =>
    cases hw with
    | zeroBlock h => exact absurd h h0
    | unaligned => rfl
    | reversed _ h | tableLength _ h | laid _ h => exact absurd h hd
  | reversed h0 hd hlt =>
    cases hw with
    | zeroBlock h => exact absurd h h0
    | unaligned _ h => exact absurd hd h
    | reversed => rfl
    | tableLength _ _ h | laid _ _ h => exact absurd hlt (Nat.not_lt_of_le h)
  | tableLength h0 hd hle hl =>
    cases hw with
    | zeroBlock h => exact absurd h h0
    | unaligned _ h => exact absurd hd h
    | reversed _ _ h => exact absurd h (Nat.not_lt_of_le hle)
    | tableLength => rfl
    | laid _ _ _ h => exact absurd h hl
  | laid h0 hd hle hl =>
    cases hw with
    | zeroBlock h => exact absurd h h0
    | unaligned _ h => exact absurd hd h
    | reversed _ _ h => exact absurd h (Nat.not_lt_of_le hle)
    | tableLength _ _ _ h => exact absurd hl h
    | laid => rfl

theorem zeroBlock_iff (h : Judged base stop blockSize n v) :
    v = .error (.refused .zeroBlock) ↔ blockSize = 0 := by
  constructor
  · rintro rfl
    cases h with
    | zeroBlock h0 => exact h0
  · exact fun h0 => h.unique (.zeroBlock h0)

theorem unaligned_iff (h : Judged base stop blockSize n v) :
    v = .error (.refused .unaligned) ↔ blockSize ≠ 0 ∧
      ¬ (blockSize.toNat ∣ base.word.toNat ∧ blockSize.toNat ∣ stop.word.toNat) := by
  constructor
  · rintro rfl
    cases h with
    | unaligned h0 hd => exact ⟨h0, hd⟩
  · exact fun ⟨h0, hd⟩ => h.unique (.unaligned h0 hd)

theorem reversed_iff (h : Judged base stop blockSize n v) :
    v = .error (.refused .reversed) ↔ blockSize ≠ 0 ∧
      (blockSize.toNat ∣ base.word.toNat ∧ blockSize.toNat ∣ stop.word.toNat) ∧
      stop.word.toNat < base.word.toNat := by
  constructor
  · rintro rfl
    cases h with
    | reversed h0 hd hlt => exact ⟨h0, hd, hlt⟩
  · exact fun ⟨h0, hd, hlt⟩ => h.unique (.reversed h0 hd hlt)

theorem tableLength_iff (h : Judged base stop blockSize n v) (expected actual : Nat) :
    v = .error (.refused (.tableLength expected actual)) ↔ blockSize ≠ 0 ∧
      (blockSize.toNat ∣ base.word.toNat ∧ blockSize.toNat ∣ stop.word.toNat) ∧
      base.word.toNat ≤ stop.word.toNat ∧ n * blockSize.toNat ≠ stop.word.toNat - base.word.toNat ∧
      expected = (stop.word.toNat - base.word.toNat) / blockSize.toNat ∧ actual = n := by
  constructor
  · rintro rfl
    cases h with
    | tableLength h0 hd hle hl => exact ⟨h0, hd, hle, hl, rfl, rfl⟩
  · rintro ⟨h0, hd, hle, hl, rfl, rfl⟩
    exact h.unique (.tableLength h0 hd hle hl)

theorem exists_ok_iff (h : Judged base stop blockSize n v) :
    (∃ g, v = .ok g) ↔ blockSize ≠ 0 ∧
      (blockSize.toNat ∣ base.word.toNat ∧ blockSize.toNat ∣ stop.word.toNat) ∧
      base.word.toNat ≤ stop.word.toNat ∧ n * blockSize.toNat = stop.word.toNat - base.word.toNat := by
  constructor
  · rintro ⟨g, rfl⟩
    cases h with
    | laid h0 hd hle hl => exact ⟨h0, hd, hle, hl⟩
  · exact fun ⟨h0, hd, hle, hl⟩ => ⟨_, h.unique (.laid h0 hd hle hl)⟩

end Judged

theorem misaligned_iff (base stop : Address) {blockSize : Word} (h0 : blockSize ≠ 0) :
    (!base.isMultipleOf blockSize || !stop.isMultipleOf blockSize) = true ↔
      ¬ (blockSize.toNat ∣ base.word.toNat ∧ blockSize.toNat ∣ stop.word.toNat) := by
  have hb := Nat.ne_of_gt (Word.toNat_pos h0)
  rw [Bool.or_eq_true, Bool.not_eq_true', Bool.not_eq_true', ← Bool.not_eq_true, ← Bool.not_eq_true,
    Address.isMultipleOf_iff, Address.isMultipleOf_iff, and_iff_right hb, and_iff_right hb,
    Decidable.not_and_iff_or_not]

/-- A grid is judged before the table is written, by the length of the table and not by what it held. -/
theorem exists_judged (base stop : Address) (blockSize : Word) (n : Nat) :
    ∃ v, Judged base stop blockSize n v ∧ ∀ t : Table, t.length = n →
      (create base stop blockSize).run t = match v with
        | .ok g => .ok g t.clear
        | .error e => .error e t := by
  by_cases h0 : blockSize = 0
  · refine ⟨_, .zeroBlock h0, fun t _ => ?_⟩
    rw [create, dif_pos h0]
    rfl
  have hb := Word.toNat_pos h0
  have hm := misaligned_iff base stop h0
  by_cases hd : blockSize.toNat ∣ base.word.toNat ∧ blockSize.toNat ∣ stop.word.toNat
  · have hmul := fun h => hm.1 h hd
    cases ho : stop.since? base with
    | none =>
      refine ⟨_, .reversed h0 hd (Address.since?_eq_none.1 ho), fun t _ => ?_⟩
      rw [create, dif_neg h0, if_neg hmul, ho]
      rfl
    | some span =>
      have hstop := Address.since?_eq_some.1 ho
      have hspan : stop.word.toNat - base.word.toNat = span.toNat := by omega
      have hdvd : blockSize.toNat ∣ span.toNat := (Nat.dvd_add_right hd.1).1 (hstop ▸ hd.2)
      have hcount : n * blockSize.toNat = span.toNat ↔ n = (span / blockSize).toNat := by
        rw [UInt64.toNat_div, eq_comm, ← Nat.div_eq_iff_eq_mul_left hb hdvd, eq_comm]
      by_cases hl : n = (span / blockSize).toNat
      · refine ⟨_, .laid h0 hd (by omega) (by rw [hspan, hcount, hl]), fun t ht => ?_⟩
        subst ht
        rw [create, dif_neg h0, if_neg hmul, ho]
        simp only [EStateM.run_bind, EStateM.run_get, ne_eq, hl, not_true, if_false]
        rfl
      · refine ⟨_, .tableLength h0 hd (by omega) (by rwa [hspan, ne_eq, hcount]), fun t ht => ?_⟩
        subst ht
        rw [create, dif_neg h0, if_neg hmul, ho, hspan, ← UInt64.toNat_div]
        simp only [EStateM.run_bind, EStateM.run_get, ne_eq, hl, not_false_iff, if_true]
        rfl
  · refine ⟨_, .unaligned h0 hd, fun t _ => ?_⟩
    rw [create, dif_neg h0, if_pos (hm.2 hd)]
    rfl

theorem run_create_eq_ok {base stop : Address} {blockSize : Word} {t t' : Table} {g : Grid}
    (h : (create base stop blockSize).run t = .ok g t') :
    g.base = base ∧ g.blockSize = blockSize ∧ t' = t.clear ∧ g.place t.length = stop.word.toNat := by
  obtain ⟨v, hv, hrun⟩ := exists_judged base stop blockSize t.length
  rw [hrun t rfl] at h
  cases hv with
  | zeroBlock | unaligned | reversed | tableLength => cases h
  | laid h0 hd hle hl =>
    cases h
    refine ⟨rfl, rfl, rfl, ?_⟩
    rw [place, hl, Nat.add_sub_cancel' hle]

theorem run_allocate (g : Grid) (n : Nat) (t : Table) :
    (g.allocate n).run t = match t.findRun n with
      | .error e => .error e t
      | .ok s => match g.address t s with
        | .error e => .error e t
        | .ok a => match (Table.markTaken s n).run t with
          | .ok () t => .ok a t
          | .error e t => .error e t := by
  simp only [allocate, EStateM.run_bind, EStateM.run_get, run_judged]
  cases t.findRun n with
  | error e => rfl
  | ok s =>
    dsimp only
    cases g.address t s with
    | error e => rfl
    | ok a =>
      dsimp only
      cases (Table.markTaken s n).run t with
      | ok _ t => rfl
      | error e t => rfl

theorem run_free (g : Grid) (a : Address) (t : Table) :
    (g.free a).run t = match g.blockAt t a with
      | .error e => .error e t
      | .ok i => (Table.markFree i).run t := by
  simp only [free, EStateM.run_bind, EStateM.run_get, run_judged]
  cases g.blockAt t a with
  | error e => rfl
  | ok i => rfl

theorem blockAt_chain {g : Grid} {pre : Segments} {a : Address}
    (ha : a.word.toNat = g.place pre.table.length) (post : Segments) (k : Nat) :
    g.blockAt (table (pre ++ .chain k :: post)) a = .ok pre.table.length := by
  refine blockAt_eq_ok.2 ⟨?_, ha⟩
  have hle := le_length_table pre post (.chain k)
  rw [Segment.length] at hle
  omega

/-- How taking `n` blocks ends: some free blocks become a chain, or the table stays as it was. -/
inductive Allocated (g : Grid) (ss : Segments) (n : Nat) :
    EStateM.Result Failure Table Address → Prop where
  | failed (e : Failure) : Allocated g ss n (.error e ss.table)
  | taken {pre post : Segments} {k : Nat} {a : Address} (hn : n = k + 1)
    (h : ss = pre ++ (List.replicate (k + 1) .free ++ post))
    (ha : a.word.toNat = g.place pre.table.length) (hlt : a.word.toNat < Address.limit.toNat) :
    Allocated g ss n (.ok a (table (pre ++ .chain k :: post)))

theorem allocated_allocate (g : Grid) {ss : Segments} (hl : ss.table.length ≤ Word.range) (n : Nat) :
    Allocated g ss n ((g.allocate n).run ss.table) := by
  rw [run_allocate]
  cases hf : ss.table.findRun n with
  | error e => exact Allocated.failed e
  | ok s =>
    dsimp only
    cases ha : g.address ss.table s with
    | error e => exact Allocated.failed e
    | ok a =>
      obtain ⟨hn, hfree⟩ := Table.findRun_eq_ok hf
      obtain ⟨pre, post, hs, rfl⟩ := exists_free_run hn hfree
      obtain ⟨k, rfl⟩ := Nat.exists_eq_succ_of_ne_zero hn
      obtain ⟨-, hplace, hlt⟩ := address_eq_ok.1 ha
      have hrun : (Table.markTaken pre.table.length (k + 1)).run ss.table =
          .ok () (table (pre ++ .chain k :: post)) := by
        rw [hs] at hl ⊢
        exact Table.run_markTaken_free hl
      rw [Nat.succ_eq_add_one, hrun]
      exact Allocated.taken rfl hs hplace (by rwa [hplace])

end Grid

end PhysicalHeap
