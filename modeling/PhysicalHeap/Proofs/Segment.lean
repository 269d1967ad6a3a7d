import PhysicalHeap.Table.Lemmas

namespace PhysicalHeap

namespace Entry

theorem isFree_iff {e : Entry} : e.isFree = true ↔ e.toNat % 16 = 0 := by
  have hlow : e.toNat &&& 15 = e.toNat % 16 := Nat.and_two_pow_sub_one_eq_mod e.toNat 4
  rw [isFree, beq_iff_eq, ← UInt8.toNat_inj, UInt8.toNat_and, ← hlow]
  rfl

theorem isFree_link (n i : Nat) : (link n i).isFree = false := by
  have h : ∀ a b : Bool,
      (taken ||| (if a then first else 0) ||| (if b then next else 0)).isFree = false := by
    decide
  simpa [link] using h (decide (i = 0)) (decide (i + 1 < n))

theorem isFirst_link (n i : Nat) : (link n i).isFirst = decide (i = 0) := by
  have h : ∀ a b : Bool,
      (taken ||| (if a then first else 0) ||| (if b then next else 0)).isFirst = a := by
    decide
  simpa [link] using h (decide (i = 0)) (decide (i + 1 < n))

theorem getElem?_chain {n i : Nat} (h : i < n) : (chain n)[i]? = some (link n i) := by
  simp [chain, h]

end Entry

/-- A part of a table that stands for itself: a free block, or one whole allocation of `more + 1`
blocks. -/
inductive Segment where
  | free
  | chain (more : Nat)
  deriving DecidableEq

namespace Segment

def entries : Segment → List Entry
  | free => [0x00]
  | chain 0 => [0x41]
  | chain (k + 1) => 0xC1 :: (List.replicate k 0x81 ++ [0x01])

def length : Segment → Nat
  | free => 1
  | chain k => k + 1

theorem entries_chain (k : Nat) : (chain k).entries = Entry.chain (k + 1) := by
  cases k with
  | zero => exact Entry.chain_one.symm
  | succ k => exact (Entry.chain_add_two k).symm

theorem length_entries (s : Segment) : s.entries.length = s.length := by
  cases s with
  | free => rfl
  | chain k => rw [entries_chain, Entry.length_chain, length]

end Segment

/-- Where a chain lies in a table: its first block, and its length in blocks. -/
structure Chain where
  start : Nat
  length : Nat
  deriving DecidableEq

abbrev Segments := List Segment

namespace Segments

def table (ss : Segments) : Table := ss.flatMap Segment.entries

def chains : (i : Nat) → Segments → List Chain
  | _, [] => []
  | i, .free :: ss => chains (i + 1) ss
  | i, .chain k :: ss => ⟨i, k + 1⟩ :: chains (i + (k + 1)) ss

theorem table_append (ss ts : Segments) : table (ss ++ ts) = table ss ++ table ts :=
  List.flatMap_append

theorem table_cons (s : Segment) (ss : Segments) : table (s :: ss) = s.entries ++ table ss :=
  List.flatMap_cons

theorem length_table_cons (s : Segment) (ss : Segments) :
    (table (s :: ss)).length = s.length + (table ss).length := by
  rw [table_cons, List.length_append, Segment.length_entries]

theorem le_length_table (pre post : Segments) (s : Segment) :
    (table pre).length + s.length ≤ (table (pre ++ s :: post)).length := by
  rw [table_append, List.length_append, length_table_cons, ← Nat.add_assoc]
  exact Nat.le_add_right _ _

theorem table_free (n : Nat) : table (List.replicate n .free) = List.replicate n Entry.free := by
  induction n with
  | zero => rfl
  | succ n ih =>
    rw [List.replicate_succ, table_cons, ih]
    rfl

theorem chains_append (i : Nat) (ss ts : Segments) :
    chains i (ss ++ ts) = chains i ss ++ chains (i + (table ss).length) ts := by
  induction ss generalizing i with
  | nil => rfl
  | cons s ss ih =>
    cases s with
    | free => simp only [List.cons_append, chains, ih, length_table_cons, Segment.length, Nat.add_assoc]
    | chain k =>
      simp only [List.cons_append, chains, ih, length_table_cons, Segment.length, Nat.add_assoc]

theorem chains_free (i n : Nat) : chains i (List.replicate n .free) = [] := by
  induction n generalizing i with
  | zero => rfl
  | succ n ih => exact ih (i + 1)

theorem mem_chains_bounds {i : Nat} {ss : Segments} {c : Chain} (h : c ∈ chains i ss) :
    i ≤ c.start ∧ 0 < c.length ∧ c.start + c.length ≤ i + (table ss).length := by
  induction ss generalizing i with
  | nil => cases h
  | cons s ss ih =>
    rw [length_table_cons]
    cases s with
    | free =>
      obtain ⟨h1, h2, h3⟩ := ih h
      rw [Segment.length]
      omega
    | chain k =>
      rw [Segment.length]
      rcases List.mem_cons.1 h with rfl | h
      · dsimp only
        omega
      · obtain ⟨h1, h2, h3⟩ := ih h
        omega

theorem pairwise_chains (i : Nat) (ss : Segments) :
    (chains i ss).Pairwise fun c d => c.start + c.length ≤ d.start := by
  induction ss generalizing i with
  | nil => exact List.Pairwise.nil
  | cons s ss ih =>
    cases s with
    | free => exact ih (i + 1)
    | chain k => exact List.pairwise_cons.2 ⟨fun d hd => (mem_chains_bounds hd).1, ih _⟩

theorem exists_of_mem_chains {i : Nat} {ss : Segments} {c : Chain} (h : c ∈ chains i ss) :
    ∃ pre k post, ss = pre ++ .chain k :: post ∧ c = ⟨i + (table pre).length, k + 1⟩ := by
  induction ss generalizing i with
  | nil => cases h
  | cons s ss ih =>
    cases s with
    | free =>
      obtain ⟨pre, k, post, rfl, rfl⟩ := ih h
      refine ⟨.free :: pre, k, post, rfl, ?_⟩
      rw [length_table_cons, Segment.length, Nat.add_assoc]
    | chain m =>
      rcases List.mem_cons.1 h with rfl | h
      · exact ⟨[], m, ss, rfl, rfl⟩
      · obtain ⟨pre, k, post, rfl, rfl⟩ := ih h
        refine ⟨.chain m :: pre, k, post, rfl, ?_⟩
        rw [length_table_cons, Segment.length, Nat.add_assoc]

theorem exists_split {ss : Segments} {i : Nat} (h : i < (table ss).length) :
    ∃ pre s post j, ss = pre ++ s :: post ∧ i = (table pre).length + j ∧ j < s.length := by
  induction ss generalizing i with
  | nil => cases h
  | cons s ss ih =>
    rw [length_table_cons] at h
    by_cases hi : i < s.length
    · exact ⟨[], s, ss, i, rfl, (Nat.zero_add i).symm, hi⟩
    · obtain ⟨pre, u, post, j, rfl, hj, hu⟩ := ih (i := i - s.length) (by omega)
      refine ⟨s :: pre, u, post, j, rfl, ?_, hu⟩
      rw [length_table_cons]
      omega

theorem getElem?_table {s : Segment} {j : Nat} (h : j < s.length) (pre post : Segments) :
    (table (pre ++ s :: post))[(table pre).length + j]? = s.entries[j]? := by
  rw [table_append, table_cons, List.getElem?_append_right (Nat.le_add_right _ _),
    Nat.add_sub_cancel_left, List.getElem?_append_left (by rwa [Segment.length_entries])]

theorem getElem?_table_chain {k j : Nat} (h : j ≤ k) (pre post : Segments) :
    (table (pre ++ .chain k :: post))[(table pre).length + j]? = some (Entry.link (k + 1) j) := by
  have hj : j < k + 1 := Nat.lt_succ_of_le h
  rw [getElem?_table hj, Segment.entries_chain, Entry.getElem?_chain hj]

theorem getElem?_table_free (pre post : Segments) :
    (table (pre ++ .free :: post))[(table pre).length]? = some 0 :=
  getElem?_table (s := .free) (j := 0) Nat.one_pos pre post

end Segments

end PhysicalHeap
