import PhysicalHeap.Proofs.Isolation

namespace PhysicalHeap

open Step Machine Segments

namespace Table

theorem countFree_append (t u : Table) : countFree (t ++ u) = t.countFree + u.countFree :=
  List.countP_append

theorem countFree_chain (n : Nat) : countFree (Entry.chain n) = 0 := by
  rw [countFree, List.countP_eq_zero]
  intro e he
  obtain ⟨i, -, rfl⟩ := List.mem_map.1 he
  rw [Entry.isFree_link]
  exact Bool.false_ne_true

theorem countFree_add_chains (ss : Segments) (i : Nat) :
    countFree ss.table + ((ss.chains i).map Chain.length).foldr (· + ·) 0 = ss.table.length := by
  induction ss generalizing i with
  | nil => rfl
  | cons s ss ih =>
    rw [length_table_cons, table_cons, countFree_append]
    cases s with
    | free =>
      have hone : countFree Segment.free.entries = 1 := by decide
      rw [hone, chains, Segment.length, Nat.add_assoc, ih]
    | chain k =>
      have hsum := ih (i + (k + 1))
      rw [Segment.entries_chain, countFree_chain, chains, List.map_cons, List.foldr_cons, Segment.length,
        Nat.zero_add, Nat.add_left_comm, hsum]

theorem chainLength_chain (pre post : Segments) (k : Nat) :
    chainLength (table (pre ++ .chain k :: post)) (table pre).length = .ok (k + 1) := by
  rw [table_append, table_cons, Segment.entries_chain]
  exact chainLength_append _ _ k

end Table

namespace Ledger

variable {g : Grid} {t : Table} {x : Allocation} {l : Ledger}

def blocks (l : Ledger) : Nat := (l.map Allocation.length).foldr (· + ·) 0

theorem Matches.countFree_add_blocks (h : Matches g t l) : t.countFree + l.blocks = t.length := by
  obtain ⟨ss, rfl, hp⟩ := h
  have hl : (l.map Allocation.length).Perm ((ss.chains 0).map Chain.length) := by
    have hsnd := hp.map Prod.snd
    rwa [List.map_map, List.map_map] at hsnd
  rw [blocks, hl.foldr_eq' fun x _ y _ z => Nat.add_left_comm y x z]
  exact Table.countFree_add_chains ss 0

theorem Matches.lengthAt (h : Matches g t l) (hx : x ∈ l) : g.lengthAt t x.address = .ok x.length := by
  obtain ⟨ss, rfl, hp⟩ := h
  obtain ⟨pre, k, post, rfl, ha, hn⟩ := exists_chain_of_mem hp hx
  rw [Grid.lengthAt, Grid.blockAt_chain ha, hn]
  exact Table.chainLength_chain pre post k

theorem Matches.without_head (h : Matches g t (x :: l)) :
    Ledger.without (x :: l) x.address.word.toNat = l := by
  have hx : x ∉ l := (List.nodup_cons.1 h.nodup).1
  rw [without, List.filter_cons_of_neg (by simp), List.filter_eq_self]
  intro y hy
  refine decide_eq_true fun ha => hx ?_
  rwa [h.eq_of_address List.mem_cons_self (List.mem_cons_of_mem _ hy) ha.symm]

end Ledger

def Request.writes : Request → Bool
  | allocateZeroed _ | write _ _ _ | scrub _ => true
  | _ => false

namespace Session

variable {s : Session} {l : Ledger} {q : Request}

/-- The table of a session says what the ledger says. -/
def Agrees (s : Session) (l : Ledger) : Prop := l.Matches s.arena.grid (s.arena.table s.machine)

theorem agrees_of_sameBytes (h : s.Agrees l) {m : Machine} (hb : SameBytes s.machine m) :
    l.Matches s.arena.grid (s.arena.table m) := by
  rw [Arena.table_congr fun p _ => hb p]
  exact h

theorem agrees_allocate (hs : s.arena.Laid) (h : s.Agrees l) (size : Word) :
    (l.booked (s.arena.grid.needed size) none (yielded ((s.arena.allocate size).run s.machine))).Matches
      s.arena.grid (s.arena.table (reached ((s.arena.allocate size).run s.machine))) := by
  have ho := Arena.took_allocate hs h size
  generalize (s.arena.allocate size).run s.machine = o at ho ⊢
  cases ho with
  | halted hb | refused hb => exact agrees_of_sameBytes h hb
  | taken hm => exact hm none

theorem agrees_lease (hs : s.arena.Laid) (h : s.Agrees l) (size : Word) :
    (s.after (.lease size)).Agrees (l.settle s (.lease size)) := by
  have ho := Lease.taken_take hs h size
  rw [after_lease, Ledger.settle]
  generalize (Lease.take s.arena size).run s.machine = o at ho ⊢
  cases ho with
  | halted hb | refused hb => exact agrees_of_sameBytes h hb
  | taken _ hm => exact hm _

theorem agrees_release (h : s.Agrees l) (a : Address) :
    (l.returned s a).Matches s.arena.grid
      (s.arena.table (reached ((s.arena.release a).run s.machine))) := by
  have ho := Arena.gave_release h a
  rw [Ledger.returned]
  generalize (s.arena.release a).run s.machine = o at ho ⊢
  cases ho with
  | refused _ hb => exact agrees_of_sameBytes h hb
  | given _ _ _ _ hm => exact hm

theorem Agrees.after (hs : s.arena.Laid) (h : s.Agrees l) (hq : q.writes = false) :
    (s.after q).Agrees (l.settle s q) := by
  rw [Agrees, arena_after]
  cases q with
  | allocate size =>
    rw [after_allocate]
    exact agrees_allocate hs h size
  | allocateRaw size =>
    rw [after_allocateRaw, Arena.reached_allocateRaw]
    exact agrees_allocate hs h size
  | lease size =>
    have hl := agrees_lease hs h size
    rwa [Agrees, arena_after] at hl
  | release a =>
    rw [after_release]
    exact agrees_release h a
  | releaseRaw pointer =>
    rw [after_releaseRaw, Arena.reached_releaseRaw, Ledger.settle]
    cases Address.ofWord pointer with
    | ok a => exact agrees_release h a
    | error e => exact h
  | drop i =>
    rw [after_drop, Ledger.settle]
    cases s.lease? i with
    | some x => exact agrees_release h x.address
    | none => exact h
  | lengthAt a =>
    rw [after_lengthAt, Arena.run_lengthAt]
    cases s.arena.grid.lengthAt (s.arena.table s.machine) a with
    | ok n => exact agrees_of_sameBytes h Arena.sameBytes_store
    | error e => exact agrees_of_sameBytes h Arena.sameBytes_store
  | stats =>
    rw [after_stats, Arena.run_stats]
    exact agrees_of_sameBytes h Arena.sameBytes_store
  | read i =>
    rw [after_read]
    exact h
  | surrender i =>
    rw [after_surrender]
    cases s.lease? i with
    | none => exact h
    | some x => exact h
  | allocateZeroed | write | scrub => cases hq

theorem Agrees.run (hs : s.arena.Laid) (h : s.Agrees l) {qs : List Request}
    (hq : ∀ q ∈ qs, q.writes = false) : (run qs s).2.Agrees (Ledger.settleAll qs s l) := by
  induction qs generalizing s l with
  | nil => exact h
  | cons q qs ih =>
    obtain ⟨hq, hqs⟩ := List.forall_mem_cons.1 hq
    rw [run_cons]
    exact ih (by rwa [arena_after]) (h.after hs hq) hqs

/-- At every point of every run, the table of a session says what the ledger says. The bytes of blocks may
be written if the table lies apart from them. -/
theorem agrees_run_init {p : Placement} {m₀ m : Machine} {a : Arena}
    (h : (Arena.init p).run m₀ = .ok a m) (qs : List Request)
    (hd : p.heapExtent.overlaps p.tableExtent = false ∨ ∀ q ∈ qs, q.writes = false) :
    (run qs ⟨a, m, []⟩).2.Agrees (Ledger.settleAll qs ⟨a, m, []⟩ []) := by
  obtain hd | hq := hd
  · exact ((sound_init h hd).run qs).agrees
  · obtain ⟨-, hlaid, hm⟩ := Arena.init_eq_ok h
    exact Agrees.run (s := ⟨a, m, []⟩) hlaid hm hq

def releases (l : Ledger) : List Request := l.map fun x => .release x.address

theorem Agrees.run_releases (h : s.Agrees l) : (Session.run (releases l) s).2.Agrees [] := by
  induction l generalizing s with
  | nil => exact h
  | cons x l ih =>
    have hm := agrees_release h x.address
    have hl : Ledger.returned s (x :: l) x.address = l := by
      have ho := Arena.gave_release h x.address
      rw [Ledger.returned]
      generalize hx : x.address = a at ho ⊢
      generalize (s.arena.release a).run s.machine = o at ho ⊢
      cases ho with
      | refused hno => exact absurd hx (hno x List.mem_cons_self)
      | given => exact hx ▸ Ledger.Matches.without_head h
    rw [releases, List.map_cons, run_cons]
    apply ih
    rw [Agrees, arena_after, after_release]
    rwa [hl] at hm

/-- What a session tells about its blocks: the free and the taken ones are all there are, what the ledger
holds is what is taken, and each allocation has the length that was handed out. -/
structure Accounted (s : Session) (l : Ledger) : Prop where
  stats : ∃ st s', (perform .stats).run s = .ok (.stats st) s' ∧ st.total = s.arena.total ∧
    st.used + st.free = st.total ∧ st.used = l.blocks
  lengths : ∀ x ∈ l, ∃ s', (perform (.lengthAt x.address)).run s = .ok (.count x.length) s'

theorem exists_run_stats (s : Session) : ∃ s', (perform .stats).run s =
    .ok (.stats (s.arena.grid.stats (s.arena.table s.machine))) s' := by
  simp only [perform, EStateM.run_bind, EStateM.run_get, run_onMachine, Arena.run_stats]
  exact ⟨_, rfl⟩

theorem Agrees.accounted (h : s.Agrees l) : Accounted s l := by
  have hsum := Ledger.Matches.countFree_add_blocks h
  constructor
  · obtain ⟨s', hrun⟩ := s.exists_run_stats
    refine ⟨_, s', hrun, Arena.length_table _ _, ?_, ?_⟩
    · simp only [Grid.stats]
      omega
    · simp only [Grid.stats]
      omega
  · intro x hx
    simp only [perform, EStateM.run_bind, EStateM.run_get, run_onMachine, Arena.run_lengthAt,
      Ledger.Matches.lengthAt h hx]
    exact ⟨_, rfl⟩

theorem Accounted.used (h : Accounted s l) :
    (s.arena.grid.stats (s.arena.table s.machine)).used = l.blocks := by
  obtain ⟨st, s₁, hst, -, -, hused⟩ := h.stats
  obtain ⟨s₂, hrun⟩ := s.exists_run_stats
  rw [hrun] at hst
  cases hst
  exact hused

/-- At every point of every run, the free and the taken blocks add up to all blocks, and the taken ones
to what is handed out and was not given back, each allocation rounded up to whole blocks. A block at
address zero counts like any other, though its pointer is null. Releasing all that is handed out frees
every block. The bytes of blocks may be written if the table lies apart from them. -/
theorem blocks_accounted {p : Placement} {m₀ m : Machine} {a : Arena}
    (h : (Arena.init p).run m₀ = .ok a m) (qs : List Request)
    (hd : p.heapExtent.overlaps p.tableExtent = false ∨ ∀ q ∈ qs, q.writes = false) :
    let l := Ledger.settleAll qs ⟨a, m, []⟩ []
    Accounted (run qs ⟨a, m, []⟩).2 l ∧ Accounted (run (qs ++ releases l) ⟨a, m, []⟩).2 [] := by
  intro l
  have hl : (run qs ⟨a, m, []⟩).2.Agrees l := agrees_run_init h qs hd
  rw [run_append]
  exact ⟨hl.accounted, hl.run_releases.accounted⟩

theorem blocks_accounted_surrendered :
    let p : Placement := ⟨0x42000000, 0x8000, 0x41000000, 4096⟩
    let a : Arena := ⟨p, by decide⟩
    let m := reached ((Arena.init p).run Board.machine)
    let qs : List Request := [.lease 4097, .allocate 1, .allocateZeroed 8193, .allocateRaw 4096,
      .lease 0, .drop 0, .lease 1, .surrender 1, .release ⟨0x42002000⟩, .release ⟨0x42002000⟩]
    let l : Ledger := [⟨⟨0x42000000⟩, 1, some 1⟩, ⟨⟨0x42006000⟩, 1, none⟩, ⟨⟨0x42003000⟩, 3, none⟩]
    let s := (run qs ⟨a, m, []⟩).2
    (Arena.init p).run Board.machine = .ok a m ∧
      s.arena.table s.machine = [0x41, 0x00, 0x00, 0xC1, 0x81, 0x01, 0x41, 0x00] ∧
      Ledger.settleAll qs ⟨a, m, []⟩ [] = l ∧ l.blocks = 5 ∧ Accounted s l ∧
      Accounted (run (qs ++ releases l) ⟨a, m, []⟩).2 [] := by
  intro p a m qs l s
  have h : (Arena.init p).run Board.machine = .ok a m := Arena.init_of_starts (by decide +kernel) a.2
  have hl : Ledger.settleAll qs ⟨a, m, []⟩ [] = l := by decide +kernel
  have haccounted := blocks_accounted h qs (Or.inl (by decide))
  rw [hl] at haccounted
  exact ⟨h, by decide +kernel, hl, rfl, haccounted⟩

/-- The table lies on the first block. Whoever is handed out that block cleared is forgotten. -/
theorem blocks_unaccounted_overlapping :
    let p : Placement := ⟨0x42000000, 0x4000, 0x42000000, 4096⟩
    let a : Arena := ⟨p, by decide⟩
    let m := reached ((Arena.init p).run Board.machine)
    let qs : List Request := [.allocateZeroed 1]
    let l := Ledger.settleAll qs ⟨a, m, []⟩ []
    let s := (run qs ⟨a, m, []⟩).2
    (Arena.init p).run Board.machine = .ok a m ∧ l = [⟨⟨0x42000000⟩, 1, none⟩] ∧
      s.arena.table s.machine = [0x00, 0x00, 0x00, 0x00] ∧ ¬ Accounted s l := by
  intro p a m qs l s
  have hl : l = [⟨⟨0x42000000⟩, 1, none⟩] := by decide +kernel
  have ht : s.arena.table s.machine = [0x00, 0x00, 0x00, 0x00] := by decide +kernel
  refine ⟨Arena.init_of_starts (by decide +kernel) a.2, hl, ht, ?_⟩
  intro h
  have hused := h.used
  rw [ht, hl] at hused
  exact absurd hused (by decide +kernel)

end Session

end PhysicalHeap
