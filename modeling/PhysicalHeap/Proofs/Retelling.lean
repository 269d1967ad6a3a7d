import PhysicalHeap.Proofs.Accounting
import PhysicalHeap.Proofs.Likeness
import PhysicalHeap.Proofs.Reading
import PhysicalHeap.Proofs.Transcript

namespace PhysicalHeap

open Step Machine

namespace Ledger

/-- The allocations after one more notice. Blocks may not be taken twice, and only an allocation that is
there may be given back. -/
def retell (g : Grid) (l : Ledger) : Notice → Option Ledger
  | .taken n a =>
    if l.any fun y => (Allocation.extent g ⟨a, n, none⟩).overlaps (y.extent g) then none
    else some (⟨a, n, none⟩ :: l)
  | .freed n a => if ⟨a, n, none⟩ ∈ l then some (l.erase ⟨a, n, none⟩) else none
  | _ => some l

/-- Replays the lines of a transcript, from a heap without allocations on. -/
def replay (g : Grid) (lines : List String) : Option Ledger :=
  (lines.filterMap Notice.ofLine?).foldlM (retell g) []

variable {g : Grid} {t : Table} {l : Ledger}

theorem replay_snoc (g : Grid) (lines : List String) (line : String) :
    replay g (lines ++ [line]) = (replay g lines).bind fun l =>
      ([line].filterMap Notice.ofLine?).foldlM (retell g) l := by
  rw [replay, List.filterMap_append, List.foldlM_append]
  rfl

theorem retell_taken {n : Nat} {a : Address} (h : Matches g t (⟨a, n, none⟩ :: l)) :
    l.retell g (.taken n a) = some (⟨a, n, none⟩ :: l) := by
  rw [retell, if_neg]
  rw [List.any_eq_true]
  rintro ⟨y, hy, ho⟩
  rw [(List.pairwise_cons.1 h.pairwise).1 y hy] at ho
  cases ho

theorem Matches.erase (h : Matches g t l) {t' : Table} {y : Allocation} (hy : y ∈ l)
    (h' : Matches g t' (l.without y.address.word.toNat)) : Matches g t' (l.erase y) := by
  obtain ⟨ss, ht, hp⟩ := h'
  refine ⟨ss, ht, List.Perm.trans ?_ hp⟩
  apply List.Perm.map
  exact List.Perm.cons_inv ((List.perm_cons_erase hy).symm.trans (h.perm_without hy))

end Ledger

namespace Recorded

/-- The lines that a journal was told since `j₀` replay to what the table holds. -/
structure Retold (g : Grid) (n : Nat) (j₀ : Journal) (r : Recorded) : Prop where
  length : r.table.length = n
  replays : ∃ ns l, r.journal = j₀.recordAll ns ∧ Ledger.replay g (ns.map Notice.line) = some l ∧
    l.Matches g r.table ∧ ∀ x ∈ l, x.holder = none

namespace Retold

variable {g : Grid} {n : Nat} {j₀ : Journal} {r : Recorded}

theorem start {t : Table} (h : Ledger.Matches g t []) (hn : t.length = n) :
    Retold g n j₀ ⟨t, j₀⟩ := ⟨hn, [], [], rfl, rfl, h, nofun⟩

theorem quiet (h : Retold g n j₀ r) {x : Notice} (hx : x.level ≠ .trace) :
    Retold g n j₀ ⟨r.table, r.journal.record x⟩ := by
  obtain ⟨ns, l, hj, hl, hm, hn⟩ := h.replays
  refine ⟨h.length, ns ++ [x], l, ?_, ?_, hm, hn⟩
  · rw [hj, Journal.recordAll_snoc]
  · rw [List.map_append, List.map_singleton, Ledger.replay_snoc, hl, List.filterMap_cons,
      Notice.ofLine?_line_of_level_ne hx]
    rfl

theorem taken (h : Retold g n j₀ r) (hr : r.table.length ≤ Word.range) {k : Nat} {a : Address} {t : Table}
    (ha : (g.allocate k).run r.table = .ok a t) : Retold g n j₀ ⟨t, r.journal.record (.taken k a)⟩ := by
  obtain ⟨ns, l, hj, hl, hm, hn⟩ := h.replays
  obtain ⟨hm', hlen, -⟩ := hm.allocate hr ha none
  refine ⟨hlen.trans h.length, ns ++ [.taken k a], _, ?_, ?_, hm', ?_⟩
  · rw [hj, Journal.recordAll_snoc]
  · rw [List.map_append, List.map_singleton, Ledger.replay_snoc, hl, List.filterMap_cons,
      Notice.ofLine?_line_taken]
    exact (bind_pure _).trans (Ledger.retell_taken hm')
  · exact List.forall_mem_cons.2 ⟨rfl, hn⟩

theorem free (h : Retold g n j₀ r) (a : Address) :
    Retold g n j₀ (reached ((Recorded.free g a).run r)) := by
  obtain ⟨ns, l, hj, hl, hm, hn⟩ := h.replays
  have ho := hm.released_free a
  rw [run_free]
  generalize hp : a.word.toNat = p at ho
  generalize (g.free a).run r.table = o at ho ⊢
  cases ho with
  | foreign | free | inside => exact h
  | @head x s hx hs hk hm' =>
    obtain rfl : a = x.address := Address.toNat_inj hp
    obtain ⟨a, k, holder⟩ := x
    obtain rfl : holder = none := hn _ hx
    refine ⟨(Table.length_cleared hk).trans h.length, ns ++ [.freed k a], l.erase ⟨a, k, none⟩, ?_, ?_,
      hm.erase hx hm', fun y hy => hn y (List.mem_of_mem_erase hy)⟩
    · rw [hj, Journal.recordAll_snoc]
      rfl
    · rw [List.map_append, List.map_singleton, Ledger.replay_snoc, hl, List.filterMap_cons,
        Notice.ofLine?_line_freed]
      exact (bind_pure _).trans (if_pos hx)

theorem malloc (h : Retold g n j₀ r) (hr : g.place r.table.length < Word.range) (size : Word) :
    Retold g n j₀ (reached ((Recorded.malloc g size).run r)) := by
  rw [run_malloc]
  cases g.blocksFor size with
  | error e => exact h
  | ok k =>
    dsimp only
    rw [run_allocate]
    cases ha : (g.allocate k).run r.table with
    | ok a t => exact h.taken (Grid.length_le_range hr) ha
    | error e t =>
      obtain ⟨-, l, -, -, hm, -⟩ := h.replays
      obtain rfl := hm.allocate_error (Grid.length_le_range hr) ha
      exact h

end Retold

end Recorded

namespace Arena

def Retold (s : Arena) (j₀ : Journal) (m : Machine) : Prop :=
  Recorded.Retold s.grid s.total j₀ ⟨s.table m, m.journal⟩

namespace Retold

variable {s : Arena} {j₀ : Journal} {m : Machine}

theorem store {r : Recorded} (h : Recorded.Retold s.grid s.total j₀ r) (m : Machine) :
    s.Retold j₀ (s.store r m) := by
  rw [Retold, table_store h.length]
  exact h

theorem note (h : s.Retold j₀ m) {x : Notice} (hx : x.level ≠ .trace) :
    s.Retold j₀ { m with journal := m.journal.record x } := Recorded.Retold.quiet h hx

theorem fill (hd : s.heapExtent.overlaps s.tableExtent = false) (h : s.Retold j₀ m) {x : Extent}
    (hx : x.isWithin s.heapExtent = true) (b : UInt8) :
    s.Retold j₀ { m with memory := m.memory.fill x.start x.length b } := by
  have ht : s.table { m with memory := m.memory.fill x.start x.length b } = s.table m :=
    read_table_fill hd hx m.memory b
  rw [Retold, ht]
  exact h

theorem allocate (hs : s.Laid) (h : s.Retold j₀ m) (size : Word) :
    s.Retold j₀ (reached ((s.allocate size).run m)) := by
  have hr := Recorded.Retold.malloc h (hs.place_lt m) size
  rw [run_allocate]
  generalize (Recorded.malloc s.grid size).run ⟨s.table m, m.journal⟩ = o at hr ⊢
  cases o with
  | ok a r => exact store hr m
  | error e r =>
    cases e with
    | refused e => exact (store hr m).note nofun
    | halted f => exact store hr m

theorem allocateZeroed (hs : s.Laid) (hd : s.heapExtent.overlaps s.tableExtent = false)
    (h : s.Retold j₀ m) (size : Word) : s.Retold j₀ (reached ((s.allocateZeroed size).run m)) := by
  have hr := Recorded.Retold.malloc h (hs.place_lt m) size
  have hin := fun a u hu => hs.within_of_malloc (r := ⟨s.table m, m.journal⟩) (s.length_table m)
    (hu : (Recorded.malloc s.grid size).run ⟨s.table m, m.journal⟩ = .ok a u)
  rw [run_allocateZeroed]
  generalize (Recorded.malloc s.grid size).run ⟨s.table m, m.journal⟩ = o at hr hin ⊢
  cases o with
  | ok a r => exact (store hr m).fill hd (hin a r rfl) 0
  | error e r =>
    cases e with
    | refused e => exact (store hr m).note nofun
    | halted f => exact store hr m

theorem release (h : s.Retold j₀ m) (a : Address) : s.Retold j₀ (reached ((s.release a).run m)) := by
  have hr := Recorded.Retold.free h a
  rw [run_release]
  generalize (Recorded.free s.grid a).run ⟨s.table m, m.journal⟩ = o at hr ⊢
  cases o with
  | ok a r => exact store hr m
  | error e r =>
    cases e with
    | refused e => exact (store hr m).note nofun
    | halted f => exact store hr m

theorem take (hs : s.Laid) (h : s.Retold j₀ m) (size : Word) :
    s.Retold j₀ (reached ((Lease.take s size).run m)) := by
  have hstore := store h m
  rw [Lease.run_take]
  cases s.grid.roundUp size with
  | error e => exact hstore
  | ok n =>
    have ho := hstore.allocate hs size
    dsimp only
    generalize (s.allocate size).run _ = o at ho ⊢
    cases o with
    | error e m' => exact ho
    | ok a m' => cases a <;> exact ho

end Retold

end Arena

namespace Session

variable {s : Session} {j₀ : Journal} {q : Request}

/-- One request more, and the lines still replay to what the table holds. Only where bytes of blocks are
written does it matter where these lie. -/
theorem retold_after (hs : s.arena.Laid) (h : s.arena.Retold j₀ s.machine)
    (hq : q.writes = false ∨ ∃ l, Sound s l) : s.arena.Retold j₀ (s.after q).machine := by
  cases q with
  | allocate size =>
    rw [after_allocate]
    exact h.allocate hs size
  | allocateZeroed size =>
    obtain ⟨l, hl⟩ := hq.resolve_left nofun
    rw [after_allocateZeroed]
    exact h.allocateZeroed hs hl.apart size
  | allocateRaw size =>
    rw [after_allocateRaw, Arena.reached_allocateRaw]
    exact h.allocate hs size
  | release a =>
    rw [after_release]
    exact h.release a
  | releaseRaw pointer =>
    rw [after_releaseRaw, Arena.reached_releaseRaw]
    cases Address.ofWord pointer with
    | ok a => exact h.release a
    | error e => exact h
  | lengthAt a =>
    rw [after_lengthAt, Arena.run_lengthAt]
    cases s.arena.grid.lengthAt (s.arena.table s.machine) a with
    | ok n => exact .store h s.machine
    | error e => exact .store h s.machine
  | stats =>
    rw [after_stats, Arena.run_stats]
    exact .store h s.machine
  | lease size =>
    have ho := h.take hs size
    rw [after_lease]
    generalize (Lease.take s.arena size).run s.machine = o at ho ⊢
    cases o with
    | error e m => exact ho
    | ok x m => cases x <;> exact ho
  | write i k b =>
    obtain ⟨l, hl⟩ := hq.resolve_left nofun
    rw [after_write_eq]
    cases hx : s.lease? i with
    | none => exact h
    | some x =>
      dsimp only
      rw [Lease.run_write]
      by_cases hk : k < x.length
      · have hin := Extent.isWithin_byte (hl.within i x hx) (UInt64.lt_iff_toNat_lt.1 hk)
        rw [if_pos hk]
        exact h.fill hl.apart hin b
      · rw [if_neg hk]
        exact h
  | read i =>
    rw [after_read]
    exact h
  | surrender i =>
    rw [after_surrender]
    cases s.lease? i with
    | none => exact h
    | some x => exact h
  | scrub i =>
    obtain ⟨l, hl⟩ := hq.resolve_left nofun
    rw [after_scrub]
    cases hx : s.lease? i with
    | none => exact h
    | some x => exact h.fill hl.apart (hl.within i x hx) 0
  | drop i =>
    rw [after_drop]
    cases s.lease? i with
    | none => exact h
    | some x => exact h.release x.address

theorem retold_run (hs : s.arena.Laid) (h : s.arena.Retold j₀ s.machine) {qs : List Request}
    (hq : (∀ q ∈ qs, q.writes = false) ∨ ∃ l, Sound s l) :
    s.arena.Retold j₀ (run qs s).2.machine := by
  induction qs generalizing s with
  | nil => exact h
  | cons q qs ih =>
    rw [run_cons, ← arena_after s q]
    apply ih
    · rwa [arena_after]
    · rw [arena_after]
      exact retold_after hs h (hq.imp_left fun hq => hq q List.mem_cons_self)
    · exact hq.imp (fun hq q' hq' => hq q' (List.mem_cons_of_mem _ hq'))
        fun ⟨l, hl⟩ => ⟨l.settle s q, hl.after q⟩

/-- A machine that records everything tells all there is to know of its heap: at every point of every run
the lines that it printed replay to the allocations that the table holds. No line takes blocks that are
taken, none gives back what is not there, and whoever reads them needs no other lines. The bytes of blocks
may be written if the table lies apart from them. -/
theorem lines_replay {p : Placement} {m₀ m : Machine} {a : Arena} (h : (Arena.init p).run m₀ = .ok a m)
    (ht : m.journal.threshold = some .trace) (qs : List Request)
    (hd : p.heapExtent.overlaps p.tableExtent = false ∨ ∀ q ∈ qs, q.writes = false) :
    let s := (run qs ⟨a, m, []⟩).2
    ∃ ns l, m.journal.Wrote s.machine.journal ns ∧
      Ledger.replay a.grid (ns.map Notice.line) = some l ∧ l.Matches a.grid (a.table s.machine) := by
  intro s
  obtain ⟨rfl, hlaid, hm⟩ := Arena.init_eq_ok h
  have hstart : a.Retold m.journal m := .start hm (a.length_table m)
  have hq : (∀ q ∈ qs, q.writes = false) ∨ ∃ l, Sound ⟨a, m, []⟩ l :=
    hd.symm.imp_right fun hd => ⟨[], sound_init h hd⟩
  obtain ⟨-, ns, l, hj, hl, hm, -⟩ := retold_run (s := ⟨a, m, []⟩) hlaid hstart hq
  have hwrote := m.journal.wrote_recordAll ns
  rw [ht, Threshold.admitted_trace, ← hj] at hwrote
  exact ⟨ns, l, hwrote, hl, hm⟩

theorem lines_replay_reused :
    let p : Placement := ⟨0x42000000, 0x4000, 0x41000000, 4096⟩
    let a : Arena := ⟨p, by decide⟩
    let m₀ : Machine := ⟨Memory.blank, 0, ⟨some .trace, (Board.console Board.serialBase).start, []⟩⟩
    let m := reached ((Arena.init p).run m₀)
    let qs : List Request := [.lease 4097, .allocateRaw 1, .allocate 0, .releaseRaw 0x42001000,
      .write 0 0 7, .drop 0, .allocateZeroed 4096]
    let s := (run qs ⟨a, m, []⟩).2
    let opening := "[TRACE] blockheap_kernel::mm::heap: heap: "
    (Arena.init p).run m₀ = .ok a m ∧ m.journal.threshold = some .trace ∧
      a.table s.machine = [0x41, 0x00, 0x41, 0x00] ∧
      (s.machine.journal.kept.drop m.journal.kept.length).map Notice.line =
        [opening ++ "2 blocks at 0x0000000042000000\n", opening ++ "1 blocks at 0x0000000042002000\n",
          "[WARN] blockheap_kernel::mm::kheap: kernel heap: allocation of 0 bytes failed: " ++
            "zero-sized allocation\n",
          "[ERROR] blockheap_kernel::mm::kheap: kernel heap: rejected release of 0x0000000042001000: " ++
            "block is not the start of an allocation\n",
          opening ++ "freed 2 blocks at 0x0000000042000000\n",
          opening ++ "1 blocks at 0x0000000042000000\n"] ∧
      ∃ ns l, m.journal.Wrote s.machine.journal ns ∧
        Ledger.replay a.grid (ns.map Notice.line) = some l ∧ l.Matches a.grid (a.table s.machine) := by
  intro p a m₀ m qs s opening
  have h : (Arena.init p).run m₀ = .ok a m := Arena.init_of_starts (by decide +kernel) a.2
  have ht : m.journal.threshold = some .trace := by decide +kernel
  exact ⟨h, ht, by decide +kernel, by decide +kernel, lines_replay h ht qs (Or.inl (by decide))⟩

/-- The table lies on the first block. That block is handed out cleared, and then once more, as the lines
tell. -/
theorem lines_contradictory_overlapping :
    let p : Placement := ⟨0x42000000, 0x4000, 0x42000000, 4096⟩
    let a : Arena := ⟨p, by decide⟩
    let m₀ : Machine := ⟨Memory.blank, 0, ⟨some .trace, (Board.console Board.serialBase).start, []⟩⟩
    let m := reached ((Arena.init p).run m₀)
    let qs : List Request := [.allocateZeroed 1, .allocate 1]
    let s := (run qs ⟨a, m, []⟩).2
    let line := "[TRACE] blockheap_kernel::mm::heap: heap: 1 blocks at 0x0000000042000000\n"
    (Arena.init p).run m₀ = .ok a m ∧ m.journal.threshold = some .trace ∧
      (s.machine.journal.kept.drop m.journal.kept.length).map Notice.line = [line, line] ∧
      ¬ ∃ ns l, m.journal.Wrote s.machine.journal ns ∧
        Ledger.replay a.grid (ns.map Notice.line) = some l ∧ l.Matches a.grid (a.table s.machine) := by
  intro p a m₀ m qs s line
  have hlines : (s.machine.journal.kept.drop m.journal.kept.length).map Notice.line = [line, line] := by
    decide +kernel
  refine ⟨Arena.init_of_starts (by decide +kernel) a.2, by decide +kernel, hlines, ?_⟩
  rintro ⟨ns, l, hwrote, hl, -⟩
  rw [hwrote.kept, List.drop_left] at hlines
  have hnone : Ledger.replay a.grid [line, line] = none := by decide +kernel
  rw [hlines, hnone] at hl
  cases hl

end Session

end PhysicalHeap
