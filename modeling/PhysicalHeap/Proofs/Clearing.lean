import PhysicalHeap.Proofs.HandingOut

namespace PhysicalHeap

open Step Machine

namespace Arena

variable {s : Arena} {m : Machine} {size : Word}

/-- Where the entries of `n` blocks from block `k` on lie in memory. -/
def entries (s : Arena) (k n : Nat) : Extent := ⟨s.tableBase.toNat + k, n⟩

theorem byteAt_store_chained {k n : Nat} (h : k + n ≤ s.total) (j : Journal) {b : Nat}
    (hb : b ∉ s.entries k n) :
    (s.store ⟨(s.table m).chained k n, j⟩ m).memory.byteAt b = m.memory.byteAt b := by
  have hle : k + n ≤ (s.table m).length := by rwa [length_table]
  have hlen : ((s.table m).chained k n).length = s.total :=
    (Table.length_chained hle).trans (s.length_table m)
  -- the whole table is written back, its other entries as they were read
  by_cases hp : b ∈ s.tableExtent
  · obtain ⟨i, rfl⟩ : ∃ i, b = s.tableBase.toNat + i := Nat.exists_eq_add_of_le hp.1
    have hat : s.tableBase.toNat ≤ s.tableBase.toNat + i ∧
        s.tableBase.toNat + i < s.tableBase.toNat + s.total := hp
    have hi : i < s.total := Nat.lt_of_add_lt_add_left hat.2
    have hout : ¬ (k ≤ i ∧ i < k + n) := by
      rintro ⟨hlo, hhi⟩
      have hstop := Nat.add_lt_add_left hhi s.tableBase.toNat
      rw [← Nat.add_assoc] at hstop
      exact hb ⟨Nat.add_le_add_left hlo _, hstop⟩
    change (m.memory.write s.tableBase.toNat _).byteAt _ = _
    rw [Memory.byteAt_write, hlen, if_pos hat, Nat.add_sub_cancel_left, Table.getElem?_chained hle,
      if_neg hout, table, Memory.getElem?_read, if_pos hi, Option.getD_some]
  · exact byteAt_store hlen hp

/-- How taking blocks for `size` bytes and clearing them ends: the blocks that were found are zero, and
besides them only their entries have changed; or memory is as it was. -/
inductive Zeroed (s : Arena) (m : Machine) (size : Word) :
    EStateM.Result Failure Machine (Option Address) → Prop where
  | refused {m' : Machine} (hb : SameBytes m m') : Zeroed s m size (.ok none m')
  | taken {k : Nat} {a : Address} {m' : Machine}
    (hf : (s.table m).findRun (s.grid.needed size) = .ok k) (ha : a.word.toNat = s.grid.place k)
    (hin : (Allocation.extent s.grid ⟨a, s.grid.needed size, none⟩).isWithin s.heapExtent = true)
    (ht : s.table m' = (s.table m).chained k (s.grid.needed size))
    (hz : ∀ b ∈ Allocation.extent s.grid ⟨a, s.grid.needed size, none⟩, m'.memory.byteAt b = 0)
    (hb : ∀ b, b ∉ Allocation.extent s.grid ⟨a, s.grid.needed size, none⟩ →
      b ∉ s.entries k (s.grid.needed size) → m'.memory.byteAt b = m.memory.byteAt b) :
    Zeroed s m size (.ok (some a) m')

theorem zeroed_allocateZeroed (hs : s.Laid) (hlt : s.heapExtent.stop < Address.limit.toNat)
    (hd : s.heapExtent.overlaps s.tableExtent = false) (m : Machine) (size : Word) :
    Zeroed s m size ((s.allocateZeroed size).run m) := by
  have ho := offered_malloc hs hlt m size
  rw [run_allocateZeroed]
  generalize h : (Recorded.malloc s.grid size).run ⟨s.table m, m.journal⟩ = o at ho ⊢
  cases ho with
  | refused => exact .refused sameBytes_store
  | @taken k a hf ha =>
    have hin := hs.within_of_malloc (s.length_table m) h
    have hle := Table.le_length_of_findRun hf
    rw [length_table] at hle
    refine .taken hf ha hin ?_ (fun b hb => ?_) fun b hb hentries => ?_
    · exact (table_scrub hd hin _).trans (table_store (length_chained_of_findRun hf))
    · exact (Scrub.byteAt_extent _ _ b).trans (if_pos hb)
    · exact ((Scrub.byteAt_extent _ _ b).trans (if_neg hb)).trans (byteAt_store_chained hle _ hentries)

end Arena

namespace Session

theorem run_allocateZeroed (s : Session) {size : Word} {o : Option Address} {m : Machine}
    (h : (s.arena.allocateZeroed size).run s.machine = .ok o m) :
    (perform (.allocateZeroed size)).run s = .ok (.address o) { s with machine := m } := by
  rw [perform, run_served fun a => a.allocateZeroed size, h]

/-- At every point of a run, blocks that are asked for cleared are free blocks of the heap that hold the
bytes asked for. Afterwards they are zero up to the end of the last one, and besides them and their entries
in the table every byte is what it was. If there are no such blocks, every byte is. -/
theorem allocateZeroed_clears {p : Placement} (hp : p.heapExtent.stop < Address.limit.toNat)
    {m₀ m : Machine} {a : Arena} (h : (Arena.init p).run m₀ = .ok a m)
    (hd : p.heapExtent.overlaps p.tableExtent = false) (qs : List Request) (size : Word) :
    let s := (run qs ⟨a, m, []⟩).2
    ∃ o s', (perform (.allocateZeroed size)).run s = .ok (.address o) s' ∧
      (o = none → SameBytes s.machine s'.machine) ∧
      ∀ x, o = some x → ∃ k n,
        let cleared : Extent := ⟨x.word.toNat, n * p.blockSize.toNat⟩
        (∃ s'', (perform (.lengthAt x)).run s' = .ok (.count n) s'') ∧
        x.word.toNat = p.base.toNat + k * p.blockSize.toNat ∧
        (s.arena.table s.machine).FreeRun k n ∧
        cleared.isWithin p.heapExtent = true ∧
        Extent.isWithin ⟨x.word.toNat, size.toNat⟩ cleared = true ∧
        (∀ b ∈ cleared, s'.machine.memory.byteAt b = 0) ∧
        ∀ b, b ∉ cleared → b ∉ (⟨p.tableBase.toNat + k, n⟩ : Extent) →
          s'.machine.memory.byteAt b = s.machine.memory.byteAt b := by
  intro s
  obtain ⟨rfl, hlaid, -⟩ := Arena.init_eq_ok h
  have harena : s.arena = a := arena_run qs _
  clear_value s
  subst harena
  have ho := Arena.zeroed_allocateZeroed hlaid hp hd s.machine size
  generalize hrun : (s.arena.allocateZeroed size).run s.machine = o at ho
  cases ho with
  | refused hb => exact ⟨_, _, s.run_allocateZeroed hrun, fun _ => hb, nofun⟩
  | @taken k x m' hf hx hin ht hz hb =>
    refine ⟨_, _, s.run_allocateZeroed hrun, nofun, fun y hy => ?_⟩
    cases hy
    obtain ⟨hn, hfree, -⟩ := Table.findRun_eq_ok_iff.1 hf
    have hat : s.arena.grid.lengthAt (s.arena.table m') x = .ok (s.arena.grid.needed size) := by
      rw [ht]
      exact Grid.lengthAt_chained hn (Table.le_length_of_findRun hf) hx
    have hholds : Extent.isWithin ⟨x.word.toNat, size.toNat⟩
        (Allocation.extent s.arena.grid ⟨x, s.arena.grid.needed size, none⟩) = true :=
      Extent.isWithin_iff.2 ⟨Nat.le_refl _, Nat.add_le_add_left s.arena.grid.le_needed _⟩
    exact ⟨k, s.arena.grid.needed size, exists_run_lengthAt (s := { s with machine := m' }) hat, hx,
      hfree, hin, hholds, hz, hb⟩

theorem allocateZeroed_clears_reused :
    let p : Placement := ⟨0x42000000, 0x4000, 0x41000000, 4096⟩
    let a : Arena := ⟨p, by decide⟩
    let m := reached ((Arena.init p).run Board.machine)
    let qs : List Request :=
      [.lease 1, .lease 4097, .lease 1, .write 0 4095 0xCD, .write 1 0 0xAA, .write 1 8191 0xAB,
        .write 2 0 0xEF, .drop 1]
    let s := (run qs ⟨a, m, []⟩).2
    (Arena.init p).run Board.machine = .ok a m ∧
      s.machine.memory.byteAt 0x42001000 = 0xAA ∧ s.machine.memory.byteAt 0x42002FFF = 0xAB ∧
      (∃ s', (perform (.allocateZeroed 4097)).run s = .ok (.address (some ⟨0x42001000⟩)) s' ∧
        (∀ b ∈ (⟨0x42001000, 0x2000⟩ : Extent), s'.machine.memory.byteAt b = 0) ∧
        s'.machine.memory.byteAt 0x42000FFF = 0xCD ∧ s'.machine.memory.byteAt 0x42003000 = 0xEF) ∧
      ∃ s', (perform (.allocateZeroed 8193)).run s = .ok (.address none) s' ∧
        SameBytes s.machine s'.machine := by
  intro p a m qs s
  have h : (Arena.init p).run Board.machine = .ok a m := Arena.init_of_starts (by decide +kernel) a.2
  have hfirst : (answer ((perform (.allocateZeroed 4097)).run s)).toOption =
      some (.address (some ⟨0x42001000⟩)) := by decide +kernel
  have hsecond : (answer ((perform (.allocateZeroed 8193)).run s)).toOption =
      some (.address none) := by decide +kernel
  have hlength : (answer ((perform (.lengthAt ⟨0x42001000⟩)).run
      (s.after (.allocateZeroed 4097)))).toOption = some (.count 2) := by decide +kernel
  obtain ⟨o, s', hrun, -, hsome⟩ := allocateZeroed_clears (by decide) h (by decide) qs 4097
  obtain ⟨o', s'', hrun', hnone, -⟩ := allocateZeroed_clears (by decide) h (by decide) qs 8193
  have hafter : s.after (.allocateZeroed 4097) = s' := congrArg reached hrun
  rw [hrun] at hfirst
  rw [hrun'] at hsecond
  cases hfirst
  cases hsecond
  obtain ⟨k, n, ⟨t, hcount⟩, hk, -, -, -, hz, hb⟩ := hsome _ rfl
  rw [hafter, hcount] at hlength
  cases hlength
  obtain rfl : k = 1 := by
    change 0x42001000 = 0x42000000 + k * 4096 at hk
    omega
  have hbefore := hb 0x42000FFF (by decide) (by decide)
  have hbehind := hb 0x42003000 (by decide) (by decide)
  exact ⟨h, by decide +kernel, by decide +kernel,
    ⟨s', hrun, hz, hbefore.trans (by decide +kernel), hbehind.trans (by decide +kernel)⟩,
    s'', hrun', hnone rfl⟩

end Session

end PhysicalHeap
