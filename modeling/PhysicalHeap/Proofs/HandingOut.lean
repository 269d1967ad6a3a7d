import PhysicalHeap.Proofs.FirstFit
import PhysicalHeap.Proofs.Likeness

namespace PhysicalHeap

open Step Machine

namespace Arena

variable {s : Arena} {m : Machine} {size : Word}

/-- How taking blocks for `size` bytes ends in a heap whose end is an address: with the leftmost run that
is long enough, or with a refusal. -/
inductive Offered (s : Arena) (m : Machine) (size : Word) :
    EStateM.Result Failure Recorded Address → Prop where
  | refused {e : Refusal} (hf : (s.table m).findRun (s.grid.needed size) = refuse e) :
    Offered s m size (.error (.refused e) ⟨s.table m, m.journal⟩)
  | taken {k : Nat} {a : Address} (hf : (s.table m).findRun (s.grid.needed size) = .ok k)
    (ha : a.word.toNat = s.grid.place k) :
    Offered s m size (.ok a ⟨(s.table m).chained k (s.grid.needed size),
      m.journal.record (.taken (s.grid.needed size) a)⟩)

theorem offered_malloc (hs : s.Laid) (hlt : s.heapExtent.stop < Address.limit.toNat) (m : Machine)
    (size : Word) : Offered s m size ((Recorded.malloc s.grid size).run ⟨s.table m, m.journal⟩) := by
  have hr := hs.place_lt m
  cases hf : (s.table m).findRun (s.grid.needed size) with
  | error e =>
    obtain ⟨e, rfl⟩ := Table.findRun_eq_error hf
    rw [Recorded.run_malloc_refused hr hf]
    exact .refused hf
  | ok k =>
    have hle : k ≤ s.total := by
      rw [← s.length_table m]
      exact Nat.le_trans (Nat.le_add_right _ _) (Table.le_length_of_findRun hf)
    have hk : s.grid.place k < Address.limit.toNat :=
      Nat.lt_of_le_of_lt (s.grid.place_le hle) (hs.ends ▸ hlt)
    obtain ⟨a, ha, hrun⟩ := Recorded.run_malloc_taken (r := ⟨s.table m, m.journal⟩) hr hf hk
    rw [hrun]
    exact .taken hf ha

/-- What a request for `size` bytes comes to, whichever way it is made: where the blocks lie, if there are
any, and the table afterwards. -/
def grant (s : Arena) (size : Word) (m : Machine) : Option Address × Table :=
  match (Recorded.malloc s.grid size).run ⟨s.table m, m.journal⟩ with
  | .ok a r => (some a, r.table)
  | .error _ r => (none, r.table)

theorem length_chained_of_findRun {k n : Nat} (hf : (s.table m).findRun n = .ok k) :
    ((s.table m).chained k n).length = s.total :=
  (Table.length_chained (Table.le_length_of_findRun hf)).trans (s.length_table m)

theorem grant_eq_none_iff (hs : s.Laid) (hlt : s.heapExtent.stop < Address.limit.toNat) :
    (s.grant size m).1 = none ↔ (s.grant size m).2 = s.table m := by
  have ho := offered_malloc hs hlt m size
  rw [grant]
  generalize (Recorded.malloc s.grid size).run ⟨s.table m, m.journal⟩ = o at ho ⊢
  cases ho with
  | refused => exact ⟨fun _ => rfl, fun _ => rfl⟩
  | @taken k a hf =>
    obtain ⟨hn, hfree⟩ := Table.findRun_eq_ok hf
    have hne := (Table.chained_ne_iff (Table.le_length_of_findRun hf) hfree k).2 ⟨Nat.le_refl k, by omega⟩
    exact ⟨fun h => (by cases h), fun h => absurd (congrArg (fun t : Table => t[k]?) h) hne⟩

theorem lengthAt_grant (hs : s.Laid) (hlt : s.heapExtent.stop < Address.limit.toNat) {a : Address}
    (h : (s.grant size m).1 = some a) :
    s.grid.needed size ≠ 0 ∧ s.grid.lengthAt (s.grant size m).2 a = .ok (s.grid.needed size) := by
  have ho := offered_malloc hs hlt m size
  rw [grant] at h ⊢
  generalize (Recorded.malloc s.grid size).run ⟨s.table m, m.journal⟩ = o at ho h ⊢
  cases ho with
  | refused => cases h
  | taken hf ha =>
    cases h
    obtain ⟨hn, -⟩ := Table.findRun_eq_ok hf
    exact ⟨hn, Grid.lengthAt_chained hn (Table.le_length_of_findRun hf) ha⟩

theorem allocate_grant (hs : s.Laid) (hlt : s.heapExtent.stop < Address.limit.toNat) (m : Machine)
    (size : Word) :
    ∃ m', (s.allocate size).run m = .ok (s.grant size m).1 m' ∧ s.table m' = (s.grant size m).2 := by
  have ho := offered_malloc hs hlt m size
  rw [run_allocate, grant]
  generalize (Recorded.malloc s.grid size).run ⟨s.table m, m.journal⟩ = o at ho ⊢
  cases ho with
  | refused => exact ⟨_, rfl, table_store (s.length_table m)⟩
  | taken hf => exact ⟨_, rfl, table_store (length_chained_of_findRun hf)⟩

theorem allocateRaw_grant (hs : s.Laid) (hlt : s.heapExtent.stop < Address.limit.toNat) (m : Machine)
    (size : Word) :
    ∃ m', (s.allocateRaw size).run m = .ok ((s.grant size m).1.getD Address.null).word m' ∧
      s.table m' = (s.grant size m).2 := by
  obtain ⟨m', hm, ht⟩ := allocate_grant hs hlt m size
  rw [run_allocateRaw, hm]
  exact ⟨m', rfl, ht⟩

theorem allocateZeroed_grant (hs : s.Laid) (hlt : s.heapExtent.stop < Address.limit.toNat)
    (hd : s.heapExtent.overlaps s.tableExtent = false) (m : Machine) (size : Word) :
    ∃ m', (s.allocateZeroed size).run m = .ok (s.grant size m).1 m' ∧
      s.table m' = (s.grant size m).2 := by
  have ho := offered_malloc hs hlt m size
  rw [run_allocateZeroed, grant]
  generalize h : (Recorded.malloc s.grid size).run ⟨s.table m, m.journal⟩ = o at ho ⊢
  cases ho with
  | refused => exact ⟨_, rfl, table_store (s.length_table m)⟩
  | taken hf =>
    have hin := hs.within_of_malloc (s.length_table m) h
    exact ⟨_, rfl, (table_scrub hd hin _).trans (table_store (length_chained_of_findRun hf))⟩

theorem take_grant (hs : s.Laid) (hlt : s.heapExtent.stop < Address.limit.toNat) (m : Machine)
    (size : Word) :
    ∃ n m', (Lease.take s size).run m = .ok ((s.grant size m).1.map fun a => ⟨a, n⟩) m' ∧
      s.table m' = (s.grant size m).2 ∧
      ∀ a, (s.grant size m).1 = some a → n.toNat = s.grid.needed size * s.blockSize.toNat := by
  -- the section in which the length is worked out puts the table back as it was
  have ht : s.table (s.store ⟨s.table m, m.journal⟩ m) = s.table m := table_store (s.length_table m)
  rw [Lease.run_take]
  cases hn : s.grid.roundUp size with
  | error e =>
    have hg : s.grant size m = (none, s.table m) := by
      rw [grant, Recorded.run_malloc, Grid.blocksFor_eq_error hn]
    rw [hg]
    exact ⟨0, _, rfl, ht, nofun⟩
  | ok n =>
    have hg : s.grant size (s.store ⟨s.table m, m.journal⟩ m) = s.grant size m := by
      rw [grant, ht]
      rfl
    obtain ⟨m', hm, htable⟩ := allocate_grant hs hlt (s.store ⟨s.table m, m.journal⟩ m) size
    rw [hg] at hm htable
    refine ⟨n, m', ?_, htable, fun _ _ => Grid.roundUp_eq_ok.1 hn⟩
    rw [hm]
    cases (s.grant size m).1 with
    | none => rfl
    | some a => rfl

end Arena

namespace Session

variable {s : Session} {size : Word}

def Yields (s : Session) (q : Request) (r : Reply) (t : Table) : Prop :=
  ∃ s', (perform q).run s = .ok r s' ∧ s'.arena.table s'.machine = t

theorem yields_allocate (hs : s.arena.Laid) (hlt : s.arena.heapExtent.stop < Address.limit.toNat)
    (size : Word) :
    s.Yields (.allocate size) (.address (s.arena.grant size s.machine).1)
      (s.arena.grant size s.machine).2 := by
  obtain ⟨m, hm, ht⟩ := Arena.allocate_grant hs hlt s.machine size
  rw [Yields, perform, run_served fun a => a.allocate size, hm]
  exact ⟨_, rfl, ht⟩

theorem yields_allocateRaw (hs : s.arena.Laid) (hlt : s.arena.heapExtent.stop < Address.limit.toNat)
    (size : Word) :
    s.Yields (.allocateRaw size) (.pointer ((s.arena.grant size s.machine).1.getD Address.null).word)
      (s.arena.grant size s.machine).2 := by
  obtain ⟨m, hm, ht⟩ := Arena.allocateRaw_grant hs hlt s.machine size
  rw [Yields, perform, run_served fun a => a.allocateRaw size, hm]
  exact ⟨_, rfl, ht⟩

theorem yields_allocateZeroed (hs : s.arena.Laid)
    (hlt : s.arena.heapExtent.stop < Address.limit.toNat)
    (hd : s.arena.heapExtent.overlaps s.arena.tableExtent = false) (size : Word) :
    s.Yields (.allocateZeroed size) (.address (s.arena.grant size s.machine).1)
      (s.arena.grant size s.machine).2 := by
  obtain ⟨m, hm, ht⟩ := Arena.allocateZeroed_grant hs hlt hd s.machine size
  rw [Yields, perform, run_served fun a => a.allocateZeroed size, hm]
  exact ⟨_, rfl, ht⟩

theorem yields_lease (hs : s.arena.Laid) (hlt : s.arena.heapExtent.stop < Address.limit.toNat)
    (size : Word) :
    ∃ n : Word, s.Yields (.lease size)
        (.leased ((s.arena.grant size s.machine).1.map fun a => (s.leases.length, ⟨a, n⟩)))
        (s.arena.grant size s.machine).2 ∧
      ∀ a, (s.arena.grant size s.machine).1 = some a →
        n.toNat = s.arena.grid.needed size * s.arena.blockSize.toNat := by
  obtain ⟨n, m, hm, ht, hn⟩ := Arena.take_grant hs hlt s.machine size
  refine ⟨n, ?_, hn⟩
  rw [Yields, run_perform_lease, hm]
  cases (s.arena.grant size s.machine).1 with
  | none => exact ⟨_, rfl, ht⟩
  | some a => exact ⟨_, rfl, ht⟩

theorem Yields.table_after {q : Request} {r : Reply} {t : Table} (h : s.Yields q r t) :
    s.arena.table (s.after q).machine = t := by
  obtain ⟨s', hrun, rfl⟩ := h
  have hafter : s.after q = s' := congrArg reached hrun
  rw [← hafter, arena_after]

theorem exists_run_lengthAt {a : Address} {n : Nat}
    (h : s.arena.grid.lengthAt (s.arena.table s.machine) a = .ok n) :
    ∃ s', (perform (.lengthAt a)).run s = .ok (.count n) s' := by
  rw [perform, run_served fun b => b.lengthAt a, Arena.run_lengthAt, h]
  exact ⟨_, rfl⟩

theorem surrendered {i : Nat} {x : Lease} (hx : s.lease? i = some x) :
    (perform (.surrender i)).run s =
      .ok (.address (some x.address)) { s with leases := s.leases.set i none } := by
  simp only [perform, run_onLease, hx, EStateM.run_bind]
  rfl

theorem after_release_surrendered {i : Nat} {x : Lease} (hx : s.lease? i = some x) :
    after { s with leases := s.leases.set i none } (.release x.address) = s.after (.drop i) := by
  rw [after_release, after_drop, hx]

/-- At every point of a run it makes no difference to the blocks in which of the four ways they are asked
for: all of them find the same blocks and leave the same table, or all find none and leave the table as it
was. A pointer is null for want of blocks, or because it points to blocks at address zero. A lease is as
long as its blocks, which hold at least the bytes asked for. Surrendering a lease touches nothing but the
list of leases, and releasing its blocks then is dropping it. -/
theorem ways_agree {p : Placement} (hp : p.heapExtent.stop < Address.limit.toNat) {m₀ m : Machine}
    {a : Arena} (h : (Arena.init p).run m₀ = .ok a m)
    (hd : p.heapExtent.overlaps p.tableExtent = false) (qs : List Request) :
    let s := (run qs ⟨a, m, []⟩).2
    (∀ size, ∃ (o : Option Address) (n : Word) (t : Table),
      s.Yields (.allocate size) (.address o) t ∧
      s.Yields (.allocateRaw size) (.pointer (o.getD Address.null).word) t ∧
      s.Yields (.allocateZeroed size) (.address o) t ∧
      s.Yields (.lease size) (.leased (o.map fun x => (s.leases.length, ⟨x, n⟩))) t ∧
      (o = none ↔ t = s.arena.table s.machine) ∧
      ∀ x, o = some x → n ≠ 0 ∧ size ≤ n ∧
        ∃ k s', (perform (.lengthAt x)).run (s.after (.lease size)) = .ok (.count k) s' ∧
          n.toNat = k * p.blockSize.toNat) ∧
    ∀ i x, s.lease? i = some x →
      ∃ s', (perform (.surrender i)).run s = .ok (.address (some x.address)) s' ∧
        s'.machine = s.machine ∧ s'.after (.release x.address) = s.after (.drop i) := by
  intro s
  obtain ⟨rfl, hlaid, -⟩ := Arena.init_eq_ok h
  -- of the run it matters no more than that it keeps the heap where it was set up
  have harena : s.arena = a := arena_run qs _
  clear_value s
  subst harena
  refine ⟨fun size => ?_, fun i x hx => ⟨_, surrendered hx, rfl, after_release_surrendered hx⟩⟩
  obtain ⟨n, hlease, hlen⟩ := yields_lease hlaid hp size
  refine ⟨_, n, _, yields_allocate hlaid hp size, yields_allocateRaw hlaid hp size,
    yields_allocateZeroed hlaid hp hd size, hlease, Arena.grant_eq_none_iff hlaid hp, fun x hx => ?_⟩
  obtain ⟨hk, hat⟩ := Arena.lengthAt_grant hlaid hp hx
  have hn := hlen x hx
  refine ⟨?_, ?_, ?_⟩
  · rintro rfl
    exact Nat.ne_of_gt (Nat.mul_pos (Nat.pos_of_ne_zero hk) s.arena.grid.blockSize_pos) hn.symm
  · exact UInt64.le_iff_toNat_le.2 (hn ▸ s.arena.grid.le_needed)
  · obtain ⟨s', hs'⟩ := exists_run_lengthAt (s := s.after (.lease size)) (a := x) (by
      rw [arena_after, hlease.table_after]
      exact hat)
    exact ⟨_, s', hs', hn⟩

theorem ways_agree_fragmented :
    let p : Placement := ⟨0x42000000, 0x4000, 0x41000000, 4096⟩
    let a : Arena := ⟨p, by decide⟩
    let m := reached ((Arena.init p).run Board.machine)
    let qs : List Request := [.lease 1, .lease 1, .drop 0]
    let s := (run qs ⟨a, m, []⟩).2
    let t : Table := [0x00, 0x41, 0xC1, 0x01]
    (Arena.init p).run Board.machine = .ok a m ∧
      s.arena.table s.machine = [0x00, 0x41, 0x00, 0x00] ∧
      s.Yields (.allocate 4097) (.address (some ⟨0x42002000⟩)) t ∧
      s.Yields (.allocateRaw 4097) (.pointer 0x42002000) t ∧
      s.Yields (.allocateZeroed 4097) (.address (some ⟨0x42002000⟩)) t ∧
      (∃ n, 4097 ≤ n ∧ s.Yields (.lease 4097) (.leased (some (2, ⟨⟨0x42002000⟩, n⟩))) t) ∧
      ∃ s', (perform (.surrender 1)).run s = .ok (.address (some ⟨0x42001000⟩)) s' ∧
        s'.machine = s.machine ∧ s'.after (.release ⟨0x42001000⟩) = s.after (.drop 1) := by
  intro p a m qs s t
  have h : (Arena.init p).run Board.machine = .ok a m := Arena.init_of_starts (by decide +kernel) a.2
  have hfirst : (answer ((perform (.allocate 4097)).run s)).toOption =
      some (.address (some ⟨0x42002000⟩)) := by decide +kernel
  have htable : s.arena.table (s.after (.allocate 4097)).machine = t := by decide +kernel
  have hcount : s.leases.length = 2 := by decide +kernel
  have hx : s.lease? 1 = some ⟨⟨0x42001000⟩, 4096⟩ := by decide +kernel
  obtain ⟨hways, hsurrender⟩ := ways_agree (by decide) h (by decide) qs
  obtain ⟨o, n, t', hallocate, hraw, hzeroed, hlease, -, hlen⟩ := hways 4097
  obtain rfl : t' = t := hallocate.table_after.symm.trans htable
  obtain rfl : o = some ⟨0x42002000⟩ := by
    obtain ⟨s', hrun, -⟩ := hallocate
    rw [hrun] at hfirst
    cases hfirst
    rfl
  rw [hcount] at hlease
  exact ⟨h, by decide +kernel, hallocate, hraw, hzeroed, ⟨n, (hlen _ rfl).2.1, hlease⟩,
    hsurrender 1 _ hx⟩

end Session

end PhysicalHeap
