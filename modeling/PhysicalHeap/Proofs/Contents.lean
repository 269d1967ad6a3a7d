import PhysicalHeap.Proofs.Accounting
import PhysicalHeap.Proofs.Likeness

namespace PhysicalHeap

open Step Machine

/-- The request without the byte that it writes, if it writes one. -/
def Request.redacted : Request → Request
  | .write i offset _ => .write i offset 0
  | q => q

/-- The reply without the bytes that it brings: of these only the number is left. -/
def Reply.redacted : Reply → Reply
  | .bytes rs => .bytes [⟨0, rs.length⟩]
  | r => r

theorem Request.exists_write_or_redacted (q : Request) :
    (∃ i k b, q = .write i k b) ∨ q.redacted = q := by
  cases q with
  | write i k b => exact Or.inl ⟨i, k, b, rfl⟩
  | _ => exact Or.inr rfl

theorem Request.like_of_redacted {q q' : Request} (h : q'.redacted = q.redacted) :
    q.Like (fun _ _ => True) q' := by
  obtain ⟨i, k, b, rfl⟩ | hq := q.exists_write_or_redacted
  · obtain ⟨j, l, c, rfl⟩ | hq' := q'.exists_write_or_redacted
    · simp only [redacted, Request.write.injEq, and_true] at h
      obtain ⟨rfl, rfl⟩ := h
      exact .write _ _ trivial
    · obtain rfl : q' = .write i k 0 := hq'.symm.trans h
      exact .write _ _ trivial
  · obtain ⟨j, l, c, rfl⟩ | hq' := q'.exists_write_or_redacted
    · obtain rfl : q = .write j l 0 := hq.symm.trans h.symm
      exact .write _ _ trivial
    · obtain rfl : q' = q := hq'.symm.trans (h.trans hq)
      exact .same _

theorem Reply.redacted_eq {r r' : Reply} (h : r.Like (fun rs ts => ts.length = rs.length) r') :
    r'.redacted = r.redacted := by
  cases h with
  | same => rfl
  | bytes h => rw [redacted, redacted, h]

namespace Arena

variable {s : Arena} {m₀ m : Machine}

def blind (s : Arena) (hd : s.heapExtent.overlaps s.tableExtent = false) : Likeness s where
  memory x y := y.read s.tableBase.toNat s.total = x.read s.tableBase.toNat s.total
  journal := Eq
  byte _ _ := True
  seen rs ts := ts.length = rs.length
  read _ _ h := h
  write x y t _ hl := by rw [← hl, Memory.read_write, Memory.read_write]
  fill x y e b c h he _ := by rw [read_table_fill hd he, read_table_fill hd he, h]
  window x y start n _ := by rw [Memory.window, Memory.window, Runs.length_front, Runs.length_front]
  refl _ := trivial
  told j k n h := congrArg (fun j => j.record n) h

/-- A heap is set up the same whatever memory held before, its table included. -/
theorem exists_init_of_memory {p : Placement} (h : (init p).run m₀ = .ok s m) (w : Memory) :
    ∃ m', (init p).run { m₀ with memory := w } = .ok s m' ∧ s.table m' = s.table m ∧
      m'.journal = m.journal := by
  obtain ⟨rfl, -, -⟩ := init_eq_ok h
  rw [run_init] at h ⊢
  cases hp : s.toPlacement.stop with
  | error e =>
    rw [hp] at h
    cases h
  | ok stop =>
    rw [hp] at h
    dsimp only at h ⊢
    cases hc : (Recorded.create ⟨s.base⟩ stop s.blockSize).run ⟨s.table m₀, m₀.journal⟩ with
    | error e r =>
      rw [hc] at h
      cases e <;> cases h
    | ok g r =>
      have hl : (Recorded.mk (s.table { m₀ with memory := w }) m₀.journal).table.length =
          (s.table m₀).length := (length_table _ _).trans (length_table _ _).symm
      obtain ⟨⟨t, j⟩, hc', rfl, hj⟩ := Recorded.exists_create_congr hc hl
      obtain rfl := hj rfl
      have hr := (Recorded.length_of_create hc).trans (s.length_table m₀)
      have ht : ∀ m, s.table (s.store r m) = r.table := fun m => table_store hr
      rw [hc] at h
      rw [hc']
      dsimp only at h ⊢
      by_cases hi : r.journal.admits .info = true
      · rw [if_pos hi, ht] at h ⊢
        cases he : g.stop r.table with
        | error e =>
          rw [he] at h
          cases h
        | ok end_ =>
          rw [he] at h
          cases h
          exact ⟨_, rfl, (ht _).trans (ht _).symm, rfl⟩
      · rw [if_neg hi] at h ⊢
        cases h
        exact ⟨_, rfl, (ht _).trans (ht _).symm, rfl⟩

theorem read_allocateZeroed {size : Word} {b : Address}
    (h : (s.allocateZeroed size).run m₀ = .ok (some b) m) :
    m.memory.read b.word.toNat (s.grid.needed size * s.blockSize.toNat) =
      List.replicate (s.grid.needed size * s.blockSize.toNat) 0 := by
  rw [run_allocateZeroed] at h
  cases hr : (Recorded.malloc s.grid size).run ⟨s.table m₀, m₀.journal⟩ with
  | ok a r =>
    rw [hr] at h
    cases h
    exact Memory.read_fill _ _ _ _
  | error e r =>
    rw [hr] at h
    cases e <;> cases h

end Arena

namespace Session

variable {s s' t : Session} {l : Ledger}

/-- Two sessions tell the same in every way but by the bytes of their blocks, and blocks that are handed
out cleared have the same bytes in both. -/
structure Indistinct (s s' : Session) : Prop where
  leases : s'.leases = s.leases
  journal : s'.machine.journal = s.machine.journal
  table : s'.arena.table s'.machine = s.arena.table s.machine
  cleared : ∀ size b t, (perform (.allocateZeroed size)).run s = .ok (.address (some b)) t →
    ∃ n t', s.arena.grid.lengthAt (s.arena.table t.machine) b = .ok n ∧
      (perform (.allocateZeroed size)).run s' = .ok (.address (some b)) t' ∧
      ∀ m ∈ [t.machine, t'.machine], m.memory.read b.word.toNat (n * s.arena.blockSize.toNat) =
        List.replicate (n * s.arena.blockSize.toNat) 0

theorem exists_of_run_allocateZeroed {size : Word} {o : Option Address}
    (h : (perform (.allocateZeroed size)).run s = .ok (.address o) t) :
    (s.arena.allocateZeroed size).run s.machine = .ok o t.machine := by
  rw [perform, run_served fun a => a.allocateZeroed size] at h
  cases hr : (s.arena.allocateZeroed size).run s.machine with
  | ok o' m =>
    rw [hr] at h
    cases h
    rfl
  | error e m =>
    rw [hr] at h
    cases h

theorem lengthAt_allocateZeroed (h : Sound s l) {size : Word} {b : Address} {m : Machine}
    (hr : (s.arena.allocateZeroed size).run s.machine = .ok (some b) m) :
    s.arena.grid.lengthAt (s.arena.table m) b = .ok (s.arena.grid.needed size) := by
  have ho := Arena.took_allocateZeroed h.laid h.apart h.agrees size
  rw [hr] at ho
  cases ho with
  | taken hm => exact (hm none).lengthAt List.mem_cons_self

theorem Sound.indistinct (h : Sound s l) {a : Arena} (hd : a.heapExtent.overlaps a.tableExtent = false)
    (hk : (a.blind hd).Sessions s s') : Indistinct s s' := by
  obtain rfl := hk.arena
  refine ⟨hk.leases, hk.machine.journal.symm, ?_, fun size b t ht => ?_⟩
  · rw [hk.arena']
    exact hk.machine.memory
  · have ho := hk.perform h.laid (.same (.allocateZeroed size))
    rw [ht] at ho
    have hs := exists_of_run_allocateZeroed ht
    generalize ht' : (perform (.allocateZeroed size)).run s' = y at ho
    cases ho with
    | @ok _ r _ t' hr =>
      cases hr with
      | same =>
        have hs' := exists_of_run_allocateZeroed ht'
        rw [hk.arena'] at hs'
        refine ⟨_, t', lengthAt_allocateZeroed h hs, rfl, ?_⟩
        rw [List.forall_mem_cons, List.forall_mem_singleton]
        exact ⟨Arena.read_allocateZeroed hs, Arena.read_allocateZeroed hs'⟩

/-- A heap that lies apart from its table never shows what memory held before it was set up, nor what
bytes are written into its blocks: at every point of a run all else is the same. -/
theorem contents_unseen {p : Placement} {m₀ m : Machine} {a : Arena}
    (h : (Arena.init p).run m₀ = .ok a m) (hd : p.heapExtent.overlaps p.tableExtent = false)
    (w : Memory) :
    ∃ m', (Arena.init p).run { m₀ with memory := w } = .ok a m' ∧
      ∀ qs qs', qs'.map Request.redacted = qs.map Request.redacted →
        (run qs' ⟨a, m', []⟩).1.map (Except.map Reply.redacted) =
            (run qs ⟨a, m, []⟩).1.map (Except.map Reply.redacted) ∧
          Indistinct (run qs ⟨a, m, []⟩).2 (run qs' ⟨a, m', []⟩).2 := by
  obtain ⟨m', h', ht, hj⟩ := Arena.exists_init_of_memory h w
  have hs := sound_init h hd
  obtain ⟨rfl, -, -⟩ := Arena.init_eq_ok h
  refine ⟨m', h', fun qs qs' hq => ?_⟩
  have hk : (a.blind hd).Sessions ⟨a, m, []⟩ ⟨a, m', []⟩ := Likeness.Machines.sessions ⟨ht, hj.symm⟩
  obtain ⟨ha, hk⟩ := hk.run hs.laid (fun _ _ => Reply.redacted_eq) (fun _ _ => Request.like_of_redacted) hq
  exact ⟨ha, (hs.run qs).indistinct hd hk⟩

theorem contents_unseen_reused :
    let p : Placement := ⟨0x42000000, 0x2000, 0x41000000, 4096⟩
    let a : Arena := ⟨p, by decide⟩
    let m₀ : Machine := ⟨Memory.blank, 0, ⟨some .trace, (Board.console Board.serialBase).start, []⟩⟩
    let w := (Memory.blank.fill 0x41000000 2 0xC1).fill 0x42000000 0x2000 0xFF
    let m := reached ((Arena.init p).run m₀)
    let m' := reached ((Arena.init p).run { m₀ with memory := w })
    let qs : List Request := [.lease 1, .write 0 5 0x5A, .read 0, .drop 0, .allocateZeroed 1, .lease 1]
    let qs' : List Request := [.lease 1, .write 0 5 0xA5, .read 0, .drop 0, .allocateZeroed 1, .lease 1]
    (Arena.init p).run m₀ = .ok a m ∧ qs'.map Request.redacted = qs.map Request.redacted ∧
      (run qs ⟨a, m, []⟩).1[2]?.bind Except.toOption =
        some (.bytes [⟨0, 5⟩, ⟨0x5A, 1⟩, ⟨0, 4090⟩]) ∧
      (run qs' ⟨a, m', []⟩).1[2]?.bind Except.toOption =
        some (.bytes [⟨0xFF, 5⟩, ⟨0xA5, 1⟩, ⟨0xFF, 4090⟩]) ∧
      Indistinct (run qs ⟨a, m, []⟩).2 (run qs' ⟨a, m', []⟩).2 := by
  intro p a m₀ w m m' qs qs'
  have h : (Arena.init p).run m₀ = .ok a m := Arena.init_of_starts (by decide +kernel) a.2
  have hq : qs'.map Request.redacted = qs.map Request.redacted := by decide
  obtain ⟨m'', h', hrun⟩ := contents_unseen h (by decide) w
  have hm : m' = m'' := congrArg reached h'
  exact ⟨h, hq, by decide +kernel, by decide +kernel, hm ▸ (hrun qs qs' hq).2⟩

end Session

end PhysicalHeap
