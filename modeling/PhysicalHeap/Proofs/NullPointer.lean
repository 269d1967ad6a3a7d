import PhysicalHeap.Proofs.Addressing
import PhysicalHeap.Proofs.FreeingOrder
import PhysicalHeap.Proofs.Isolation

namespace PhysicalHeap

open Step Machine

theorem Grid.needed_one (g : Grid) : g.needed 1 = 1 := by
  have hb := g.blockSize_pos
  change (1 + (g.blockSize.toNat - 1)) / g.blockSize.toNat = 1
  rw [Nat.add_sub_cancel' hb, Nat.div_self hb]

theorem Ledger.Matches.findRun_of_empty {g : Grid} {t : Table} (h : Ledger.Matches g t []) {n : Nat}
    (hn : n ≠ 0) (hl : n ≤ t.length) : t.findRun n = .ok 0 := by
  have hall := h.freed_all (List.Perm.refl [])
  rw [Grid.freed_nil] at hall
  have ht : t.clear = t := by
    rw [Table.clear, List.map_const']
    exact hall.symm
  rw [← ht]
  exact Table.findRun_clear hn hl

namespace Arena

variable {s : Arena} {m : Machine} {size : Word}

def Refuses (s : Arena) (size : Word) (m : Machine) : Prop :=
  ∃ e r, (Recorded.malloc s.grid size).run ⟨s.table m, m.journal⟩ = .error (.refused e) r

theorem refuses_iff (hs : s.Laid) :
    s.Refuses size m ↔ ∀ k, (s.table m).findRun (s.grid.needed size) ≠ .ok k := by
  have ho := Recorded.answered_malloc (r := ⟨s.table m, m.journal⟩) (hs.place_lt m) size
  rw [Refuses]
  generalize (Recorded.malloc s.grid size).run ⟨s.table m, m.journal⟩ = o at ho ⊢
  cases ho with
  | refused hf => exact ⟨fun _ => hf, fun _ => ⟨_, _, rfl⟩⟩
  | wide hf => exact ⟨fun ⟨_, _, h⟩ => (by cases h), fun h => absurd hf (h _)⟩
  | taken hf => exact ⟨fun ⟨_, _, h⟩ => (by cases h), fun h => absurd hf (h _)⟩

theorem allocateRaw_eq_null (hs : s.Laid) :
    (∃ m', (s.allocateRaw size).run m = .ok Address.null.word m') ↔
      s.Refuses size m ∨
        s.base = 0 ∧ (s.table m).findRun (s.grid.needed size) = .ok 0 := by
  have ho := Recorded.answered_malloc (r := ⟨s.table m, m.journal⟩) (hs.place_lt m) size
  rw [refuses_iff hs, run_allocateRaw, run_allocate]
  generalize (Recorded.malloc s.grid size).run ⟨s.table m, m.journal⟩ = o at ho ⊢
  cases ho with
  | refused hf => exact ⟨fun _ => Or.inl hf, fun _ => ⟨_, rfl⟩⟩
  | @wide k hf hw =>
    refine ⟨fun ⟨_, h⟩ => (by cases h), fun h => ?_⟩
    obtain h | ⟨hb, h0⟩ := h
    · exact absurd hf (h k)
    · -- the first block of a heap at address zero has an address
      cases hf.symm.trans h0
      rw [Grid.place_zero] at hw
      change _ ≤ s.base.toNat at hw
      rw [hb] at hw
      exact absurd hw (by decide)
  | @taken k a t hf ha ht =>
    have hnull : a.word = 0 ↔ s.base = 0 ∧ k = 0 := by
      have hb := s.grid.blockSize_pos
      rw [← UInt64.toNat_inj, ← UInt64.toNat_inj (a := s.base), ha, Grid.place]
      change s.base.toNat + k * _ = 0 ↔ s.base.toNat = 0 ∧ k = 0
      rw [Nat.add_eq_zero_iff, Nat.mul_eq_zero]
      simp only [Nat.ne_of_gt hb, or_false]
    constructor
    · rintro ⟨m', h⟩
      injection h with hw
      obtain ⟨hbase, rfl⟩ := hnull.1 hw
      exact Or.inr ⟨hbase, hf⟩
    · rintro (h | ⟨hbase, h0⟩)
      · exact absurd hf (h k)
      · cases hf.symm.trans h0
        have hw := hnull.2 ⟨hbase, rfl⟩
        exact ⟨_, congrArg (fun w => EStateM.Result.ok w _) hw⟩

theorem table_of_refuses (hs : s.Laid) (h : s.Refuses size m) :
    s.table (reached ((s.allocateRaw size).run m)) = s.table m := by
  have ho := Recorded.answered_malloc (r := ⟨s.table m, m.journal⟩) (hs.place_lt m) size
  obtain ⟨e, r, hr⟩ := h
  rw [run_allocateRaw, run_allocate, hr]
  rw [hr] at ho
  cases ho
  exact table_store (s.length_table m)

end Arena

namespace Session

variable {s : Session} {size : Word}

theorem run_perform_allocateRaw (s : Session) (size : Word) :
    (perform (.allocateRaw size)).run s = match (s.arena.allocateRaw size).run s.machine with
      | .ok w m => .ok (.pointer w) { s with machine := m }
      | .error e m => .error e { s with machine := m } := by
  simp only [perform, EStateM.run_bind, EStateM.run_get, run_onMachine]
  cases (s.arena.allocateRaw size).run s.machine with
  | ok w m => rfl
  | error e m => rfl

/-- A null pointer is answered exactly to a request that was refused and changed nothing. -/
def NullTells (s : Session) (size : Word) : Prop :=
  (∃ s', (perform (.allocateRaw size)).run s = .ok (.pointer Address.null.word) s') ↔
    s.arena.Refuses size s.machine ∧
      s.arena.table (s.after (.allocateRaw size)).machine = s.arena.table s.machine

theorem answers_null_iff (hs : s.arena.Laid) (size : Word) :
    (∃ s', (perform (.allocateRaw size)).run s = .ok (.pointer Address.null.word) s') ↔
      s.arena.Refuses size s.machine ∨
        s.arena.base = 0 ∧
          (s.arena.table s.machine).findRun (s.arena.grid.needed size) = .ok 0 := by
  rw [← Arena.allocateRaw_eq_null hs, run_perform_allocateRaw]
  cases (s.arena.allocateRaw size).run s.machine with
  | error e m => exact ⟨fun ⟨_, h⟩ => (by cases h), fun ⟨_, h⟩ => (by cases h)⟩
  | ok w m =>
    constructor
    · rintro ⟨s', h⟩
      injection h with hw
      injection hw with hw
      exact ⟨m, by rw [hw]⟩
    · rintro ⟨m', h⟩
      injection h with hw
      exact ⟨_, by rw [hw]⟩

theorem table_after_refused (hs : s.arena.Laid) (h : s.arena.Refuses size s.machine) :
    s.arena.table (s.after (.allocateRaw size)).machine = s.arena.table s.machine := by
  rw [after_allocateRaw]
  exact Arena.table_of_refuses hs h

theorem answers_null_first {p : Placement} {m₀ m : Machine} {a : Arena}
    (h : (Arena.init p).run m₀ = .ok a m) (hb : p.base = 0) (ht : 0 < p.total) :
    (∃ s', (perform (.allocateRaw 1)).run ⟨a, m, []⟩ = .ok (.pointer Address.null.word) s') ∧
      ¬ a.Refuses 1 m := by
  obtain ⟨rfl, hlaid, hm⟩ := Arena.init_eq_ok h
  have hf : (a.table m).findRun (a.grid.needed 1) = .ok 0 := by
    rw [Grid.needed_one]
    exact hm.findRun_of_empty Nat.one_ne_zero (by rwa [Arena.length_table])
  exact ⟨(answers_null_iff (s := ⟨a, m, []⟩) hlaid 1).2 (Or.inr ⟨hb, hf⟩),
    fun hr => (Arena.refuses_iff hlaid).1 hr 0 hf⟩

/-- A null pointer tells that nothing was taken, at every point of every run, unless the heap has a block
at address zero: to the request that gets that block, a null pointer is answered as well. -/
theorem null_tells_iff {p : Placement} {m₀ m : Machine} {a : Arena}
    (h : (Arena.init p).run m₀ = .ok a m) :
    ((∀ qs size, NullTells (run qs ⟨a, m, []⟩).2 size) ↔ p.base ≠ 0 ∨ p.total = 0) ∧
    ∀ qs size, let s := (run qs ⟨a, m, []⟩).2
      ((∃ s', (perform (.allocateRaw size)).run s = .ok (.pointer Address.null.word) s') ↔
        s.arena.Refuses size s.machine ∨
          p.base = 0 ∧ (s.arena.table s.machine).findRun (s.arena.grid.needed size) = .ok 0) ∧
      (s.arena.Refuses size s.machine →
        s.arena.table (s.after (.allocateRaw size)).machine = s.arena.table s.machine) := by
  have hfirst := answers_null_first h
  obtain ⟨rfl, hlaid, -⟩ := Arena.init_eq_ok h
  have harena : ∀ qs, (run qs ⟨a, m, []⟩).2.arena = a := fun qs => arena_run qs _
  have hanswer : ∀ qs size, let s := (run qs ⟨a, m, []⟩).2
      ((∃ s', (perform (.allocateRaw size)).run s = .ok (.pointer Address.null.word) s') ↔
        s.arena.Refuses size s.machine ∨
          a.base = 0 ∧ (s.arena.table s.machine).findRun (s.arena.grid.needed size) = .ok 0) ∧
      (s.arena.Refuses size s.machine →
        s.arena.table (s.after (.allocateRaw size)).machine = s.arena.table s.machine) := by
    intro qs size s
    have hs : s.arena.Laid := by
      rw [harena qs]
      exact hlaid
    have hnull := answers_null_iff hs size
    rw [show s.arena.base = a.base from congrArg (fun a => a.base) (harena qs)] at hnull
    exact ⟨hnull, table_after_refused hs⟩
  refine ⟨⟨fun hall => ?_, fun hp qs size => ⟨fun hnull => ?_, fun hr => ?_⟩⟩, hanswer⟩
  · by_cases hb : a.base = 0
    · refine Or.inr (Nat.eq_zero_of_not_pos fun ht => ?_)
      obtain ⟨hnull, hr⟩ := hfirst hb ht
      exact hr ((hall [] 1).1 hnull).1
    · exact Or.inl hb
  · obtain hr | ⟨hb, hf⟩ := (hanswer qs size).1.1 hnull
    · exact ⟨hr, (hanswer qs size).2 hr⟩
    · have hl := Table.le_length_of_findRun hf
      have hn := (Table.findRun_eq_ok hf).1
      rw [Arena.length_table, congrArg (fun a => a.total) (harena qs)] at hl
      obtain hp | hp := hp
      · exact absurd hb hp
      · omega
  · exact (hanswer qs size).1.2 (Or.inl hr.1)

theorem null_tells_iff_block_at_zero :
    let p : Placement := ⟨0, 0x1000, 0x41000000, 4096⟩
    let a : Arena := ⟨p, by decide⟩
    let m := reached ((Arena.init p).run Board.machine)
    let s : Session := (run [.allocateRaw 1] ⟨a, m, []⟩).2
    (Arena.init p).run Board.machine = .ok a m ∧
      (∃ s', (perform (.allocateRaw 1)).run ⟨a, m, []⟩ = .ok (.pointer Address.null.word) s') ∧
      a.table m = [0x00] ∧ s.arena.table s.machine = [0x41] ∧
      (∃ s', (perform (.allocateRaw 1)).run s = .ok (.pointer Address.null.word) s') ∧
      ¬ ∀ qs size, NullTells (run qs ⟨a, m, []⟩).2 size := by
  intro p a m s
  have h : (Arena.init p).run Board.machine = .ok a m := Arena.init_of_starts (by decide +kernel) a.2
  obtain ⟨hiff, hanswer⟩ := null_tells_iff h
  have ht : s.arena.table s.machine = [0x41] := by decide +kernel
  have hlaid : s.arena.Laid := by
    rw [arena_run]
    exact (Arena.init_eq_ok h).2.1
  have hnone : s.arena.Refuses 1 s.machine := by
    refine (Arena.refuses_iff hlaid).2 fun k hk => ?_
    rw [Grid.needed_one, ht] at hk
    have hfull : Table.findRun [0x41] 1 = refuse .exhausted := by cbv
    cases hfull.symm.trans hk
  refine ⟨h, ?_, by decide +kernel, ht, ?_, fun hall => ?_⟩
  · exact (answers_null_first h rfl (by decide +kernel)).1
  · exact (hanswer [.allocateRaw 1] 1).1.2 (Or.inl hnone)
  · obtain hb | ht := hiff.1 hall
    · exact hb rfl
    · exact absurd ht (by decide)

end Session

end PhysicalHeap
