import PhysicalHeap.Arena
import PhysicalHeap.Proofs.GivingBack

namespace PhysicalHeap

open Step Machine

theorem Memory.read_write (m : Memory) (start : Nat) (bytes : List UInt8) :
    (m.write start bytes).read start bytes.length = bytes := by
  ext i : 1
  rw [getElem?_read]
  by_cases hi : i < bytes.length
  · rw [if_pos hi, byteAt_write, if_pos ⟨Nat.le_add_right _ _, Nat.add_lt_add_left hi _⟩,
      Nat.add_sub_cancel_left, List.getElem?_eq_getElem hi, Option.getD_some]
  · rw [if_neg hi, List.getElem?_eq_none (Nat.le_of_not_lt hi)]

theorem Memory.byteAt_write_read (m : Memory) (start n p : Nat) :
    (m.write start (m.read start n)).byteAt p = m.byteAt p := by
  rw [byteAt_write, length_read]
  by_cases hp : start ≤ p ∧ p < start + n
  · rw [if_pos hp, getElem?_read, if_pos (by omega), Option.getD_some, Nat.add_sub_cancel' hp.1]
  · rw [if_neg hp]

theorem Memory.read_congr {m m' : Memory} {start n : Nat}
    (h : ∀ p, start ≤ p → p < start + n → m'.byteAt p = m.byteAt p) :
    m'.read start n = m.read start n := by
  ext i : 1
  rw [getElem?_read, getElem?_read]
  by_cases hi : i < n
  · rw [if_pos hi, if_pos hi, h _ (Nat.le_add_right _ _) (Nat.add_lt_add_left hi _)]
  · rw [if_neg hi, if_neg hi]

theorem Memory.read_fill (m : Memory) (start n : Nat) (b : UInt8) :
    (m.fill start n b).read start n = List.replicate n b := by
  ext i : 1
  rw [getElem?_read, List.getElem?_replicate]
  by_cases hi : i < n
  · rw [if_pos hi, if_pos hi, byteAt_fill, if_pos ⟨Nat.le_add_right _ _, Nat.add_lt_add_left hi _⟩]
  · rw [if_neg hi, if_neg hi]

theorem Scrub.byteAt_extent (x : Extent) (m : Memory) (p : Nat) :
    (Scrub.extent x m).byteAt p = if p ∈ x then 0 else m.byteAt p :=
  Memory.byteAt_fill _ _ _ _ _

theorem Placement.stop_eq_ok {p : Placement} {a : Address} (h : p.stop = .ok a) :
    a.word.toNat = p.heapExtent.stop := by
  rw [stop] at h
  cases hb : Address.ofWord p.base with
  | error e =>
    rw [hb] at h
    cases h
  | ok b =>
    obtain ⟨hw, -⟩ := Address.ofWord_eq_ok.1 hb
    cases ha : b.add? p.size with
    | none =>
      simp only [hb, bind, Except.bind, ha] at h
      cases h
    | some c =>
      simp only [hb, bind, Except.bind, ha] at h
      cases h
      rw [Address.add?_eq_some.1 ha, hw]
      rfl

namespace Machine

def SameBytes (m m' : Machine) : Prop := ∀ p, m'.memory.byteAt p = m.memory.byteAt p

end Machine

namespace Arena

variable {α : Type} {s : Arena} {m m' : Machine} {l : Ledger}

/-- The machine after a table and a journal have been put back. -/
def store (s : Arena) (r : Recorded) (m : Machine) : Machine :=
  { m with memory := m.memory.write s.tableBase.toNat r.table, journal := r.journal }

theorem length_table (s : Arena) (m : Machine) : (s.table m).length = s.total :=
  Memory.length_read _ _ _

theorem table_store {r : Recorded} (h : r.table.length = s.total) : s.table (s.store r m) = r.table := by
  rw [table, ← h]
  exact Memory.read_write _ _ _

theorem byteAt_store {r : Recorded} (h : r.table.length = s.total) {p : Nat} (hp : p ∉ s.tableExtent) :
    (s.store r m).memory.byteAt p = m.memory.byteAt p := by
  change (m.memory.write s.tableBase.toNat r.table).byteAt p = _
  rw [Memory.byteAt_write, h, if_neg]
  exact hp

theorem sameBytes_store {j : Journal} : SameBytes m (s.store ⟨s.table m, j⟩ m) :=
  fun p => Memory.byteAt_write_read _ _ _ p

theorem table_congr (h : ∀ p ∈ s.tableExtent, m'.memory.byteAt p = m.memory.byteAt p) :
    s.table m' = s.table m :=
  Memory.read_congr fun p h₀ h₁ => h p ⟨h₀, h₁⟩

theorem run_onTable (s : Arena) (f : Step Recorded α) (m : Machine) :
    (s.onTable f).run m = match f.run ⟨s.table m, m.journal⟩ with
      | .ok a r => .ok a (s.store r m)
      | .error e r => .error e (s.store r m) := by
  rw [onTable, run_focus]
  cases f.run ⟨s.table m, m.journal⟩ with
  | ok a r => rfl
  | error e r => rfl

theorem run_critical (s : Arena) (f : Step Recorded α) (m : Machine) :
    (s.critical f).run m = match f.run ⟨s.table m, m.journal⟩ with
      | .ok a r => .ok a (s.store r m)
      | .error e r => .error e (s.store r m) := by
  have hunmask : ∀ r, (s.store r m.mask).unmask = s.store r m := by
    intro r
    have hmasks : m.masks + 1 - 1 = m.masks := UInt64.add_sub_cancel _ _
    rw [unmask, store, store, mask, hmasks]
  have hf : f.run ⟨s.table m.mask, m.mask.journal⟩ = f.run ⟨s.table m, m.journal⟩ := rfl
  rw [critical, run_masked, run_onTable, hf]
  cases f.run ⟨s.table m, m.journal⟩ with
  | ok a r => exact congrArg (EStateM.Result.ok a) (hunmask r)
  | error e r => exact congrArg (EStateM.Result.error e) (hunmask r)

theorem run_allocate (s : Arena) (size : Word) (m : Machine) :
    (s.allocate size).run m = match (Recorded.malloc s.grid size).run ⟨s.table m, m.journal⟩ with
      | .ok a r => .ok (some a) (s.store r m)
      | .error (.refused e) r =>
        .ok none { s.store r m with journal := r.journal.record (.noRoom size e) }
      | .error (.halted f) r => .error (.halted f) (s.store r m) := by
  simp only [allocate, EStateM.run_bind, run_attempt, run_critical]
  cases (Recorded.malloc s.grid size).run ⟨s.table m, m.journal⟩ with
  | ok a r => rfl
  | error e r =>
    cases e with
    | refused e => rfl
    | halted f => rfl

theorem run_allocateRaw (s : Arena) (size : Word) (m : Machine) :
    (s.allocateRaw size).run m = match (s.allocate size).run m with
      | .ok a m' => .ok (a.getD Address.null).word m'
      | .error e m' => .error e m' := by
  simp only [allocateRaw, EStateM.run_bind]
  cases (s.allocate size).run m with
  | ok a m' =>
    cases a with
    | none => rfl
    | some a => rfl
  | error e m' => rfl

theorem run_allocateZeroed (s : Arena) (size : Word) (m : Machine) :
    (s.allocateZeroed size).run m =
      match (Recorded.malloc s.grid size).run ⟨s.table m, m.journal⟩ with
      | .ok a r => .ok (some a) { s.store r m with
          memory := Scrub.extent (Allocation.extent s.grid ⟨a, s.grid.needed size, none⟩)
            (s.store r m).memory }
      | .error (.refused e) r =>
        .ok none { s.store r m with journal := r.journal.record (.noRoomZeroed size e) }
      | .error (.halted f) r => .error (.halted f) (s.store r m) := by
  simp only [allocateZeroed, EStateM.run_bind, run_attempt, run_judged, run_critical]
  cases hn : s.grid.roundUp size with
  | error e =>
    rw [Recorded.run_malloc, Grid.blocksFor_eq_error hn, Grid.roundUp_eq_error hn]
    rfl
  | ok n =>
    dsimp only
    cases (Recorded.malloc s.grid size).run ⟨s.table m, m.journal⟩ with
    | ok a r =>
      have hx : Allocation.extent s.grid ⟨a, s.grid.needed size, none⟩ = ⟨a.word.toNat, n.toNat⟩ := by
        rw [Grid.roundUp_eq_ok.1 hn]
        rfl
      dsimp only
      rw [hx]
      rfl
    | error e r =>
      cases e with
      | refused e => rfl
      | halted f => rfl

theorem run_release (s : Arena) (a : Address) (m : Machine) :
    (s.release a).run m = match (Recorded.free s.grid a).run ⟨s.table m, m.journal⟩ with
      | .ok () r => .ok () (s.store r m)
      | .error (.refused e) r => .error (.refused e)
          { s.store r m with journal := r.journal.record (.notReleased a e) }
      | .error (.halted f) r => .error (.halted f) (s.store r m) := by
  simp only [release, EStateM.run_bind, run_attempt, run_critical]
  cases (Recorded.free s.grid a).run ⟨s.table m, m.journal⟩ with
  | ok u r => rfl
  | error e r =>
    cases e with
    | refused e => rfl
    | halted f => rfl

/-- A pointer of at most 48 bits is released as an address, and a refusal becomes a status code. Any other
pointer stops the computation before the table is looked at. -/
theorem run_releaseRaw (s : Arena) (pointer : Word) (m : Machine) :
    (s.releaseRaw pointer).run m = match Address.ofWord pointer with
      | .error e => .error e m
      | .ok a => match (s.release a).run m with
        | .ok () m' => .ok 0 m'
        | .error (.refused e) m' => .ok e.status m'
        | .error (.halted f) m' => .error (.halted f) m' := by
  simp only [releaseRaw, EStateM.run_bind, run_attempt, run_judged]
  cases Address.ofWord pointer with
  | error e => rfl
  | ok a =>
    dsimp only
    cases (s.release a).run m with
    | ok _ m' => rfl
    | error e m' =>
      cases e with
      | refused e => rfl
      | halted f => rfl

/-- The blocks of the heap are all of its bytes, and do not reach past the last address. -/
structure Laid (s : Arena) : Prop where
  ends : s.grid.place s.total = s.heapExtent.stop
  fits : s.heapExtent.stop < Word.range

theorem Laid.place_lt (h : s.Laid) (m : Machine) : s.grid.place (s.table m).length < Word.range := by
  rw [length_table, h.ends]
  exact h.fits

theorem Laid.within (h : s.Laid) (hm : l.Matches s.grid (s.table m)) {x : Allocation} (hx : x ∈ l) :
    (x.extent s.grid).isWithin s.heapExtent = true := by
  obtain ⟨hlo, -, hhi⟩ := hm.within hx
  rw [Grid.place_zero] at hlo
  rw [length_table, h.ends] at hhi
  exact Extent.isWithin_iff.2 ⟨hlo, hhi⟩

/-- How taking `n` blocks ends: with an allocation that is new to the ledger, or with memory as it
was. -/
inductive Took (s : Arena) (m : Machine) (l : Ledger) (n : Nat) :
    EStateM.Result Failure Machine (Option Address) → Prop where
  | halted {f : Fault} {m' : Machine} (hb : SameBytes m m') : Took s m l n (.error (.halted f) m')
  | refused {m' : Machine} (hb : SameBytes m m') : Took s m l n (.ok none m')
  | taken {a : Address} {m' : Machine}
    (hm : ∀ i, Ledger.Matches s.grid (s.table m') (⟨a, n, i⟩ :: l))
    (hlt : a.word.toNat < Address.limit.toNat)
    (hb : ∀ p, p ∉ s.tableExtent → p ∉ Allocation.extent s.grid ⟨a, n, none⟩ →
      m'.memory.byteAt p = m.memory.byteAt p) : Took s m l n (.ok (some a) m')

theorem took_allocate (hs : s.Laid) (h : l.Matches s.grid (s.table m)) (size : Word) :
    Took s m l (s.grid.needed size) ((s.allocate size).run m) := by
  have ho := Recorded.took_malloc (r := ⟨s.table m, m.journal⟩) h (hs.place_lt m) size
  rw [run_allocate]
  generalize (Recorded.malloc s.grid size).run ⟨s.table m, m.journal⟩ = o at ho ⊢
  cases ho with
  | failed e =>
    cases e with
    | refused r => exact .refused sameBytes_store
    | halted f => exact .halted sameBytes_store
  | @taken a r hm hl hlt =>
    have hr : r.table.length = s.total := hl.trans (s.length_table m)
    refine .taken (fun i => ?_) hlt fun p hp _ => byteAt_store hr hp
    rw [table_store hr]
    exact hm i

theorem read_table_fill (hd : s.heapExtent.overlaps s.tableExtent = false) {x : Extent}
    (hx : x.isWithin s.heapExtent = true) (mem : Memory) (b : UInt8) :
    (mem.fill x.start x.length b).read s.tableBase.toNat s.total =
      mem.read s.tableBase.toNat s.total := by
  refine Memory.read_congr fun p h₀ h₁ => ?_
  rw [Memory.byteAt_fill, if_neg]
  intro hp
  exact Extent.not_mem_of_not_overlaps hd (Extent.mem_of_isWithin hx hp) ⟨h₀, h₁⟩

theorem table_scrub (hd : s.heapExtent.overlaps s.tableExtent = false) {x : Extent}
    (hx : x.isWithin s.heapExtent = true) (m : Machine) :
    s.table { m with memory := Scrub.extent x m.memory } = s.table m :=
  read_table_fill hd hx m.memory 0

theorem took_allocateZeroed (hs : s.Laid) (hd : s.heapExtent.overlaps s.tableExtent = false)
    (h : l.Matches s.grid (s.table m)) (size : Word) :
    Took s m l (s.grid.needed size) ((s.allocateZeroed size).run m) := by
  have ho := Recorded.took_malloc (r := ⟨s.table m, m.journal⟩) h (hs.place_lt m) size
  rw [run_allocateZeroed]
  generalize (Recorded.malloc s.grid size).run ⟨s.table m, m.journal⟩ = o at ho ⊢
  cases ho with
  | failed e =>
    cases e with
    | refused r => exact .refused sameBytes_store
    | halted f => exact .halted sameBytes_store
  | @taken a r hm hl hlt =>
    have hr : r.table.length = s.total := hl.trans (s.length_table m)
    have ht : s.table (s.store r m) = r.table := table_store hr
    have hin := hs.within (m := s.store r m) (ht ▸ hm none) List.mem_cons_self
    have hscrub := table_scrub hd hin (s.store r m)
    refine .taken (fun i => ?_) hlt fun p hp hpx => ?_
    · rw [hscrub, ht]
      exact hm i
    · exact ((Scrub.byteAt_extent _ _ p).trans (if_neg hpx)).trans (byteAt_store hr hp)

/-- How giving back what lies at `a` ends: the blocks are freed and taken out of the ledger, or
nothing starts there and memory stays as it was. -/
inductive Gave (s : Arena) (m : Machine) (l : Ledger) :
    Address → EStateM.Result Failure Machine Unit → Prop where
  | refused {a : Address} {r : Refusal} {m' : Machine} (hno : ∀ x ∈ l, x.address ≠ a)
    (hb : SameBytes m m') : Gave s m l a (.error (.refused r) m')
  | given {x : Allocation} {k : Nat} {m' : Machine} (hx : x ∈ l)
    (hk : x.address.word.toNat = s.grid.place k) (hl : k + x.length ≤ s.total)
    (ht : s.table m' = (s.table m).cleared k x.length)
    (hm : Ledger.Matches s.grid (s.table m') (l.without x.address.word.toNat))
    (hb : ∀ p, p ∉ s.tableExtent → m'.memory.byteAt p = m.memory.byteAt p) :
    Gave s m l x.address (.ok () m')

theorem gave_release (h : l.Matches s.grid (s.table m)) (a : Address) :
    Gave s m l a ((s.release a).run m) := by
  have hok := h.free_eq_ok a
  have ho := h.released_free a
  simp only [release, EStateM.run_bind, run_attempt, run_critical, Recorded.run_free]
  generalize hp : a.word.toNat = p at ho
  generalize (s.grid.free a).run (s.table m) = o at ho hok ⊢
  have hno : ∀ e t, o = .error e t → ∀ x ∈ l, x.address ≠ a := by
    intro e t he x hx ha
    obtain ⟨n, t', hr⟩ := hok.2 ⟨x, hx, ha⟩
    rw [he] at hr
    cases hr
  cases ho with
  | foreign | free | inside => exact .refused (hno _ _ rfl) sameBytes_store
  | @head x k hx hk hl hm =>
    obtain rfl : a = x.address := Address.toNat_inj hp
    rw [length_table] at hl
    have hlen : (Table.cleared (s.table m) k x.length).length = s.total := by
      rw [Table.length_cleared (by rwa [length_table]), length_table]
    refine .given hx hk hl (table_store hlen) ?_ fun p hp => byteAt_store hlen hp
    rw [table_store hlen]
    exact hm

theorem run_lengthAt (s : Arena) (a : Address) (m : Machine) :
    (s.lengthAt a).run m = match s.grid.lengthAt (s.table m) a with
      | .ok n => .ok n (s.store ⟨s.table m, m.journal⟩ m)
      | .error e => .error e (s.store ⟨s.table m, m.journal⟩ m) := by
  simp only [lengthAt, run_critical, EStateM.run_bind, EStateM.run_get]
  cases s.grid.lengthAt (s.table m) a with
  | ok n => rfl
  | error e => rfl

theorem run_stats (s : Arena) (m : Machine) :
    s.stats.run m = .ok (s.grid.stats (s.table m)) (s.store ⟨s.table m, m.journal⟩ m) := by
  rw [stats, run_critical]
  rfl

theorem run_init_of_eq_zero {p : Placement} (h : p.blockSize = 0) (m : Machine) :
    (init p).run m = .error (.refused .zeroBlock) m := by
  rw [init, dif_pos h]
  rfl

theorem run_init (s : Arena) (m : Machine) :
    (init s.toPlacement).run m = match s.toPlacement.stop with
      | .error e => .error e m
      | .ok stop =>
        match (Recorded.create ⟨s.base⟩ stop s.blockSize).run ⟨s.table m, m.journal⟩ with
        | .error (.refused e) r => .error (.refused e)
            { s.store r m with journal := r.journal.record (.notReady e) }
        | .error (.halted f) r => .error (.halted f) (s.store r m)
        | .ok g r =>
          if r.journal.admits .info then
            match g.stop (s.table (s.store r m)) with
            | .ok end_ => .ok s { s.store r m with
                journal := r.journal.record (.ready g.base end_ s.total s.blockSize s.tableBase) }
            | .error e => .error e (s.store r m)
          else .ok s (s.store r m) := by
  rw [init, dif_neg s.blockSize_ne]
  cases s.toPlacement.stop with
  | error e => rfl
  | ok stop =>
    simp only [EStateM.run_bind, run_judged, run_attempt, run_onTable]
    cases (Recorded.create ⟨s.base⟩ stop s.blockSize).run ⟨s.table m, m.journal⟩ with
    | error e r =>
      cases e with
      | refused e => rfl
      | halted f => rfl
    | ok g r =>
      simp only [EStateM.run_bind, EStateM.run_get]
      change (ite (r.journal.admits .info = true) _ _ : Step Machine Arena).run _ = _
      by_cases hi : r.journal.admits .info = true
      · rw [if_pos hi, if_pos hi]
        cases g.stop (s.table (s.store r m)) with
        | error e => rfl
        | ok end_ => rfl
      · rw [if_neg hi, if_neg hi]
        rfl

theorem exists_create_of_init {p : Placement} {m₀ : Machine} (h : (init p).run m₀ = .ok s m) :
    ∃ stop r, s.toPlacement = p ∧ p.stop = .ok stop ∧
      (Recorded.create ⟨p.base⟩ stop p.blockSize).run ⟨s.table m₀, m₀.journal⟩ = .ok s.grid r ∧
      m.memory = (s.store r m₀).memory := by
  by_cases h0 : p.blockSize = 0
  · rw [run_init_of_eq_zero h0] at h
    cases h
  have hrun := run_init ⟨p, h0⟩ m₀
  rw [h] at hrun
  cases hstop : p.stop with
  | error e =>
    rw [hstop] at hrun
    cases hrun
  | ok stop =>
    rw [hstop] at hrun
    dsimp only at hrun
    cases hc : (Recorded.create ⟨p.base⟩ stop p.blockSize).run ⟨table ⟨p, h0⟩ m₀, m₀.journal⟩ with
    | error e r =>
      rw [hc] at hrun
      cases e <;> cases hrun
    | ok g r =>
      obtain ⟨hb, hz, -, -⟩ := Recorded.run_create_eq_ok hc
      obtain rfl : g = grid ⟨p, h0⟩ := by
        cases g
        cases hb
        cases hz
        rfl
      rw [hc] at hrun
      dsimp only at hrun
      -- the closing record reads the end of the heap, and leaves the memory alone
      by_cases hi : r.journal.admits .info = true
      · rw [if_pos hi] at hrun
        cases he : (grid ⟨p, h0⟩).stop (table ⟨p, h0⟩ (store ⟨p, h0⟩ r m₀)) with
        | error e =>
          rw [he] at hrun
          cases hrun
        | ok stop' =>
          rw [he] at hrun
          cases hrun
          exact ⟨stop, r, rfl, rfl, hc, rfl⟩
      · rw [if_neg hi] at hrun
        cases hrun
        exact ⟨stop, r, rfl, rfl, hc, rfl⟩

theorem init_eq_ok {p : Placement} {m₀ : Machine} (h : (init p).run m₀ = .ok s m) :
    s.toPlacement = p ∧ s.Laid ∧ Ledger.Matches s.grid (s.table m) [] := by
  obtain ⟨stop, r, rfl, hstop, hc, hmem⟩ := exists_create_of_init h
  obtain ⟨-, -, ht, hp⟩ := Recorded.run_create_eq_ok hc
  have htable : s.table m = r.table := by
    rw [table, hmem]
    exact table_store ((Recorded.length_of_create hc).trans (s.length_table m₀))
  have hend := Placement.stop_eq_ok hstop
  rw [length_table] at hp
  refine ⟨rfl, ⟨?_, ?_⟩, ?_⟩
  · rw [← hend, ← hp]
  · rw [← hend]
    exact stop.word.toNat_lt
  · rw [htable, ht]
    exact Ledger.matches_clear _ _

def starts (p : Placement) (m : Machine) : Bool :=
  match (init p).run m with
  | .ok _ _ => true
  | .error _ _ => false

theorem init_of_starts {p : Placement} {m : Machine} (h : starts p m = true) (h0 : p.blockSize ≠ 0) :
    (init p).run m = .ok ⟨p, h0⟩ (reached ((init p).run m)) := by
  rw [starts] at h
  cases hr : (init p).run m with
  | ok s m' =>
    obtain ⟨rfl, -, -⟩ := init_eq_ok hr
    rfl
  | error e m' =>
    rw [hr] at h
    cases h

end Arena

end PhysicalHeap
