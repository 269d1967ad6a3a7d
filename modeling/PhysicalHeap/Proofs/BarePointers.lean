import PhysicalHeap.Proofs.Accounting
import PhysicalHeap.Proofs.Addressing

namespace PhysicalHeap

open Step Machine

theorem Grid.narrow_of_allocate {g : Grid} {n : Nat} {t t' : Table} {a : Address}
    (h : (g.allocate n).run t = .ok a t') : a.word.toNat < Address.limit.toNat := by
  rw [run_allocate] at h
  cases hf : t.findRun n with
  | error e =>
    rw [hf] at h
    cases h
  | ok k =>
    rw [hf] at h
    dsimp only at h
    cases ha : g.address t k with
    | error e =>
      rw [ha] at h
      cases h
    | ok b =>
      obtain ⟨-, hb, hlt⟩ := address_eq_ok.1 ha
      rw [ha] at h
      dsimp only at h
      cases hw : (Table.markTaken k n).run t with
      | error e u =>
        rw [hw] at h
        cases h
      | ok _ u =>
        rw [hw] at h
        cases h
        rwa [hb]

namespace Recorded

theorem narrow_of_malloc {g : Grid} {size : Word} {r r' : Recorded} {a : Address}
    (h : (malloc g size).run r = .ok a r') : a.word.toNat < Address.limit.toNat := by
  rw [run_malloc] at h
  cases hn : g.blocksFor size with
  | error e =>
    rw [hn] at h
    cases h
  | ok n =>
    rw [hn] at h
    dsimp only at h
    rw [run_allocate] at h
    cases ha : (g.allocate n).run r.table with
    | error e t =>
      rw [ha] at h
      cases h
    | ok b t =>
      rw [ha] at h
      cases h
      exact Grid.narrow_of_allocate ha

theorem status_of_free {g : Grid} {a : Address} {r r' : Recorded} {e : Refusal}
    (h : (free g a).run r = .error (.refused e) r') : e.status = -2 := by
  rw [run_free, Grid.run_free] at h
  cases hb : g.blockAt r.table a with
  | error e' =>
    rw [hb, Grid.blockAt_eq_error hb] at h
    cases h
    rfl
  | ok i =>
    rw [hb] at h
    dsimp only at h
    cases hc : r.table.checkHead i with
    | ok _ =>
      rw [Table.run_markFree_ok hc] at h
      cases h
    | error e' =>
      obtain ⟨x, hx, rfl⟩ := Table.checkHead_eq_error hc
      rw [Table.run_markFree_error hc] at h
      cases h
      have hstatus : ∀ x ∈ [Refusal.foreignAddress, .notTaken, .notHead], x.status = -2 := by decide
      exact hstatus e hx

end Recorded

namespace Arena

variable {s : Arena} {m m' : Machine} {size : Word} {a : Address}

theorem narrow_allocate (h : yielded ((s.allocate size).run m) = some a) :
    a.word.toNat < Address.limit.toNat := by
  rw [run_allocate] at h
  cases hc : (Recorded.malloc s.grid size).run ⟨s.table m, m.journal⟩ with
  | ok b r =>
    rw [hc] at h
    cases h
    exact Recorded.narrow_of_malloc hc
  | error e r =>
    rw [hc] at h
    cases e <;> cases h

theorem yielded_allocateZeroed (s : Arena) (size : Word) (m : Machine) :
    yielded ((s.allocateZeroed size).run m) = yielded ((s.allocate size).run m) := by
  rw [run_allocateZeroed, run_allocate]
  -- the machines that are reached differ, and only the answers are to be compared
  cases (Recorded.malloc s.grid size).run ⟨s.table m, m.journal⟩ with
  | ok a r => exact (rfl : some a = some a)
  | error e r =>
    cases e with
    | refused e => exact (rfl : (none : Option Address) = none)
    | halted f => rfl

theorem status_of_release {e : Refusal} (h : (s.release a).run m = .error (.refused e) m') :
    e.status = -2 := by
  rw [run_release] at h
  cases hc : (Recorded.free s.grid a).run ⟨s.table m, m.journal⟩ with
  | ok _ r =>
    rw [hc] at h
    cases h
  | error e' r =>
    rw [hc] at h
    cases e' with
    | refused e' =>
      cases h
      exact Recorded.status_of_free hc
    | halted f => cases h

end Arena

theorem Lease.narrow_take {s : Arena} {size : Word} {m : Machine} {x : Lease}
    (h : yielded ((take s size).run m) = some x) : x.address.word.toNat < Address.limit.toNat := by
  rw [run_take] at h
  cases hn : s.grid.roundUp size with
  | error e =>
    rw [hn] at h
    cases h
  | ok n =>
    rw [hn] at h
    dsimp only at h
    cases ha : (s.allocate size).run (s.store ⟨s.table m, m.journal⟩ m) with
    | error e m' =>
      rw [ha] at h
      cases h
    | ok o m' =>
      rw [ha] at h
      cases o with
      | none => cases h
      | some a =>
        cases h
        exact Arena.narrow_allocate (congrArg yielded ha)

namespace Ledger

def Narrow (l : Ledger) : Prop := ∀ y ∈ l, y.address.word.toNat < Address.limit.toNat

variable {l : Ledger} {s : Session}

theorem Narrow.booked (h : l.Narrow) {n : Nat} {i : Option Nat} {o : Option Address}
    (ho : ∀ a, o = some a → a.word.toNat < Address.limit.toNat) : (l.booked n i o).Narrow := by
  cases o with
  | none => exact h
  | some a => exact List.forall_mem_cons.2 ⟨ho a rfl, h⟩

theorem Narrow.returned (h : l.Narrow) (a : Address) : (l.returned s a).Narrow := by
  rw [Ledger.returned]
  cases (s.arena.release a).run s.machine with
  | ok _ m => exact fun y hy => h y (List.mem_filter.1 hy).1
  | error e m => exact h

theorem Narrow.settle (h : l.Narrow) (q : Request) : (l.settle s q).Narrow := by
  cases q with
  | allocate size | allocateRaw size => exact h.booked fun a ha => Arena.narrow_allocate ha
  | allocateZeroed size =>
    exact h.booked fun a ha => Arena.narrow_allocate (Arena.yielded_allocateZeroed .. ▸ ha)
  | lease size =>
    refine h.booked fun a ha => ?_
    obtain ⟨x, hx, rfl⟩ := Option.map_eq_some_iff.1 ha
    exact Lease.narrow_take hx
  | release a => exact h.returned a
  | releaseRaw pointer =>
    rw [Ledger.settle]
    cases Address.ofWord pointer with
    | ok a => exact h.returned a
    | error e => exact h
  | drop i =>
    rw [Ledger.settle]
    cases s.lease? i with
    | some x => exact h.returned x.address
    | none => exact h
  | lengthAt | stats | write | read | scrub | surrender => exact h

theorem Narrow.settleAll (h : l.Narrow) (qs : List Request) : (Ledger.settleAll qs s l).Narrow := by
  induction qs generalizing s l with
  | nil => exact h
  | cons q qs ih => exact ih (h.settle q)

end Ledger

namespace Session

variable {s : Session} {l : Ledger} {pointer : Word}

theorem run_perform_release (s : Session) (a : Address) :
    (perform (.release a)).run s = match (s.arena.release a).run s.machine with
      | .ok () m => .ok .done { s with machine := m }
      | .error e m => .error e { s with machine := m } := by
  rw [perform]
  refine (run_served (fun b => b.release a) (fun _ => Reply.done) s).trans ?_
  cases (s.arena.release a).run s.machine with
  | ok _ m => rfl
  | error e m => rfl

/-- How a caller who only has a pointer, and only gets a number, is told what releasing it did: zero for
an allocation, which is given back as by its address, and a negative code for what is none, of which the
table is left as it was. -/
inductive Told (s : Session) (l : Ledger) (pointer : Word) :
    EStateM.Result Failure Session Reply → Prop where
  | freed {y : Allocation} {s' : Session} (hy : y ∈ l) (ha : y.address = ⟨pointer⟩)
    (hr : (perform (.release ⟨pointer⟩)).run s = .ok .done s')
    (hl : s'.Agrees (l.without pointer.toNat)) : Told s l pointer (.ok (.status 0) s')
  | refused {e : Refusal} {s' : Session} (hno : ∀ y ∈ l, y.address ≠ ⟨pointer⟩)
    (hr : (perform (.release ⟨pointer⟩)).run s = .error (.refused e) s')
    (ht : s'.arena.table s'.machine = s.arena.table s.machine) :
    Told s l pointer (.ok (.status (-2)) s')

theorem told_of_lt (h : s.Agrees l) (hp : pointer < Address.limit) :
    Told s l pointer ((perform (.releaseRaw pointer)).run s) := by
  have hrun := run_perform_release s ⟨pointer⟩
  have ho := Arena.gave_release h ⟨pointer⟩
  rw [perform, run_served (fun a => a.releaseRaw pointer), Arena.run_releaseRaw, Address.ofWord,
    if_pos hp]
  dsimp only
  generalize ha : (⟨pointer⟩ : Address) = a at ho hrun ⊢
  generalize hr : (s.arena.release a).run s.machine = o at ho hrun ⊢
  cases ho with
  | refused hno hb =>
    subst ha
    dsimp only
    rw [Arena.status_of_release hr]
    exact .refused hno hrun (Arena.table_congr fun p _ => hb p)
  | given hy _ _ _ hm =>
    rw [← ha] at hrun hm
    exact .freed hy ha.symm hrun hm

theorem halted_of_le (h : s.Agrees l) (hn : l.Narrow) (hp : Address.limit ≤ pointer) :
    (perform (.releaseRaw pointer)).run s = .error (.halted .wideAddress) s ∧
      (∀ y ∈ l, y.address ≠ ⟨pointer⟩) ∧
      ∃ e s', (perform (.release ⟨pointer⟩)).run s = .error (.refused e) s' ∧
        s'.arena.table s'.machine = s.arena.table s.machine := by
  have hno : ∀ y ∈ l, y.address ≠ ⟨pointer⟩ := by
    intro y hy ha
    have hlt := hn y hy
    rw [ha] at hlt
    exact Nat.not_lt_of_le (UInt64.le_iff_toNat_le.1 hp) hlt
  refine ⟨?_, hno, ?_⟩
  · have hw : Address.ofWord pointer = halt .wideAddress :=
      Address.ofWord_eq_error.2 ⟨rfl, UInt64.le_iff_toNat_le.1 hp⟩
    rw [perform, run_served (fun a => a.releaseRaw pointer), Arena.run_releaseRaw, hw]
    rfl
  · have ho := Arena.gave_release h ⟨pointer⟩
    rw [run_perform_release]
    generalize ha : (⟨pointer⟩ : Address) = a at ho hno ⊢
    generalize (s.arena.release a).run s.machine = o at ho ⊢
    cases ho with
    | refused _ hb => exact ⟨_, _, rfl, Arena.table_congr fun p _ => hb p⟩
    | given hy => exact absurd rfl (hno _ hy)

/-- Whatever a heap has served, releasing a bare pointer tells what was done, zero or a negative code, if
and only if the pointer has at most 48 bits. All others stop the computation, though none of them is the
address of an allocation. The bytes of blocks may be written if the table lies apart from them. -/
theorem told_iff_narrow {p : Placement} {m₀ m : Machine} {a : Arena}
    (h : (Arena.init p).run m₀ = .ok a m) (qs : List Request)
    (hd : p.heapExtent.overlaps p.tableExtent = false ∨ ∀ q ∈ qs, q.writes = false) (pointer : Word) :
    let s := (run qs ⟨a, m, []⟩).2
    let l := Ledger.settleAll qs ⟨a, m, []⟩ []
    (Told s l pointer ((perform (.releaseRaw pointer)).run s) ↔ pointer < Address.limit) ∧
    (Address.limit ≤ pointer →
      (perform (.releaseRaw pointer)).run s = .error (.halted .wideAddress) s ∧
      (∀ y ∈ l, y.address ≠ ⟨pointer⟩) ∧
      ∃ e s', (perform (.release ⟨pointer⟩)).run s = .error (.refused e) s' ∧
        s'.arena.table s'.machine = s.arena.table s.machine) := by
  intro s l
  have hl : s.Agrees l := agrees_run_init h qs hd
  have hn : l.Narrow := Ledger.Narrow.settleAll (fun y hy => (by cases hy)) qs
  refine ⟨⟨fun ht => ?_, told_of_lt hl⟩, halted_of_le hl hn⟩
  by_cases hp : pointer < Address.limit
  · exact hp
  · rw [(halted_of_le hl hn (UInt64.not_lt.1 hp)).1] at ht
    cases ht

theorem told_iff_narrow_past_limit :
    let p : Placement := ⟨0x42000000, 0x2000, 0x41000000, 4096⟩
    let a : Arena := ⟨p, by decide⟩
    let m := reached ((Arena.init p).run Board.machine)
    let s := (run [.allocateRaw 5000] ⟨a, m, []⟩).2
    let l : Ledger := [⟨⟨0x42000000⟩, 2, none⟩]
    let release := fun pointer => (perform (.releaseRaw pointer)).run s
    (Arena.init p).run Board.machine = .ok a m ∧ p.heapExtent.overlaps p.tableExtent = false ∧
      s.arena.table s.machine = [0xC1, 0x01] ∧
      Ledger.settleAll [.allocateRaw 5000] ⟨a, m, []⟩ [] = l ∧
      Told s l 0x42000000 (release 0x42000000) ∧ Told s l 0x42001000 (release 0x42001000) ∧
      Told s l 0 (release 0) ∧ Told s l 0xFFFFFFFFFFFF (release 0xFFFFFFFFFFFF) ∧
      release 0x1000000000000 = .error (.halted .wideAddress) s ∧
      ¬ Told s l 0x1000000000000 (release 0x1000000000000) := by
  intro p a m s l release
  have h : (Arena.init p).run Board.machine = .ok a m := Arena.init_of_starts (by decide +kernel) a.2
  have hd : p.heapExtent.overlaps p.tableExtent = false := by decide
  have hl : Ledger.settleAll [.allocateRaw 5000] ⟨a, m, []⟩ [] = l := by decide +kernel
  have htold := told_iff_narrow h [.allocateRaw 5000] (Or.inl hd)
  rw [hl] at htold
  have hnarrow : ∀ pointer, pointer < Address.limit → Told s l pointer (release pointer) :=
    fun pointer => (htold pointer).1.2
  obtain ⟨hiff, hhalted⟩ := htold 0x1000000000000
  exact ⟨h, hd, by decide +kernel, hl, hnarrow _ (by decide), hnarrow _ (by decide),
    hnarrow _ (by decide), hnarrow _ (by decide), (hhalted (by decide)).1,
    fun ht => absurd (hiff.1 ht) (by decide)⟩

end Session

end PhysicalHeap
