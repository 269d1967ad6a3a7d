import PhysicalHeap.Lease
import PhysicalHeap.Proofs.ArenaSteps

namespace PhysicalHeap

open Step Machine

theorem Machine.SameBytes.trans {m₁ m₂ m₃ : Machine} (h : SameBytes m₁ m₂) (h' : SameBytes m₂ m₃) :
    SameBytes m₁ m₃ :=
  fun p => (h' p).trans (h p)

namespace Arena

theorem reached_allocateRaw (s : Arena) (size : Word) (m : Machine) :
    reached ((s.allocateRaw size).run m) = reached ((s.allocate size).run m) := by
  rw [run_allocateRaw]
  cases (s.allocate size).run m with
  | ok a m' => rfl
  | error e m' => rfl

theorem reached_releaseRaw (s : Arena) (pointer : Word) (m : Machine) :
    reached ((s.releaseRaw pointer).run m) = match Address.ofWord pointer with
      | .ok a => reached ((s.release a).run m)
      | .error _ => m := by
  rw [run_releaseRaw]
  cases Address.ofWord pointer with
  | error e => rfl
  | ok a =>
    dsimp only
    cases (s.release a).run m with
    | ok _ m' => rfl
    | error e m' =>
      cases e with
      | refused r => rfl
      | halted f => rfl

end Arena

namespace Lease

variable {s : Arena} {m : Machine} {l : Ledger}

/-- How taking a lease ends: with an allocation that is new to the ledger and as long as the lease, or
with memory as it was. -/
inductive Taken (s : Arena) (m : Machine) (l : Ledger) (n : Nat) :
    EStateM.Result Failure Machine (Option Lease) → Prop where
  | halted {f : Fault} {m' : Machine} (hb : SameBytes m m') : Taken s m l n (.error (.halted f) m')
  | refused {m' : Machine} (hb : SameBytes m m') : Taken s m l n (.ok none m')
  | taken {x : Lease} {m' : Machine} (hlen : x.length.toNat = n * s.blockSize.toNat)
    (hm : ∀ i, Ledger.Matches s.grid (s.table m') (⟨x.address, n, i⟩ :: l))
    (hlt : x.address.word.toNat < Address.limit.toNat)
    (hb : ∀ p, p ∉ s.tableExtent → p ∉ x.extent → m'.memory.byteAt p = m.memory.byteAt p) :
    Taken s m l n (.ok (some x) m')

theorem run_take (s : Arena) (size : Word) (m : Machine) :
    (take s size).run m = match s.grid.roundUp size with
      | .error _ => .ok none (s.store ⟨s.table m, m.journal⟩ m)
      | .ok n => match (s.allocate size).run (s.store ⟨s.table m, m.journal⟩ m) with
        | .ok (some a) m' => .ok (some ⟨a, n⟩) m'
        | .ok none m' => .ok none m'
        | .error e m' => .error e m' := by
  simp only [take, EStateM.run_bind, run_attempt, run_judged, Arena.run_critical]
  cases hn : s.grid.roundUp size with
  | error e =>
    obtain rfl := Grid.roundUp_eq_error hn
    rfl
  | ok n =>
    simp only [EStateM.run_bind]
    cases (s.allocate size).run (s.store ⟨s.table m, m.journal⟩ m) with
    | error e m' => rfl
    | ok o m' =>
      cases o with
      | none => rfl
      | some a => rfl

theorem taken_take (hs : s.Laid) (h : l.Matches s.grid (s.table m)) (size : Word) :
    Taken s m l (s.grid.needed size) ((take s size).run m) := by
  have hb : SameBytes m (s.store ⟨s.table m, m.journal⟩ m) := Arena.sameBytes_store
  have ht : s.table (s.store ⟨s.table m, m.journal⟩ m) = s.table m :=
    Arena.table_store (s.length_table m)
  rw [run_take]
  generalize s.store ⟨s.table m, m.journal⟩ m = m₁ at hb ht ⊢
  cases hn : s.grid.roundUp size with
  | error e => exact .refused hb
  | ok n =>
    have ho := Arena.took_allocate (m := m₁) hs (ht ▸ h) size
    dsimp only
    generalize (s.allocate size).run m₁ = o at ho ⊢
    cases ho with
    | halted hb' => exact .halted (hb.trans hb')
    | refused hb' => exact .refused (hb.trans hb')
    | @taken a m' hm hlt hb' =>
      have hlen := Grid.roundUp_eq_ok.1 hn
      refine .taken hlen hm hlt fun p hp hpx => (hb' p hp ?_).trans (hb p)
      rw [extent, hlen] at hpx
      exact hpx

theorem run_drop (s : Arena) (x : Lease) (m : Machine) :
    (drop s x).run m = match (s.release x.address).run m with
      | .ok () m' => .ok () m'
      | .error (.refused _) m' => .ok () m'
      | .error (.halted f) m' => .error (.halted f) m' := by
  simp only [drop, EStateM.run_bind, run_attempt]
  cases (s.release x.address).run m with
  | ok _ m' => rfl
  | error e m' =>
    cases e with
    | refused r => rfl
    | halted f => rfl

theorem run_write (x : Lease) (k : Word) (b : UInt8) (m : Machine) :
    (x.write k b).run m = if k < x.length then
        .ok () { m with memory := m.memory.fill (x.extent.start + k.toNat) 1 b }
      else .error (.halted (.outOfBounds x.length.toNat k.toNat)) m := by
  rw [write]
  by_cases hk : k < x.length
  · rw [if_pos hk, if_pos hk]
    rfl
  · rw [if_neg hk, if_neg hk]
    rfl

end Lease

end PhysicalHeap
