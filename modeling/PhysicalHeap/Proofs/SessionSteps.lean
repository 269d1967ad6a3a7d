import PhysicalHeap.Session
import PhysicalHeap.Proofs.LeaseSteps

namespace PhysicalHeap

open Step Machine

namespace Request

def gives : Request → Option Address
  | release a => some a
  | releaseRaw pointer => some ⟨pointer⟩
  | _ => none

def rewrites (i : Nat) (k : Word) : Request → Bool
  | write j offset _ => j == i && offset == k
  | scrub j => j == i
  | _ => false

end Request

def yielded {σ α : Type} : EStateM.Result Failure σ (Option α) → Option α
  | .ok x _ => x
  | .error _ _ => none

namespace Ledger

def booked (l : Ledger) (n : Nat) (holder : Option Nat) : Option Address → Ledger
  | some a => ⟨a, n, holder⟩ :: l
  | none => l

def returned (s : Session) (l : Ledger) (a : Address) : Ledger :=
  match (s.arena.release a).run s.machine with
  | .ok () _ => l.without a.word.toNat
  | .error _ _ => l

/-- The ledger after a session has served a request. A lease holds its blocks under its number. -/
def settle (s : Session) (l : Ledger) : Request → Ledger
  | .allocate size | .allocateRaw size =>
    l.booked (s.arena.grid.needed size) none (yielded ((s.arena.allocate size).run s.machine))
  | .allocateZeroed size =>
    l.booked (s.arena.grid.needed size) none (yielded ((s.arena.allocateZeroed size).run s.machine))
  | .lease size =>
    l.booked (s.arena.grid.needed size) (some s.leases.length)
      ((yielded ((Lease.take s.arena size).run s.machine)).map Lease.address)
  | .release a => l.returned s a
  | .releaseRaw pointer =>
    match Address.ofWord pointer with
    | .ok a => l.returned s a
    | .error _ => l
  | .drop i =>
    match s.lease? i with
    | some x => l.returned s x.address
    | none => l
  | _ => l

end Ledger

namespace Session

variable {α : Type} {s : Session} {l : Ledger} {q : Request}

def after (s : Session) (q : Request) : Session := reached ((perform q).run s)

/-- The heap of a session is whole, and lies apart from its table, which says what the ledger says. -/
structure Sound (s : Session) (l : Ledger) : Prop where
  laid : s.arena.Laid
  apart : s.arena.heapExtent.overlaps s.arena.tableExtent = false
  agrees : l.Matches s.arena.grid (s.arena.table s.machine)
  narrow : ∀ y ∈ l, y.address.word.toNat < Address.limit.toNat
  within : ∀ i x, s.lease? i = some x → x.extent.isWithin s.arena.heapExtent = true

/-- The address that serving a request gives back, if there is an allocation there. -/
def returns (s : Session) : Request → Option Address
  | .drop i => (s.lease? i).map Lease.address
  | q => q.gives

theorem returns_of_gives {a : Address} (h : q.gives = some a) : s.returns q = some a := by
  cases q with
  | release | releaseRaw => exact h
  | _ => cases h

/-- What serving a request does to a session and its ledger. An allocation whose address is given back
is freed; nothing else is. -/
inductive Effect (s : Session) (l : Ledger) : Request → Session → Ledger → Prop where
  | idle {q : Request} {m : Machine} (hq : ∀ y ∈ l, s.returns q ≠ some y.address)
    (hb : SameBytes s.machine m) : Effect s l q { s with machine := m } l
  | taken {q : Request} {a : Address} {n : Nat} {m : Machine} (hq : s.returns q = none)
    (hm : Ledger.Matches s.arena.grid (s.arena.table m) (⟨a, n, none⟩ :: l))
    (hlt : a.word.toNat < Address.limit.toNat)
    (hb : ∀ p, p ∉ s.arena.tableExtent → p ∉ Allocation.extent s.arena.grid ⟨a, n, none⟩ →
      m.memory.byteAt p = s.machine.memory.byteAt p) :
    Effect s l q { s with machine := m } (⟨a, n, none⟩ :: l)
  | leased {q : Request} {x : Lease} {n : Nat} {m : Machine} (hq : s.returns q = none)
    (hlen : x.length.toNat = n * s.arena.blockSize.toNat)
    (hm : Ledger.Matches s.arena.grid (s.arena.table m) (⟨x.address, n, some s.leases.length⟩ :: l))
    (hlt : x.address.word.toNat < Address.limit.toNat)
    (hb : ∀ p, p ∉ s.arena.tableExtent → p ∉ x.extent →
      m.memory.byteAt p = s.machine.memory.byteAt p) :
    Effect s l q { s with machine := m, leases := s.leases ++ [some x] }
      (⟨x.address, n, some s.leases.length⟩ :: l)
  | changed {q : Request} {i : Nat} {x : Lease} {m : Machine} (hq : s.returns q = none)
    (hx : s.lease? i = some x)
    (hb : ∀ p, p ∉ x.extent → m.memory.byteAt p = s.machine.memory.byteAt p)
    (hk : ∀ k : Word, q.rewrites i k = false →
      m.memory.byteAt (x.extent.start + k.toNat) = s.machine.memory.byteAt (x.extent.start + k.toNat)) :
    Effect s l q { s with machine := m } l
  | left {q : Request} {i : Nat} {m : Machine} (hg : q.gives = none)
    (hq : ∀ y ∈ l, s.returns q ≠ some y.address) (hb : SameBytes s.machine m) :
    Effect s l q { s with machine := m, leases := s.leases.set i none } l
  | given {q : Request} {y : Allocation} {k : Nat} {m : Machine} (hq : q.gives = some y.address)
    (hy : y ∈ l) (hk : y.address.word.toNat = s.arena.grid.place k) (hl : k + y.length ≤ s.arena.total)
    (ht : s.arena.table m = (s.arena.table s.machine).cleared k y.length)
    (hm : Ledger.Matches s.arena.grid (s.arena.table m) (l.without y.address.word.toNat))
    (hb : ∀ p, p ∉ s.arena.tableExtent → m.memory.byteAt p = s.machine.memory.byteAt p) :
    Effect s l q { s with machine := m } (l.without y.address.word.toNat)
  | dropped {i : Nat} {x : Lease} {y : Allocation} {k : Nat} {m : Machine} (hx : s.lease? i = some x)
    (ha : x.address = y.address) (hy : y ∈ l) (hk : y.address.word.toNat = s.arena.grid.place k)
    (hl : k + y.length ≤ s.arena.total)
    (ht : s.arena.table m = (s.arena.table s.machine).cleared k y.length)
    (hm : Ledger.Matches s.arena.grid (s.arena.table m) (l.without y.address.word.toNat))
    (hb : ∀ p, p ∉ s.arena.tableExtent → m.memory.byteAt p = s.machine.memory.byteAt p) :
    Effect s l (.drop i) { s with machine := m, leases := s.leases.set i none }
      (l.without y.address.word.toNat)

theorem run_onMachine (f : Step Machine α) (s : Session) :
    (onMachine f).run s = match f.run s.machine with
      | .ok a m => .ok a { s with machine := m }
      | .error e m => .error e { s with machine := m } := by
  rw [onMachine, run_focus]
  cases f.run s.machine with
  | ok a m => rfl
  | error e m => rfl

theorem run_onLease (i : Nat) (f : Lease → Step Session Reply) (s : Session) :
    (onLease i f).run s = match s.lease? i with
      | some x => (f x).run s
      | none => .ok .noLease s := by
  simp only [onLease, EStateM.run_bind, EStateM.run_get]
  cases s.lease? i with
  | some x => rfl
  | none => rfl

theorem run_served (f : Arena → Step Machine α) (g : α → Reply) (s : Session) :
    (do return g (← onMachine (f (← get).arena)) : Step Session Reply).run s =
      match (f s.arena).run s.machine with
      | .ok a m => .ok (g a) { s with machine := m }
      | .error e m => .error e { s with machine := m } := by
  simp only [EStateM.run_bind, EStateM.run_get, run_onMachine]
  cases (f s.arena).run s.machine with
  | ok a m => rfl
  | error e m => rfl

theorem reached_onMachine (f : Arena → Step Machine α) (g : α → Reply) (s : Session) :
    reached ((do return g (← onMachine (f (← get).arena)) : Step Session Reply).run s) =
      { s with machine := reached ((f s.arena).run s.machine) } := by
  rw [run_served]
  cases (f s.arena).run s.machine with
  | ok a m => rfl
  | error e m => rfl

theorem run_perform_lease (s : Session) (size : Word) :
    (perform (.lease size)).run s = match (Lease.take s.arena size).run s.machine with
      | .ok none m => .ok (.leased none) { s with machine := m }
      | .ok (some x) m => .ok (.leased (some (s.leases.length, x)))
          { s with machine := m, leases := s.leases ++ [some x] }
      | .error e m => .error e { s with machine := m } := by
  simp only [perform, EStateM.run_bind, EStateM.run_get, run_onMachine]
  cases (Lease.take s.arena size).run s.machine with
  | error e m => rfl
  | ok o m =>
    cases o with
    | none => rfl
    | some x => rfl

section Served

variable (s : Session)

theorem after_allocate (size : Word) :
    s.after (.allocate size) = { s with machine := reached ((s.arena.allocate size).run s.machine) } :=
  reached_onMachine (fun a => a.allocate size) Reply.address s

theorem after_allocateZeroed (size : Word) :
    s.after (.allocateZeroed size) =
      { s with machine := reached ((s.arena.allocateZeroed size).run s.machine) } :=
  reached_onMachine (fun a => a.allocateZeroed size) Reply.address s

theorem after_allocateRaw (size : Word) :
    s.after (.allocateRaw size) =
      { s with machine := reached ((s.arena.allocateRaw size).run s.machine) } :=
  reached_onMachine (fun a => a.allocateRaw size) Reply.pointer s

theorem after_release (a : Address) :
    s.after (.release a) = { s with machine := reached ((s.arena.release a).run s.machine) } :=
  reached_onMachine (fun b => b.release a) (fun _ => Reply.done) s

theorem after_releaseRaw (pointer : Word) :
    s.after (.releaseRaw pointer) =
      { s with machine := reached ((s.arena.releaseRaw pointer).run s.machine) } :=
  reached_onMachine (fun a => a.releaseRaw pointer) Reply.status s

theorem after_lengthAt (a : Address) :
    s.after (.lengthAt a) = { s with machine := reached ((s.arena.lengthAt a).run s.machine) } :=
  reached_onMachine (fun b => b.lengthAt a) Reply.count s

theorem after_stats : s.after .stats = { s with machine := reached (s.arena.stats.run s.machine) } :=
  reached_onMachine (fun a => a.stats) Reply.stats s

theorem after_lease (size : Word) :
    s.after (.lease size) = match (Lease.take s.arena size).run s.machine with
      | .ok none m => { s with machine := m }
      | .ok (some x) m => { s with machine := m, leases := s.leases ++ [some x] }
      | .error _ m => { s with machine := m } := by
  rw [after, run_perform_lease]
  cases (Lease.take s.arena size).run s.machine with
  | error e m => rfl
  | ok o m =>
    cases o with
    | none => rfl
    | some x => rfl

theorem after_write_eq (i : Nat) (k : Word) (b : UInt8) :
    s.after (.write i k b) = match s.lease? i with
      | some x => { s with machine := reached ((x.write k b).run s.machine) }
      | none => s := by
  simp only [after, perform, run_onLease, EStateM.run_bind, run_onMachine]
  cases s.lease? i with
  | none => rfl
  | some x =>
    dsimp only
    cases (x.write k b).run s.machine with
    | ok u m => rfl
    | error e m => rfl

theorem after_read (i : Nat) : s.after (.read i) = s := by
  rw [after, perform, run_onLease]
  cases s.lease? i with
  | none => rfl
  | some x => rfl

theorem after_scrub (i : Nat) :
    s.after (.scrub i) = match s.lease? i with
      | some x => { s with machine := reached (x.scrub.run s.machine) }
      | none => s := by
  rw [after, perform, run_onLease]
  cases s.lease? i with
  | none => rfl
  | some x => rfl

theorem after_surrender (i : Nat) :
    s.after (.surrender i) = match s.lease? i with
      | some _ => { s with leases := s.leases.set i none }
      | none => s := by
  rw [after, perform, run_onLease]
  cases s.lease? i with
  | none => rfl
  | some x => rfl

theorem after_drop (i : Nat) :
    s.after (.drop i) = match s.lease? i with
      | some x => { s with
          machine := reached ((s.arena.release x.address).run s.machine)
          leases := s.leases.set i none }
      | none => s := by
  simp only [after, perform, run_onLease, EStateM.run_bind]
  cases s.lease? i with
  | none => rfl
  | some x =>
    simp only [leave, EStateM.run_modify, EStateM.run_get, run_onMachine, Lease.run_drop]
    cases (s.arena.release x.address).run s.machine with
    | ok u m => rfl
    | error e m =>
      cases e with
      | refused r => rfl
      | halted f => rfl

end Served

theorem effect_took (hq : s.returns q = none) {n : Nat}
    {o : EStateM.Result Failure Machine (Option Address)} (ho : Arena.Took s.arena s.machine l n o) :
    Effect s l q { s with machine := reached o } (l.booked n none (yielded o)) := by
  have hno : ∀ y ∈ l, s.returns q ≠ some y.address := by
    intro y _ hy
    rw [hq] at hy
    cases hy
  cases ho with
  | halted hb => exact .idle hno hb
  | refused hb => exact .idle hno hb
  | taken hm hlt hb => exact .taken hq (hm none) hlt hb

theorem effect_allocate (h : Sound s l) (size : Word) :
    Effect s l (.allocate size) (s.after (.allocate size)) (l.settle s (.allocate size)) := by
  rw [after_allocate]
  exact effect_took rfl (Arena.took_allocate h.laid h.agrees size)

theorem effect_allocateZeroed (h : Sound s l) (size : Word) :
    Effect s l (.allocateZeroed size) (s.after (.allocateZeroed size))
      (l.settle s (.allocateZeroed size)) := by
  rw [after_allocateZeroed]
  exact effect_took rfl (Arena.took_allocateZeroed h.laid h.apart h.agrees size)

theorem effect_allocateRaw (h : Sound s l) (size : Word) :
    Effect s l (.allocateRaw size) (s.after (.allocateRaw size)) (l.settle s (.allocateRaw size)) := by
  rw [after_allocateRaw, Arena.reached_allocateRaw]
  exact effect_took rfl (Arena.took_allocate h.laid h.agrees size)

theorem effect_lease (h : Sound s l) (size : Word) :
    Effect s l (.lease size) (s.after (.lease size)) (l.settle s (.lease size)) := by
  have ho := Lease.taken_take h.laid h.agrees size
  rw [after_lease, Ledger.settle]
  generalize (Lease.take s.arena size).run s.machine = o at ho ⊢
  cases ho with
  | halted hb => exact .idle nofun hb
  | refused hb => exact .idle nofun hb
  | taken hlen hm hlt hb => exact .leased rfl hlen (hm _) hlt hb

theorem effect_returned (h : Sound s l) {a : Address} (hq : q.gives = some a) :
    Effect s l q { s with machine := reached ((s.arena.release a).run s.machine) } (l.returned s a) := by
  have ho := Arena.gave_release h.agrees a
  rw [Ledger.returned]
  generalize (s.arena.release a).run s.machine = o at ho ⊢
  cases ho with
  | refused hno hb =>
    refine .idle (fun y hy he => hno y hy ?_) hb
    rw [returns_of_gives hq] at he
    exact (Option.some.inj he).symm
  | given hy hk hl ht hm hb => exact .given hq hy hk hl ht hm hb

theorem effect_release (h : Sound s l) (a : Address) :
    Effect s l (.release a) (s.after (.release a)) (l.settle s (.release a)) := by
  rw [after_release]
  exact effect_returned h rfl

theorem effect_releaseRaw (h : Sound s l) (pointer : Word) :
    Effect s l (.releaseRaw pointer) (s.after (.releaseRaw pointer))
      (l.settle s (.releaseRaw pointer)) := by
  rw [after_releaseRaw, Arena.reached_releaseRaw, Ledger.settle]
  cases hp : Address.ofWord pointer with
  | error e =>
    refine .idle (fun y hy he => ?_) fun _ => rfl
    -- allocations have addresses of 48 bits, so the pointer is none of them
    have hok := Address.ofWord_eq_ok.2 ⟨congrArg Address.word (Option.some.inj he).symm, ?_⟩
    · rw [hok] at hp
      cases hp
    · have hlt := h.narrow y hy
      rw [← Option.some.inj he] at hlt
      exact hlt
  | ok a =>
    obtain ⟨rfl, -⟩ := Address.ofWord_eq_ok.1 hp
    exact effect_returned h rfl

theorem effect_write (i : Nat) (k : Word) (b : UInt8) :
    Effect s l (.write i k b) (s.after (.write i k b)) l := by
  rw [after_write_eq]
  cases hx : s.lease? i with
  | none => exact .idle nofun fun _ => rfl
  | some x =>
    dsimp only
    rw [Lease.run_write]
    by_cases hk : k < x.length
    · rw [if_pos hk]
      refine .changed rfl hx (fun p hp => ?_) fun j hj => ?_
      · refine (Memory.byteAt_fill _ _ _ _ _).trans (if_neg fun hpk => hp ?_)
        have hlt := UInt64.lt_iff_toNat_lt.1 hk
        rw [Extent.mem_iff, Extent.stop]
        change _ ∧ _ < _ + x.length.toNat
        omega
      · refine (Memory.byteAt_fill _ _ _ _ _).trans (if_neg fun hpk => ?_)
        have hkj : k = j := UInt64.toNat_inj.1 (by omega)
        rw [Request.rewrites, hkj, beq_self_eq_true, beq_self_eq_true] at hj
        cases hj
    · rw [if_neg hk]
      exact .idle nofun fun _ => rfl

theorem effect_scrub (i : Nat) : Effect s l (.scrub i) (s.after (.scrub i)) l := by
  rw [after_scrub]
  cases hx : s.lease? i with
  | none => exact .idle nofun fun _ => rfl
  | some x =>
    refine .changed rfl hx (fun p hp => (Scrub.byteAt_extent _ _ p).trans (if_neg hp)) fun j hj => ?_
    rw [Request.rewrites, beq_self_eq_true] at hj
    cases hj

theorem effect_drop (h : Sound s l) (i : Nat) :
    Effect s l (.drop i) (s.after (.drop i)) (l.settle s (.drop i)) := by
  rw [after_drop, Ledger.settle]
  cases hx : s.lease? i with
  | none =>
    refine .idle (fun y hy he => ?_) fun _ => rfl
    rw [returns, hx] at he
    cases he
  | some x =>
    have ho := Arena.gave_release h.agrees x.address
    dsimp only
    rw [Ledger.returned]
    generalize ha : x.address = a at ho ⊢
    generalize (s.arena.release a).run s.machine = o at ho ⊢
    cases ho with
    | refused hno hb =>
      refine .left rfl (fun y hy he => hno y hy ?_) hb
      rw [returns, hx, Option.map_some, ha] at he
      exact (Option.some.inj he).symm
    | given hy hk hl ht hm hb => exact .dropped hx ha hy hk hl ht hm hb

theorem effect_after (h : Sound s l) (q : Request) : Effect s l q (s.after q) (l.settle s q) := by
  cases q with
  | allocate size => exact effect_allocate h size
  | allocateZeroed size => exact effect_allocateZeroed h size
  | allocateRaw size => exact effect_allocateRaw h size
  | release a => exact effect_release h a
  | releaseRaw pointer => exact effect_releaseRaw h pointer
  | lengthAt a =>
    rw [after_lengthAt, Arena.run_lengthAt]
    cases s.arena.grid.lengthAt (s.arena.table s.machine) a with
    | ok n => exact .idle nofun Arena.sameBytes_store
    | error e => exact .idle nofun Arena.sameBytes_store
  | stats =>
    rw [after_stats, Arena.run_stats]
    exact .idle nofun Arena.sameBytes_store
  | lease size => exact effect_lease h size
  | write i k b => exact effect_write i k b
  | read i =>
    rw [after_read]
    exact .idle nofun fun _ => rfl
  | scrub i => exact effect_scrub i
  | surrender i =>
    rw [after_surrender]
    cases s.lease? i with
    | none => exact .idle nofun fun _ => rfl
    | some x => exact .left rfl nofun fun _ => rfl
  | drop i => exact effect_drop h i

theorem arena_after (s : Session) (q : Request) : (s.after q).arena = s.arena := by
  cases q with
  | allocate size => rw [after_allocate]
  | allocateZeroed size => rw [after_allocateZeroed]
  | allocateRaw size => rw [after_allocateRaw]
  | release a => rw [after_release]
  | releaseRaw pointer => rw [after_releaseRaw]
  | lengthAt a => rw [after_lengthAt]
  | stats => rw [after_stats]
  | lease size =>
    rw [after_lease]
    cases (Lease.take s.arena size).run s.machine with
    | ok x m =>
      cases x with
      | none => rfl
      | some x => rfl
    | error e m => rfl
  | write i k b =>
    rw [after_write_eq]
    cases s.lease? i with
    | none => rfl
    | some x => rfl
  | read i => rw [after_read]
  | scrub i =>
    rw [after_scrub]
    cases s.lease? i with
    | none => rfl
    | some x => rfl
  | surrender i =>
    rw [after_surrender]
    cases s.lease? i with
    | none => rfl
    | some x => rfl
  | drop i =>
    rw [after_drop]
    cases s.lease? i with
    | none => rfl
    | some x => rfl

end Session

end PhysicalHeap
