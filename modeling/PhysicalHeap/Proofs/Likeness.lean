import PhysicalHeap.Proofs.Alike
import PhysicalHeap.Proofs.Isolation

namespace PhysicalHeap

open Step Machine

theorem Extent.isWithin_byte {x outer : Extent} {k : Nat} (h : x.isWithin outer = true)
    (hk : k < x.length) : (⟨x.start + k, 1⟩ : Extent).isWithin outer = true := by
  rw [isWithin_iff] at h ⊢
  simp only [stop] at h ⊢
  omega

namespace Arena

theorem Laid.within_of_malloc {s : Arena} (hs : s.Laid) {size : Word} {r r' : Recorded} {a : Address}
    (hl : r.table.length = s.total) (h : (Recorded.malloc s.grid size).run r = .ok a r') :
    (Allocation.extent s.grid ⟨a, s.grid.needed size, none⟩).isWithin s.heapExtent = true := by
  have hr : s.grid.place r.table.length < Word.range := by
    rw [hl, hs.ends]
    exact hs.fits
  have ho := Recorded.answered_malloc hr size
  rw [h] at ho
  cases ho with
  | @taken k _ _ hf ha =>
    have hle := Table.le_length_of_findRun hf
    have hend := s.grid.place_le (hl ▸ hle)
    have hbase := s.grid.place_le (Nat.zero_le k)
    rw [hs.ends, s.grid.place_add, ← ha] at hend
    rw [Grid.place_zero, ← ha] at hbase
    exact Extent.isWithin_iff.2 ⟨hbase, hend⟩

end Arena

theorem Session.run_cons_answers (q : Request) (qs : List Request) (s : Session) :
    (run (q :: qs) s).1 = answer ((perform q).run s) :: (run qs (s.after q)).1 := by
  rw [run, after]
  cases (perform q).run s with
  | ok a s' => rfl
  | error e s' => rfl

/-- In what two machines that serve one arena may differ: in their memories and journals, in the bytes
that they are asked to write, and in what is read back. Whatever is done to both of them, they differ in
nothing else. -/
structure Likeness (s : Arena) where
  memory : Memory → Memory → Prop
  journal : Journal → Journal → Prop
  byte : UInt8 → UInt8 → Prop
  seen : Runs → Runs → Prop
  read : ∀ x y, memory x y → y.read s.tableBase.toNat s.total = x.read s.tableBase.toNat s.total
  write : ∀ x y (t : Table), memory x y → t.length = s.total →
    memory (x.write s.tableBase.toNat t) (y.write s.tableBase.toNat t)
  fill : ∀ x y (e : Extent) b c, memory x y → e.isWithin s.heapExtent = true → byte b c →
    memory (x.fill e.start e.length b) (y.fill e.start e.length c)
  window : ∀ x y start n, memory x y → seen (x.window start n) (y.window start n)
  refl : ∀ b, byte b b
  told : Recorded.Told journal

inductive Request.Like (B : UInt8 → UInt8 → Prop) : Request → Request → Prop where
  | same (q : Request) : Like B q q
  | write (i : Nat) (offset : Word) {b c : UInt8} (h : B b c) :
    Like B (.write i offset b) (.write i offset c)

inductive Reply.Like (V : Runs → Runs → Prop) : Reply → Reply → Prop where
  | same (r : Reply) : Like V r r
  | bytes {rs ts : Runs} (h : V rs ts) : Like V (.bytes rs) (.bytes ts)

namespace Likeness

variable {s : Arena} (K : Likeness s) {m m' : Machine} {α β : Type} {Q : α → β → Prop}

structure Machines (m m' : Machine) : Prop where
  memory : K.memory m.memory m'.memory
  journal : K.journal m.journal m'.journal

variable {K}

theorem Machines.beside (h : K.Machines m m') :
    Recorded.Beside s.total K.journal ⟨s.table m, m.journal⟩ ⟨s.table m', m'.journal⟩ :=
  ⟨K.read _ _ h.memory, s.length_table m, h.journal⟩

theorem Machines.store (h : K.Machines m m') {r r' : Recorded}
    (hr : Recorded.Beside s.total K.journal r r') : K.Machines (s.store r m) (s.store r' m') := by
  refine ⟨?_, hr.journal⟩
  change K.memory (m.memory.write _ r.table) (m'.memory.write _ r'.table)
  rw [hr.table]
  exact K.write _ _ _ h.memory hr.length

theorem Machines.critical (h : K.Machines m m') {f : Step Recorded α} {f' : Step Recorded β}
    (hf : ∀ r r', Recorded.Beside s.total K.journal r r' →
      Alike Q (Recorded.Beside s.total K.journal) (f.run r) (f'.run r')) :
    Alike Q K.Machines ((s.critical f).run m) ((s.critical f').run m') := by
  have ho := hf _ _ h.beside
  rw [Arena.run_critical, Arena.run_critical]
  generalize f.run ⟨s.table m, m.journal⟩ = x at ho ⊢
  generalize f'.run ⟨s.table m', m'.journal⟩ = y at ho ⊢
  cases ho with
  | ok ha hr => exact .ok ha (h.store hr)
  | error hr => exact .error (h.store hr)

theorem Machines.scrub (h : K.Machines m m') {x : Extent} (hx : x.isWithin s.heapExtent = true) :
    K.Machines { m with memory := Scrub.extent x m.memory }
      { m' with memory := Scrub.extent x m'.memory } :=
  ⟨K.fill _ _ x 0 0 h.memory hx (K.refl 0), h.journal⟩

def Handed (s : Arena) (n : Nat) (o o' : Option Address) : Prop :=
  o = o' ∧ ∀ a ∈ o, (Allocation.extent s.grid ⟨a, n, none⟩).isWithin s.heapExtent = true

theorem alike_malloc (hs : s.Laid) {r r' : Recorded} (h : Recorded.Beside s.total K.journal r r')
    (size : Word) :
    Alike (fun a b => a = b ∧
        (Allocation.extent s.grid ⟨a, s.grid.needed size, none⟩).isWithin s.heapExtent = true)
      (Recorded.Beside s.total K.journal) ((Recorded.malloc s.grid size).run r)
      ((Recorded.malloc s.grid size).run r') := by
  have ho := Recorded.alike_malloc K.told h s.grid size
  have hin := fun a u hu => hs.within_of_malloc h.length (hu : (Recorded.malloc s.grid size).run r = .ok a u)
  generalize (Recorded.malloc s.grid size).run r = x at ho hin ⊢
  generalize (Recorded.malloc s.grid size).run r' = y at ho ⊢
  cases ho with
  | ok ha hr => exact .ok ⟨ha, hin _ _ rfl⟩ hr
  | error hr => exact .error hr

theorem Machines.allocate (hs : s.Laid) (h : K.Machines m m') (size : Word) :
    Alike (Handed s (s.grid.needed size)) K.Machines ((s.allocate size).run m)
      ((s.allocate size).run m') := by
  refine Alike.bind (Alike.attempt (h.critical fun r r' hr => alike_malloc hs hr size)) ?_
  rintro _ _ m m' (⟨rfl, hin⟩ | r) h
  · exact .ok ⟨rfl, fun _ ha => Option.some.inj ha ▸ hin⟩ h
  · exact .ok ⟨rfl, nofun⟩ ⟨h.memory, K.told _ _ _ h.journal⟩

theorem Machines.allocateZeroed (hs : s.Laid) (h : K.Machines m m') (size : Word) :
    Alike Eq K.Machines ((s.allocateZeroed size).run m) ((s.allocateZeroed size).run m') := by
  have ho := alike_malloc hs h.beside size
  rw [Arena.run_allocateZeroed, Arena.run_allocateZeroed]
  generalize (Recorded.malloc s.grid size).run ⟨s.table m, m.journal⟩ = x at ho ⊢
  generalize (Recorded.malloc s.grid size).run ⟨s.table m', m'.journal⟩ = y at ho ⊢
  cases ho with
  | ok ha hr =>
    obtain ⟨rfl, hin⟩ := ha
    exact .ok rfl ((h.store hr).scrub hin)
  | @error e r r' hr =>
    cases e with
    | refused e => exact .ok rfl ⟨(h.store hr).memory, K.told _ _ _ hr.journal⟩
    | halted f => exact .error (h.store hr)

theorem Machines.release (h : K.Machines m m') (a : Address) :
    Alike Eq K.Machines ((s.release a).run m) ((s.release a).run m') := by
  refine Alike.bind (Alike.attempt (h.critical fun r r' hr => Recorded.alike_free K.told hr s.grid a)) ?_
  rintro _ _ m m' (⟨rfl⟩ | r) h
  · exact .ok rfl h
  · exact .error ⟨h.memory, K.told _ _ _ h.journal⟩

theorem Machines.allocateRaw (hs : s.Laid) (h : K.Machines m m') (size : Word) :
    Alike Eq K.Machines ((s.allocateRaw size).run m) ((s.allocateRaw size).run m') := by
  refine Alike.bind (h.allocate hs size) ?_
  rintro o _ m m' ⟨rfl, -⟩ h
  cases o with
  | some a => exact .ok rfl h
  | none => exact .ok rfl h

theorem Machines.releaseRaw (h : K.Machines m m') (pointer : Word) :
    Alike Eq K.Machines ((s.releaseRaw pointer).run m) ((s.releaseRaw pointer).run m') := by
  refine Alike.bind (.judged _ h) ?_
  rintro a _ m m' ⟨rfl, -⟩ h
  refine Alike.bind (Alike.attempt (h.release a)) ?_
  rintro _ _ m m' (⟨rfl⟩ | r) h
  · exact .ok rfl h
  · exact .ok rfl h

theorem Machines.lengthAt (h : K.Machines m m') (a : Address) :
    Alike Eq K.Machines ((s.lengthAt a).run m) ((s.lengthAt a).run m') :=
  h.critical fun _ _ hr => Recorded.alike_read hr fun t => s.grid.lengthAt t a

theorem Machines.stats (h : K.Machines m m') :
    Alike Eq K.Machines (s.stats.run m) (s.stats.run m') :=
  h.critical fun _ _ hr => Recorded.alike_read hr fun t => .ok (s.grid.stats t)

def Leased (s : Arena) (o o' : Option Lease) : Prop :=
  o = o' ∧ ∀ x ∈ o, x.extent.isWithin s.heapExtent = true

theorem Machines.take (hs : s.Laid) (h : K.Machines m m') (size : Word) :
    Alike (Leased s) K.Machines ((Lease.take s size).run m) ((Lease.take s size).run m') := by
  refine Alike.bind (Alike.attempt (h.critical fun r r' hr => .judged (s.grid.roundUp size) hr)) ?_
  rintro _ _ m m' (⟨rfl, hn⟩ | r) h
  · refine Alike.bind (h.allocate hs size) ?_
    rintro o _ m m' ⟨rfl, hin⟩ h
    cases o with
    | none => exact .ok ⟨rfl, nofun⟩ h
    | some a =>
      refine .ok ⟨rfl, fun x hx => ?_⟩ h
      have hin := hin a rfl
      rw [Allocation.extent, ← Grid.roundUp_eq_ok.1 hn] at hin
      exact Option.some.inj hx ▸ hin
  · exact .ok ⟨rfl, nofun⟩ h

theorem Machines.drop (h : K.Machines m m') (x : Lease) :
    Alike Eq K.Machines ((Lease.drop s x).run m) ((Lease.drop s x).run m') := by
  refine Alike.bind (Alike.attempt (h.release x.address)) ?_
  rintro _ _ m m' - h
  exact .ok rfl h

end Likeness

namespace Likeness

open Session

variable {a : Arena} (K : Likeness a) {s s' : Session} {α β : Type} {Q : α → β → Prop}

structure Sessions (s s' : Session) : Prop where
  arena : s.arena = a
  arena' : s'.arena = a
  leases : s'.leases = s.leases
  within : ∀ i x, s.lease? i = some x → x.extent.isWithin a.heapExtent = true
  machine : K.Machines s.machine s'.machine

variable {K}

theorem Machines.sessions {m m' : Machine} (h : K.Machines m m') :
    K.Sessions ⟨a, m, []⟩ ⟨a, m', []⟩ :=
  ⟨rfl, rfl, rfl, fun _ _ hx => (by cases lease?_lt hx), h⟩

theorem Sessions.withMachines (h : K.Sessions s s') {m m' : Machine} (hm : K.Machines m m') :
    K.Sessions { s with machine := m } { s' with machine := m' } :=
  ⟨h.arena, h.arena', h.leases, h.within, hm⟩

theorem Sessions.served (h : K.Sessions s s') (f : Arena → Step Machine α) (g : α → Reply)
    (hf : Alike Eq K.Machines ((f a).run s.machine) ((f a).run s'.machine)) :
    Alike (Reply.Like K.seen) K.Sessions
      ((do return g (← Session.onMachine (f (← get).arena)) : Step Session Reply).run s)
      ((do return g (← Session.onMachine (f (← get).arena)) : Step Session Reply).run s') := by
  have ho : Alike Eq K.Machines ((f s.arena).run s.machine) ((f s'.arena).run s'.machine) := by
    rw [h.arena, h.arena']
    exact hf
  rw [run_served, run_served]
  generalize (f s.arena).run s.machine = x at ho ⊢
  generalize (f s'.arena).run s'.machine = y at ho ⊢
  cases ho with
  | ok hq hm =>
    subst hq
    exact .ok (.same _) (h.withMachines hm)
  | error hm => exact .error (h.withMachines hm)

theorem Sessions.lease?_eq (h : K.Sessions s s') (i : Nat) : s'.lease? i = s.lease? i := by
  rw [lease?, lease?, h.leases]

theorem Sessions.onLease (h : K.Sessions s s') (i : Nat) {f f' : Lease → Step Session Reply}
    (hf : ∀ x, s.lease? i = some x →
      Alike (Reply.Like K.seen) K.Sessions ((f x).run s) ((f' x).run s')) :
    Alike (Reply.Like K.seen) K.Sessions ((Session.onLease i f).run s)
      ((Session.onLease i f').run s') := by
  rw [run_onLease, run_onLease, h.lease?_eq i]
  cases hx : s.lease? i with
  | none => exact .ok (.same _) h
  | some x => exact hf x hx

theorem Sessions.leave (h : K.Sessions s s') (i : Nat) :
    K.Sessions { s with leases := s.leases.set i none } { s' with leases := s'.leases.set i none } :=
  ⟨h.arena, h.arena', congrArg (fun xs => xs.set i none) h.leases,
    fun j x hx => h.within j x (lease?_of_set (m := s.machine) hx).2, h.machine⟩

theorem Sessions.enter (h : K.Sessions s s') {x : Lease} (hx : x.extent.isWithin a.heapExtent = true) :
    K.Sessions { s with leases := s.leases ++ [some x] } { s' with leases := s'.leases ++ [some x] } := by
  refine ⟨h.arena, h.arena', congrArg (fun xs => xs ++ [some x]) h.leases, fun j y hy => ?_, h.machine⟩
  obtain hy | ⟨-, rfl⟩ := lease?_of_append (m := s.machine) hy
  · exact h.within j y hy
  · exact hx

theorem Sessions.lease (hs : a.Laid) (h : K.Sessions s s') (size : Word) :
    Alike (Reply.Like K.seen) K.Sessions ((perform (.lease size)).run s)
      ((perform (.lease size)).run s') := by
  have ho : Alike (Leased a) K.Machines ((Lease.take s.arena size).run s.machine)
      ((Lease.take s'.arena size).run s'.machine) := by
    rw [h.arena, h.arena']
    exact h.machine.take hs size
  have hn : s'.leases.length = s.leases.length := congrArg List.length h.leases
  rw [run_perform_lease, run_perform_lease, hn]
  generalize (Lease.take s.arena size).run s.machine = x at ho ⊢
  generalize (Lease.take s'.arena size).run s'.machine = y at ho ⊢
  cases ho with
  | @ok o _ m m' hq hm =>
    obtain ⟨rfl, hin⟩ := hq
    cases o with
    | none => exact .ok (.same _) (h.withMachines hm)
    | some x => exact .ok (.same _) ((h.withMachines hm).enter (hin x rfl))
  | error hm => exact .error (h.withMachines hm)

theorem Sessions.write (h : K.Sessions s s') (i : Nat) (k : Word) {b c : UInt8} (hb : K.byte b c) :
    Alike (Reply.Like K.seen) K.Sessions ((perform (.write i k b)).run s)
      ((perform (.write i k c)).run s') := by
  refine h.onLease i fun x hx => ?_
  simp only [EStateM.run_bind, run_onMachine, Lease.run_write]
  by_cases hk : k < x.length
  · have hin := Extent.isWithin_byte (h.within i x hx) (UInt64.lt_iff_toNat_lt.1 hk)
    rw [if_pos hk, if_pos hk]
    exact .ok (.same _) (h.withMachines
      ⟨K.fill _ _ ⟨x.extent.start + k.toNat, 1⟩ b c h.machine.memory hin hb, h.machine.journal⟩)
  · rw [if_neg hk, if_neg hk]
    exact .error h

theorem Sessions.perform (hs : a.Laid) (h : K.Sessions s s') {q q' : Request}
    (hq : q.Like K.byte q') :
    Alike (Reply.Like K.seen) K.Sessions ((Session.perform q).run s) ((Session.perform q').run s') := by
  cases hq with
  | write i k hb => exact h.write i k hb
  | same =>
    cases q with
    | allocate size =>
      have ho := (h.machine.allocate hs size).mono fun _ _ ho => ho.1
      exact h.served (fun a => a.allocate size) .address ho
    | allocateZeroed size =>
      exact h.served (fun a => a.allocateZeroed size) .address (h.machine.allocateZeroed hs size)
    | allocateRaw size =>
      exact h.served (fun a => a.allocateRaw size) .pointer (h.machine.allocateRaw hs size)
    | release p => exact h.served (fun a => a.release p) (fun _ => .done) (h.machine.release p)
    | releaseRaw p => exact h.served (fun a => a.releaseRaw p) .status (h.machine.releaseRaw p)
    | lengthAt p => exact h.served (fun a => a.lengthAt p) .count (h.machine.lengthAt p)
    | stats => exact h.served (fun a => a.stats) .stats h.machine.stats
    | lease size => exact h.lease hs size
    | write i k b => exact h.write i k (K.refl b)
    | read i =>
      refine h.onLease i fun x _ => ?_
      simp only [EStateM.run_bind, EStateM.run_get]
      exact .ok (.bytes (K.window _ _ _ _ h.machine.memory)) h
    | scrub i =>
      refine h.onLease i fun x hx => ?_
      exact .ok (.same _) (h.withMachines (h.machine.scrub (h.within i x hx)))
    | surrender i =>
      refine h.onLease i fun x hx => ?_
      exact .ok (.same _) (h.leave i)
    | drop i =>
      refine h.onLease i fun x _ => ?_
      have hleave : Alike Eq K.Sessions ((Session.leave i).run s) ((Session.leave i).run s') :=
        .ok rfl (h.leave i)
      refine hleave.bind fun _ _ t t' _ ht => ?_
      exact ht.served (fun a => x.drop a) (fun _ => .done) (ht.machine.drop x)

/-- Requests that are the same but for the bytes that they write are answered the same but for the bytes
that are read. -/
theorem Sessions.run {γ δ : Type} (hs : a.Laid) {f : Reply → γ}
    (hf : ∀ r r', r.Like K.seen r' → f r' = f r) {g : Request → δ}
    (hg : ∀ q q', g q' = g q → q.Like K.byte q') {qs qs' : List Request} (hq : qs'.map g = qs.map g)
    (h : K.Sessions s s') :
    (Session.run qs' s').1.map (Except.map f) = (Session.run qs s).1.map (Except.map f) ∧
      K.Sessions (Session.run qs s).2 (Session.run qs' s').2 := by
  induction qs generalizing qs' s s' with
  | nil =>
    obtain rfl := List.map_eq_nil_iff.1 hq
    exact ⟨rfl, h⟩
  | cons q qs ih =>
    obtain ⟨q', qs', rfl, hq, hqs⟩ := List.map_eq_cons_iff.1 hq
    have ho := h.perform hs (hg q q' hq)
    have ht : K.Sessions (s.after q) (s'.after q') := ho.reached
    obtain ⟨ha, hr⟩ := ih hqs ht
    rw [run_cons, run_cons, run_cons_answers, run_cons_answers, List.map_cons, List.map_cons, ha]
    refine ⟨congrArg (fun o => o :: _) ?_, hr⟩
    generalize (Session.perform q).run s = x at ho ⊢
    generalize (Session.perform q').run s' = y at ho ⊢
    cases ho with
    | ok hr _ => exact congrArg Except.ok (hf _ _ hr)
    | error _ => rfl

end Likeness

end PhysicalHeap
