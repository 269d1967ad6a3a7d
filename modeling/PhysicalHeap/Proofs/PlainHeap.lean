import PhysicalHeap.Board
import PhysicalHeap.Proofs.Likeness

namespace PhysicalHeap

open Step Machine

/-- What an arena and a heap with a table of its own can both be asked. -/
inductive Call where
  | malloc (size : Word)
  | free (a : Address)
  | lengthAt (a : Address)
  | stats
  deriving DecidableEq

namespace Call

def perform (g : Grid) : Call → Step Recorded Reply
  | malloc size => do return .address (some (← Recorded.malloc g size))
  | free a => do
    Recorded.free g a
    return .done
  | lengthAt a => do return .count (← judged (g.lengthAt (← get).table a))
  | stats => do return .stats (g.stats (← get).table)

def run (g : Grid) : List Call → Recorded → List (Except Failure Reply) × Recorded
  | [], r => ([], r)
  | c :: cs, r =>
    let x := (c.perform g).run r
    let (as, r) := run g cs (reached x)
    (answer x :: as, r)

def request : Call → Request
  | malloc size => .allocate size
  | free a => .release a
  | lengthAt a => .lengthAt a
  | stats => .stats

def put : Call → Except Failure Reply → Except Failure Reply
  | malloc _, .error (.refused _) => .ok (.address none)
  | _, o => o

end Call

namespace Arena

variable {s : Arena} {m₀ m : Machine} {r : Recorded}

/-- The table in memory is that of a heap with a table of its own, and all memory around it is as it was
once. -/
structure Hosts (s : Arena) (m₀ m : Machine) (r : Recorded) : Prop where
  table : r.table = s.table m
  around : ∀ p, p ∉ s.tableExtent → m.memory.byteAt p = m₀.memory.byteAt p

theorem Hosts.beside (h : s.Hosts m₀ m r) :
    Recorded.Beside s.total (fun _ _ => True) ⟨s.table m, m.journal⟩ r :=
  ⟨h.table, s.length_table m, trivial⟩

theorem Hosts.store (h : s.Hosts m₀ m r) {u u' : Recorded}
    (hu : Recorded.Beside s.total (fun _ _ => True) u u') (j : Journal) :
    s.Hosts m₀ { s.store u m with journal := j } u' := by
  constructor
  · rw [hu.table]
    exact (table_store hu.length).symm
  · intro p hp
    exact (byteAt_store hu.length hp).trans (h.around p hp)

end Arena

namespace Call

variable {a : Arena} {m₀ : Machine} {s : Session} {r : Recorded}

/-- An arena answers a call as the heap with a table of its own does, and hosts it afterwards. -/
theorem perform_request (hs : s.arena = a) (h : a.Hosts m₀ s.machine r) (c : Call) :
    answer ((Session.perform c.request).run s) = c.put (answer ((c.perform a.grid).run r)) ∧
      a.Hosts m₀ (s.after c.request).machine (reached ((c.perform a.grid).run r)) := by
  subst hs
  have told : Recorded.Told fun _ _ => True := fun _ _ _ _ => trivial
  rw [Session.after]
  cases c with
  | malloc size =>
    have ho := Recorded.alike_malloc told h.beside s.arena.grid size
    rw [request, Session.perform, Session.run_served fun a => a.allocate size, Arena.run_allocate]
    simp only [perform, EStateM.run_bind]
    generalize (Recorded.malloc s.arena.grid size).run _ = x at ho ⊢
    generalize (Recorded.malloc s.arena.grid size).run r = y at ho ⊢
    cases ho with
    | ok ha hr =>
      subst ha
      exact ⟨rfl, h.store hr _⟩
    | @error e _ _ hr =>
      cases e with
      | refused e => exact ⟨rfl, h.store hr _⟩
      | halted f => exact ⟨rfl, h.store hr _⟩
  | free a =>
    have ho := Recorded.alike_free told h.beside s.arena.grid a
    rw [request, Session.perform, Session.run_served (fun b => b.release a) fun _ => .done,
      Arena.run_release]
    simp only [perform, EStateM.run_bind]
    generalize (Recorded.free s.arena.grid a).run _ = x at ho ⊢
    generalize (Recorded.free s.arena.grid a).run r = y at ho ⊢
    cases ho with
    | ok ha hr => exact ⟨rfl, h.store hr _⟩
    | @error e _ _ hr =>
      cases e with
      | refused e => exact ⟨rfl, h.store hr _⟩
      | halted f => exact ⟨rfl, h.store hr _⟩
  | lengthAt a =>
    rw [request, Session.perform, Session.run_served fun b => b.lengthAt a, Arena.run_lengthAt]
    simp only [perform, EStateM.run_bind, EStateM.run_get, h.table]
    cases s.arena.grid.lengthAt (s.arena.table s.machine) a with
    | ok n => exact ⟨rfl, h.store h.beside _⟩
    | error e => exact ⟨rfl, h.store h.beside _⟩
  | stats =>
    rw [request, Session.perform, Session.run_served fun a => a.stats, Arena.run_stats]
    simp only [perform, EStateM.run_bind, EStateM.run_get, h.table]
    exact ⟨rfl, h.store h.beside _⟩

theorem run_requests (hs : s.arena = a) (h : a.Hosts m₀ s.machine r) (cs : List Call) :
    (Session.run (cs.map request) s).1 = cs.zipWith put (run a.grid cs r).1 ∧
      a.Hosts m₀ (Session.run (cs.map request) s).2.machine (run a.grid cs r).2 := by
  induction cs generalizing s r with
  | nil => exact ⟨rfl, h⟩
  | cons c cs ih =>
    obtain ⟨hanswer, hhosts⟩ := perform_request hs h c
    obtain ⟨hanswers, hrest⟩ := ih ((Session.arena_after s c.request).trans hs) hhosts
    rw [List.map_cons, Session.run_cons_answers, Session.run_cons, hanswer, hanswers]
    exact ⟨rfl, hrest⟩

/-- An arena is a heap with a table of its own, but for where the table lies: each call is answered
alike, and leaves the same table in memory and nothing else changed there. -/
theorem run_hosted {p : Placement} {m₀ m : Machine} {a : Arena}
    (h : (Arena.init p).run m₀ = .ok a m) :
    ∃ stop, p.stop = .ok stop ∧ ∀ r₀ : Recorded, r₀.table.length = p.total →
      ∃ r, (Recorded.create ⟨p.base⟩ stop p.blockSize).run r₀ = .ok a.grid r ∧
        ∀ cs : List Call,
          let s := (Session.run (cs.map request) ⟨a, m, []⟩).2
          (Session.run (cs.map request) ⟨a, m, []⟩).1 = cs.zipWith put (run a.grid cs r).1 ∧
            s.machine.memory.read p.tableBase.toNat p.total = (run a.grid cs r).2.table ∧
            ∀ b, b ∉ p.tableExtent → s.machine.memory.byteAt b = m₀.memory.byteAt b := by
  obtain ⟨stop, u, rfl, hstop, hc, hm⟩ := Arena.exists_create_of_init h
  have hu := (Recorded.length_of_create hc).trans (a.length_table m₀)
  refine ⟨stop, hstop, fun r₀ hr₀ => ?_⟩
  obtain ⟨r, hc', hr, -⟩ := Recorded.exists_create_congr hc (hr₀.trans (a.length_table m₀).symm)
  have hhosts : a.Hosts m₀ m r := by
    constructor
    · rw [hr, Arena.table, hm]
      exact (Arena.table_store hu).symm
    · intro p hp
      rw [hm]
      exact Arena.byteAt_store hu hp
  refine ⟨r, hc', fun cs => ?_⟩
  obtain ⟨hanswers, hend⟩ := run_requests (s := ⟨a, m, []⟩) rfl hhosts cs
  exact ⟨hanswers, hend.table.symm, hend.around⟩

theorem run_hosted_overlapping :
    let p : Placement := ⟨0x42000000, 0x4000, 0x42003000, 4096⟩
    let a : Arena := ⟨p, by decide⟩
    let m := reached ((Arena.init p).run Board.machine)
    let r₀ : Recorded := ⟨[0xC1, 0x81, 0x81, 0x01], Board.machine.journal⟩
    let cs : List Call := [.malloc 4097, .malloc 0, .malloc 1, .malloc 0x2000, .free ⟨0x42001000⟩,
      .lengthAt ⟨0x42000000⟩, .free ⟨0x42000000⟩, .stats]
    let s := (Session.run (cs.map request) ⟨a, m, []⟩).2
    (Arena.init p).run Board.machine = .ok a m ∧ p.stop = .ok ⟨0x42004000⟩ ∧
      s.machine.memory.read p.tableBase.toNat p.total = [0x00, 0x00, 0x41, 0x00] ∧
      ∃ r, (Recorded.create ⟨0x42000000⟩ ⟨0x42004000⟩ 4096).run r₀ = .ok a.grid r ∧
        (Session.run (cs.map request) ⟨a, m, []⟩).1 = cs.zipWith put (run a.grid cs r).1 ∧
        (run a.grid cs r).2.table = [0x00, 0x00, 0x41, 0x00] := by
  intro p a m r₀ cs s
  have h : (Arena.init p).run Board.machine = .ok a m := Arena.init_of_starts (by decide +kernel) a.2
  have ht : s.machine.memory.read p.tableBase.toNat p.total = [0x00, 0x00, 0x41, 0x00] := by decide +kernel
  have hp : p.heapExtent.stop = 0x42004000 := by decide
  obtain ⟨stop, hstop, hosted⟩ := run_hosted h
  obtain rfl : stop = ⟨0x42004000⟩ := Address.toNat_inj ((Placement.stop_eq_ok hstop).trans hp)
  obtain ⟨r, hc, hrun⟩ := hosted r₀ (by decide)
  obtain ⟨hanswers, htable, -⟩ := hrun cs
  exact ⟨h, hstop, ht, r, hc, hanswers, htable.symm.trans ht⟩

end Call

end PhysicalHeap
