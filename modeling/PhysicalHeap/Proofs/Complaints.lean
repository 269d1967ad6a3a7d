import PhysicalHeap.Proofs.HandingOut
import PhysicalHeap.Proofs.Transcript

namespace PhysicalHeap

open Step Machine

def refusal {σ α : Type} : EStateM.Result Failure σ α → Option Refusal
  | .error (.refused r) _ => some r
  | _ => none

theorem Grid.roundUp_overflow_iff {g : Grid} {size : Word} :
    g.roundUp size = refuse .exhausted ↔ Word.range ≤ g.needed size * g.blockSize.toNat := by
  rw [needed, ← Word.ofNat?_eq_none, ← Word.roundUp?_eq_ofNat? g.blockSize_ne, roundUp]
  cases Word.roundUp? size g.blockSize with
  | none => exact iff_of_true rfl rfl
  | some w => exact ⟨fun h => (by cases h), fun h => (by cases h)⟩

namespace Journal

variable {j j' : Journal}

theorem Wrote.unique {ns ms : List Notice} (h : Wrote j j' ns) (h' : Wrote j j' ms) : ns = ms :=
  List.append_cancel_left (h.kept.symm.trans h'.kept)

theorem wrote_record_warn (hj : j.threshold = some .warn) (n : Notice) :
    Wrote j (j.record n) (Threshold.admitted (some .warn) [n]) :=
  hj ▸ j.wrote_record n

end Journal

namespace Recorded

inductive Hushed {α : Type} (r : Recorded) : EStateM.Result Failure Recorded α → Prop where
  | done {a : α} {r' : Recorded} (h : r.journal.Wrote r'.journal []) : Hushed r (.ok a r')
  | refused (e : Refusal) : Hushed r (.error (.refused e) r)

theorem hushed_free {r : Recorded} (hj : r.journal.threshold = some .warn) (g : Grid) (a : Address) :
    Hushed r ((free g a).run r) := by
  rw [run_free, Grid.run_free]
  cases hb : g.blockAt r.table a with
  | error e =>
    obtain rfl := Grid.blockAt_eq_error hb
    exact .refused _
  | ok i =>
    dsimp only
    cases hc : r.table.checkHead i with
    | error e =>
      obtain ⟨e, -, rfl⟩ := Table.checkHead_eq_error hc
      rw [Table.run_markFree_error hc]
      exact .refused e
    | ok u =>
      rw [Table.run_markFree_ok hc]
      exact .done (Journal.wrote_record_warn hj (.freed _ a))

end Recorded

namespace Arena

variable {s : Arena} {m : Machine}

theorem hushed_malloc (hs : s.Laid) (hlt : s.heapExtent.stop < Address.limit.toNat)
    (hj : m.journal.threshold = some .warn) (size : Word) :
    Recorded.Hushed ⟨s.table m, m.journal⟩
      ((Recorded.malloc s.grid size).run ⟨s.table m, m.journal⟩) := by
  have ho := offered_malloc hs hlt m size
  generalize (Recorded.malloc s.grid size).run ⟨s.table m, m.journal⟩ = o at ho ⊢
  cases ho with
  | refused => exact .refused _
  | @taken k a => exact .done (Journal.wrote_record_warn hj (.taken (s.grid.needed size) a))

def shortage (s : Arena) (size : Word) (m : Machine) : Option Refusal :=
  refusal ((Recorded.malloc s.grid size).run ⟨s.table m, m.journal⟩)

def protest (s : Arena) (a : Address) (m : Machine) : Option Refusal :=
  refusal ((Recorded.free s.grid a).run ⟨s.table m, m.journal⟩)

theorem reports_allocate (hs : s.Laid) (hlt : s.heapExtent.stop < Address.limit.toNat)
    (hj : m.journal.threshold = some .warn) (size : Word) :
    ∃ o m', (s.allocate size).run m = .ok o m' ∧ (o = none ↔ s.shortage size m ≠ none) ∧
      m.journal.Wrote m'.journal ((s.shortage size m).map (Notice.noRoom size)).toList := by
  have ho := hushed_malloc hs hlt hj size
  rw [run_allocate, shortage]
  generalize (Recorded.malloc s.grid size).run ⟨s.table m, m.journal⟩ = o at ho ⊢
  cases ho with
  | done h => exact ⟨_, _, rfl, ⟨nofun, fun h => absurd rfl h⟩, h⟩
  | refused e =>
    exact ⟨_, _, rfl, ⟨fun _ => nofun, fun _ => rfl⟩, Journal.wrote_record_warn hj (.noRoom size e)⟩

theorem reports_allocateZeroed (hs : s.Laid) (hlt : s.heapExtent.stop < Address.limit.toNat)
    (hj : m.journal.threshold = some .warn) (size : Word) :
    ∃ o m', (s.allocateZeroed size).run m = .ok o m' ∧ (o = none ↔ s.shortage size m ≠ none) ∧
      m.journal.Wrote m'.journal ((s.shortage size m).map (Notice.noRoomZeroed size)).toList := by
  have ho := hushed_malloc hs hlt hj size
  rw [run_allocateZeroed, shortage]
  generalize (Recorded.malloc s.grid size).run ⟨s.table m, m.journal⟩ = o at ho ⊢
  cases ho with
  | done h => exact ⟨_, _, rfl, ⟨nofun, fun h => absurd rfl h⟩, h⟩
  | refused e =>
    exact ⟨_, _, rfl, ⟨fun _ => nofun, fun _ => rfl⟩,
      Journal.wrote_record_warn hj (.noRoomZeroed size e)⟩

theorem reports_take (hs : s.Laid) (hlt : s.heapExtent.stop < Address.limit.toNat)
    (hj : m.journal.threshold = some .warn) {size : Word}
    (hn : s.grid.needed size * s.blockSize.toNat < Word.range) :
    ∃ o m', (Lease.take s size).run m = .ok o m' ∧ (o = none ↔ s.shortage size m ≠ none) ∧
      m.journal.Wrote m'.journal ((s.shortage size m).map (Notice.noRoom size)).toList := by
  have hsame : s.shortage size (s.store ⟨s.table m, m.journal⟩ m) = s.shortage size m := by
    rw [shortage, table_store (s.length_table m)]
    rfl
  obtain ⟨o, m', hrun, ho, hw⟩ :=
    reports_allocate (m := s.store ⟨s.table m, m.journal⟩ m) hs hlt hj size
  rw [hsame] at ho hw
  rw [Lease.run_take, Grid.roundUp_eq_ok.2 (UInt64.toNat_ofNat_of_lt' hn), hrun]
  cases o with
  | none => exact ⟨_, _, rfl, ⟨fun _ => ho.1 rfl, fun _ => rfl⟩, hw⟩
  | some a => exact ⟨_, _, rfl, ⟨nofun, fun h => absurd (ho.2 h) nofun⟩, hw⟩

theorem take_oversized {size : Word} (hn : Word.range ≤ s.grid.needed size * s.blockSize.toNat) :
    (Lease.take s size).run m = .ok none (s.store ⟨s.table m, m.journal⟩ m) ∧
      s.shortage size m = some .exhausted := by
  have hr := Grid.roundUp_overflow_iff.2 hn
  constructor
  · rw [Lease.run_take, hr]
    rfl
  · rw [shortage, Recorded.run_malloc, Grid.blocksFor_eq_error hr]
    rfl

theorem reports_release (hj : m.journal.threshold = some .warn) (a : Address) :
    ∃ m', (s.release a).run m = (s.protest a m).elim (.ok () m') (fun e => .error (.refused e) m') ∧
      m.journal.Wrote m'.journal ((s.protest a m).map (Notice.notReleased a)).toList := by
  have ho := Recorded.hushed_free (r := ⟨s.table m, m.journal⟩) hj s.grid a
  rw [run_release, protest]
  generalize (Recorded.free s.grid a).run ⟨s.table m, m.journal⟩ = o at ho ⊢
  cases ho with
  | done h => exact ⟨_, rfl, h⟩
  | refused e => exact ⟨_, rfl, Journal.wrote_record_warn hj (.notReleased a e)⟩

theorem reports_releaseRaw (hj : m.journal.threshold = some .warn) {pointer : Word}
    (hp : pointer < Address.limit) :
    ∃ m', (s.releaseRaw pointer).run m = .ok ((s.protest ⟨pointer⟩ m).elim 0 Refusal.status) m' ∧
      m.journal.Wrote m'.journal ((s.protest ⟨pointer⟩ m).map (Notice.notReleased ⟨pointer⟩)).toList := by
  obtain ⟨m', hrun, hw⟩ := reports_release (s := s) hj ⟨pointer⟩
  refine ⟨m', ?_, hw⟩
  rw [run_releaseRaw, Address.ofWord, if_pos hp]
  dsimp only
  rw [hrun]
  cases s.protest ⟨pointer⟩ m with
  | none => rfl
  | some e => rfl

theorem reports_drop (hj : m.journal.threshold = some .warn) (x : Lease) :
    ∃ m', (Lease.drop s x).run m = .ok () m' ∧ m.journal.Wrote m'.journal
      ((s.protest x.address m).map (Notice.notReleased x.address)).toList := by
  obtain ⟨m', hrun, hw⟩ := reports_release (s := s) hj x.address
  refine ⟨m', ?_, hw⟩
  rw [Lease.run_drop, hrun]
  cases s.protest x.address m with
  | none => rfl
  | some e => rfl

end Arena

def Request.Tells (o : Option Refusal) : Request → Except Failure Reply → Prop
  | allocate _, x | allocateZeroed _, x => ∃ a, x = .ok (.address a) ∧ (a = none ↔ o ≠ none)
  | allocateRaw _, x =>
    ∃ a : Option Address, x = .ok (.pointer (a.getD Address.null).word) ∧ (a = none ↔ o ≠ none)
  | lease _, x => ∃ l, x = .ok (.leased l) ∧ (l = none ↔ o ≠ none)
  | release _, x => x = o.elim (.ok .done) fun e => .error (.refused e)
  | releaseRaw _, x => x = .ok (.status (o.elim 0 Refusal.status))
  | drop _, x => ∃ r, x = .ok r
  | _, _ => True

namespace Session

variable {s : Session} {q : Request}

/-- Why the heap turns a request down, if it does. -/
def objection (s : Session) : Request → Option Refusal
  | .allocate size | .allocateZeroed size | .allocateRaw size | .lease size =>
    s.arena.shortage size s.machine
  | q => (s.returns q).bind fun a => s.arena.protest a s.machine

/-- What there is to be told of a request that is turned down: the bytes that it asks for, or the address
that it gives back, and why. -/
def due (s : Session) : Request → List Notice
  | .allocate size | .allocateRaw size | .lease size =>
    ((s.arena.shortage size s.machine).map (Notice.noRoom size)).toList
  | .allocateZeroed size => ((s.arena.shortage size s.machine).map (Notice.noRoomZeroed size)).toList
  | q => (s.returns q).elim [] fun a =>
    ((s.arena.protest a s.machine).map (Notice.notReleased a)).toList

structure Reports (s : Session) (q : Request) (ns : List Notice) : Prop where
  tells : q.Tells (s.objection q) (answer ((perform q).run s))
  wrote : s.machine.journal.Wrote (s.after q).machine.journal ns

theorem Reports.of_ok {r : Reply} {s' : Session} {ns : List Notice}
    (hrun : (perform q).run s = .ok r s') (ht : q.Tells (s.objection q) (.ok r))
    (hw : s.machine.journal.Wrote s'.machine.journal ns) : s.Reports q ns := by
  constructor
  · rw [hrun]
    exact ht
  · rw [after, hrun]
    exact hw

theorem Reports.of_error {e : Failure} {s' : Session} {ns : List Notice}
    (hrun : (perform q).run s = .error e s') (ht : q.Tells (s.objection q) (.error e))
    (hw : s.machine.journal.Wrote s'.machine.journal ns) : s.Reports q ns := by
  constructor
  · rw [hrun]
    exact ht
  · rw [after, hrun]
    exact hw

theorem due_drop (i : Nat) : s.due (.drop i) = (s.lease? i).elim [] fun x =>
    ((s.arena.protest x.address s.machine).map (Notice.notReleased x.address)).toList := by
  change ((s.lease? i).map Lease.address).elim [] _ = _
  cases s.lease? i with
  | none => rfl
  | some x => rfl

section Released

variable (hj : s.machine.journal.threshold = some .warn)

include hj

theorem reports_release (a : Address) : s.Reports (.release a) (s.due (.release a)) := by
  obtain ⟨m, hrun, hw⟩ := Arena.reports_release hj a
  have hperform := run_served (fun b => b.release a) (fun _ => Reply.done) s
  rw [hrun] at hperform
  have htells : ∀ o, s.arena.protest a s.machine = o → (Request.release a).Tells
      (s.objection (.release a)) (o.elim (.ok .done) fun e => .error (.refused e)) := by
    rintro o rfl
    exact rfl
  cases hp : s.arena.protest a s.machine with
  | none =>
    rw [hp] at hperform
    exact .of_ok hperform (htells _ hp) hw
  | some e =>
    rw [hp] at hperform
    exact .of_error hperform (htells _ hp) hw

theorem reports_releaseRaw {pointer : Word} (hp : pointer < Address.limit) :
    s.Reports (.releaseRaw pointer) (s.due (.releaseRaw pointer)) := by
  obtain ⟨m, hrun, hw⟩ := Arena.reports_releaseRaw hj hp
  have hperform := run_served (fun b => b.releaseRaw pointer) Reply.status s
  rw [hrun] at hperform
  exact .of_ok hperform rfl hw

theorem reports_drop (i : Nat) : s.Reports (.drop i) (s.due (.drop i)) := by
  rw [due_drop]
  cases hx : s.lease? i with
  | none =>
    have hperform : (perform (.drop i)).run s = .ok .noLease s := by
      rw [perform, run_onLease, hx]
    exact .of_ok hperform ⟨_, rfl⟩ (.refl _)
  | some x =>
    obtain ⟨m, hrun, hw⟩ := Arena.reports_drop (s := s.arena) hj x
    have hperform : (perform (.drop i)).run s =
        .ok .done { s with machine := m, leases := s.leases.set i none } := by
      simp only [perform, run_onLease, hx, leave, EStateM.run_bind, EStateM.run_modify, EStateM.run_get,
        run_onMachine, hrun]
      rfl
    exact .of_ok hperform ⟨_, rfl⟩ hw

end Released

section Asked

variable (hs : s.arena.Laid) (hlt : s.arena.heapExtent.stop < Address.limit.toNat)
  (hj : s.machine.journal.threshold = some .warn)

include hs hlt hj

theorem reports_allocate (size : Word) : s.Reports (.allocate size) (s.due (.allocate size)) := by
  obtain ⟨o, m, hrun, ho, hw⟩ := Arena.reports_allocate hs hlt hj size
  have hperform := run_served (fun b => b.allocate size) Reply.address s
  rw [hrun] at hperform
  exact .of_ok hperform ⟨o, rfl, ho⟩ hw

theorem reports_allocateZeroed (size : Word) :
    s.Reports (.allocateZeroed size) (s.due (.allocateZeroed size)) := by
  obtain ⟨o, m, hrun, ho, hw⟩ := Arena.reports_allocateZeroed hs hlt hj size
  have hperform := run_served (fun b => b.allocateZeroed size) Reply.address s
  rw [hrun] at hperform
  exact .of_ok hperform ⟨o, rfl, ho⟩ hw

theorem reports_allocateRaw (size : Word) :
    s.Reports (.allocateRaw size) (s.due (.allocateRaw size)) := by
  obtain ⟨o, m, hrun, ho, hw⟩ := Arena.reports_allocate hs hlt hj size
  have hperform := run_served (fun b => b.allocateRaw size) Reply.pointer s
  rw [Arena.run_allocateRaw, hrun] at hperform
  exact .of_ok hperform ⟨o, rfl, ho⟩ hw

theorem reports_lease {size : Word}
    (hn : s.arena.grid.needed size * s.arena.blockSize.toNat < Word.range) :
    s.Reports (.lease size) (s.due (.lease size)) := by
  obtain ⟨o, m, hrun, ho, hw⟩ := Arena.reports_take hs hlt hj hn
  have hperform := run_perform_lease s size
  rw [hrun] at hperform
  cases o with
  | none => exact .of_ok hperform ⟨none, rfl, fun _ => ho.1 rfl, fun _ => rfl⟩ hw
  | some x => exact .of_ok hperform ⟨_, rfl, nofun, fun h => absurd (ho.2 h) nofun⟩ hw

end Asked

theorem reports_lease_oversized {size : Word}
    (hn : Word.range ≤ s.arena.grid.needed size * s.arena.blockSize.toNat) :
    s.Reports (.lease size) [] ∧ s.objection (.lease size) = some .exhausted := by
  obtain ⟨hrun, hshort⟩ := Arena.take_oversized (m := s.machine) hn
  have hobjection : s.objection (.lease size) = some .exhausted := hshort
  have hperform := run_perform_lease s size
  rw [hrun] at hperform
  refine ⟨.of_ok hperform ⟨none, rfl, fun _ => ?_, fun _ => rfl⟩ (.refl _), hobjection⟩
  rw [hobjection]
  exact nofun

/-- Whether a request is for a lease of more bytes than a word can tell. -/
def Oversized (s : Session) (q : Request) : Prop :=
  ∃ size, q = .lease size ∧ Word.range ≤ s.arena.grid.needed size * s.arena.blockSize.toNat

/-- Every other request prints what is due. -/
theorem reports_due (hs : s.arena.Laid) (hlt : s.arena.heapExtent.stop < Address.limit.toNat)
    (hj : s.machine.journal.threshold = some .warn)
    (hq : ∀ pointer, q = .releaseRaw pointer → pointer < Address.limit) (ho : ¬ s.Oversized q) :
    s.Reports q (s.due q) := by
  cases q with
  | allocate size => exact reports_allocate hs hlt hj size
  | allocateZeroed size => exact reports_allocateZeroed hs hlt hj size
  | allocateRaw size => exact reports_allocateRaw hs hlt hj size
  | release a => exact reports_release hj a
  | releaseRaw pointer => exact reports_releaseRaw hj (hq pointer rfl)
  | lease size => exact reports_lease hs hlt hj (Nat.lt_of_not_le fun hn => ho ⟨size, rfl, hn⟩)
  | drop i => exact reports_drop hj i
  | lengthAt a =>
    refine ⟨trivial, ?_⟩
    rw [after_lengthAt, Arena.run_lengthAt]
    cases s.arena.grid.lengthAt (s.arena.table s.machine) a with
    | ok n => exact .refl _
    | error e => exact .refl _
  | stats =>
    refine ⟨trivial, ?_⟩
    rw [after_stats, Arena.run_stats]
    exact .refl _
  | write i k b =>
    refine ⟨trivial, ?_⟩
    rw [after_write_eq]
    cases s.lease? i with
    | none => exact .refl _
    | some x =>
      dsimp only
      rw [Lease.run_write]
      by_cases hk : k < x.length
      · rw [if_pos hk]
        exact .refl _
      · rw [if_neg hk]
        exact .refl _
  | read i =>
    refine ⟨trivial, ?_⟩
    rw [after_read]
    exact .refl _
  | scrub i =>
    refine ⟨trivial, ?_⟩
    rw [after_scrub]
    cases s.lease? i with
    | none => exact .refl _
    | some x => exact .refl _
  | surrender i =>
    refine ⟨trivial, ?_⟩
    rw [after_surrender]
    cases s.lease? i with
    | none => exact .refl _
    | some x => exact .refl _

/-- At every point of a run, with any journal that records warnings and nothing less grave, a request prints
one line if it is turned down, which tells what was asked for or given back and why, and none otherwise. Only
a lease of more bytes than a word can tell is turned down without a line. -/
theorem refusals_reported {p : Placement} (hp : p.heapExtent.stop < Address.limit.toNat)
    {m₀ m : Machine} {a : Arena} (h : (Arena.init p).run m₀ = .ok a m) (qs : List Request) {j : Journal}
    (hj : j.threshold = some .warn) (q : Request)
    (hq : ∀ pointer, q = .releaseRaw pointer → pointer < Address.limit) :
    let s₀ := (run qs ⟨a, m, []⟩).2
    let s : Session := { s₀ with machine := { s₀.machine with journal := j } }
    q.Tells (s.objection q) (answer ((perform q).run s)) ∧
      (j.Wrote (s.after q).machine.journal (s.due q) ↔ ¬ s.Oversized q) ∧
      (s.Oversized q → s.objection q = some .exhausted ∧ j.Wrote (s.after q).machine.journal []) := by
  intro s₀ s
  obtain ⟨rfl, hlaid, -⟩ := Arena.init_eq_ok h
  have harena : s.arena = a := arena_run qs _
  have hjournal : s.machine.journal = j := rfl
  clear_value s
  subst harena hjournal
  by_cases ho : s.Oversized q
  · obtain ⟨size, rfl, hn⟩ := ho
    obtain ⟨hr, he⟩ := reports_lease_oversized hn
    refine ⟨hr.tells, ⟨fun hw => ?_, fun hno => absurd ⟨size, rfl, hn⟩ hno⟩, fun _ => ⟨he, hr.wrote⟩⟩
    have hdue : s.due (.lease size) = [.noRoom size .exhausted] := by
      change ((s.objection (.lease size)).map _).toList = _
      rw [he]
      rfl
    -- a journal that printed nothing cannot have printed this
    rw [hdue] at hw
    cases hr.wrote.unique hw
  · have hr := reports_due hlaid hp hj hq ho
    exact ⟨hr.tells, ⟨fun _ => ho, fun _ => hr.wrote⟩, fun h => absurd h ho⟩

theorem refusals_reported_oversized :
    let p : Placement := ⟨0x42000000, 0x2000, 0x41000000, 4096⟩
    let a : Arena := ⟨p, by decide⟩
    let m := reached ((Arena.init p).run Board.machine)
    let j : Journal := ⟨some .warn, (Board.console Board.serialBase).start, []⟩
    let s : Session := ⟨a, { m with journal := j }, []⟩
    let most : Word := 0xFFFFFFFFFFFFFFFF
    let lost : Notice := .noRoom most .exhausted
    (Arena.init p).run Board.machine = .ok a m ∧
      (answer ((perform (.lease most)).run s)).toOption = some (.leased none) ∧
      s.due (.lease most) = [lost] ∧
      lost.line = "[WARN] blockheap_kernel::mm::kheap: kernel heap: allocation of " ++
        "18446744073709551615 bytes failed: out of heap memory\n" ∧
      j.Wrote (s.after (.lease most)).machine.journal [] ∧
      ¬ j.Wrote (s.after (.lease most)).machine.journal [lost] ∧
      j.Wrote (s.after (.allocateZeroed most)).machine.journal [.noRoomZeroed most .exhausted] := by
  intro p a m j s most lost
  have h : (Arena.init p).run Board.machine = .ok a m := Arena.init_of_starts (by decide +kernel) a.2
  have hdue : s.due (.lease most) = [lost] := by decide +kernel
  have hdue' : s.due (.allocateZeroed most) = [.noRoomZeroed most .exhausted] := by decide +kernel
  have hover : s.Oversized (.lease most) := ⟨most, rfl, by decide⟩
  obtain ⟨-, hiff, hsilent⟩ := refusals_reported (by decide) h [] (j := j) rfl (.lease most) nofun
  obtain ⟨-, hiff', -⟩ := refusals_reported (by decide) h [] (j := j) rfl (.allocateZeroed most) nofun
  have hnever := fun hw => hiff.1 hw hover
  have hprints := hiff'.2 fun ⟨_, hlease, _⟩ => (by cases hlease)
  exact ⟨h, by decide +kernel, hdue, by decide +kernel, (hsilent hover).2, hdue ▸ hnever,
    hdue' ▸ hprints⟩

end Session

end PhysicalHeap
