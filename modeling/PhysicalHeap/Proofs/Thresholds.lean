import PhysicalHeap.Board
import PhysicalHeap.Proofs.Likeness
import PhysicalHeap.Proofs.Transcript

namespace PhysicalHeap

open Step Machine

namespace Arena

/-- Where all addresses up to the end of the heap have 48 bits, the closing record never fails, whether
it is admitted or not. -/
theorem run_init_of_lt {s : Arena} (hs : s.heapExtent.stop < Address.limit.toNat) (m : Machine) :
    (init s.toPlacement).run m = match s.toPlacement.stop with
      | .error e => .error e m
      | .ok stop =>
        match (Recorded.create ⟨s.base⟩ stop s.blockSize).run ⟨s.table m, m.journal⟩ with
        | .error (.refused e) r => .error (.refused e)
            { s.store r m with journal := r.journal.record (.notReady e) }
        | .error (.halted f) r => .error (.halted f) (s.store r m)
        | .ok g r => .ok s { s.store r m with
            journal := r.journal.record (.ready g.base stop s.total s.blockSize s.tableBase) } := by
  rw [run_init]
  cases hstop : s.toPlacement.stop with
  | error e => rfl
  | ok stop =>
    dsimp only
    cases hc : (Recorded.create ⟨s.base⟩ stop s.blockSize).run ⟨s.table m, m.journal⟩ with
    | error e r => cases e <;> rfl
    | ok g r =>
      have hr := Recorded.length_of_create hc
      obtain ⟨-, -, -, hp⟩ := Recorded.run_create_eq_ok hc
      have hend : g.stop (s.table (s.store r m)) = .ok stop := by
        rw [table_store (hr.trans (s.length_table m)), Grid.stop_eq_ofWord (hr ▸ hp)]
        exact Address.ofWord_eq_ok.2 ⟨rfl, Placement.stop_eq_ok hstop ▸ hs⟩
      dsimp only
      by_cases hi : r.journal.admits .info = true
      · rw [if_pos hi, hend]
      · have hrecord : r.journal.record (.ready g.base stop s.total s.blockSize s.tableBase) = r.journal :=
          if_neg hi
        rw [if_neg hi, hrecord]
        rfl

end Arena

namespace Likeness

variable {s : Arena} {K : Likeness s} {m m' : Machine}

theorem Machines.init (hs : s.heapExtent.stop < Address.limit.toNat) (h : K.Machines m m') :
    Alike Eq K.Machines ((Arena.init s.toPlacement).run m) ((Arena.init s.toPlacement).run m') := by
  rw [Arena.run_init_of_lt hs, Arena.run_init_of_lt hs]
  cases s.toPlacement.stop with
  | error e => exact .error h
  | ok stop =>
    have ho := Recorded.alike_create K.told h.beside ⟨s.base⟩ stop s.blockSize
    dsimp only
    generalize (Recorded.create ⟨s.base⟩ stop s.blockSize).run ⟨s.table m, m.journal⟩ = x at ho ⊢
    generalize (Recorded.create ⟨s.base⟩ stop s.blockSize).run ⟨s.table m', m'.journal⟩ = y at ho ⊢
    cases ho with
    | ok hg hr =>
      subst hg
      exact .ok rfl ⟨(h.store hr).memory, K.told _ _ _ hr.journal⟩
    | @error e _ _ hr =>
      cases e with
      | refused e => exact .error ⟨(h.store hr).memory, K.told _ _ _ hr.journal⟩
      | halted f => exact .error (h.store hr)

end Likeness

theorem Reply.Like.eq {r r' : Reply} (h : r.Like Eq r') : r = r' := by
  cases h with
  | same => rfl
  | bytes h => rw [h]

theorem Request.Like.of_eq {q q' : Request} (h : q' = q) : q.Like Eq q' := by
  subst h
  exact .same _

def Journal.Along (j₀ k₀ j k : Journal) : Prop := ∃ ns, j = j₀.recordAll ns ∧ k = k₀.recordAll ns

def Arena.sieve (s : Arena) (j₀ k₀ : Journal) : Likeness s where
  memory := Eq
  journal := Journal.Along j₀ k₀
  byte := Eq
  seen := Eq
  read := by
    rintro x _ rfl
    rfl
  write := by
    rintro x _ t rfl -
    rfl
  fill := by
    rintro x _ e b _ rfl _ rfl
    rfl
  window := by
    rintro x _ start n rfl
    rfl
  refl _ := rfl
  told := by
    rintro j k n ⟨ns, rfl, rfl⟩
    exact ⟨ns ++ [n], (j₀.recordAll_snoc ns n).symm, (k₀.recordAll_snoc ns n).symm⟩

def Machine.withThreshold (t : Threshold) (m : Machine) : Machine :=
  { m with journal := { m.journal with threshold := t } }

/-- What one step did to two machines: their memories are the same after it, and of the notices that the
second has kept and printed in it the first has kept and printed those that the threshold admits. -/
structure Machine.Sifted (t : Threshold) (low full low' full' : Machine) : Prop where
  memory : low'.memory = full'.memory
  lines : ∃ ns, full.journal.Wrote full'.journal ns ∧ low.journal.Wrote low'.journal (t.admitted ns)

namespace Likeness

variable {a : Arena} {j k : Journal} {low full low' full' : Machine}

theorem Machines.sifted {t : Threshold} (hlow : low.journal.threshold = t) (hfull : full.journal.threshold = some .trace)
    (h : (a.sieve low.journal full.journal).Machines low' full') : Sifted t low full low' full' := by
  obtain ⟨ns, hj, hk⟩ := h.journal
  refine ⟨h.memory, ns, ?_, ?_⟩
  · rw [hk]
    have hwrote := full.journal.wrote_recordAll ns
    rwa [hfull, Threshold.admitted_trace] at hwrote
  · rw [hj, ← hlow]
    exact low.journal.wrote_recordAll ns

theorem Machines.threshold (h : (a.sieve j k).Machines low full) :
    low.journal.threshold = j.threshold ∧ full.journal.threshold = k.threshold := by
  obtain ⟨ns, hj, hk⟩ := h.journal
  rw [hj, hk]
  exact ⟨j.threshold_recordAll ns, k.threshold_recordAll ns⟩

theorem Sessions.renew {s s' : Session} (h : (a.sieve j k).Sessions s s') :
    (a.sieve s.machine.journal s'.machine.journal).Sessions s s' :=
  ⟨h.arena, h.arena', h.leases, h.within, h.machine.memory, [], rfl, rfl⟩

end Likeness

namespace Session

/-- A journal takes no part in what a heap does: from its setting up on, a machine with any threshold
gives the same answers and has the same memory as one that records everything, and of the lines that the
latter prints in a step it prints those that its threshold admits, in their order. -/
theorem thresholds_sift {p : Placement} (hp : p.heapExtent.stop < Address.limit.toNat) (m₀ : Machine)
    (t : Threshold) :
    let x := (Arena.init p).run (m₀.withThreshold t)
    let y := (Arena.init p).run (m₀.withThreshold (some .trace))
    answer x = answer y ∧
      Sifted t (m₀.withThreshold t) (m₀.withThreshold (some .trace)) (reached x) (reached y) ∧
      ∀ a, answer x = .ok a → ∀ qs q,
        let s := (run qs ⟨a, reached x, []⟩).2
        let s' := (run qs ⟨a, reached y, []⟩).2
        answer ((perform q).run s) = answer ((perform q).run s') ∧
          Sifted t s.machine s'.machine (s.after q).machine (s'.after q).machine := by
  intro x y
  by_cases h0 : p.blockSize = 0
  · have hinit := Arena.run_init_of_eq_zero h0
    rw [show x = _ from hinit _, show y = _ from hinit _]
    exact ⟨rfl, ⟨rfl, [], .refl _, .refl _⟩, nofun⟩
  have hstart : ((Arena.mk p h0).sieve (m₀.withThreshold t).journal
      (m₀.withThreshold (some .trace)).journal).Machines (m₀.withThreshold t)
      (m₀.withThreshold (some .trace)) := ⟨rfl, [], rfl, rfl⟩
  have ho := hstart.init hp
  refine ⟨ho.answer_eq, ho.reached.sifted rfl rfl, fun a ha qs q => ?_⟩
  obtain ⟨m, hm⟩ := exists_of_answer_eq_ok ha
  obtain ⟨rfl, hlaid, -⟩ := Arena.init_eq_ok hm
  have hids : qs.map id = qs.map id := rfl
  obtain ⟨-, hrun⟩ :=
    ho.reached.sessions.run hlaid (f := id) (fun _ _ h => h.eq.symm) (fun _ _ => .of_eq) hids
  obtain ⟨hlow, hfull⟩ := hrun.machine.threshold
  have hstep := hrun.renew.perform hlaid (.same q)
  exact ⟨(hstep.mono fun _ _ => Reply.Like.eq).answer_eq, hstep.reached.machine.sifted hlow hfull⟩

theorem thresholds_sift_info :
    let p : Placement := ⟨0x42000000, 0x2000, 0x41000000, 4096⟩
    let a : Arena := ⟨p, by decide⟩
    let x := (Arena.init p).run (Board.machine.withThreshold (some .info))
    let y := (Arena.init p).run (Board.machine.withThreshold (some .trace))
    let qs : List Request := [.lease 1, .release ⟨0x42001000⟩]
    let s := (run qs ⟨a, reached x, []⟩).2
    let s' := (run qs ⟨a, reached y, []⟩).2
    let ready : Notice := .ready ⟨0x42000000⟩ ⟨0x42002000⟩ 2 4096 0x41000000
    p.heapExtent.stop < Address.limit.toNat ∧ answer x = .ok a ∧
      (s.after (.drop 0)).machine.journal.kept = [ready, .notReleased ⟨0x42001000⟩ .notTaken] ∧
      (s'.after (.drop 0)).machine.journal.kept =
        [.created ⟨0x42000000⟩ ⟨0x42002000⟩ 2 4096, ready, .taken 1 ⟨0x42000000⟩,
          .notReleased ⟨0x42001000⟩ .notTaken, .freed 1 ⟨0x42000000⟩] ∧
      answer ((perform (.drop 0)).run s) = answer ((perform (.drop 0)).run s') ∧
      Sifted (some .info) s.machine s'.machine (s.after (.drop 0)).machine
        (s'.after (.drop 0)).machine := by
  intro p a x y qs s s' ready
  have hp : p.heapExtent.stop < Address.limit.toNat := by decide
  have hx : x = .ok a (reached x) := Arena.init_of_starts (by decide +kernel) a.2
  have ha : answer x = .ok a := by
    rw [hx]
    rfl
  obtain ⟨-, -, hrun⟩ := thresholds_sift hp Board.machine (some .info)
  refine ⟨hp, ha, by decide +kernel, by decide +kernel, ?_⟩
  -- unfolding more than the names of the sessions would run them
  with_reducible exact hrun a ha qs (.drop 0)

end Session

end PhysicalHeap
