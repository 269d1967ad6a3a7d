import PhysicalHeap.Board
import PhysicalHeap.Proofs.Tenancy

namespace PhysicalHeap

def Ledger.settleAll : List Request → Session → Ledger → Ledger
  | [], _, l => l
  | q :: qs, s, l => settleAll qs (s.after q) (l.settle s q)

namespace Session

/-- Whether no request of a run endangers a lease. -/
def respectful : List Request → Session → Bool
  | [], _ => true
  | q :: qs, s => !s.endangers q && respectful qs (s.after q)

variable {s : Session} {l : Ledger}

theorem run_cons (q : Request) (qs : List Request) (s : Session) :
    (run (q :: qs) s).2 = (run qs (s.after q)).2 := by
  rw [run, after]
  cases (perform q).run s with
  | ok a s' => rfl
  | error e s' => rfl

theorem run_append (qs qs' : List Request) (s : Session) :
    (run (qs ++ qs') s).2 = (run qs' (run qs s).2).2 := by
  induction qs generalizing s with
  | nil => rfl
  | cons q qs ih => rw [List.cons_append, run_cons, run_cons, ih]

theorem arena_run (qs : List Request) (s : Session) : (run qs s).2.arena = s.arena := by
  induction qs generalizing s with
  | nil => rfl
  | cons q qs ih => rw [run_cons, ih, arena_after]

theorem respectful_append (qs qs' : List Request) (s : Session) :
    respectful (qs ++ qs') s = (respectful qs s && respectful qs' (run qs s).2) := by
  induction qs generalizing s with
  | nil => rfl
  | cons q qs ih => rw [List.cons_append, respectful, respectful, run_cons, ih, Bool.and_assoc]

theorem respectful_cons {q : Request} {qs : List Request} (h : respectful (q :: qs) s = true) :
    s.endangers q = false ∧ respectful qs (s.after q) = true := by
  rw [respectful, Bool.and_eq_true, Bool.not_eq_true'] at h
  exact h

theorem Sound.run (h : Sound s l) (qs : List Request) :
    Sound (run qs s).2 (Ledger.settleAll qs s l) := by
  induction qs generalizing s l with
  | nil => exact h
  | cons q qs ih =>
    rw [run_cons]
    exact ih (h.after q)

theorem Owned.run (h : Sound s l) (ho : Owned s l) {qs : List Request} (hr : respectful qs s = true) :
    Owned (run qs s).2 (Ledger.settleAll qs s l) := by
  induction qs generalizing s l with
  | nil => exact ho
  | cons q qs ih =>
    obtain ⟨hq, hr⟩ := respectful_cons hr
    rw [run_cons]
    exact ih (h.after q) (ho.step h (effect_after h q) hq) hr

theorem lease?_of_run (h : Sound s l) {qs : List Request} {i : Nat} {x : Lease}
    (hi : i < s.leases.length) (hx : (run qs s).2.lease? i = some x) : s.lease? i = some x := by
  induction qs generalizing s l with
  | nil => exact hx
  | cons q qs ih =>
    rw [run_cons] at hx
    have he := effect_after h q
    exact he.lease?_of_lt hi (ih (h.after q) (Nat.lt_of_lt_of_le hi he.length_le) hx)

theorem byte_kept_run (h : Sound s l) (ho : Owned s l) {qs : List Request} (hr : respectful qs s = true)
    {i : Nat} {x : Lease} (hx : (run qs s).2.lease? i = some x) (hi : i < s.leases.length) {k : Word}
    (hk : k < x.length) (hq : ∀ q ∈ qs, q.rewrites i k = false) :
    (run qs s).2.machine.memory.byteAt (x.extent.start + k.toNat) =
      s.machine.memory.byteAt (x.extent.start + k.toNat) := by
  have hx₀ := lease?_of_run h hi hx
  induction qs generalizing s l with
  | nil => rfl
  | cons q qs ih =>
    obtain ⟨hq₀, hr⟩ := respectful_cons hr
    have he := effect_after h q
    have hi' := Nat.lt_of_lt_of_le hi he.length_le
    rw [run_cons] at hx ⊢
    have hstep := ho.byte_kept h he hx₀ hk (hq q List.mem_cons_self)
    have hrest := ih (h.after q) (ho.step h he hq₀) hr hx hi'
      (fun q' hq' => hq q' (List.mem_cons_of_mem _ hq')) (lease?_of_run (h.after q) hi' hx)
    exact hrest.trans hstep

theorem sound_init {p : Placement} {m₀ m : Machine} {a : Arena} (h : (Arena.init p).run m₀ = .ok a m)
    (hd : p.heapExtent.overlaps p.tableExtent = false) : Sound ⟨a, m, []⟩ [] := by
  obtain ⟨rfl, hlaid, hm⟩ := Arena.init_eq_ok h
  exact ⟨hlaid, hd, hm, nofun, fun i x hx => (by cases lease?_lt hx)⟩

theorem owned_init (a : Arena) (m : Machine) : Owned ⟨a, m, []⟩ [] :=
  fun _ _ hx => (by cases lease?_lt hx)

theorem after_write {i : Nat} {x : Lease} (hx : s.lease? i = some x) {k : Word} (hk : k < x.length)
    (b : UInt8) :
    (s.after (.write i k b)).lease? i = some x ∧
      (s.after (.write i k b)).machine.memory.byteAt (x.extent.start + k.toNat) = b := by
  rw [after_write_eq, hx]
  dsimp only
  rw [Lease.run_write, if_pos hk]
  refine ⟨hx, (Memory.byteAt_fill _ _ _ _ _).trans (if_pos ⟨Nat.le_refl _, ?_⟩)⟩
  exact Nat.lt_succ_self _

theorem run_read {i : Nat} {x : Lease} (hx : s.lease? i = some x) {k : Word} (hk : k < x.length) :
    ∃ rs, (perform (.read i)).run s = .ok (.bytes rs) s ∧
      rs.expand[k.toNat]? = some (s.machine.memory.byteAt (x.extent.start + k.toNat)) := by
  refine ⟨x.read s.machine, ?_, ?_⟩
  · simp only [perform, run_onLease, hx, EStateM.run_bind, EStateM.run_get]
    rfl
  · have hread := Memory.getElem?_read s.machine.memory x.extent.start x.extent.length k.toNat
    exact hread.trans (if_pos (UInt64.lt_iff_toNat_lt.1 hk))

/-- As long as no lease is endangered, each of them can be given back, and has the bytes that were
last written through it, whatever else was done to the heap. -/
theorem leases_isolated {p : Placement} {m₀ m : Machine} {a : Arena}
    (h : (Arena.init p).run m₀ = .ok a m) (hd : p.heapExtent.overlaps p.tableExtent = false) :
    (∀ qs, respectful qs ⟨a, m, []⟩ = true →
      let s := (run qs ⟨a, m, []⟩).2
      ∀ i x, s.lease? i = some x → ∃ m', (s.arena.release x.address).run s.machine = .ok () m') ∧
    ∀ before later i k b, respectful (before ++ .write i k b :: later) ⟨a, m, []⟩ = true →
      (∀ q ∈ later, q.rewrites i k = false) →
      let s := (run (before ++ .write i k b :: later) ⟨a, m, []⟩).2
      ∀ x y, (run before ⟨a, m, []⟩).2.lease? i = some x → k < x.length → s.lease? i = some y →
        y = x ∧ ∃ rs, (perform (.read i)).run s = .ok (.bytes rs) s ∧ rs.expand[k.toNat]? = some b := by
  have hs := sound_init h hd
  have ho := owned_init a m
  constructor
  · intro qs hr s i x hx
    exact (ho.run hs hr).release_eq_ok (hs.run qs) hx
  · intro before later i k b hr hq s x y hx hk hy
    rw [respectful_append, Bool.and_eq_true] at hr
    obtain ⟨hr₁, hr₂⟩ := hr
    obtain ⟨hw, hr₂⟩ := respectful_cons hr₂
    have hs₁ := hs.run before
    have ho₁ := ho.run hs hr₁
    have hs₂ := hs₁.after (.write i k b)
    have ho₂ := ho₁.step hs₁ (effect_after hs₁ (.write i k b)) hw
    have hend : s = (run later ((run before ⟨a, m, []⟩).2.after (.write i k b))).2 := by
      rw [← run_cons, ← run_append]
    clear_value s
    subst hend
    obtain ⟨hx₂, hb⟩ := after_write hx hk b
    have hy₂ := lease?_of_run hs₂ (lease?_lt hx₂) hy
    obtain rfl : y = x := Option.some.inj (hy₂.symm.trans hx₂)
    obtain ⟨rs, hread, hbyte⟩ := run_read hy hk
    refine ⟨rfl, rs, hread, ?_⟩
    rw [hbyte, byte_kept_run hs₂ ho₂ hr₂ hy (lease?_lt hx₂) hk hq, hb]

theorem leases_isolated_neighbours :
    let p : Placement := ⟨0x42000000, 0x4000, 0x41000000, 4096⟩
    let a : Arena := ⟨p, by decide⟩
    let m := reached ((Arena.init p).run Board.machine)
    let before : List Request := [.lease 4097, .lease 1]
    let later : List Request := [.write 0 0 1, .write 1 0 2, .scrub 1, .drop 1, .allocateZeroed 1,
      .release ⟨0x42002000⟩, .releaseRaw 0x42001000]
    let s := (run (before ++ .write 0 8191 0x5A :: later) ⟨a, m, []⟩).2
    (Arena.init p).run Board.machine = .ok a m ∧
      s.arena.table s.machine = [0xC1, 0x01, 0x00, 0x00] ∧
      (∃ rs, (perform (.read 0)).run s = .ok (.bytes rs) s ∧ rs.expand[8191]? = some 0x5A) ∧
      ∃ m', (s.arena.release ⟨0x42000000⟩).run s.machine = .ok () m' := by
  intro p a m before later s
  have h : (Arena.init p).run Board.machine = .ok a m := Arena.init_of_starts (by decide +kernel) a.2
  have hd : p.heapExtent.overlaps p.tableExtent = false := by decide
  have hr : respectful (before ++ .write 0 8191 0x5A :: later) ⟨a, m, []⟩ = true := by decide +kernel
  have hx : (run before ⟨a, m, []⟩).2.lease? 0 = some ⟨⟨0x42000000⟩, 0x2000⟩ := by decide +kernel
  have hy : s.lease? 0 = some ⟨⟨0x42000000⟩, 0x2000⟩ := by decide +kernel
  have ht : s.arena.table s.machine = [0xC1, 0x01, 0x00, 0x00] := by decide +kernel
  have hdrop := (leases_isolated h hd).1 _ hr 0 _ hy
  have hread := (leases_isolated h hd).2 before later 0 8191 0x5A hr (by decide) _ _ hx (by decide) hy
  have hoff : (8191 : Word).toNat = 8191 := by decide
  rw [hoff] at hread
  exact ⟨h, ht, hread.2, hdrop⟩

end Session

end PhysicalHeap
