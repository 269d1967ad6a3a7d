import PhysicalHeap.Proofs.Isolation

namespace PhysicalHeap

namespace Table

theorem HasChain.getElem? {t : Table} {s n j : Nat} (h : t.HasChain s n) (hj : j < n) :
    t[s + j]? = some (Entry.link n j) := by
  obtain ⟨-, ht⟩ := h
  rw [← List.getElem?_drop, ← List.getElem?_take_of_lt hj, ht, Entry.getElem?_chain hj]

theorem not_hasChain_cleared {t : Table} {s n n' : Nat} (hl : s + n ≤ t.length) (hn : 0 < n) :
    ¬ (t.cleared s n).HasChain s n' := by
  intro h
  have hs := h.getElem? h.1
  rw [Nat.add_zero, getElem?_cleared hl, if_pos ⟨Nat.le_refl s, by omega⟩] at hs
  have hlink := Entry.isFree_link n' 0
  rw [← Option.some.inj hs] at hlink
  cases hlink

end Table

namespace Session

variable {s s' : Session} {l l' : Ledger} {q : Request}

/-- What the owner of a lease relies on: the lease heads a chain of its own length, shares no byte with
another lease, and when it is dropped, its own allocation is given back and no other. -/
structure Guarded (s : Session) (l : Ledger) : Prop where
  heads : ∀ i x, s.lease? i = some x → ∃ k n, x.address.word.toNat = s.arena.grid.place k ∧
    x.length.toNat = n * s.arena.blockSize.toNat ∧ (s.arena.table s.machine).HasChain k n
  apart : ∀ i j x y, i ≠ j → s.lease? i = some x → s.lease? j = some y →
    x.extent.overlaps y.extent = false
  drops : ∀ i x, s.lease? i = some x → ∃ own : Allocation, own.holder = some i ∧
    own.address = x.address ∧ x.length.toNat = own.length * s.arena.blockSize.toNat ∧
    l.Perm (own :: l.settle s (.drop i)) ∧
    ∃ k, x.address.word.toNat = s.arena.grid.place k ∧
      s.arena.table (s.after (.drop i)).machine = (s.arena.table s.machine).cleared k own.length

theorem Effect.leases_of_gives (he : Effect s l q s' l') {a : Address} (hg : q.gives = some a) :
    s'.leases = s.leases := by
  cases he with
  | idle | taken | changed | given => rfl
  | leased hq =>
    rw [returns_of_gives hg] at hq
    cases hq
  | left hq =>
    rw [hg] at hq
    cases hq
  | dropped => cases hg

theorem Effect.freed (h : Sound s l) (he : Effect s l q s' l') {y : Allocation} (hy : y ∈ l)
    (hq : s.returns q = some y.address) :
    l' = l.without y.address.word.toNat ∧ ∃ k, y.address.word.toNat = s.arena.grid.place k ∧
      k + y.length ≤ s.arena.total ∧
      s.arena.table s'.machine = (s.arena.table s.machine).cleared k y.length := by
  have hsame : ∀ z ∈ l, s.returns q = some z.address → z = y := by
    intro z hz hr
    obtain ha := Option.some.inj (hr.symm.trans hq)
    exact h.agrees.eq_of_address hz hy (ha ▸ rfl)
  cases he with
  | idle hno => exact absurd hq (hno y hy)
  | left _ hno => exact absurd hq (hno y hy)
  | taken hn | leased hn | changed hn =>
    rw [hn] at hq
    cases hq
  | given hg hz hk hl ht =>
    obtain rfl := hsame _ hz (returns_of_gives hg)
    exact ⟨rfl, _, hk, hl, ht⟩
  | dropped hx ha hz hk hl ht =>
    obtain rfl := hsame _ hz (by rw [returns, hx, Option.map_some, ha])
    exact ⟨rfl, _, hk, hl, ht⟩

theorem Owned.guarded (h : Sound s l) (ho : Owned s l) : Guarded s l := by
  refine ⟨fun i x hx => ?_, fun i j x y hij hx hy => ?_, fun i x hx => ?_⟩
  · obtain ⟨n, hlen, hmem⟩ := ho i x hx
    obtain ⟨k, hk, -, hc⟩ := h.agrees.hasChain hmem
    exact ⟨k, n, hk, hlen, hc⟩
  · apply Extent.overlaps_eq_false_of_disjoint (length_pos h ho hx) (length_pos h ho hy)
    intro p hpx hpy
    exact hij (number_unique h ho hx hy hpx hpy)
  · obtain ⟨n, hlen, hmem⟩ := ho i x hx
    obtain ⟨hl, k, hk, -, ht⟩ := (effect_after h (.drop i)).freed h hmem (by rw [returns, hx]; rfl)
    refine ⟨_, rfl, rfl, hlen, ?_, k, hk, ht⟩
    rw [hl]
    exact h.agrees.perm_without hmem

theorem Owned.not_guarded_after (h : Sound s l) (ho : Owned s l) (hq : s.endangers q = true) :
    ¬ Guarded (s.after q) l' := by
  intro hg
  obtain ⟨a, ha, hl⟩ := (Option.any_eq_true _ _).1 hq
  obtain ⟨i, x, hx, rfl⟩ := isLeased_iff.1 hl
  obtain ⟨n, hlen, hmem⟩ := ho i x hx
  have he := effect_after h q
  obtain ⟨-, k, hk, hl, ht⟩ := he.freed h hmem (returns_of_gives ha)
  have hx' : (s.after q).lease? i = some x := by
    rw [lease?, he.leases_of_gives ha]
    exact hx
  obtain ⟨k', n', hk', -, hc⟩ := hg.heads i x hx'
  rw [he.arena] at hk' hc
  rw [Grid.place_inj (hk'.symm.trans hk), ht] at hc
  exact Table.not_hasChain_cleared (by rwa [Arena.length_table]) (h.agrees.within hmem).2.1 hc

theorem guarded_iff (h : Sound s l) (ho : Owned s l) (qs : List Request) :
    (∀ pre post, qs = pre ++ post → Guarded (run pre s).2 (Ledger.settleAll pre s l)) ↔
      respectful qs s = true := by
  induction qs generalizing s l with
  | nil =>
    refine ⟨fun _ => rfl, fun _ pre post hpre => ?_⟩
    obtain rfl := (List.nil_eq_append_iff.1 hpre).1
    exact ho.guarded h
  | cons q qs ih =>
    have hrun : ∀ pre, Guarded (run (q :: pre) s).2 (Ledger.settleAll (q :: pre) s l) ↔
        Guarded (run pre (s.after q)).2 (Ledger.settleAll pre (s.after q) (l.settle s q)) := by
      intro pre
      rw [run_cons, Ledger.settleAll]
    constructor
    · intro hall
      -- the first request endangers no lease, since the state after it is guarded
      have hq : s.endangers q = false := by
        by_cases hq : s.endangers q = true
        · exact absurd ((hrun []).1 (hall [q] qs rfl)) (ho.not_guarded_after h hq)
        · exact Bool.not_eq_true _ ▸ hq
      have hrest := (ih (h.after q) (ho.step h (effect_after h q) hq)).1 fun pre post hpre =>
        (hrun pre).1 (hall (q :: pre) post (by rw [hpre, List.cons_append]))
      rw [respectful, hq, hrest]
      rfl
    · intro hr pre post hpre
      obtain ⟨hq, hr⟩ := respectful_cons hr
      cases pre with
      | nil => exact ho.guarded h
      | cons q' pre =>
        obtain ⟨rfl, hqs⟩ := List.cons.inj hpre
        have hrest := (ih (h.after q) (ho.step h (effect_after h q) hq)).2 hr
        exact (hrun pre).2 (hrest pre post hqs)

/-- The owners of leases can rely on them at every point of a run exactly if no request of the run gives
back the address of a lease that is still held. -/
theorem guarded_iff_respectful {p : Placement} {m₀ m : Machine} {a : Arena}
    (h : (Arena.init p).run m₀ = .ok a m) (hd : p.heapExtent.overlaps p.tableExtent = false)
    (qs : List Request) :
    (∀ pre post, qs = pre ++ post →
        Guarded (run pre ⟨a, m, []⟩).2 (Ledger.settleAll pre ⟨a, m, []⟩ [])) ↔
      respectful qs ⟨a, m, []⟩ = true :=
  guarded_iff (sound_init h hd) (owned_init a m) qs

theorem guarded_iff_respectful_released :
    let p : Placement := ⟨0x42000000, 0x2000, 0x41000000, 4096⟩
    let a : Arena := ⟨p, by decide⟩
    let m := reached ((Arena.init p).run Board.machine)
    let shared : List Request := [.lease 1, .release ⟨0x42000000⟩, .lease 1]
    let s := (run shared ⟨a, m, []⟩).2
    let s' := (run (shared ++ [.drop 0]) ⟨a, m, []⟩).2
    (Arena.init p).run Board.machine = .ok a m ∧
      s.leases = [some ⟨⟨0x42000000⟩, 4096⟩, some ⟨⟨0x42000000⟩, 4096⟩] ∧
      s'.leases = [none, some ⟨⟨0x42000000⟩, 4096⟩] ∧ s'.arena.table s'.machine = [0x00, 0x00] ∧
      ¬ ∀ pre post, shared = pre ++ post →
        Guarded (run pre ⟨a, m, []⟩).2 (Ledger.settleAll pre ⟨a, m, []⟩ []) := by
  intro p a m shared s s'
  have h : (Arena.init p).run Board.machine = .ok a m := Arena.init_of_starts (by decide +kernel) a.2
  have hd : p.heapExtent.overlaps p.tableExtent = false := by decide
  have hr : respectful shared ⟨a, m, []⟩ = false := by decide +kernel
  refine ⟨h, by decide +kernel, by decide +kernel, by decide +kernel, fun hall => ?_⟩
  rw [guarded_iff_respectful h hd, hr] at hall
  cases hall

end Session

end PhysicalHeap
