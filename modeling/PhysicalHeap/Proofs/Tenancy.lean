import PhysicalHeap.Proofs.SessionSteps

namespace PhysicalHeap

theorem Extent.overlaps_eq_false_of_disjoint {x y : Extent} (hx : 0 < x.length) (hy : 0 < y.length)
    (h : ∀ p, p ∈ x → p ∉ y) : x.overlaps y = false := by
  have hxs : x.start ∉ y := h _ ⟨Nat.le_refl _, Nat.lt_add_of_pos_right hx⟩
  have hys : y.start ∉ x := fun hp => h _ hp ⟨Nat.le_refl _, Nat.lt_add_of_pos_right hy⟩
  rw [Extent.mem_iff] at hxs hys
  rw [Extent.overlaps_eq_false]
  simp only [Extent.stop] at hxs hys ⊢
  omega

namespace Session

variable {s s' : Session} {l l' : Ledger} {q : Request}

theorem lease?_lt {i : Nat} {x : Lease} (h : s.lease? i = some x) : i < s.leases.length := by
  apply Nat.lt_of_not_le
  intro hle
  rw [lease?, List.getElem?_eq_none hle] at h
  cases h

theorem lease?_append (s : Session) (m : Machine) (x : Lease) (i : Nat) :
    lease? { s with machine := m, leases := s.leases ++ [some x] } i =
      if i = s.leases.length then some x else s.lease? i := by
  rw [lease?, lease?]
  by_cases hi : i = s.leases.length
  · rw [if_pos hi, hi, List.getElem?_concat_length]
    rfl
  · rw [if_neg hi]
    by_cases hlt : i < s.leases.length
    · rw [List.getElem?_append_left hlt]
    · have hlen : (s.leases ++ [some x]).length ≤ i := by
        rw [List.length_append, List.length_singleton]
        omega
      rw [List.getElem?_eq_none (Nat.le_of_not_lt hlt), List.getElem?_eq_none hlen]

theorem lease?_set (s : Session) (m : Machine) (i j : Nat) :
    lease? { s with machine := m, leases := s.leases.set j none } i =
      if i = j then none else s.lease? i := by
  rw [lease?, lease?, List.getElem?_set]
  by_cases hi : i = j
  · rw [if_pos hi, if_pos hi.symm]
    by_cases hlt : j < s.leases.length
    · rw [if_pos hlt]
      rfl
    · rw [if_neg hlt]
      rfl
  · rw [if_neg hi, if_neg (Ne.symm hi)]

theorem lease?_of_set {m : Machine} {i j : Nat} {x : Lease}
    (h : lease? { s with machine := m, leases := s.leases.set j none } i = some x) :
    i ≠ j ∧ s.lease? i = some x := by
  rw [lease?_set] at h
  by_cases hi : i = j
  · rw [if_pos hi] at h
    cases h
  · rw [if_neg hi] at h
    exact ⟨hi, h⟩

theorem lease?_of_append {m : Machine} {i : Nat} {x y : Lease}
    (h : lease? { s with machine := m, leases := s.leases ++ [some y] } i = some x) :
    s.lease? i = some x ∨ i = s.leases.length ∧ x = y := by
  rw [lease?_append] at h
  by_cases hi : i = s.leases.length
  · rw [if_pos hi] at h
    exact Or.inr ⟨hi, (Option.some.inj h).symm⟩
  · rw [if_neg hi] at h
    exact Or.inl h

namespace Effect

theorem arena (he : Effect s l q s' l') : s'.arena = s.arena := by
  cases he <;> rfl

theorem length_le (he : Effect s l q s' l') : s.leases.length ≤ s'.leases.length := by
  cases he with
  | idle | taken | changed | given => exact Nat.le_refl _
  | leased =>
    rw [List.length_append]
    exact Nat.le_add_right _ _
  | left | dropped => exact Nat.le_of_eq List.length_set.symm

theorem lease?_of_lt (he : Effect s l q s' l') {i : Nat} {x : Lease} (hi : i < s.leases.length)
    (hx : s'.lease? i = some x) : s.lease? i = some x := by
  cases he with
  | idle | taken | changed | given => exact hx
  | leased =>
    obtain hx | ⟨rfl, -⟩ := lease?_of_append hx
    · exact hx
    · exact absurd hi (Nat.lt_irrefl _)
  | left | dropped => exact (lease?_of_set hx).2

end Effect

namespace Sound

theorem not_mem_table (h : Sound s l) {i : Nat} {x : Lease} (hx : s.lease? i = some x) {p : Nat}
    (hp : p ∈ x.extent) : p ∉ s.arena.tableExtent :=
  Extent.not_mem_of_not_overlaps h.apart (Extent.mem_of_isWithin (h.within i x hx) hp)

theorem step (h : Sound s l) (he : Effect s l q s' l') : Sound s' l' := by
  obtain ⟨hlaid, hapart, hagrees, hnarrow, hwithin⟩ := h
  cases he with
  | idle hq hb =>
    refine ⟨hlaid, hapart, ?_, hnarrow, hwithin⟩
    rw [Arena.table_congr fun p _ => hb p]
    exact hagrees
  | taken hq hm hlt hb =>
    refine ⟨hlaid, hapart, hm, fun y hy => ?_, hwithin⟩
    obtain rfl | hy := List.mem_cons.1 hy
    · exact hlt
    · exact hnarrow y hy
  | @leased q x n m hq hlen hm hlt hb =>
    refine ⟨hlaid, hapart, hm, fun y hy => ?_, fun i y hy => ?_⟩
    · obtain rfl | hy := List.mem_cons.1 hy
      · exact hlt
      · exact hnarrow y hy
    · obtain hy | ⟨-, rfl⟩ := lease?_of_append hy
      · exact hwithin i y hy
      · have hin := hlaid.within hm List.mem_cons_self
        rw [Lease.extent, hlen]
        exact hin
  | changed hq hx hb hk =>
    refine ⟨hlaid, hapart, ?_, hnarrow, hwithin⟩
    rw [Arena.table_congr fun p hp => hb p fun hpx => ?_]
    · exact hagrees
    · exact Extent.not_mem_of_not_overlaps hapart (Extent.mem_of_isWithin (hwithin _ _ hx) hpx) hp
  | left hg hq hb =>
    refine ⟨hlaid, hapart, ?_, hnarrow, fun i x hx => hwithin i x (lease?_of_set hx).2⟩
    rw [Arena.table_congr fun p _ => hb p]
    exact hagrees
  | given hq hy hk hl ht hm hb =>
    exact ⟨hlaid, hapart, hm, fun y hy => hnarrow y (List.mem_filter.1 hy).1, hwithin⟩
  | dropped hx ha hy hk hl ht hm hb =>
    exact ⟨hlaid, hapart, hm, fun y hy => hnarrow y (List.mem_filter.1 hy).1,
      fun i x hx => hwithin i x (lease?_of_set hx).2⟩

theorem after (h : Sound s l) (q : Request) : Sound (s.after q) (l.settle s q) :=
  h.step (effect_after h q)

end Sound

def isLeased (s : Session) (a : Address) : Bool := s.leases.any fun x => x.any fun x => x.address == a

/-- Whether a request gives back the blocks of a lease behind its owner's back. -/
def endangers (s : Session) (q : Request) : Bool := q.gives.any s.isLeased

theorem isLeased_iff {a : Address} :
    s.isLeased a = true ↔ ∃ i x, s.lease? i = some x ∧ x.address = a := by
  rw [isLeased, List.any_eq_true]
  constructor
  · rintro ⟨o, ho, ha⟩
    obtain ⟨x, rfl, hx⟩ := (Option.any_eq_true _ _).1 ha
    obtain ⟨i, hi⟩ := List.mem_iff_getElem?.1 ho
    refine ⟨i, x, ?_, beq_iff_eq.1 hx⟩
    rw [lease?, hi]
    rfl
  · rintro ⟨i, x, hx, rfl⟩
    refine ⟨some x, ?_, beq_self_eq_true _⟩
    rw [lease?, Option.join_eq_some_iff] at hx
    exact List.mem_of_getElem? hx

/-- Every lease has an allocation of its own, of the same length. -/
def Owned (s : Session) (l : Ledger) : Prop :=
  ∀ i x, s.lease? i = some x →
    ∃ n, x.length.toNat = n * s.arena.blockSize.toNat ∧ ⟨x.address, n, some i⟩ ∈ l

namespace Owned

theorem holder_of_mem (h : Sound s l) (ho : Owned s l) {i : Nat} {x : Lease} (hx : s.lease? i = some x)
    {y : Allocation} (hy : y ∈ l) {p : Nat} (hpx : p ∈ x.extent) (hpy : p ∈ y.extent s.arena.grid) :
    y.address = x.address ∧ y.holder = some i := by
  obtain ⟨n, hlen, hmem⟩ := ho i x hx
  rw [Lease.extent, hlen] at hpx
  obtain rfl := h.agrees.eq_of_mem_extent hmem hy hpx hpy
  exact ⟨rfl, rfl⟩

theorem length_pos (h : Sound s l) (ho : Owned s l) {i : Nat} {x : Lease} (hx : s.lease? i = some x) :
    0 < x.extent.length := by
  obtain ⟨n, hlen, hmem⟩ := ho i x hx
  change 0 < x.length.toNat
  rw [hlen]
  exact Nat.mul_pos (h.agrees.within hmem).2.1 s.arena.grid.blockSize_pos

theorem start_mem (h : Sound s l) (ho : Owned s l) {i : Nat} {x : Lease} (hx : s.lease? i = some x) :
    x.address.word.toNat ∈ x.extent :=
  ⟨Nat.le_refl _, Nat.lt_add_of_pos_right (length_pos h ho hx)⟩

theorem number_unique (h : Sound s l) (ho : Owned s l) {i j : Nat} {x y : Lease}
    (hx : s.lease? i = some x) (hy : s.lease? j = some y) {p : Nat} (hpx : p ∈ x.extent)
    (hpy : p ∈ y.extent) : i = j := by
  obtain ⟨n, hlen, hmem⟩ := ho j y hy
  rw [Lease.extent, hlen] at hpy
  obtain ⟨-, hholder⟩ := holder_of_mem h ho hx hmem hpx hpy
  exact (Option.some.inj hholder).symm

theorem step (h : Sound s l) (ho : Owned s l) (he : Effect s l q s' l') (hq : s.endangers q = false) :
    Owned s' l' := by
  cases he with
  | idle | changed => exact ho
  | taken =>
    intro i x hx
    obtain ⟨n, hlen, hmem⟩ := ho i x hx
    exact ⟨n, hlen, List.mem_cons_of_mem _ hmem⟩
  | @leased q x n m _ hlen =>
    intro i y hy
    obtain hy | ⟨rfl, rfl⟩ := lease?_of_append hy
    · obtain ⟨n, hlen, hmem⟩ := ho i y hy
      exact ⟨n, hlen, List.mem_cons_of_mem _ hmem⟩
    · exact ⟨n, hlen, List.mem_cons_self⟩
  | left =>
    intro i x hx
    exact ho i x (lease?_of_set hx).2
  | @given q y k m hg =>
    intro i x hx
    obtain ⟨n, hlen, hmem⟩ := ho i x hx
    refine ⟨n, hlen, List.mem_filter.2 ⟨hmem, decide_eq_true fun ha => ?_⟩⟩
    rw [endangers, hg, Option.any_some, (isLeased_iff (s := s)).2 ⟨i, x, hx, Address.toNat_inj ha⟩] at hq
    cases hq
  | @dropped j z y k m hz ha =>
    intro i x hx
    obtain ⟨hij, hx⟩ := lease?_of_set hx
    obtain ⟨n, hlen, hmem⟩ := ho i x hx
    refine ⟨n, hlen, List.mem_filter.2 ⟨hmem, decide_eq_true fun hxy => hij ?_⟩⟩
    have hxz : x.address.word.toNat = z.address.word.toNat := ha ▸ hxy
    exact number_unique h ho hx hz (start_mem h ho hx) (hxz ▸ start_mem h ho hz)

theorem release_eq_ok (h : Sound s l) (ho : Owned s l) {i : Nat} {x : Lease} (hx : s.lease? i = some x) :
    ∃ m, (s.arena.release x.address).run s.machine = .ok () m := by
  obtain ⟨n, -, hmem⟩ := ho i x hx
  have hg := Arena.gave_release h.agrees x.address
  generalize hr : (s.arena.release x.address).run s.machine = o at hg ⊢
  generalize ha : x.address = a at hg
  cases hg with
  | refused hno => exact absurd ha (hno _ hmem)
  | given => exact ⟨_, rfl⟩

/-- A byte of a lease stays as it is unless the lease itself is written there. -/
theorem byte_kept (h : Sound s l) (ho : Owned s l) (he : Effect s l q s' l') {i : Nat} {x : Lease}
    (hx : s.lease? i = some x) {k : Word} (hk : k < x.length) (hq : q.rewrites i k = false) :
    s'.machine.memory.byteAt (x.extent.start + k.toNat) =
      s.machine.memory.byteAt (x.extent.start + k.toNat) := by
  have hp : x.extent.start + k.toNat ∈ x.extent :=
    ⟨Nat.le_add_right _ _, Nat.add_lt_add_left (UInt64.lt_iff_toNat_lt.1 hk) _⟩
  have hout := h.not_mem_table hx hp
  cases he with
  | idle hq hb => exact hb _
  | left hg hq hb => exact hb _
  | given hq hy hk hl ht hm hb => exact hb _ hout
  | dropped hx ha hy hk hl ht hm hb => exact hb _ hout
  | taken hq hm hlt hb =>
    apply hb _ hout
    intro hpa
    obtain ⟨n, hlen, hmem⟩ := ho i x hx
    rw [Lease.extent, hlen] at hp
    cases hm.eq_of_mem_extent (List.mem_cons_of_mem _ hmem) List.mem_cons_self hp hpa
  | leased hq hlen' hm hlt hb =>
    apply hb _ hout
    intro hpa
    obtain ⟨n, hlen, hmem⟩ := ho i x hx
    rw [Lease.extent, hlen] at hp
    rw [Lease.extent, hlen'] at hpa
    have hnew := hm.eq_of_mem_extent (List.mem_cons_of_mem _ hmem) List.mem_cons_self hp hpa
    exact absurd (Option.some.inj (congrArg Allocation.holder hnew)) (Nat.ne_of_lt (lease?_lt hx))
  | @changed q j y m hq hy hb hj =>
    by_cases hij : j = i
    · subst hij
      obtain rfl : y = x := Option.some.inj (hy.symm.trans hx)
      exact hj k hq
    · exact hb _ fun hpy => hij (number_unique h ho hy hx hpy hp)

end Owned

end Session

end PhysicalHeap
