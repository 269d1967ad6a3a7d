import PhysicalHeap.Memory.Extent
import PhysicalHeap.Proofs.GridSteps

namespace PhysicalHeap

open Segments

/-- Blocks that were handed out: from where on, how many, and the number of the lease that they were
handed out to, if there was one. -/
structure Allocation where
  address : Address
  length : Nat
  holder : Option Nat
  deriving DecidableEq

/-- The allocations that have been handed out and not been given back. -/
abbrev Ledger := List Allocation

namespace Allocation

def key (x : Allocation) : Nat × Nat := (x.address.word.toNat, x.length)

def extent (g : Grid) (x : Allocation) : Extent := ⟨x.address.word.toNat, x.length * g.blockSize.toNat⟩

theorem mem_extent (g : Grid) {x : Allocation} {j : Nat} (h : j < x.length) :
    x.address.word.toNat + j * g.blockSize.toNat ∈ x.extent g := by
  have hj := Nat.mul_lt_mul_of_pos_right h g.blockSize_pos
  exact ⟨Nat.le_add_right _ _, Nat.add_lt_add_left hj _⟩

end Allocation

def Grid.key (g : Grid) (c : Chain) : Nat × Nat := (g.place c.start, c.length)

namespace Table

def HasChain (t : Table) (s n : Nat) : Prop := 0 < n ∧ (t.drop s).take n = Entry.chain n

def cleared (t : Table) (s n : Nat) : Table :=
  t.take s ++ (List.replicate n Entry.free ++ t.drop (s + n))

theorem cleared_chain (pre post : Segments) (k : Nat) :
    cleared (table (pre ++ .chain k :: post)) (table pre).length (k + 1) =
      table (pre ++ (List.replicate (k + 1) .free ++ post)) := by
  rw [cleared, table_append, table_cons, Segment.entries_chain, List.take_left, drop_chain, table_append,
    table_append, table_free]

theorem hasChain_chain (pre post : Segments) (k : Nat) :
    HasChain (table (pre ++ .chain k :: post)) (table pre).length (k + 1) := by
  refine ⟨Nat.succ_pos k, ?_⟩
  rw [table_append, table_cons, Segment.entries_chain, List.drop_left,
    List.take_left' (Entry.length_chain _)]

theorem getElem?_splice {t u : Table} {s : Nat} (h : s + u.length ≤ t.length) (i : Nat) :
    (t.take s ++ (u ++ t.drop (s + u.length)))[i]? =
      if s ≤ i ∧ i < s + u.length then u[i - s]? else t[i]? := by
  have hs : (t.take s).length = s := by
    rw [List.length_take]
    omega
  by_cases h1 : i < s
  · rw [List.getElem?_append_left (by rwa [hs]), List.getElem?_take_of_lt h1,
      if_neg (fun hi => absurd hi.1 (Nat.not_le_of_lt h1))]
  · have hle := Nat.le_of_not_lt h1
    rw [List.getElem?_append_right (by rwa [hs]), hs]
    by_cases h2 : i < s + u.length
    · rw [List.getElem?_append_left (by omega), if_pos ⟨hle, h2⟩]
    · rw [List.getElem?_append_right (by omega), List.getElem?_drop, if_neg (fun hi => h2 hi.2)]
      congr 1
      omega

theorem length_splice {t u : Table} {s : Nat} (h : s + u.length ≤ t.length) :
    (t.take s ++ (u ++ t.drop (s + u.length))).length = t.length := by
  simp only [List.length_append, List.length_take, List.length_drop]
  omega

theorem length_cleared {t : Table} {s n : Nat} (h : s + n ≤ t.length) :
    (t.cleared s n).length = t.length := by
  have hl := length_splice (t := t) (u := List.replicate n Entry.free) (s := s) (by rwa [List.length_replicate])
  rwa [List.length_replicate] at hl

theorem getElem?_cleared {t : Table} {s n : Nat} (h : s + n ≤ t.length) (i : Nat) :
    (t.cleared s n)[i]? = if s ≤ i ∧ i < s + n then some Entry.free else t[i]? := by
  have hi := getElem?_splice (t := t) (u := List.replicate n Entry.free) (s := s)
    (by rwa [List.length_replicate]) i
  rw [List.length_replicate] at hi
  rw [cleared, hi]
  by_cases hr : s ≤ i ∧ i < s + n
  · rw [if_pos hr, if_pos hr, List.getElem?_replicate, if_pos (by omega)]
  · rw [if_neg hr, if_neg hr]

end Table

namespace Ledger

def without (l : Ledger) (p : Nat) : Ledger := l.filter fun x => x.address.word.toNat ≠ p

/-- The table consists of whole segments, and its chains are the allocations, each of them once. -/
def Matches (g : Grid) (t : Table) (l : Ledger) : Prop :=
  ∃ ss : Segments, t = ss.table ∧ (l.map Allocation.key).Perm ((ss.chains 0).map g.key)

variable {g : Grid} {t : Table} {l : Ledger}

theorem matches_clear (g : Grid) (t : Table) : Matches g t.clear [] := by
  refine ⟨List.replicate t.length .free, ?_, ?_⟩
  · rw [table_free]
    exact List.map_const'
  · rw [chains_free]
    exact List.Perm.refl _

theorem exists_chain_of_mem {ss : Segments} (hp : (l.map Allocation.key).Perm ((ss.chains 0).map g.key))
    {x : Allocation} (hx : x ∈ l) :
    ∃ pre k post, ss = pre ++ .chain k :: post ∧ x.address.word.toNat = g.place (table pre).length ∧
      x.length = k + 1 := by
  obtain ⟨c, hc, hkey⟩ := List.mem_map.1 (hp.mem_iff.1 (List.mem_map_of_mem hx))
  obtain ⟨pre, k, post, hs, rfl⟩ := exists_of_mem_chains hc
  obtain ⟨hplace, hlength⟩ := Prod.mk.inj hkey
  rw [Nat.zero_add] at hplace
  exact ⟨pre, k, post, hs, hplace.symm, hlength.symm⟩

theorem exists_mem_of_chain {pre post : Segments} {k : Nat}
    (hp : (l.map Allocation.key).Perm (((pre ++ .chain k :: post).chains 0).map g.key)) :
    ∃ x ∈ l, x.address.word.toNat = g.place (table pre).length ∧ x.length = k + 1 := by
  have hc : ⟨(table pre).length, k + 1⟩ ∈ (pre ++ .chain k :: post).chains 0 := by
    rw [chains_append, Nat.zero_add]
    exact List.mem_append_right _ List.mem_cons_self
  obtain ⟨x, hx, hkey⟩ := List.mem_map.1 (hp.mem_iff.2 (List.mem_map_of_mem hc))
  obtain ⟨hplace, hlength⟩ := Prod.mk.inj hkey
  exact ⟨x, hx, hplace, hlength⟩

theorem Matches.within (h : Matches g t l) {x : Allocation} (hx : x ∈ l) :
    g.place 0 ≤ x.address.word.toNat ∧ 0 < x.length ∧
      x.address.word.toNat + x.length * g.blockSize.toNat ≤ g.place t.length := by
  obtain ⟨ss, rfl, hp⟩ := h
  obtain ⟨pre, k, post, rfl, ha, hn⟩ := exists_chain_of_mem hp hx
  refine ⟨?_, ?_, ?_⟩
  · rw [ha]
    exact g.place_le (Nat.zero_le _)
  · rw [hn]
    exact Nat.succ_pos k
  · rw [ha, hn, ← g.place_add]
    apply g.place_le
    exact le_length_table pre post (.chain k)

theorem Matches.hasChain (h : Matches g t l) {x : Allocation} (hx : x ∈ l) :
    ∃ s, x.address.word.toNat = g.place s ∧ s + x.length ≤ t.length ∧ t.HasChain s x.length := by
  obtain ⟨ss, rfl, hp⟩ := h
  obtain ⟨pre, k, post, rfl, ha, hn⟩ := exists_chain_of_mem hp hx
  refine ⟨(table pre).length, ha, ?_, ?_⟩
  · rw [hn]
    exact le_length_table pre post (.chain k)
  · rw [hn]
    exact Table.hasChain_chain pre post k

theorem Matches.pairwise (h : Matches g t l) :
    l.Pairwise fun x y => (x.extent g).overlaps (y.extent g) = false := by
  obtain ⟨ss, rfl, hp⟩ := h
  have hc : ((ss.chains 0).map g.key).Pairwise fun p q =>
      p.1 + p.2 * g.blockSize.toNat ≤ q.1 ∨ q.1 + q.2 * g.blockSize.toNat ≤ p.1 := by
    rw [List.pairwise_map]
    apply (pairwise_chains 0 ss).imp
    intro c d hcd
    apply Or.inl
    rw [Grid.key, Grid.key, ← g.place_add]
    exact g.place_le hcd
  have hl := (hp.pairwise_iff fun hpq => hpq.symm).2 hc
  rw [List.pairwise_map] at hl
  exact hl.imp fun hxy => Extent.overlaps_eq_false.2 hxy.symm

theorem Matches.eq_of_mem_extent (h : Matches g t l) {x y : Allocation} (hx : x ∈ l) (hy : y ∈ l)
    {p : Nat} (hpx : p ∈ x.extent g) (hpy : p ∈ y.extent g) : x = y := by
  have hl := h.pairwise
  have hall : ∀ x ∈ l, ∀ y ∈ l, ∀ p, p ∈ x.extent g → p ∈ y.extent g → x = y := by
    apply List.Pairwise.forall_of_forall_of_flip
    · intro x _ p _ _
      rfl
    · exact hl.imp fun ho p hp hq => absurd hq (Extent.not_mem_of_not_overlaps ho hp)
    · exact hl.imp fun ho p hp hq => absurd hp (Extent.not_mem_of_not_overlaps ho hq)
  exact hall x hx y hy p hpx hpy

theorem Matches.mem_extent (h : Matches g t l) {x : Allocation} (hx : x ∈ l) :
    x.address.word.toNat ∈ x.extent g := by
  have hp := x.mem_extent g (h.within hx).2.1
  rwa [Nat.zero_mul, Nat.add_zero] at hp

theorem Matches.eq_of_address (h : Matches g t l) {x y : Allocation} (hx : x ∈ l) (hy : y ∈ l)
    (ha : x.address.word.toNat = y.address.word.toNat) : x = y :=
  h.eq_of_mem_extent hx hy (h.mem_extent hx) (ha ▸ h.mem_extent hy)

theorem Matches.nodup (h : Matches g t l) : l.Nodup := by
  apply h.pairwise.imp_of_mem
  intro x y hx _ ho hxy
  subst hxy
  exact Extent.not_mem_of_not_overlaps ho (h.mem_extent hx) (h.mem_extent hx)

theorem Matches.perm_without (h : Matches g t l) {y : Allocation} (hy : y ∈ l) :
    l.Perm (y :: l.without y.address.word.toNat) := by
  have herase : l.without y.address.word.toNat = l.erase y := by
    rw [h.nodup.erase_eq_filter, without]
    apply List.filter_congr
    intro x hx
    rw [Bool.eq_iff_iff, decide_eq_true_iff, bne_iff_ne]
    exact ⟨fun ha hxy => ha (hxy ▸ rfl), fun hne ha => hne (h.eq_of_address hx hy ha)⟩
  rw [herase]
  exact List.perm_cons_erase hy

theorem Matches.allocate (h : Matches g t l) (ht : t.length ≤ Word.range) {n : Nat} {a : Address}
    {t' : Table} (hr : (g.allocate n).run t = .ok a t') (i : Option Nat) :
    Matches g t' (⟨a, n, i⟩ :: l) ∧ t'.length = t.length ∧ a.word.toNat < Address.limit.toNat := by
  obtain ⟨ss, rfl, hp⟩ := h
  have ho := g.allocated_allocate ht n
  rw [hr] at ho
  cases ho with
  | @taken pre post k _ hn hs ha hlt =>
    subst hn hs
    refine ⟨⟨pre ++ .chain k :: post, rfl, ?_⟩, ?_, hlt⟩
    · have hkey : (⟨a, k + 1, i⟩ : Allocation).key = g.key ⟨(table pre).length, k + 1⟩ := by
        rw [Allocation.key, Grid.key, ha]
      rw [chains_append, chains_append, chains_free, List.nil_append, table_free,
        List.length_replicate, Nat.zero_add] at hp
      rw [chains_append, Nat.zero_add, chains, List.map_cons, List.map_append, List.map_cons, hkey]
      rw [List.map_append] at hp
      exact (hp.cons _).trans List.perm_middle.symm
    · simp only [table_append, table_cons, table_free, List.length_append, List.length_replicate,
        Segment.length_entries, Segment.length]

theorem Matches.allocate_error (h : Matches g t l) (ht : t.length ≤ Word.range) {n : Nat} {e : Failure}
    {t' : Table} (hr : (g.allocate n).run t = .error e t') : t' = t := by
  obtain ⟨ss, rfl, -⟩ := h
  have ho := g.allocated_allocate ht n
  rw [hr] at ho
  cases ho
  rfl

theorem map_chains_freed (g : Grid) (pre post : Segments) (k : Nat) :
    ((chains 0 (pre ++ .chain k :: post)).map g.key).filter
        (fun q => q.1 ≠ g.place (table pre).length) =
      (chains 0 (pre ++ (List.replicate (k + 1) .free ++ post))).map g.key := by
  have hout : ∀ c : Chain, c.start ≠ (table pre).length →
      decide ((g.key c).1 ≠ g.place (table pre).length) = true :=
    fun c hc => decide_eq_true fun he => hc (g.place_inj he)
  have hpre : ∀ q ∈ (pre.chains 0).map g.key, decide (q.1 ≠ g.place (table pre).length) = true := by
    intro q hq
    obtain ⟨c, hc, rfl⟩ := List.mem_map.1 hq
    obtain ⟨-, h0, h1⟩ := mem_chains_bounds hc
    exact hout c (by omega)
  have hpost : ∀ q ∈ (post.chains ((table pre).length + (k + 1))).map g.key,
      decide (q.1 ≠ g.place (table pre).length) = true := by
    intro q hq
    obtain ⟨c, hc, rfl⟩ := List.mem_map.1 hq
    obtain ⟨h0, -, -⟩ := mem_chains_bounds hc
    exact hout c (by omega)
  have hhead : (g.key ⟨(table pre).length, k + 1⟩ ::
        (post.chains ((table pre).length + (k + 1))).map g.key).filter
          (fun q => q.1 ≠ g.place (table pre).length) =
      ((post.chains ((table pre).length + (k + 1))).map g.key).filter
        (fun q => q.1 ≠ g.place (table pre).length) :=
    List.filter_cons_of_neg fun h => of_decide_eq_true h rfl
  rw [chains_append, Nat.zero_add, chains, List.map_append, List.map_cons, List.filter_append, hhead,
    List.filter_eq_self.2 hpre, List.filter_eq_self.2 hpost, chains_append, Nat.zero_add,
    chains_append, chains_free, List.nil_append, table_free, List.length_replicate, List.map_append]

/-- How giving back what lies at the exact address `p` ends, by what the ledger says of it. -/
inductive Released (g : Grid) (t : Table) (l : Ledger) :
    Nat → EStateM.Result Failure Table Nat → Prop where
  | foreign {p : Nat} (h : ∀ i < t.length, p ≠ g.place i) :
    Released g t l p (.error (.refused .foreignAddress) t)
  | free {i : Nat} (hi : i < t.length)
    (h : ∀ x ∈ l, ∀ j < x.length, g.place i ≠ x.address.word.toNat + j * g.blockSize.toNat) :
    Released g t l (g.place i) (.error (.refused .notTaken) t)
  | inside {x : Allocation} {j : Nat} (hx : x ∈ l) (h0 : 0 < j) (hj : j < x.length) :
    Released g t l (x.address.word.toNat + j * g.blockSize.toNat) (.error (.refused .notHead) t)
  | head {x : Allocation} {s : Nat} (hx : x ∈ l) (hs : x.address.word.toNat = g.place s)
    (hl : s + x.length ≤ t.length)
    (hm : Matches g (t.cleared s x.length) (l.without x.address.word.toNat)) :
    Released g t l x.address.word.toNat (.ok x.length (t.cleared s x.length))

theorem Matches.released_markFree (h : Matches g t l) (i : Nat) :
    Released g t l (g.place i) ((Table.markFree i).run t) := by
  obtain ⟨ss, rfl, hp⟩ := h
  have ho := Table.freed_markFree ss i
  generalize (Table.markFree i).run ss.table = o at ho ⊢
  cases ho with
  | outside hi => exact .foreign fun j hj he => absurd (g.place_inj he ▸ hj) (Nat.not_lt_of_le hi)
  | @free pre post hs =>
    subst hs
    refine .free (le_length_table pre post .free) fun x hx j hj he => ?_
    obtain ⟨pre', k, post', hs', ha, hn⟩ := exists_chain_of_mem hp hx
    have hk : j ≤ k := Nat.le_of_lt_succ (by rwa [hn] at hj)
    have hfree := getElem?_table_free pre post
    rw [ha, ← g.place_add] at he
    rw [g.place_inj he, hs', getElem?_table_chain hk] at hfree
    have hlink := Entry.isFree_link (k + 1) j
    rw [Option.some.inj hfree] at hlink
    cases hlink
  | @inside pre post k j hs hj hk =>
    subst hs
    obtain ⟨x, hx, ha, hn⟩ := exists_mem_of_chain hp
    rw [g.place_add, ← ha]
    exact .inside hx hj (hn ▸ Nat.lt_succ_of_le hk)
  | @head pre post k hs =>
    subst hs
    obtain ⟨x, hx, ha, hn⟩ := exists_mem_of_chain hp
    have hl := le_length_table pre post (.chain k)
    rw [← ha, ← Table.cleared_chain, ← hn]
    refine .head hx ha (hn ▸ hl) ⟨pre ++ (List.replicate (k + 1) .free ++ post), ?_, ?_⟩
    · rw [hn, Table.cleared_chain]
    · have hf := hp.filter fun q => decide (q.1 ≠ g.place (table pre).length)
      rw [map_chains_freed, List.filter_map] at hf
      rw [without, ha]
      exact hf

theorem Matches.released_free (h : Matches g t l) (a : Address) :
    Released g t l a.word.toNat ((g.free a).run t) := by
  rw [Grid.run_free]
  cases hb : g.blockAt t a with
  | ok i =>
    rw [(Grid.blockAt_eq_ok.1 hb).2]
    exact h.released_markFree i
  | error e =>
    obtain rfl := Grid.blockAt_eq_error hb
    refine .foreign fun i hi he => ?_
    rw [Grid.blockAt_eq_ok.2 ⟨hi, he⟩] at hb
    cases hb

end Ledger

end PhysicalHeap
