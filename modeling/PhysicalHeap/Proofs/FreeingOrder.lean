import PhysicalHeap.Proofs.GivingBack

namespace PhysicalHeap

open Segments

namespace Grid

variable {g : Grid} {t t' : Table} {x : Allocation} {xs ys l : Ledger}

/-- The table with the blocks of some allocations freed. -/
def freed (g : Grid) (xs : Ledger) (t : Table) : Table :=
  t.mapIdx fun i e => if ∃ x ∈ xs, g.place i ∈ x.extent g then Entry.free else e

theorem getElem?_freed (g : Grid) (xs : Ledger) (t : Table) (i : Nat) :
    (g.freed xs t)[i]? = t[i]?.map fun e =>
      if ∃ x ∈ xs, g.place i ∈ x.extent g then Entry.free else e :=
  List.getElem?_mapIdx

theorem freed_congr (h : ∀ x, x ∈ xs ↔ x ∈ ys) : g.freed xs t = g.freed ys t := by
  ext i : 1
  simp only [getElem?_freed, h]

theorem freed_nil (g : Grid) (t : Table) : g.freed [] t = t := by
  ext i : 1
  simp [getElem?_freed]

theorem freed_cons (g : Grid) (x : Allocation) (xs : Ledger) (t : Table) :
    g.freed (x :: xs) t = g.freed xs (g.freed [x] t) := by
  ext i : 1
  simp only [getElem?_freed, Option.map_map, List.mem_cons, exists_eq_or_imp]
  congr 1
  funext e
  by_cases hx : g.place i ∈ x.extent g <;> simp [hx]

theorem place_mem_extent {s : Nat} (hs : x.address.word.toNat = g.place s) (i : Nat) :
    g.place i ∈ x.extent g ↔ s ≤ i ∧ i < s + x.length := by
  have hstop : (x.extent g).stop = g.place (s + x.length) := by
    rw [place_add, ← hs]
    rfl
  rw [Extent.mem_iff, hstop]
  change x.address.word.toNat ≤ g.place i ∧ _ ↔ _
  rw [hs]
  constructor
  · rintro ⟨hlo, hhi⟩
    refine ⟨Nat.le_of_not_lt fun hlt => ?_, lt_of_place_lt hhi⟩
    exact absurd hlo (Nat.not_le_of_lt (place_lt hlt))
  · rintro ⟨hlo, hhi⟩
    exact ⟨place_le hlo, place_lt hhi⟩

theorem cleared_eq_freed {s : Nat} (hs : x.address.word.toNat = g.place s)
    (hl : s + x.length ≤ t.length) : t.cleared s x.length = g.freed [x] t := by
  ext i : 1
  rw [Table.getElem?_cleared hl, getElem?_freed]
  simp only [List.mem_singleton, exists_eq_left, place_mem_extent hs]
  by_cases hi : s ≤ i ∧ i < s + x.length
  · rw [if_pos hi, List.getElem?_eq_getElem (Nat.lt_of_lt_of_le hi.2 hl)]
    simp only [hi, and_self, if_true, Option.map_some]
  · simp only [hi, if_false, Option.map_id']

theorem free_allocate (h : l.Matches g t) (ht : t.length ≤ Word.range) {n : Nat} {a : Address}
    (hr : (g.allocate n).run t = .ok a t') : (g.free a).run t' = .ok n t := by
  obtain ⟨ss, rfl, -⟩ := h
  have ho := g.allocated_allocate ht n
  rw [hr] at ho
  cases ho with
  | @taken pre post k _ hn hs ha =>
    rw [run_free, blockAt_chain ha]
    dsimp only
    rw [Table.run_markFree_chain, hn, hs]

end Grid

namespace Ledger

variable {g : Grid} {t : Table} {xs l : Ledger}

theorem Matches.entry_of_not_mem (h : Matches g t l) {i : Nat} (hi : i < t.length)
    (hno : ∀ x ∈ l, g.place i ∉ x.extent g) : t[i]? = some Entry.free := by
  obtain ⟨ss, rfl, hp⟩ := h
  obtain ⟨pre, s, post, j, rfl, rfl, hj⟩ := exists_split hi
  cases s with
  | free =>
    obtain rfl : j = 0 := Nat.lt_one_iff.1 hj
    exact getElem?_table_free pre post
  | chain k =>
    obtain ⟨x, hx, ha, hn⟩ := exists_mem_of_chain hp
    have hmem := x.mem_extent g (j := j) (by rwa [hn])
    rw [ha, ← g.place_add] at hmem
    exact absurd hmem (hno x hx)

theorem Matches.freed_all (h : Matches g t l) (hp : xs.Perm l) :
    g.freed xs t = List.replicate t.length Entry.free := by
  ext i : 1
  rw [Grid.getElem?_freed, List.getElem?_replicate]
  by_cases hi : i < t.length
  · rw [if_pos hi]
    by_cases hx : ∃ x ∈ xs, g.place i ∈ x.extent g
    · simp only [hx, if_true, List.getElem?_eq_getElem hi, Option.map_some]
    · have hno : ∀ x ∈ l, g.place i ∉ x.extent g := fun x hl hm => hx ⟨x, hp.mem_iff.2 hl, hm⟩
      simp only [hx, if_false, Option.map_id', h.entry_of_not_mem hi hno]
  · rw [if_neg hi, List.getElem?_eq_none (Nat.le_of_not_lt hi), Option.map_none]

theorem Matches.free_mem (h : Matches g t l) {x : Allocation} (hx : x ∈ l) :
    (g.free x.address).run t = .ok x.length (g.freed [x] t) ∧
      Matches g (g.freed [x] t) (l.without x.address.word.toNat) := by
  have hok := (h.free_eq_ok x.address).2 ⟨x, hx, rfl⟩
  have ho := h.released_free x.address
  generalize (g.free x.address).run t = o at ho hok ⊢
  generalize hp : x.address.word.toNat = p at ho ⊢
  obtain ⟨n, t', rfl⟩ := hok
  cases ho with
  | @head y s hy hs hl hm =>
    obtain rfl := h.eq_of_address hx hy hp
    rw [← Grid.cleared_eq_freed hs hl]
    exact ⟨rfl, hm⟩

end Ledger

namespace Command

open Ledger

variable {g : Grid} {r : Recorded} {xs l : Ledger}

def frees (xs : Ledger) : List Command := xs.map fun x => .free x.address

theorem run_frees (h : l.Matches g r.table) (hd : xs.Nodup) (hs : xs ⊆ l) :
    (run g (frees xs) r).1 = xs.map (fun _ => .ok .done) ∧
      (run g (frees xs) r).2.table = g.freed xs r.table := by
  induction xs generalizing l r with
  | nil => exact ⟨rfl, (g.freed_nil r.table).symm⟩
  | cons x xs ih =>
    obtain ⟨hx, hd⟩ := List.nodup_cons.1 hd
    obtain ⟨hxl, hs⟩ := List.cons_subset.1 hs
    obtain ⟨hf, hm⟩ := h.free_mem hxl
    -- the others have addresses of their own, so they stay in the ledger
    have hrest : xs ⊆ l.without x.address.word.toNat := by
      intro y hy
      refine List.mem_filter.2 ⟨hs hy, decide_eq_true fun ha => hx ?_⟩
      rwa [h.eq_of_address hxl (hs hy) ha.symm]
    have hp := run_perform_free g x.address r
    rw [hf] at hp
    obtain ⟨hout, htable⟩ := ih (r := ⟨_, _⟩) hm hd hrest
    rw [frees, List.map_cons, run_cons_ok hp, g.freed_cons x xs]
    exact ⟨congrArg (List.cons _) hout, htable⟩

/-- Live allocations can be freed in any order, and the order makes no difference: exactly their blocks
are marked free. When all of them are freed, the table is that of a fresh heap. An allocation that is
taken and given back at once leaves the table as it was. -/
theorem freed_in_any_order {base stop : Address} {blockSize : Word} {r₀ r : Recorded} {g : Grid}
    (h : (Recorded.create base stop blockSize).run r₀ = .ok g r) (cs : List Command) :
    let r' := (run g cs r).2
    let l := live g cs r
    (∀ xs : Ledger, xs.Nodup → xs ⊆ l →
      (run g (frees xs) r').1 = xs.map (fun _ => .ok .done) ∧
      (run g (frees xs) r').2.table = g.freed xs r'.table ∧
      ∀ ys, xs.Perm ys → (run g (frees ys) r').2.table = (run g (frees xs) r').2.table) ∧
    (∀ xs : Ledger, xs.Perm l → (run g (frees xs) r').2.table = r.table) ∧
    r.table = List.replicate r.table.length Entry.free ∧
    ∀ n a r₁, (Recorded.allocate g n).run r' = .ok a r₁ →
      ∃ r₂, (Recorded.free g a).run r₁ = .ok () r₂ ∧ r₂.table = r'.table := by
  intro r' l
  obtain ⟨-, -, hm₀, hp₀⟩ := created h
  obtain ⟨hm, hp⟩ := live_of_run h cs
  have hlen : r'.table.length = r.table.length := Grid.place_inj (hp.trans hp₀.symm)
  have hfresh : r.table = List.replicate r.table.length Entry.free := by
    have hall := hm₀.freed_all (List.Perm.refl [])
    rwa [g.freed_nil] at hall
  refine ⟨fun xs hd hs => ?_, fun xs hxs => ?_, hfresh, fun n a r₁ ha => ?_⟩
  · obtain ⟨hout, htable⟩ := run_frees hm hd hs
    refine ⟨hout, htable, fun ys hys => ?_⟩
    have hs' : ys ⊆ l := fun y hy => hs (hys.mem_iff.2 hy)
    rw [(run_frees hm (hys.nodup hd) hs').2, htable]
    exact Grid.freed_congr fun y => hys.mem_iff.symm
  · rw [(run_frees hm (hxs.symm.nodup hm.nodup) hxs.subset).2, hm.freed_all hxs, hlen]
    exact hfresh.symm
  · rw [Recorded.run_allocate] at ha
    cases hg : (g.allocate n).run r'.table with
    | error e t =>
      rw [hg] at ha
      cases ha
    | ok a' t =>
      rw [hg] at ha
      cases ha
      have hr : r'.table.length ≤ Word.range := Grid.length_le_range (hp ▸ stop.word.toNat_lt)
      rw [Recorded.run_free, Grid.free_allocate hm hr hg]
      exact ⟨_, rfl, rfl⟩

theorem freed_in_any_order_adjacent :
    let r : Recorded := ⟨List.replicate 5 0xFF, Board.machine.journal⟩
    let g : Grid := ⟨⟨0x42000000⟩, 4096, by decide⟩
    let r' : Recorded := ⟨List.replicate 5 0, Board.machine.journal⟩
    let cs : List Command := [.malloc 4097, .allocate 1, .allocate 2]
    let x : Allocation := ⟨⟨0x42000000⟩, 2, none⟩
    let y : Allocation := ⟨⟨0x42002000⟩, 1, none⟩
    let z : Allocation := ⟨⟨0x42003000⟩, 2, none⟩
    let t := fun xs => (run g (frees xs) (run g cs r').2).2.table
    (Recorded.create ⟨0x42000000⟩ ⟨0x42005000⟩ 4096).run r = .ok g r' ∧
      live g cs r' = [z, y, x] ∧ (run g cs r').2.table = [0xC1, 0x01, 0x41, 0xC1, 0x01] ∧
      t [z, x] = [0x00, 0x00, 0x41, 0x00, 0x00] ∧ t [x, z] = t [z, x] ∧
      t [y, x, z] = List.replicate 5 0 := by
  intro r g r' cs x y z t
  have h : (Recorded.create ⟨0x42000000⟩ ⟨0x42005000⟩ 4096).run r = .ok g r' := rfl
  have hl : live g cs r' = [z, y, x] := by decide +kernel
  obtain ⟨hsome, hall, -, -⟩ := freed_in_any_order h cs
  rw [hl] at hsome hall
  obtain ⟨-, htable, hperm⟩ := hsome [z, x] (by decide) (by decide)
  refine ⟨h, hl, by decide +kernel, ?_, hperm [x, z] (by decide), hall [y, x, z] (by decide)⟩
  exact htable.trans (by decide +kernel)

end Command

end PhysicalHeap
