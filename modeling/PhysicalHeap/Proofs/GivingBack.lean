import PhysicalHeap.Proofs.History

namespace PhysicalHeap

namespace Ledger

variable {g : Grid} {t : Table} {l : Ledger}

theorem Matches.exists_block (h : Matches g t l) {x : Allocation} (hx : x ∈ l) {j : Nat}
    (hj : j < x.length) : ∃ i < t.length, x.address.word.toNat + j * g.blockSize.toNat = g.place i := by
  obtain ⟨s, hs, hl, -⟩ := h.hasChain hx
  exact ⟨s + j, by omega, by rw [hs, g.place_add]⟩

theorem Matches.block_unique (h : Matches g t l) {x y : Allocation} (hx : x ∈ l) (hy : y ∈ l) {j k : Nat}
    (hj : j < x.length) (hk : k < y.length)
    (he : x.address.word.toNat + j * g.blockSize.toNat = y.address.word.toNat + k * g.blockSize.toNat) :
    j = k := by
  have hxy : x = y := h.eq_of_mem_extent hx hy (x.mem_extent g hj) (he ▸ y.mem_extent g hk)
  rw [hxy] at he
  exact Nat.eq_of_mul_eq_mul_right g.blockSize_pos (Nat.add_left_cancel he)

theorem Matches.free_eq_ok (h : Matches g t l) (a : Address) :
    (∃ n t', (g.free a).run t = .ok n t') ↔ ∃ x ∈ l, x.address = a := by
  have ho := h.released_free a
  generalize (g.free a).run t = o at ho ⊢
  generalize hp : a.word.toNat = p at ho
  cases ho with
  | foreign hf =>
    refine ⟨fun ⟨_, _, hr⟩ => (by cases hr), fun ⟨x, hx, ha⟩ => ?_⟩
    obtain ⟨i, hi, he⟩ := h.exists_block hx (h.within hx).2.1
    rw [Nat.zero_mul, Nat.add_zero, ha, hp] at he
    exact absurd he (hf i hi)
  | free hi hf =>
    refine ⟨fun ⟨_, _, hr⟩ => (by cases hr), fun ⟨x, hx, ha⟩ => ?_⟩
    have hne := hf x hx 0 (h.within hx).2.1
    rw [Nat.zero_mul, Nat.add_zero, ha] at hne
    exact absurd hp.symm hne
  | @inside y k hy h0 hk =>
    refine ⟨fun ⟨_, _, hr⟩ => (by cases hr), fun ⟨x, hx, ha⟩ => ?_⟩
    have hzero := h.block_unique hx hy (h.within hx).2.1 hk (by rw [Nat.zero_mul, Nat.add_zero, ha, hp])
    exact absurd hzero (Nat.ne_of_lt h0)
  | @head x s hx =>
    exact ⟨fun _ => ⟨x, hx, Address.toNat_inj hp.symm⟩, fun _ => ⟨_, _, rfl⟩⟩

theorem Matches.free_notHead (h : Matches g t l) (a : Address) :
    (g.free a).run t = .error (.refused .notHead) t ↔
      ∃ x ∈ l, ∃ j, 0 < j ∧ j < x.length ∧
        a.word.toNat = x.address.word.toNat + j * g.blockSize.toNat := by
  have ho := h.released_free a
  generalize (g.free a).run t = o at ho ⊢
  generalize a.word.toNat = p at ho ⊢
  cases ho with
  | foreign hf =>
    refine ⟨fun hr => (by cases hr), fun ⟨x, hx, j, _, hj, ha⟩ => ?_⟩
    obtain ⟨i, hi, he⟩ := h.exists_block hx hj
    exact absurd (ha.trans he) (hf i hi)
  | free hi hf => exact ⟨fun hr => (by cases hr), fun ⟨x, hx, j, _, hj, ha⟩ => absurd ha (hf x hx j hj)⟩
  | @inside x j hx h0 hj => exact ⟨fun _ => ⟨x, hx, j, h0, hj, rfl⟩, fun _ => rfl⟩
  | @head y s hy _ _ _ =>
    refine ⟨fun hr => (by cases hr), fun ⟨x, hx, j, h0, hj, ha⟩ => ?_⟩
    have hzero := h.block_unique hy hx (h.within hy).2.1 hj (by rwa [Nat.zero_mul, Nat.add_zero])
    exact absurd hzero (Nat.ne_of_lt h0)

theorem Matches.exists_of_mem_extent (h : Matches g t l) {x : Allocation} (hx : x ∈ l) {i : Nat}
    (hi : g.place i ∈ x.extent g) :
    ∃ j < x.length, g.place i = x.address.word.toNat + j * g.blockSize.toNat := by
  obtain ⟨s, hs, -, -⟩ := h.hasChain hx
  obtain ⟨hlo, hhi⟩ := hi
  change x.address.word.toNat ≤ g.place i at hlo
  change g.place i < x.address.word.toNat + x.length * g.blockSize.toNat at hhi
  rw [hs] at hlo hhi ⊢
  rw [← g.place_add] at hhi
  have hlt := Grid.lt_of_place_lt hhi
  have hle : s ≤ i := Nat.le_of_not_lt fun hs => absurd (Grid.place_lt hs) (Nat.not_lt_of_le hlo)
  refine ⟨i - s, by omega, ?_⟩
  rw [← g.place_add, Nat.add_sub_cancel' hle]

theorem Matches.free_notTaken (h : Matches g t l) (a : Address) :
    (g.free a).run t = .error (.refused .notTaken) t ↔
      (∃ i < t.length, a.word.toNat = g.place i) ∧ ∀ x ∈ l, a.word.toNat ∉ x.extent g := by
  have ho := h.released_free a
  generalize (g.free a).run t = o at ho ⊢
  generalize a.word.toNat = p at ho ⊢
  cases ho with
  | foreign hf => exact ⟨fun hr => (by cases hr), fun ⟨⟨i, hi, he⟩, _⟩ => absurd he (hf i hi)⟩
  | @free i hi hf =>
    refine ⟨fun _ => ⟨⟨i, hi, rfl⟩, fun x hx hmem => ?_⟩, fun _ => rfl⟩
    obtain ⟨j, hj, he⟩ := h.exists_of_mem_extent hx hmem
    exact hf x hx j hj he
  | @inside x j hx _ hj =>
    exact ⟨fun hr => (by cases hr), fun ⟨_, hf⟩ => absurd (x.mem_extent g hj) (hf x hx)⟩
  | @head x s hx _ _ _ =>
    exact ⟨fun hr => (by cases hr), fun ⟨_, hf⟩ => absurd (h.mem_extent hx) (hf x hx)⟩

theorem Matches.free_foreign (h : Matches g t l) (a : Address) :
    (g.free a).run t = .error (.refused .foreignAddress) t ↔
      ∀ i < t.length, a.word.toNat ≠ g.place i := by
  have ho := h.released_free a
  generalize (g.free a).run t = o at ho ⊢
  generalize a.word.toNat = p at ho ⊢
  cases ho with
  | foreign hf => exact ⟨fun _ => hf, fun _ => rfl⟩
  | @free i hi _ => exact ⟨fun hr => (by cases hr), fun hf => absurd rfl (hf i hi)⟩
  | @inside x j hx _ hj =>
    obtain ⟨i, hi, he⟩ := h.exists_block hx hj
    exact ⟨fun hr => (by cases hr), fun hf => absurd he (hf i hi)⟩
  | @head x s hx _ _ _ =>
    obtain ⟨i, hi, he⟩ := h.exists_block hx (h.within hx).2.1
    rw [Nat.zero_mul, Nat.add_zero] at he
    exact ⟨fun hr => (by cases hr), fun hf => absurd he (hf i hi)⟩

theorem Matches.free_error (h : Matches g t l) {a : Address} {e : Failure} {t' : Table}
    (hr : (g.free a).run t = .error e t') : t' = t := by
  have ho := h.released_free a
  rw [hr] at ho
  generalize a.word.toNat = p at ho
  cases ho with
  | foreign | free | inside => rfl

end Ledger

namespace Recorded

theorem free_eq_ok_iff {g : Grid} {r : Recorded} {a : Address} :
    (∃ r', (free g a).run r = .ok () r') ↔ ∃ n t', (g.free a).run r.table = .ok n t' := by
  rw [run_free]
  cases (g.free a).run r.table with
  | ok n t' => exact ⟨fun _ => ⟨n, t', rfl⟩, fun _ => ⟨_, rfl⟩⟩
  | error e t' => exact ⟨fun ⟨_, h⟩ => (by cases h), fun ⟨_, _, h⟩ => (by cases h)⟩

theorem free_eq_error_iff {g : Grid} {r r' : Recorded} {a : Address} {e : Failure} :
    (free g a).run r = .error e r' ↔
      (g.free a).run r.table = .error e r'.table ∧ r'.journal = r.journal := by
  rw [run_free]
  cases (g.free a).run r.table with
  | ok n t' => exact ⟨fun h => (by cases h), fun ⟨h, _⟩ => (by cases h)⟩
  | error e t' =>
    constructor
    · intro h
      cases h
      exact ⟨rfl, rfl⟩
    · rintro ⟨h, hj⟩
      cases h
      rw [← hj]

end Recorded

namespace Command

open Ledger

theorem mem_enter {g : Grid} {l : Ledger} {c : Command} {o : Except Failure Outcome} {x : Allocation}
    (hx : x ∈ l.enter g c o) : x ∈ l ∨ o = .ok (.address x.address) := by
  cases o with
  | error e =>
    rw [enter_error] at hx
    exact Or.inl hx
  | ok o =>
    cases c with
    | allocate n | malloc n =>
      cases o with
      | address a =>
        obtain rfl | hx := List.mem_cons.1 hx
        · exact Or.inr rfl
        · exact Or.inl hx
      | count n | done => exact Or.inl hx
    | free a | markFree i => exact Or.inl (List.mem_filter.1 hx).1

theorem mem_enterAll {g : Grid} {l : Ledger} {h : List (Command × Except Failure Outcome)}
    {x : Allocation} (hx : x ∈ enterAll g l h) :
    x ∈ l ∨ ∃ c, (c, .ok (.address x.address)) ∈ h := by
  induction h generalizing l with
  | nil => exact Or.inl hx
  | cons e h ih =>
    obtain ⟨c, o⟩ := e
    obtain hx | ⟨c', hc⟩ := ih hx
    · obtain hx | rfl := mem_enter hx
      · exact Or.inl hx
      · exact Or.inr ⟨c, List.mem_cons_self⟩
    · exact Or.inr ⟨c', List.mem_cons_of_mem _ hc⟩

theorem handed_out_of_freed {g : Grid} {r r₁ r₂ : Recorded} {l : Ledger} (h : l.Matches g r.table)
    (hr : g.place r.table.length < Word.range) {a : Address} (hf : (Recorded.free g a).run r = .ok () r₁)
    (cs : List Command) (hf' : (Recorded.free g a).run (run g cs r₁).2 = .ok () r₂) :
    .ok (.address a) ∈ (run g cs r₁).1 := by
  have hk := keeps_perform h hr (.free a)
  simp only [perform, EStateM.run_bind, hf] at hk
  obtain ⟨hm, hl⟩ := hk
  obtain ⟨hm', -⟩ := matches_of_run hm (by rwa [hl]) cs
  obtain ⟨x, hx, rfl⟩ := (hm'.free_eq_ok a).1 (Recorded.free_eq_ok_iff.1 ⟨r₂, hf'⟩)
  obtain hx | ⟨c, hc⟩ := mem_enterAll hx
  · have hne := of_decide_eq_true (List.mem_filter.1 hx).2
    exact absurd rfl hne
  · exact (List.of_mem_zip hc).2

/-- How giving back an address ends, by what was handed out before and is not given back yet. What
was given back once is given back again only after it was handed out again. -/
theorem freed_by_history {base stop : Address} {blockSize : Word} {r₀ r : Recorded} {g : Grid}
    (h : (Recorded.create base stop blockSize).run r₀ = .ok g r) (cs : List Command) (a : Address) :
    let r' := (run g cs r).2
    let l := live g cs r
    let o := (Recorded.free g a).run r'
    ((∃ r₁, o = .ok () r₁) ↔ ∃ x ∈ l, x.address = a) ∧
    (o = .error (.refused .notHead) r' ↔
      ∃ x ∈ l, ∃ j, 0 < j ∧ j < x.length ∧
        a.word.toNat = x.address.word.toNat + j * blockSize.toNat) ∧
    (o = .error (.refused .notTaken) r' ↔
      (base.word.toNat ≤ a.word.toNat ∧ a.word.toNat < stop.word.toNat ∧
        blockSize.toNat ∣ a.word.toNat - base.word.toNat) ∧
      ∀ x ∈ l, a.word.toNat ∉ x.extent g) ∧
    (o = .error (.refused .foreignAddress) r' ↔
      a.word.toNat < base.word.toNat ∨ stop.word.toNat ≤ a.word.toNat ∨
        ¬ blockSize.toNat ∣ a.word.toNat - base.word.toNat) ∧
    (∀ e r₁, o = .error e r₁ → r₁ = r') ∧
    ∀ r₁ cs' r₂, o = .ok () r₁ → (Recorded.free g a).run (run g cs' r₁).2 = .ok () r₂ →
      .ok (.address a) ∈ (run g cs' r₁).1 := by
  intro r' l o
  obtain ⟨rfl, rfl, -, -⟩ := created h
  obtain ⟨hm, hp⟩ := live_of_run h cs
  have herror : ∀ e, o = .error e r' ↔ (g.free a).run r'.table = .error e r'.table := by
    intro e
    exact Recorded.free_eq_error_iff.trans (and_iff_left rfl)
  have hplace := Grid.exists_place (g := g) (n := r'.table.length) (p := a.word.toNat)
  rw [hp] at hplace
  refine ⟨?_, ?_, ?_, ?_, ?_, ?_⟩
  · rw [Recorded.free_eq_ok_iff]
    exact hm.free_eq_ok a
  · rw [herror]
    exact hm.free_notHead a
  · rw [herror, hm.free_notTaken a, hplace]
  · rw [herror, hm.free_foreign a, ← Nat.not_le, ← Nat.not_lt (b := stop.word.toNat),
      ← Decidable.not_and_iff_or_not, ← Decidable.not_and_iff_or_not, ← hplace]
    exact ⟨fun hf ⟨i, hi, he⟩ => hf i hi he, fun hf i hi he => hf ⟨i, hi, he⟩⟩
  · intro e r₁ ho
    obtain ⟨hf, hj⟩ := Recorded.free_eq_error_iff.1 ho
    have ht := hm.free_error hf
    cases r₁
    exact congr (congrArg Recorded.mk ht) hj
  · intro r₁ cs' r₂ ho hf
    exact handed_out_of_freed hm (hp ▸ stop.word.toNat_lt) ho cs' hf

theorem freed_by_history_pair :
    let r : Recorded := ⟨List.replicate 3 0xFF, Board.machine.journal⟩
    let g : Grid := ⟨⟨0x42000000⟩, 4096, by decide⟩
    let r' : Recorded := ⟨List.replicate 3 0, Board.machine.journal⟩
    let cs : List Command := [.allocate 1, .malloc 4097, .free ⟨0x42000000⟩]
    let o := fun a : Word => (Recorded.free g ⟨a⟩).run (run g cs r').2
    (Recorded.create ⟨0x42000000⟩ ⟨0x42003000⟩ 4096).run r = .ok g r' ∧
      live g cs r' = [⟨⟨0x42001000⟩, 2, none⟩] ∧
      o 0x42002000 = .error (.refused .notHead) (run g cs r').2 ∧
      o 0x42000000 = .error (.refused .notTaken) (run g cs r').2 ∧
      o 0x42000800 = .error (.refused .foreignAddress) (run g cs r').2 ∧
      o 0x41FFF000 = .error (.refused .foreignAddress) (run g cs r').2 ∧
      ∃ r₁, o 0x42001000 = .ok () r₁ := by
  intro r g r' cs o
  have h : (Recorded.create ⟨0x42000000⟩ ⟨0x42003000⟩ 4096).run r = .ok g r' := rfl
  have hl : live g cs r' = [⟨⟨0x42001000⟩, 2, none⟩] := by decide +kernel
  refine ⟨h, hl, ?_, ?_, ?_, ?_, ?_⟩
  · apply (freed_by_history h cs ⟨0x42002000⟩).2.1.2
    rw [hl]
    exact ⟨_, List.mem_cons_self, 1, by decide⟩
  · apply (freed_by_history h cs ⟨0x42000000⟩).2.2.1.2
    rw [hl]
    exact ⟨by decide, by decide⟩
  · apply (freed_by_history h cs ⟨0x42000800⟩).2.2.2.1.2
    exact Or.inr (Or.inr (by decide))
  · apply (freed_by_history h cs ⟨0x41FFF000⟩).2.2.2.1.2
    exact Or.inl (by decide)
  · apply (freed_by_history h cs ⟨0x42001000⟩).1.2
    rw [hl]
    exact ⟨_, List.mem_cons_self, rfl⟩

end Command

end PhysicalHeap
