import PhysicalHeap.Proofs.History

namespace PhysicalHeap

theorem Address.ofWord_eq_error {w : Word} {e : Failure} :
    ofWord w = .error e ↔ e = .halted .wideAddress ∧ limit.toNat ≤ w.toNat := by
  rw [ofWord, ← Nat.not_lt, ← UInt64.lt_iff_toNat_lt]
  by_cases h : w < limit
  · rw [if_pos h]
    exact ⟨fun he => (by cases he), fun he => absurd h he.2⟩
  · rw [if_neg h, and_iff_left h, halt, Except.error.injEq]
    exact eq_comm

namespace Grid

variable {g : Grid} {t : Table}

theorem stop_eq_ofWord {a : Address} (h : g.place t.length = a.word.toNat) :
    g.stop t = Address.ofWord a.word := by
  have hw : exact (g.base.word.toNat + t.length * g.blockSize.toNat) = .ok a.word := exact_eq_ok.2 h.symm
  rw [stop, hw]
  rfl

theorem address_eq_ofWord (hr : g.place t.length < Word.range) {i : Nat} (hi : i < t.length) :
    ∃ w : Word, w.toNat = g.place i ∧ g.address t i = Address.ofWord w := by
  obtain ⟨w, hw⟩ := exact_of_lt (Nat.lt_trans (place_lt hi) hr)
  refine ⟨w, exact_eq_ok.1 hw, ?_⟩
  rw [place] at hw
  rw [address, if_pos hi, hw]
  rfl

theorem address_eq_error (hr : g.place t.length < Word.range) {i : Nat} (hi : i < t.length)
    {e : Failure} :
    g.address t i = .error e ↔ e = .halted .wideAddress ∧ Address.limit.toNat ≤ g.place i := by
  obtain ⟨w, hw, ha⟩ := address_eq_ofWord hr hi
  rw [ha, Address.ofWord_eq_error, hw]

theorem blockAt_eq_foreign {a : Address} :
    g.blockAt t a = refuse .foreignAddress ↔ ∀ i < t.length, a.word.toNat ≠ g.place i := by
  constructor
  · intro h i hi ha
    cases h.symm.trans (blockAt_eq_ok.2 ⟨hi, ha⟩)
  · intro h
    cases hb : g.blockAt t a with
    | ok i =>
      obtain ⟨hi, ha⟩ := blockAt_eq_ok.1 hb
      exact absurd ha (h i hi)
    | error e => rw [blockAt_eq_error hb, refuse]

theorem blockAt_iff_address (hlim : g.place t.length < Address.limit.toNat) {a : Address} {i : Nat} :
    g.blockAt t a = .ok i ↔ g.address t i = .ok a := by
  rw [blockAt_eq_ok, address_eq_ok]
  constructor
  · rintro ⟨hi, ha⟩
    exact ⟨hi, ha, Nat.lt_trans (place_lt hi) hlim⟩
  · rintro ⟨hi, ha, -⟩
    exact ⟨hi, ha⟩

theorem exists_address (hlim : g.place t.length < Address.limit.toNat) {i : Nat} (hi : i < t.length) :
    ∃ a, g.address t i = .ok a ∧ a.word.toNat = g.place i := by
  obtain ⟨w, hw, ha⟩ := address_eq_ofWord (Nat.lt_trans hlim Address.limit.toNat_lt) hi
  have hlt := Nat.lt_trans (place_lt hi) hlim
  rw [← hw] at hlt
  exact ⟨⟨w⟩, ha.trans (Address.ofWord_eq_ok.2 ⟨rfl, hlt⟩), hw⟩

/-- How taking `n` blocks ends, whatever the table holds: by the leftmost run that is long enough, and by
whether that run starts at an address. Nothing is written unless it does. -/
inductive Answered (g : Grid) (t : Table) (n : Nat) : EStateM.Result Failure Table Address → Prop where
  | refused {r : Refusal} (hf : t.findRun n = refuse r) : Answered g t n (.error (.refused r) t)
  | wide {s : Nat} (hf : t.findRun n = .ok s) (hw : Address.limit.toNat ≤ g.place s) :
    Answered g t n (.error (.halted .wideAddress) t)
  | taken {s : Nat} {a : Address} (hf : t.findRun n = .ok s) (ha : a.word.toNat = g.place s)
    (hlt : g.place s < Address.limit.toNat) :
    Answered g t n (.ok a (t.take s ++ (Entry.chain n ++ t.drop (s + n))))

theorem answered_allocate (hr : g.place t.length < Word.range) (n : Nat) :
    Answered g t n ((g.allocate n).run t) := by
  rw [run_allocate]
  cases hf : t.findRun n with
  | error e =>
    obtain ⟨r, rfl⟩ := Table.findRun_eq_error hf
    exact .refused hf
  | ok s =>
    have hl := Table.le_length_of_findRun hf
    have hn := Nat.pos_of_ne_zero (Table.findRun_eq_ok hf).1
    dsimp only
    cases ha : g.address t s with
    | error e =>
      obtain ⟨rfl, hw⟩ := (address_eq_error hr (by omega)).1 ha
      exact .wide hf hw
    | ok a =>
      obtain ⟨-, hplace, hlt⟩ := address_eq_ok.1 ha
      dsimp only
      rw [Table.run_markTaken hl (Nat.le_trans hl (length_le_range hr))]
      exact .taken hf hplace hlt

theorem allocate_wide (hr : g.place t.length < Word.range) {n s : Nat} (hf : t.findRun n = .ok s)
    (hw : Address.limit.toNat ≤ g.place s) :
    (g.allocate n).run t = .error (.halted .wideAddress) t := by
  have ho := answered_allocate hr n
  generalize (g.allocate n).run t = o at ho ⊢
  cases ho with
  | refused hf' => cases hf.symm.trans hf'
  | wide => rfl
  | taken hf' _ hlt =>
    cases hf.symm.trans hf'
    exact absurd hw (Nat.not_le_of_lt hlt)

theorem exists_wide_of_allocate (hr : g.place t.length < Word.range) {n : Nat} {f : Fault} {t' : Table}
    (h : (g.allocate n).run t = .error (.halted f) t') :
    ∃ i < t.length, Address.limit.toNat ≤ g.place i := by
  have ho := answered_allocate hr n
  rw [h] at ho
  cases ho with
  | @wide s hf hw =>
    have hl := Table.le_length_of_findRun hf
    have hn := Nat.pos_of_ne_zero (Table.findRun_eq_ok hf).1
    exact ⟨s, by omega, hw⟩

theorem run_allocate_clear (hr : g.place t.clear.length < Word.range)
    (hb : g.base.word.toNat < Address.limit.toNat) {n : Nat} (hn : n ≠ 0) (hl : n ≤ t.length) :
    (g.allocate n).run t.clear = .ok g.base (Entry.chain n ++ t.clear.drop n) := by
  have hf := Table.findRun_clear hn hl
  have ho := answered_allocate hr n
  generalize (g.allocate n).run t.clear = o at ho ⊢
  cases ho with
  | refused hf' => cases hf.symm.trans hf'
  | wide hf' hw =>
    cases hf.symm.trans hf'
    rw [place_zero] at hw
    exact absurd hw (Nat.not_le_of_lt hb)
  | taken hf' ha =>
    cases hf.symm.trans hf'
    rw [Address.toNat_inj (ha.trans g.place_zero), List.take_zero, List.nil_append, Nat.zero_add]

theorem roundUp_of_findRun (hr : g.place t.length < Word.range) {size : Word} {s : Nat}
    (hf : t.findRun (g.needed size) = .ok s) : ∃ w, g.roundUp size = .ok w := by
  have hl := Table.le_length_of_findRun hf
  have hbytes : g.needed size * g.blockSize.toNat ≤ t.length * g.blockSize.toNat :=
    Nat.mul_le_mul_right _ (Nat.le_trans (Nat.le_add_left _ s) hl)
  rw [place] at hr
  obtain ⟨w, hw⟩ := exact_of_lt (n := g.needed size * g.blockSize.toNat) (by omega)
  exact ⟨w, roundUp_eq_ok.2 (exact_eq_ok.1 hw)⟩

end Grid

namespace Recorded

/-- How taking blocks for `size` bytes ends, whatever the table holds. -/
inductive Answered (g : Grid) (r : Recorded) (size : Word) :
    EStateM.Result Failure Recorded Address → Prop where
  | refused {e : Refusal} (hf : ∀ s, r.table.findRun (g.needed size) ≠ .ok s) :
    Answered g r size (.error (.refused e) r)
  | wide {s : Nat} (hf : r.table.findRun (g.needed size) = .ok s)
    (hw : Address.limit.toNat ≤ g.place s) : Answered g r size (.error (.halted .wideAddress) r)
  | taken {s : Nat} {a : Address} {t : Table} (hf : r.table.findRun (g.needed size) = .ok s)
    (ha : a.word.toNat = g.place s)
    (ht : t = r.table.take s ++ (Entry.chain (g.needed size) ++ r.table.drop (s + g.needed size))) :
    Answered g r size (.ok a ⟨t, r.journal.record (.taken (g.needed size) a)⟩)

/-- Bytes for which no number of blocks can be told do not fit into any table, so that rounding them up
makes no difference: what counts is the exact number of blocks. -/
theorem malloc_eq_allocate {g : Grid} {r : Recorded} (hr : g.place r.table.length < Word.range)
    (size : Word) : (malloc g size).run r = (allocate g (g.needed size)).run r := by
  rw [run_malloc]
  cases hw : g.roundUp size with
  | ok w => rw [Grid.blocksFor_of_roundUp hw]
  | error e =>
    obtain rfl := Grid.roundUp_eq_error hw
    have hn : g.needed size ≠ 0 := by
      intro h0
      have hzero : g.roundUp size = .ok 0 := Grid.roundUp_eq_ok.2 (by rw [h0, Nat.zero_mul]; rfl)
      cases hw.symm.trans hzero
    have hf : r.table.findRun (g.needed size) = refuse .exhausted := by
      refine Table.findRun_eq_exhausted_iff.2 ⟨hn, fun s hs => ?_⟩
      obtain ⟨s', -, hs'⟩ := Table.findRun_of_free hn hs
      obtain ⟨w, hw'⟩ := Grid.roundUp_of_findRun hr hs'
      cases hw.symm.trans hw'
    rw [Grid.blocksFor_eq_error hw, run_allocate, Grid.run_allocate, hf]
    rfl

theorem answered_malloc {g : Grid} {r : Recorded} (hr : g.place r.table.length < Word.range)
    (size : Word) : Answered g r size ((malloc g size).run r) := by
  have ho := Grid.answered_allocate hr (g.needed size)
  rw [malloc_eq_allocate hr, run_allocate]
  generalize (g.allocate (g.needed size)).run r.table = o at ho ⊢
  cases ho with
  | refused hf => exact .refused fun s hs => (by cases hs.symm.trans hf)
  | wide hf hlim => exact .wide hf hlim
  | taken hf ha => exact .taken hf ha rfl

/-- Blocks and addresses lead to each other if the end of the heap is an address of 48 bits, however large
a block is: each block has an address, which is the exact number of bytes above the base, and which is the
only one that the block is found by. An address at which no block starts is refused. No number on the way is
past the end of the heap, and none is divided by zero. -/
theorem blocks_told_by_address {base stop : Address} {blockSize : Word} {r₀ r₁ : Recorded} {g : Grid}
    (h : (create base stop blockSize).run r₀ = .ok g r₁) (hlt : stop.word < Address.limit) {t : Table}
    (hl : t.length = r₁.table.length) :
    let place := fun i => base.word.toNat + i * blockSize.toNat
    blockSize ≠ 0 ∧ place t.length = stop.word.toNat ∧
    (∀ i < t.length, ∃ a, g.address t i = .ok a ∧ a.word.toNat = place i ∧ g.blockAt t a = .ok i) ∧
    ∀ a : Address,
      (∀ i, g.blockAt t a = .ok i ↔ i < t.length ∧ a.word.toNat = place i) ∧
      (∀ i, g.blockAt t a = .ok i ↔ g.address t i = .ok a) ∧
      (g.blockAt t a = refuse .foreignAddress ↔ ∀ i < t.length, a.word.toNat ≠ place i) ∧
      ∀ f, g.blockAt t a ≠ halt f := by
  intro place
  obtain ⟨rfl, rfl, -, hp⟩ := run_create_eq_ok h
  rw [← length_of_create h, ← hl] at hp
  have hlim : g.place t.length < Address.limit.toNat := hp ▸ UInt64.lt_iff_toNat_lt.1 hlt
  refine ⟨g.blockSize_ne, hp, fun i hi => ?_, fun a => ⟨fun i => Grid.blockAt_eq_ok,
    fun i => Grid.blockAt_iff_address hlim, Grid.blockAt_eq_foreign, fun f hf => ?_⟩⟩
  · obtain ⟨a, ha, hplace⟩ := Grid.exists_address hlim hi
    exact ⟨a, ha, hplace, (Grid.blockAt_iff_address hlim).2 ha⟩
  · cases Grid.blockAt_eq_error hf

theorem blocks_told_by_address_last :
    let r₀ : Recorded := ⟨List.replicate 3 0xFF, Board.machine.journal⟩
    let r₁ : Recorded := ⟨List.replicate 3 0, Board.machine.journal⟩
    let g : Grid := ⟨⟨0xFFFFFFFFFFEA⟩, 7, by decide⟩
    (create ⟨0xFFFFFFFFFFEA⟩ ⟨0xFFFFFFFFFFFF⟩ 7).run r₀ = .ok g r₁ ∧
      g.address r₁.table 2 = .ok ⟨0xFFFFFFFFFFF8⟩ ∧ g.blockAt r₁.table ⟨0xFFFFFFFFFFF8⟩ = .ok 2 ∧
      g.blockAt r₁.table ⟨0xFFFFFFFFFFFF⟩ = refuse .foreignAddress ∧
      g.blockAt r₁.table ⟨0xFFFFFFFFFFE9⟩ = refuse .foreignAddress ∧
      g.blockAt r₁.table ⟨0xFFFFFFFFFFFFFFF8⟩ = refuse .foreignAddress := by
  intro r₀ r₁ g
  have h : (create ⟨0xFFFFFFFFFFEA⟩ ⟨0xFFFFFFFFFFFF⟩ 7).run r₀ = .ok g r₁ := rfl
  obtain ⟨-, -, -, htold⟩ := blocks_told_by_address h (by decide) (t := r₁.table) rfl
  have hlast : g.blockAt r₁.table ⟨0xFFFFFFFFFFF8⟩ = .ok 2 :=
    ((htold _).1 2).2 ⟨by decide, by decide⟩
  exact ⟨h, ((htold _).2.1 2).1 hlast, hlast, (htold _).2.2.1.2 (by decide), (htold _).2.2.1.2 (by decide),
    (htold _).2.2.1.2 (by decide)⟩

end Recorded

namespace Command

open Ledger

variable {g : Grid} {r r' : Recorded} {l : Ledger} {f : Fault}

theorem exists_wide_of_perform_allocate (hr : g.place r.table.length < Word.range) {n : Nat}
    (h : ((allocate n).perform g).run r = .error (.halted f) r') :
    ∃ i < r.table.length, Address.limit.toNat ≤ g.place i := by
  rw [run_perform_allocate] at h
  cases ha : (g.allocate n).run r.table with
  | ok a t =>
    rw [ha] at h
    cases h
  | error e t =>
    rw [ha] at h
    cases h
    exact Grid.exists_wide_of_allocate hr ha

theorem exists_wide_of_perform (h : l.Matches g r.table) (hr : g.place r.table.length < Word.range)
    {c : Command} (hc : (c.perform g).run r = .error (.halted f) r') :
    ∃ i < r.table.length, Address.limit.toNat ≤ g.place i := by
  cases c with
  | allocate n => exact exists_wide_of_perform_allocate hr hc
  | malloc size =>
    rw [run_perform_malloc] at hc
    cases hn : g.roundUp size with
    | ok w =>
      rw [Grid.blocksFor_of_roundUp hn] at hc
      exact exists_wide_of_perform_allocate hr hc
    | error e =>
      obtain rfl := Grid.roundUp_eq_error hn
      rw [Grid.blocksFor_eq_error hn] at hc
      cases hc
  | free a =>
    -- giving back is done or refused, and never stops the computation
    have ho := h.released_free a
    rw [run_perform_free] at hc
    generalize a.word.toNat = p at ho
    generalize (g.free a).run r.table = o at ho hc
    cases ho <;> cases hc
  | markFree i =>
    have ho := h.released_markFree i
    simp only [perform, EStateM.run_bind, Recorded.run_onTable] at hc
    generalize g.place i = p at ho
    generalize (Table.markFree i).run r.table = o at ho hc
    cases ho <;> cases hc

theorem exists_wide_of_mem_run (h : l.Matches g r.table) (hr : g.place r.table.length < Word.range)
    {cs : List Command} (hf : .error (.halted f) ∈ (run g cs r).1) :
    ∃ i < r.table.length, Address.limit.toNat ≤ g.place i := by
  induction cs generalizing l r with
  | nil => cases hf
  | cons c cs ih =>
    have ho := keeps_perform h hr c
    cases hc : (c.perform g).run r with
    | ok o r' =>
      rw [hc] at ho
      rw [run_cons_ok hc] at hf
      obtain ⟨hm, hl⟩ := ho
      obtain hf | hf := List.mem_cons.1 hf
      · cases hf
      · rw [← hl]
        exact ih hm (by rwa [hl]) hf
    | error e r' =>
      rw [hc] at ho
      rw [run_cons_error hc] at hf
      obtain ⟨-, ht⟩ := ho
      obtain hf | hf := List.mem_cons.1 hf
      · obtain rfl := Except.error.inj hf
        exact exists_wide_of_perform h hr hc
      · rw [← ht]
        exact ih (ht ▸ h) (by rwa [ht]) hf

theorem halted_mem_run (hr : g.place r.table.length < Word.range) {n s : Nat}
    (hf : r.table.findRun n = .ok s) (hw : Address.limit.toNat ≤ g.place s) (cs : List Command) :
    .error (.halted .wideAddress) ∈ (run g (.allocate n :: cs) r).1 := by
  have hp := run_perform_allocate g n r
  rw [Grid.allocate_wide hr hf hw] at hp
  rw [run_cons_error hp]
  exact List.mem_cons_self

/-- A fresh heap can be brought to stop at a block past the last address: by taking all blocks before
that one, and then one more. -/
theorem exists_halted_of_wide {t : Table} (ht : r.table = t.clear)
    (hr : g.place r.table.length < Word.range) {i : Nat} (hi : i < r.table.length)
    (hw : Address.limit.toNat ≤ g.place i) :
    ∃ cs, .error (.halted .wideAddress) ∈ (run g cs r).1 := by
  have hlen : t.clear.length = t.length := List.length_map _
  rw [ht] at hr hi
  by_cases hb : g.base.word.toNat < Address.limit.toNat
  · have hi0 : i ≠ 0 := by
      rintro rfl
      rw [Grid.place_zero] at hw
      omega
    have ha := Grid.run_allocate_clear hr hb hi0 (Nat.le_of_lt (hlen ▸ hi))
    have hrest : t.clear.drop i = Entry.free :: t.clear.drop (i + 1) := by
      obtain ⟨_, hfree⟩ := List.getElem?_eq_some_iff.1 (Table.getElem?_clear (hlen ▸ hi))
      rw [List.drop_eq_getElem_cons hi, hfree]
    have hp := run_perform_allocate g i r
    rw [ht, ha] at hp
    refine ⟨[.allocate i, .allocate 1], ?_⟩
    rw [run_cons_ok hp]
    apply List.mem_cons_of_mem
    refine halted_mem_run ?_ ?_ hw []
    · rw [List.length_append, Entry.length_chain, List.length_drop,
        Nat.add_sub_cancel' (Nat.le_of_lt hi)]
      exact hr
    · rw [hrest]
      exact Table.findRun_chain i _
  · refine ⟨[.allocate 1], halted_mem_run (ht ▸ hr) (s := 0) ?_ ?_ []⟩
    · rw [ht]
      exact Table.findRun_clear Nat.one_ne_zero (by omega)
    · rw [Grid.place_zero]
      exact Nat.le_of_not_lt hb

/-- The end of a heap and the addresses of its blocks are worked out exactly, and every command is
answered, if and only if the end is an address of 48 bits. In any case nothing overflows 64 bits: an
address is missing only if it would lie past the last one, and a command stops only at a block that
starts there. -/
theorem addressable_iff {base stop : Address} {blockSize : Word} {r₀ r : Recorded} {g : Grid}
    (h : (Recorded.create base stop blockSize).run r₀ = .ok g r) :
    ((∀ cs, let t := (run g cs r).2.table
        g.stop t = .ok stop ∧
        (∀ i < t.length, ∃ a, g.address t i = .ok a ∧
          a.word.toNat = base.word.toNat + i * blockSize.toNat) ∧
        ∀ f, .error (.halted f) ∉ (run g cs r).1) ↔ stop.word < Address.limit) ∧
    (∀ cs, let t := (run g cs r).2.table
      g.stop t = Address.ofWord stop.word ∧
      ∀ i < t.length, ∃ w : Word, w.toNat = base.word.toNat + i * blockSize.toNat ∧
        g.address t i = Address.ofWord w) ∧
    ((∀ cs f, .error (.halted f) ∉ (run g cs r).1) ↔
      ∀ i < r.table.length, base.word.toNat + i * blockSize.toNat < Address.limit.toNat) := by
  obtain ⟨-, -, ht, -⟩ := Recorded.run_create_eq_ok h
  obtain ⟨rfl, rfl, hm, hp⟩ := created h
  have hr : g.place r.table.length < Word.range := hp ▸ stop.word.toNat_lt
  have hend : ∀ cs, g.place (run g cs r).2.table.length = stop.word.toNat :=
    fun cs => (live_of_run h cs).2
  have hexact : ∀ cs, let t := (run g cs r).2.table
      g.stop t = Address.ofWord stop.word ∧
      ∀ i < t.length, ∃ w : Word, w.toNat = g.place i ∧ g.address t i = Address.ofWord w :=
    fun cs => ⟨Grid.stop_eq_ofWord (hend cs),
      fun _ hi => Grid.address_eq_ofWord (hend cs ▸ stop.word.toNat_lt) hi⟩
  have hhalts : (∀ cs f, .error (.halted f) ∉ (run g cs r).1) ↔
      ∀ i < r.table.length, g.place i < Address.limit.toNat := by
    constructor
    · intro hno i hi
      apply Nat.lt_of_not_le
      intro hw
      obtain ⟨cs, hcs⟩ := exists_halted_of_wide ht hr hi hw
      exact hno cs _ hcs
    · intro hall cs f hf
      obtain ⟨i, hi, hw⟩ := exists_wide_of_mem_run hm hr hf
      exact absurd hw (Nat.not_le_of_lt (hall i hi))
  refine ⟨⟨fun hall => ?_, fun hlt cs => ⟨?_, fun i hi => ?_, ?_⟩⟩, hexact, hhalts⟩
  · obtain ⟨hstop, -, -⟩ := hall []
    rw [(hexact []).1, Address.ofWord_eq_ok] at hstop
    exact UInt64.lt_iff_toNat_lt.2 hstop.2
  · rw [(hexact cs).1, Address.ofWord_eq_ok]
    exact ⟨rfl, UInt64.lt_iff_toNat_lt.1 hlt⟩
  · obtain ⟨w, hw, ha⟩ := (hexact cs).2 i hi
    have hlim : w.toNat < Address.limit.toNat := by
      rw [hw]
      exact Nat.lt_trans (hend cs ▸ Grid.place_lt hi) (UInt64.lt_iff_toNat_lt.1 hlt)
    exact ⟨⟨w⟩, ha.trans (Address.ofWord_eq_ok.2 ⟨rfl, hlim⟩), hw⟩
  · apply hhalts.2
    intro i hi
    exact Nat.lt_trans (hp ▸ Grid.place_lt hi) (UInt64.lt_iff_toNat_lt.1 hlt)

theorem addressable_iff_past_limit :
    let r : Recorded := ⟨List.replicate 2 0xFF, Board.machine.journal⟩
    let g : Grid := ⟨⟨0xFFFFFFFFF000⟩, 4096, by decide⟩
    let r' : Recorded := ⟨List.replicate 2 0, Board.machine.journal⟩
    let cs : List Command := [.allocate 1, .allocate 1]
    (Recorded.create ⟨0xFFFFFFFFF000⟩ ⟨0x1000000001000⟩ 4096).run r = .ok g r' ∧
      g.stop r'.table = halt .wideAddress ∧ g.address r'.table 1 = halt .wideAddress ∧
      (run g cs r').1 = [.ok (.address ⟨0xFFFFFFFFF000⟩), .error (.halted .wideAddress)] ∧
      ¬ ∀ cs f, .error (.halted f) ∉ (run g cs r').1 := by
  intro r g r' cs
  have h : (Recorded.create ⟨0xFFFFFFFFF000⟩ ⟨0x1000000001000⟩ 4096).run r = .ok g r' := rfl
  obtain ⟨-, hexact, hhalts⟩ := addressable_iff h
  have hstop : Address.ofWord 0x1000000001000 = halt .wideAddress :=
    Address.ofWord_eq_error.2 ⟨rfl, by decide⟩
  have hfirst : ((allocate 1).perform g).run r' = .ok (.address ⟨0xFFFFFFFFF000⟩)
      ⟨[0x41, 0x00], r'.journal.record (.taken 1 ⟨0xFFFFFFFFF000⟩)⟩ := by
    have ha : (g.allocate 1).run r'.table = .ok ⟨0xFFFFFFFFF000⟩ [0x41, 0x00] :=
      Grid.run_allocate_clear (t := [0, 0]) (by decide) (by decide) Nat.one_ne_zero (by decide)
    rw [run_perform_allocate, ha]
  have hsecond : ∀ j, ((allocate 1).perform g).run ⟨[0x41, 0x00], j⟩ =
      .error (.halted .wideAddress) ⟨[0x41, 0x00], j⟩ := by
    intro j
    have ha : (g.allocate 1).run [0x41, 0x00] = .error (.halted .wideAddress) [0x41, 0x00] :=
      Grid.allocate_wide (by decide) (Table.findRun_chain 1 []) (by decide)
    rw [run_perform_allocate, ha]
  refine ⟨h, ?_, ?_, ?_, fun hno => ?_⟩
  · exact (hexact []).1.trans hstop
  · obtain ⟨w, hw, ha⟩ := (hexact []).2 1 (by decide)
    exact ha.trans (Address.ofWord_eq_error.2 ⟨rfl, hw ▸ by decide⟩)
  · rw [run_cons_ok hfirst, run_cons_error (hsecond _)]
    rfl
  · exact absurd (hhalts.1 hno 1 (by decide)) (by decide)

end Command

end PhysicalHeap
