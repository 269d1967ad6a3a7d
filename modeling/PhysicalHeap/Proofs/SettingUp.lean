import PhysicalHeap.Board
import PhysicalHeap.Proofs.Addressing
import PhysicalHeap.Proofs.ArenaSteps

namespace PhysicalHeap

open Step Machine

namespace Recorded

theorem exists_judged (base stop : Address) (blockSize : Word) (r : Recorded) :
    ∃ v, Grid.Judged base stop blockSize r.table.length v ∧
      (create base stop blockSize).run r = match v with
        | .ok g => .ok g
            ⟨r.table.clear, r.journal.record (.created base stop r.table.length blockSize)⟩
        | .error e => .error e r := by
  obtain ⟨v, hv, hrun⟩ := Grid.exists_judged base stop blockSize r.table.length
  refine ⟨v, hv, ?_⟩
  rw [run_create, hrun r.table rfl]
  cases v with
  | ok g =>
    have hl : r.table.clear.length = r.table.length := List.length_map _
    dsimp only
    rw [hl]
  | error e => rfl

/-- A heap is created over whole blocks for which the table has one entry each, and over nothing else.
Whatever the table held before, its entries are free then. If there is something to object to, the first
objection is answered and nothing is changed: a block of no size, bounds that are no whole blocks, bounds
in the wrong order, too short or too long a table. -/
theorem create_first_objection (base stop : Address) (blockSize : Word) (r : Recorded) :
    let o := (create base stop blockSize).run r
    let aligned := blockSize.toNat ∣ base.word.toNat ∧ blockSize.toNat ∣ stop.word.toNat
    let span := stop.word.toNat - base.word.toNat
    ((∃ g r', o = .ok g r') ↔ blockSize ≠ 0 ∧ aligned ∧ base.word.toNat ≤ stop.word.toNat ∧
      r.table.length * blockSize.toNat = span) ∧
    (o = .error (.refused .zeroBlock) r ↔ blockSize = 0) ∧
    (o = .error (.refused .unaligned) r ↔ blockSize ≠ 0 ∧ ¬ aligned) ∧
    (o = .error (.refused .reversed) r ↔
      blockSize ≠ 0 ∧ aligned ∧ stop.word.toNat < base.word.toNat) ∧
    (∀ expected actual, o = .error (.refused (.tableLength expected actual)) r ↔
      blockSize ≠ 0 ∧ aligned ∧ base.word.toNat ≤ stop.word.toNat ∧
        r.table.length * blockSize.toNat ≠ span ∧
        expected = span / blockSize.toNat ∧ actual = r.table.length) ∧
    (∀ e r', o = .error e r' → r' = r) ∧
    ∀ g r', o = .ok g r' → g.base = base ∧ g.blockSize = blockSize ∧
      r'.table = List.replicate r.table.length 0x00 ∧
      r'.journal = r.journal.record (.created base stop r.table.length blockSize) := by
  intro o aligned span
  obtain ⟨v, hv, ho⟩ := exists_judged base stop blockSize r
  change o = _ at ho
  have hok : ∀ g r', o = .ok g r' ↔ v = .ok g ∧
      r' = ⟨r.table.clear, r.journal.record (.created base stop r.table.length blockSize)⟩ := by
    intro g r'
    rw [ho]
    cases v with
    | ok g' => simp only [EStateM.Result.ok.injEq, Except.ok.injEq, eq_comm]
    | error e => simp only [reduceCtorEq, false_and]
  have herror : ∀ e r', o = .error e r' ↔ v = .error e ∧ r' = r := by
    intro e r'
    rw [ho]
    cases v with
    | ok g => simp only [reduceCtorEq, false_and]
    | error e' => simp only [EStateM.Result.error.injEq, Except.error.injEq, eq_comm]
  have hanswered : ∀ e, o = .error e r ↔ v = .error e := fun e => (herror e r).trans (and_iff_left rfl)
  have hcreated : (∃ g r', o = .ok g r') ↔ ∃ g, v = .ok g := by
    simp only [hok, exists_and_left, exists_eq, and_true]
  refine ⟨hcreated.trans hv.exists_ok_iff, (hanswered _).trans hv.zeroBlock_iff,
    (hanswered _).trans hv.unaligned_iff, (hanswered _).trans hv.reversed_iff,
    fun expected actual => (hanswered _).trans (hv.tableLength_iff expected actual),
    fun e r' h => ((herror e r').1 h).2, ?_⟩
  intro g r' h
  obtain ⟨rfl, rfl⟩ := (hok g r').1 h
  cases hv with
  | laid h0 hd hle hl => exact ⟨rfl, rfl, List.map_const', rfl⟩

end Recorded

namespace Placement

variable {p : Placement}

theorem stop_wide (hb : Address.limit ≤ p.base) : p.stop = halt .wideAddress := by
  have hbase : Address.ofWord p.base = halt .wideAddress :=
    Address.ofWord_eq_error.2 ⟨rfl, UInt64.le_iff_toNat_le.1 hb⟩
  rw [stop, hbase]
  rfl

theorem stop_reversed (hb : p.base < Address.limit) (hr : Word.range ≤ p.heapExtent.stop) :
    p.stop = refuse .reversed := by
  have hnone : Address.add? ⟨p.base⟩ p.size = none := by
    rw [Address.add?, Word.add?_eq_none.2 hr]
    rfl
  rw [stop, Address.ofWord, if_pos hb]
  simp only [bind, Except.bind, hnone]

theorem exists_stop (hb : p.base < Address.limit) (hr : p.heapExtent.stop < Word.range) :
    ∃ a, p.stop = .ok a ∧ a.word.toNat = p.heapExtent.stop := by
  have hsum : (UInt64.ofNat p.heapExtent.stop).toNat = p.heapExtent.stop :=
    UInt64.toNat_ofNat_of_lt' hr
  have hsome : Address.add? ⟨p.base⟩ p.size = some ⟨UInt64.ofNat p.heapExtent.stop⟩ :=
    Address.add?_eq_some.2 hsum
  refine ⟨_, ?_, hsum⟩
  rw [stop, Address.ofWord, if_pos hb]
  simp only [bind, Except.bind, hsome]
  rfl

/-- What there is to object to in a placement, before anything is set up: the first that applies of a block
of no size, an end past the last word, and bounds that are no whole blocks. -/
inductive Judged (p : Placement) : Except Refusal Unit → Prop where
  | zeroBlock (h0 : p.blockSize = 0) : Judged p (.error .zeroBlock)
  | reversed (h0 : p.blockSize ≠ 0) (hr : ¬ p.heapExtent.stop < Word.range) : Judged p (.error .reversed)
  | unaligned (h0 : p.blockSize ≠ 0) (hr : p.heapExtent.stop < Word.range)
    (hd : ¬ (p.blockSize.toNat ∣ p.base.toNat ∧ p.blockSize.toNat ∣ p.size.toNat)) :
    Judged p (.error .unaligned)
  | whole (h0 : p.blockSize ≠ 0) (hr : p.heapExtent.stop < Word.range)
    (hd : p.blockSize.toNat ∣ p.base.toNat ∧ p.blockSize.toNat ∣ p.size.toNat) : Judged p (.ok ())

namespace Judged

variable {v w : Except Refusal Unit}

theorem unique (hv : p.Judged v) (hw : p.Judged w) : v = w := by
  cases hv with
  | zeroBlock h0 =>
    cases hw with
    | zeroBlock => rfl
    | reversed h | unaligned h | whole h => exact absurd h0 h
  | reversed h0 hr =>
    cases hw with
    | zeroBlock h => exact absurd h h0
    | reversed => rfl
    | unaligned _ h | whole _ h => exact absurd h hr
  | unaligned h0 hr hd =>
    cases hw with
    | zeroBlock h => exact absurd h h0
    | reversed _ h => exact absurd hr h
    | unaligned => rfl
    | whole _ _ h => exact absurd h hd
  | whole h0 hr hd =>
    cases hw with
    | zeroBlock h => exact absurd h h0
    | reversed _ h => exact absurd hr h
    | unaligned _ _ h => exact absurd hd h
    | whole => rfl

theorem zeroBlock_iff (h : p.Judged v) : v = .error .zeroBlock ↔ p.blockSize = 0 := by
  constructor
  · rintro rfl
    cases h with
    | zeroBlock h0 => exact h0
  · exact fun h0 => h.unique (.zeroBlock h0)

theorem reversed_iff (h : p.Judged v) :
    v = .error .reversed ↔ p.blockSize ≠ 0 ∧ ¬ p.heapExtent.stop < Word.range := by
  constructor
  · rintro rfl
    cases h with
    | reversed h0 hr => exact ⟨h0, hr⟩
  · exact fun ⟨h0, hr⟩ => h.unique (.reversed h0 hr)

theorem unaligned_iff (h : p.Judged v) :
    v = .error .unaligned ↔ p.blockSize ≠ 0 ∧ p.heapExtent.stop < Word.range ∧
      ¬ (p.blockSize.toNat ∣ p.base.toNat ∧ p.blockSize.toNat ∣ p.size.toNat) := by
  constructor
  · rintro rfl
    cases h with
    | unaligned h0 hr hd => exact ⟨h0, hr, hd⟩
  · exact fun ⟨h0, hr, hd⟩ => h.unique (.unaligned h0 hr hd)

theorem whole_iff (h : p.Judged v) :
    v = .ok () ↔ p.blockSize ≠ 0 ∧ p.heapExtent.stop < Word.range ∧
      p.blockSize.toNat ∣ p.base.toNat ∧ p.blockSize.toNat ∣ p.size.toNat := by
  constructor
  · rintro rfl
    cases h with
    | whole h0 hr hd => exact ⟨h0, hr, hd⟩
  · exact fun ⟨h0, hr, hd⟩ => h.unique (.whole h0 hr hd)

end Judged

theorem dvd_ends_iff {stop : Address} (hw : stop.word.toNat = p.heapExtent.stop) :
    p.blockSize.toNat ∣ p.base.toNat ∧ p.blockSize.toNat ∣ stop.word.toNat ↔
      p.blockSize.toNat ∣ p.base.toNat ∧ p.blockSize.toNat ∣ p.size.toNat := by
  rw [hw]
  exact and_congr_right fun hb => (Nat.dvd_add_right hb)

theorem total_mul (hd : p.blockSize.toNat ∣ p.size.toNat) :
    p.total * p.blockSize.toNat = p.size.toNat := by
  rw [total, UInt64.toNat_div]
  exact Nat.div_mul_cancel hd

end Placement

namespace Arena

variable {p : Placement} {m : Machine}

/-- How setting up a heap ends: with the first objection there is, or with every entry of its table
freed. Only an address past the last one stops it; the end is looked at only to be recorded. -/
inductive Started (p : Placement) (m : Machine) : EStateM.Result Failure Machine Arena → Prop where
  | refused {e : Refusal} {m' : Machine} (hv : p.Judged (.error e)) (hm : SameBytes m m') :
    Started p m (.error (.refused e) m')
  | wideBase (hb : Address.limit ≤ p.base) : Started p m (.error (.halted .wideAddress) m)
  | wideStop {m' : Machine} (hi : m.journal.admits .info = true)
    (hw : Address.limit.toNat ≤ p.heapExtent.stop) : Started p m (.error (.halted .wideAddress) m')
  | ready {m' : Machine} (h0 : p.blockSize ≠ 0) (hv : p.Judged (.ok ()))
    (hm : ∀ b, m'.memory.byteAt b = if b ∈ p.tableExtent then 0 else m.memory.byteAt b) :
    Started p m (.ok ⟨p, h0⟩ m')

theorem byteAt_store_clear (s : Arena) (m : Machine) (j : Journal) (b : Nat) :
    (s.store ⟨(s.table m).clear, j⟩ m).memory.byteAt b =
      if b ∈ s.tableExtent then 0 else m.memory.byteAt b := by
  have hl : (s.table m).clear.length = s.total := (List.length_map _).trans (s.length_table m)
  by_cases hb : b ∈ s.tableExtent
  · have hin : s.tableBase.toNat ≤ b ∧ b < s.tableBase.toNat + s.total := hb
    have hlt : b - s.tableBase.toNat < (s.table m).clear.length := by omega
    have hwrite := Memory.byteAt_write m.memory s.tableBase.toNat (s.table m).clear b
    rw [hl, if_pos hin, List.getElem?_eq_getElem hlt] at hwrite
    rw [if_pos hb]
    exact hwrite.trans (List.getElem_map _)
  · rw [if_neg hb]
    exact byteAt_store hl hb

theorem stop_store_clear (s : Arena) (m : Machine) (j : Journal) {g : Grid} {stop : Address}
    (hp : g.place s.total = stop.word.toNat) :
    g.stop (s.table (s.store ⟨(s.table m).clear, j⟩ m)) = Address.ofWord stop.word := by
  have hl : (s.table m).clear.length = s.total := (List.length_map _).trans (s.length_table m)
  rw [table_store hl]
  refine Grid.stop_eq_ofWord ?_
  rw [hl]
  exact hp

theorem started_of_stop (h0 : p.blockSize ≠ 0) {stop : Address} (hstop : p.stop = .ok stop)
    (hw : stop.word.toNat = p.heapExtent.stop) : Started p m ((init p).run m) := by
  have hr : p.heapExtent.stop < Word.range := hw ▸ stop.word.toNat_lt
  have hrun := run_init ⟨p, h0⟩ m
  obtain ⟨v, hv, hc⟩ := Recorded.exists_judged ⟨p.base⟩ stop p.blockSize
    ⟨table ⟨p, h0⟩ m, m.journal⟩
  dsimp only at hrun
  rw [hstop] at hrun
  dsimp only at hrun
  rw [hc] at hrun
  cases hv with
  | zeroBlock h => exact absurd h h0
  | unaligned _ hd =>
    rw [Placement.dvd_ends_iff hw] at hd
    rw [hrun]
    exact .refused (.unaligned h0 hr hd) sameBytes_store
  | reversed _ _ hlt =>
    have hle : p.base.toNat ≤ stop.word.toNat := hw ▸ Nat.le_add_right _ _
    exact absurd hlt (Nat.not_lt_of_le hle)
  | tableLength _ hd hle hl =>
    rw [length_table, hw] at hl
    have hsize := Placement.total_mul ((Placement.dvd_ends_iff hw).1 hd).2
    exact absurd (hsize.trans (Nat.add_sub_cancel_left ..).symm) hl
  | laid _ hd =>
    rw [Placement.dvd_ends_iff hw] at hd
    have hplace : Grid.place ⟨⟨p.base⟩, p.blockSize, h0⟩ p.total = stop.word.toNat := by
      rw [Grid.place, Placement.total_mul hd.2, hw]
      rfl
    have hend := fun j => stop_store_clear ⟨p, h0⟩ m j hplace
    have hready := fun j => byteAt_store_clear ⟨p, h0⟩ m j
    dsimp only at hrun
    rw [hrun, hend]
    -- the end of the heap is looked at only if it is to be recorded
    by_cases hi : m.journal.admits .info = true
    · rw [if_pos ((Journal.admits_record _ _ _).trans hi)]
      cases ha : Address.ofWord stop.word with
      | ok a => exact .ready h0 (.whole h0 hr hd) (hready _)
      | error e =>
        obtain ⟨rfl, hwide⟩ := Address.ofWord_eq_error.1 ha
        exact .wideStop hi (hw ▸ hwide)
    · rw [if_neg (by rwa [Journal.admits_record])]
      exact .ready h0 (.whole h0 hr hd) (hready _)

theorem started_init (p : Placement) (m : Machine) : Started p m ((init p).run m) := by
  by_cases h0 : p.blockSize = 0
  · rw [run_init_of_eq_zero h0]
    exact .refused (.zeroBlock h0) fun _ => rfl
  have hrun := run_init ⟨p, h0⟩ m
  dsimp only at hrun
  by_cases hb : p.base < Address.limit
  · by_cases hr : p.heapExtent.stop < Word.range
    · obtain ⟨stop, hstop, hw⟩ := Placement.exists_stop hb hr
      exact started_of_stop h0 hstop hw
    · have hle := Nat.le_of_not_lt hr
      rw [hrun, Placement.stop_reversed hb hle]
      exact .refused (.reversed h0 hr) fun _ => rfl
  · have hle := UInt64.not_lt.1 hb
    rw [hrun, Placement.stop_wide hle]
    exact .wideBase hle

/-- Where no address is too wide, setting up ends as the placement is judged. -/
theorem Started.exists_judged {o : EStateM.Result Failure Machine Arena} (h : Started p m o)
    (hb : p.base < Address.limit)
    (hi : m.journal.admits .info = false ∨ p.heapExtent.stop < Address.limit.toNat) :
    ∃ v, p.Judged v ∧ ((∃ s m', o = .ok s m') ↔ v = .ok ()) ∧
      (∀ e, (∃ m', o = .error (.refused e) m') ↔ v = .error e) ∧ ∀ f m', o ≠ .error (.halted f) m' := by
  cases h with
  | @refused e m' hv =>
    refine ⟨_, hv, ?_, fun e' => ?_, fun f m'' h => (by cases h)⟩
    · simp only [reduceCtorEq, exists_false]
    · simp only [EStateM.Result.error.injEq, Failure.refused.injEq, Except.error.injEq, exists_and_left,
        exists_eq', and_true]
  | wideBase hw => exact absurd hb (UInt64.not_lt.2 hw)
  | wideStop hi' hw =>
    obtain hi | hlt := hi
    · rw [hi] at hi'
      cases hi'
    · exact absurd hw (Nat.not_le_of_lt hlt)
  | ready h0 hv =>
    refine ⟨_, hv, ?_, fun e => ?_, fun f m'' h => (by cases h)⟩
    · simp only [EStateM.Result.ok.injEq, exists_and_left, exists_eq', and_true]
    · simp only [reduceCtorEq, exists_false]

/-- A heap whose base is an address is set up if it has blocks of some size, ends at a word, and is made
of whole blocks. If not, the first of these that fails is answered and no byte of the memory is changed:
the table that is set aside is never too short or too long. The entries of the table are freed, and all
other bytes of the memory stay. The end has to be an address only where it is to be recorded. -/
theorem init_first_objection (hb : p.base < Address.limit)
    (hi : m.journal.admits .info = false ∨ p.heapExtent.stop < Address.limit.toNat) :
    let o := (init p).run m
    let fits := p.base.toNat + p.size.toNat < Word.range
    let aligned := p.blockSize.toNat ∣ p.base.toNat ∧ p.blockSize.toNat ∣ p.size.toNat
    ((∃ s m', o = .ok s m') ↔ p.blockSize ≠ 0 ∧ fits ∧ aligned) ∧
    ((∃ m', o = .error (.refused .zeroBlock) m') ↔ p.blockSize = 0) ∧
    ((∃ m', o = .error (.refused .reversed) m') ↔ p.blockSize ≠ 0 ∧ ¬ fits) ∧
    ((∃ m', o = .error (.refused .unaligned) m') ↔ p.blockSize ≠ 0 ∧ fits ∧ ¬ aligned) ∧
    (∀ e m', o = .error e m' → SameBytes m m' ∧
      (e = .refused .zeroBlock ∨ e = .refused .reversed ∨ e = .refused .unaligned)) ∧
    ∀ s m', o = .ok s m' → s.toPlacement = p ∧ ∀ b, m'.memory.byteAt b =
      if p.tableBase.toNat ≤ b ∧ b < p.tableBase.toNat + p.size.toNat / p.blockSize.toNat then 0
      else m.memory.byteAt b := by
  intro o fits aligned
  have hs : Started p m o := started_init p m
  obtain ⟨v, hv, hok, hrefused, hhalted⟩ := hs.exists_judged hb hi
  refine ⟨hok.trans hv.whole_iff, (hrefused _).trans hv.zeroBlock_iff, (hrefused _).trans hv.reversed_iff,
    (hrefused _).trans hv.unaligned_iff, ?_, ?_⟩
  · intro e m' h
    rw [h] at hs
    cases hs with
    | refused hv hm =>
      refine ⟨hm, ?_⟩
      cases hv with
      | zeroBlock => exact Or.inl rfl
      | reversed => exact Or.inr (Or.inl rfl)
      | unaligned => exact Or.inr (Or.inr rfl)
    | wideBase | wideStop => exact absurd h (hhalted _ _)
  · intro s m' h
    rw [h] at hs
    cases hs with
    | ready h0 hv hm =>
      refine ⟨rfl, fun b => ?_⟩
      rw [hm, ← UInt64.toNat_div]
      rfl

theorem init_past_last_address :
    let m : Machine := { Board.machine with memory := Memory.blank.fill 0x41000000 4 0xFF }
    let p : Placement := ⟨0xFFFFFFFFF000, 0x2000, 0x41000001, 0x1000⟩
    p.base < Address.limit ∧ m.journal.admits .info = false ∧
    (∃ s m', (init p).run m = .ok s m' ∧ m'.memory.byteAt 0x41000000 = 0xFF ∧
      m'.memory.byteAt 0x41000001 = 0 ∧ m'.memory.byteAt 0x41000002 = 0 ∧
      m'.memory.byteAt 0x41000003 = 0xFF) ∧
    (∃ m', (init { p with size := 0x2002 }).run m = .error (.refused .unaligned) m' ∧ SameBytes m m') ∧
    ∃ m', (init { p with size := 0xFFFF000000001000 }).run m = .error (.refused .reversed) m' ∧
      SameBytes m m' := by
  intro m p
  have hb : p.base < Address.limit := by decide
  have hi : m.journal.admits .info = false := rfl
  refine ⟨hb, hi, ?_, ?_, ?_⟩
  · obtain ⟨hok, -, -, -, -, hready⟩ := init_first_objection hb (.inl hi)
    obtain ⟨s, m', hs⟩ := hok.2 (by decide)
    obtain ⟨-, hm⟩ := hready s m' hs
    exact ⟨s, m', hs, (hm _).trans (by decide), (hm _).trans (by decide), (hm _).trans (by decide),
      (hm _).trans (by decide)⟩
  · obtain ⟨-, -, -, hunaligned, herror, -⟩ :=
      init_first_objection (p := { p with size := 0x2002 }) hb (.inl hi)
    obtain ⟨m', hm⟩ := hunaligned.2 (by decide)
    exact ⟨m', hm, (herror _ _ hm).1⟩
  · obtain ⟨-, -, hreversed, -, herror, -⟩ :=
      init_first_objection (p := { p with size := 0xFFFF000000001000 }) hb (.inl hi)
    obtain ⟨m', hm⟩ := hreversed.2 (by decide)
    exact ⟨m', hm, (herror _ _ hm).1⟩

end Arena

end PhysicalHeap
