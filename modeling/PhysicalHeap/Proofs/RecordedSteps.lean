import PhysicalHeap.Recorded
import PhysicalHeap.Proofs.Ledger

namespace PhysicalHeap

open Step

theorem Grid.length_le_range {g : Grid} {t : Table} (h : g.place t.length < Word.range) :
    t.length ≤ Word.range := by
  have hm := Nat.le_mul_of_pos_right t.length g.blockSize_pos
  rw [Grid.place] at h
  omega

namespace Recorded

theorem run_onTable {α : Type} (f : Step Table α) (r : Recorded) :
    (onTable f).run r = match f.run r.table with
      | .ok a t => .ok a { r with table := t }
      | .error e t => .error e { r with table := t } := by
  rw [onTable, run_focus]
  cases f.run r.table with
  | ok a t => rfl
  | error e t => rfl

theorem run_create (base stop : Address) (blockSize : Word) (r : Recorded) :
    (create base stop blockSize).run r = match (Grid.create base stop blockSize).run r.table with
      | .ok g t => .ok g ⟨t, r.journal.record (.created base stop t.length blockSize)⟩
      | .error e t => .error e ⟨t, r.journal⟩ := by
  simp only [create, EStateM.run_bind, run_onTable]
  cases (Grid.create base stop blockSize).run r.table with
  | ok g t => rfl
  | error e t => rfl

theorem run_create_eq_ok {base stop : Address} {blockSize : Word} {r r' : Recorded} {g : Grid}
    (h : (create base stop blockSize).run r = .ok g r') :
    g.base = base ∧ g.blockSize = blockSize ∧ r'.table = r.table.clear ∧
      g.place r.table.length = stop.word.toNat := by
  rw [run_create] at h
  cases hc : (Grid.create base stop blockSize).run r.table with
  | error e t =>
    rw [hc] at h
    cases h
  | ok g' t =>
    rw [hc] at h
    cases h
    exact Grid.run_create_eq_ok hc

theorem length_of_create {base stop : Address} {blockSize : Word} {r r' : Recorded} {g : Grid}
    (h : (create base stop blockSize).run r = .ok g r') : r'.table.length = r.table.length := by
  rw [(run_create_eq_ok h).2.2.1]
  exact List.length_map _

theorem run_allocate (g : Grid) (n : Nat) (r : Recorded) :
    (allocate g n).run r = match (g.allocate n).run r.table with
      | .ok a t => .ok a ⟨t, r.journal.record (.taken n a)⟩
      | .error e t => .error e ⟨t, r.journal⟩ := by
  simp only [allocate, EStateM.run_bind, run_onTable]
  cases (g.allocate n).run r.table with
  | ok a t => rfl
  | error e t => rfl

theorem run_malloc (g : Grid) (size : Word) (r : Recorded) :
    (malloc g size).run r = match g.blocksFor size with
      | .ok n => (allocate g n).run r
      | .error e => .error e r := by
  simp only [malloc, EStateM.run_bind]
  cases g.blocksFor size with
  | ok n => rfl
  | error e => rfl

theorem run_free (g : Grid) (a : Address) (r : Recorded) :
    (free g a).run r = match (g.free a).run r.table with
      | .ok n t => .ok () ⟨t, r.journal.record (.freed n a)⟩
      | .error e t => .error e ⟨t, r.journal⟩ := by
  simp only [free, EStateM.run_bind, run_onTable]
  cases (g.free a).run r.table with
  | ok n t => rfl
  | error e t => rfl

variable {g : Grid} {r : Recorded} {l : Ledger}

inductive Took (g : Grid) (r : Recorded) (l : Ledger) (n : Nat) :
    EStateM.Result Failure Recorded Address → Prop where
  | failed (e : Failure) : Took g r l n (.error e r)
  | taken {a : Address} {r' : Recorded} (hm : ∀ i, Ledger.Matches g r'.table (⟨a, n, i⟩ :: l))
    (hl : r'.table.length = r.table.length) (ha : a.word.toNat < Address.limit.toNat) :
    Took g r l n (.ok a r')

theorem took_allocate (h : l.Matches g r.table) (hr : g.place r.table.length < Word.range) (n : Nat) :
    Took g r l n ((allocate g n).run r) := by
  rw [run_allocate]
  cases ha : (g.allocate n).run r.table with
  | ok a t =>
    have hm := h.allocate (Grid.length_le_range hr) ha
    exact .taken (fun i => (hm i).1) (hm none).2.1 (hm none).2.2
  | error e t =>
    obtain rfl := h.allocate_error (Grid.length_le_range hr) ha
    exact .failed e

theorem took_malloc (h : l.Matches g r.table) (hr : g.place r.table.length < Word.range) (size : Word) :
    Took g r l (g.needed size) ((malloc g size).run r) := by
  rw [run_malloc]
  cases hn : g.roundUp size with
  | ok n =>
    rw [Grid.blocksFor_of_roundUp hn]
    exact took_allocate h hr (g.needed size)
  | error e =>
    rw [Grid.blocksFor_eq_error hn]
    exact .failed e

end Recorded

end PhysicalHeap
