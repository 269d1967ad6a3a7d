import PhysicalHeap.Board
import PhysicalHeap.Proofs.RecordedSteps

namespace PhysicalHeap

/-- What can be asked of a heap that changes its table. -/
inductive Command where
  | allocate (n : Nat)
  | malloc (size : Word)
  | free (a : Address)
  | markFree (i : Nat)
  deriving DecidableEq

inductive Outcome where
  | address (a : Address)
  | count (n : Nat)
  | done
  deriving DecidableEq

namespace Command

def perform (g : Grid) : Command → Step Recorded Outcome
  | allocate n => do return .address (← Recorded.allocate g n)
  | malloc size => do return .address (← Recorded.malloc g size)
  | free a => do
    Recorded.free g a
    return .done
  | markFree i => do return .count (← Recorded.onTable (Table.markFree i))

def run (g : Grid) : List Command → Recorded → List (Except Failure Outcome) × Recorded
  | [], r => ([], r)
  | c :: cs, r =>
    match (c.perform g).run r with
    | .ok o r => let (os, r) := run g cs r; (.ok o :: os, r)
    | .error e r => let (os, r) := run g cs r; (.error e :: os, r)

theorem run_cons_ok {g : Grid} {c : Command} {r r' : Recorded} {o : Outcome}
    (h : (c.perform g).run r = .ok o r') (cs : List Command) :
    run g (c :: cs) r = (.ok o :: (run g cs r').1, (run g cs r').2) := by
  rw [run, h]

theorem run_cons_error {g : Grid} {c : Command} {r r' : Recorded} {e : Failure}
    (h : (c.perform g).run r = .error e r') (cs : List Command) :
    run g (c :: cs) r = (.error e :: (run g cs r').1, (run g cs r').2) := by
  rw [run, h]

theorem run_perform_allocate (g : Grid) (n : Nat) (r : Recorded) :
    ((allocate n).perform g).run r = match (g.allocate n).run r.table with
      | .ok a t => .ok (.address a) ⟨t, r.journal.record (.taken n a)⟩
      | .error e t => .error e ⟨t, r.journal⟩ := by
  simp only [perform, EStateM.run_bind, Recorded.run_allocate]
  cases (g.allocate n).run r.table with
  | ok a t => rfl
  | error e t => rfl

theorem run_perform_malloc (g : Grid) (size : Word) (r : Recorded) :
    ((malloc size).perform g).run r = match g.blocksFor size with
      | .ok n => ((allocate n).perform g).run r
      | .error e => .error e r := by
  simp only [perform, EStateM.run_bind, Recorded.run_malloc]
  cases g.blocksFor size with
  | ok n => rfl
  | error e => rfl

theorem run_perform_free (g : Grid) (a : Address) (r : Recorded) :
    ((free a).perform g).run r = match (g.free a).run r.table with
      | .ok n t => .ok .done ⟨t, r.journal.record (.freed n a)⟩
      | .error e t => .error e ⟨t, r.journal⟩ := by
  simp only [perform, EStateM.run_bind, Recorded.run_free]
  cases (g.free a).run r.table with
  | ok n t => rfl
  | error e t => rfl

end Command

namespace Ledger

def enter (g : Grid) (l : Ledger) : Command → Except Failure Outcome → Ledger
  | .allocate n, .ok (.address a) => ⟨a, n, none⟩ :: l
  | .malloc size, .ok (.address a) => ⟨a, g.needed size, none⟩ :: l
  | .free a, .ok _ => l.without a.word.toNat
  | .markFree i, .ok _ => l.without (g.place i)
  | _, _ => l

def enterAll (g : Grid) : Ledger → List (Command × Except Failure Outcome) → Ledger
  | l, [] => l
  | l, (c, o) :: h => enterAll g (l.enter g c o) h

def live (g : Grid) (cs : List Command) (r : Recorded) : Ledger :=
  enterAll g [] (cs.zip (Command.run g cs r).1)

end Ledger

namespace Command

open Ledger

/-- What the answer to a command and the state after it have to do with the ledger before it. -/
def Keeps (g : Grid) (r : Recorded) (l : Ledger) (c : Command) :
    EStateM.Result Failure Recorded Outcome → Prop
  | .ok o r' => Matches g r'.table (l.enter g c (.ok o)) ∧ r'.table.length = r.table.length
  | .error e r' => l.enter g c (.error e) = l ∧ r'.table = r.table

variable {g : Grid} {r : Recorded} {l : Ledger}

theorem enter_error (g : Grid) (l : Ledger) (c : Command) (e : Failure) :
    l.enter g c (.error e) = l := by
  cases c <;> rfl

theorem keeps_perform (h : l.Matches g r.table) (hr : g.place r.table.length < Word.range)
    (c : Command) : Keeps g r l c ((c.perform g).run r) := by
  cases c with
  | allocate n =>
    have ho := Recorded.took_allocate h hr n
    simp only [perform, EStateM.run_bind]
    generalize (Recorded.allocate g n).run r = o at ho ⊢
    cases ho with
    | failed e => exact ⟨rfl, rfl⟩
    | taken hm hl _ => exact ⟨hm none, hl⟩
  | malloc size =>
    have ho := Recorded.took_malloc h hr size
    simp only [perform, EStateM.run_bind]
    generalize (Recorded.malloc g size).run r = o at ho ⊢
    cases ho with
    | failed e => exact ⟨rfl, rfl⟩
    | taken hm hl _ => exact ⟨hm none, hl⟩
  | free a =>
    have ho := h.released_free a
    simp only [perform, EStateM.run_bind, Recorded.run_free]
    generalize hp : a.word.toNat = p at ho
    generalize (g.free a).run r.table = o at ho ⊢
    cases ho with
    | foreign | free | inside => exact ⟨rfl, rfl⟩
    | head hx hs hl hm =>
      refine ⟨?_, Table.length_cleared hl⟩
      rw [enter, hp]
      exact hm
  | markFree i =>
    have ho := h.released_markFree i
    simp only [perform, EStateM.run_bind, Recorded.run_onTable]
    generalize hp : g.place i = p at ho
    generalize (Table.markFree i).run r.table = o at ho ⊢
    cases ho with
    | foreign | free | inside => exact ⟨rfl, rfl⟩
    | head hx hs hl hm =>
      refine ⟨?_, Table.length_cleared hl⟩
      rw [enter, hp]
      exact hm

theorem matches_of_run (h : l.Matches g r.table) (hr : g.place r.table.length < Word.range)
    (cs : List Command) :
    (enterAll g l (cs.zip (run g cs r).1)).Matches g (run g cs r).2.table ∧
      (run g cs r).2.table.length = r.table.length := by
  induction cs generalizing l r with
  | nil => exact ⟨h, rfl⟩
  | cons c cs ih =>
    have ho := keeps_perform h hr c
    simp only [run]
    cases hc : (c.perform g).run r with
    | ok o r' =>
      rw [hc] at ho
      obtain ⟨hm, hl⟩ := ho
      obtain ⟨h1, h2⟩ := ih hm (by rwa [hl])
      exact ⟨h1, h2.trans hl⟩
    | error e r' =>
      rw [hc] at ho
      obtain ⟨-, ht⟩ := ho
      obtain ⟨h1, h2⟩ := ih (r := r') (ht ▸ h) (by rwa [ht])
      refine ⟨?_, h2.trans (congrArg List.length ht)⟩
      simpa only [List.zip_cons_cons, enterAll, enter_error] using h1

theorem created {base stop : Address} {blockSize : Word} {r₀ r : Recorded} {g : Grid}
    (h : (Recorded.create base stop blockSize).run r₀ = .ok g r) :
    g.base = base ∧ g.blockSize = blockSize ∧ Matches g r.table [] ∧
      g.place r.table.length = stop.word.toNat := by
  obtain ⟨hb, hs, ht, hp⟩ := Recorded.run_create_eq_ok h
  refine ⟨hb, hs, ?_, ?_⟩
  · rw [ht]
    exact matches_clear g r₀.table
  · rw [← hp, ht, Table.clear, List.length_map]

theorem live_of_run {base stop : Address} {blockSize : Word} {r₀ r : Recorded} {g : Grid}
    (h : (Recorded.create base stop blockSize).run r₀ = .ok g r) (cs : List Command) :
    (live g cs r).Matches g (run g cs r).2.table ∧
      g.place (run g cs r).2.table.length = stop.word.toNat := by
  obtain ⟨-, -, hm, hp⟩ := created h
  have hr : g.place r.table.length < Word.range := hp ▸ stop.word.toNat_lt
  obtain ⟨h1, h2⟩ := matches_of_run hm hr cs
  exact ⟨h1, by rw [h2, hp]⟩

/-- After any commands the table consists of free entries and whole chains, and the chains are the
live allocations. These have no byte in common and lie in the heap. -/
theorem chains_are_live {base stop : Address} {blockSize : Word} {r₀ r : Recorded} {g : Grid}
    (h : (Recorded.create base stop blockSize).run r₀ = .ok g r) (cs : List Command) :
    (live g cs r).Matches g (run g cs r).2.table ∧
      (live g cs r).Pairwise (fun x y => (x.extent g).overlaps (y.extent g) = false) ∧
      ∀ x ∈ live g cs r, 0 < x.length ∧ base.word.toNat ≤ (x.extent g).start ∧
        (x.extent g).stop ≤ stop.word.toNat := by
  obtain ⟨hm, hp⟩ := live_of_run h cs
  refine ⟨hm, hm.pairwise, fun x hx => ?_⟩
  obtain ⟨hlo, hpos, hhi⟩ := hm.within hx
  have hbase : g.place 0 = base.word.toNat := by
    rw [Grid.place, Nat.zero_mul, Nat.add_zero, (created h).1]
  rw [hbase] at hlo
  rw [hp] at hhi
  exact ⟨hpos, hlo, hhi⟩

theorem chains_are_live_reused :
    let r : Recorded := ⟨List.replicate 4 0xFF, Board.machine.journal⟩
    let g : Grid := ⟨⟨0x42000000⟩, 4096, by decide⟩
    let cs : List Command := [.malloc 4097, .allocate 1, .free ⟨0x42000000⟩, .free ⟨0x42000000⟩,
      .markFree 3, .allocate 1]
    ∃ r', (Recorded.create ⟨0x42000000⟩ ⟨0x42004000⟩ 4096).run r = .ok g r' ∧
      (run g cs r').2.table = [0x41, 0x00, 0x41, 0x00] ∧
      live g cs r' = [⟨⟨0x42000000⟩, 1, none⟩, ⟨⟨0x42002000⟩, 1, none⟩] ∧
      (live g cs r').Matches g (run g cs r').2.table := by
  intro r g cs
  have h : (Recorded.create ⟨0x42000000⟩ ⟨0x42004000⟩ 4096).run r =
      .ok g ⟨List.replicate 4 0, Board.machine.journal⟩ := rfl
  exact ⟨_, h, by decide +kernel, by decide +kernel, (chains_are_live h cs).1⟩

end Command

end PhysicalHeap
