import PhysicalHeap.Proofs.Addressing

namespace PhysicalHeap

open Step

/-- Two computations end alike: both with values that correspond, or both with the same failure, and in
states that correspond. -/
inductive Alike {σ τ α β : Type} (Q : α → β → Prop) (R : σ → τ → Prop) :
    EStateM.Result Failure σ α → EStateM.Result Failure τ β → Prop where
  | ok {a : α} {b : β} {s : σ} {t : τ} (h : Q a b) (hs : R s t) : Alike Q R (.ok a s) (.ok b t)
  | error {e : Failure} {s : σ} {t : τ} (hs : R s t) : Alike Q R (.error e s) (.error e t)

def answer {σ α : Type} : EStateM.Result Failure σ α → Except Failure α
  | .ok a _ => .ok a
  | .error e _ => .error e

theorem exists_of_answer_eq_ok {σ α : Type} {x : EStateM.Result Failure σ α} {a : α}
    (h : answer x = .ok a) : ∃ s, x = .ok a s := by
  cases x with
  | ok b s =>
    obtain rfl := Except.ok.inj h
    exact ⟨s, rfl⟩
  | error e s => cases h

inductive Attempted {α β : Type} (Q : α → β → Prop) : Except Refusal α → Except Refusal β → Prop where
  | ok {a : α} {b : β} (h : Q a b) : Attempted Q (.ok a) (.ok b)
  | error (r : Refusal) : Attempted Q (.error r) (.error r)

namespace Alike

variable {σ τ α β γ δ : Type} {Q : α → β → Prop} {P : γ → δ → Prop} {R : σ → τ → Prop}
  {f : Step σ α} {f' : Step τ β} {s : σ} {t : τ}

theorem mono {Q' : α → β → Prop} {x : EStateM.Result Failure σ α} {y : EStateM.Result Failure τ β}
    (h : Alike Q R x y) (hq : ∀ a b, Q a b → Q' a b) : Alike Q' R x y := by
  cases h with
  | ok h hs => exact .ok (hq _ _ h) hs
  | error hs => exact .error hs

theorem bind (h : Alike Q R (f.run s) (f'.run t)) {k : α → Step σ γ} {k' : β → Step τ δ}
    (hk : ∀ a b s t, Q a b → R s t → Alike P R ((k a).run s) ((k' b).run t)) :
    Alike P R ((f >>= k).run s) ((f' >>= k').run t) := by
  rw [EStateM.run_bind, EStateM.run_bind]
  generalize f.run s = x at h ⊢
  generalize f'.run t = y at h ⊢
  cases h with
  | ok h hs => exact hk _ _ _ _ h hs
  | error hs => exact .error hs

theorem attempt (h : Alike Q R (f.run s) (f'.run t)) :
    Alike (Attempted Q) R ((attempt f).run s) ((attempt f').run t) := by
  rw [run_attempt, run_attempt]
  generalize f.run s = x at h ⊢
  generalize f'.run t = y at h ⊢
  cases h with
  | ok h hs => exact .ok (.ok h) hs
  | @error e _ _ hs =>
    cases e with
    | refused r => exact .ok (.error r) hs
    | halted f => exact .error hs

theorem judged (x : Except Failure α) (h : R s t) :
    Alike (fun a b => a = b ∧ x = .ok a) R ((Step.judged x).run s) ((Step.judged x).run t) := by
  cases x with
  | ok a => exact .ok ⟨rfl, rfl⟩ h
  | error e => exact .error h

theorem reached (h : Alike Q R (f.run s) (f'.run t)) :
    R (PhysicalHeap.reached (f.run s)) (PhysicalHeap.reached (f'.run t)) := by
  generalize f.run s = x at h ⊢
  generalize f'.run t = y at h ⊢
  cases h with
  | ok _ hs => exact hs
  | error hs => exact hs

theorem answer_eq {x : EStateM.Result Failure σ α} {y : EStateM.Result Failure τ α}
    (h : Alike Eq R x y) : answer x = answer y := by
  cases h with
  | ok h _ => exact congrArg Except.ok h
  | error _ => rfl

end Alike

namespace Grid

variable {g : Grid} {t : Table}

theorem length_reached_allocate (g : Grid) (n : Nat) (t : Table) :
    (reached ((g.allocate n).run t)).length = t.length := by
  rw [run_allocate]
  cases t.findRun n with
  | error e => rfl
  | ok s =>
    dsimp only
    cases g.address t s with
    | error e => rfl
    | ok a =>
      have hl := Table.length_reached_markTaken s n t
      dsimp only
      cases hm : (Table.markTaken s n).run t with
      | ok _ u => rwa [hm] at hl
      | error e u => rwa [hm] at hl

theorem length_reached_free (g : Grid) (a : Address) (t : Table) :
    (reached ((g.free a).run t)).length = t.length := by
  rw [run_free]
  cases g.blockAt t a with
  | error e => rfl
  | ok i => exact Table.length_reached_markFree i t

theorem length_reached_create (base stop : Address) (blockSize : Word) (t : Table) :
    (reached ((create base stop blockSize).run t)).length = t.length := by
  obtain ⟨v, -, hrun⟩ := exists_judged base stop blockSize t.length
  rw [hrun t rfl]
  cases v with
  | ok g => exact List.length_map _
  | error e => rfl

theorem run_create_congr {base stop : Address} {blockSize : Word} {t u t' : Table}
    (h : (create base stop blockSize).run t = .ok g u) (hl : t'.length = t.length) :
    (create base stop blockSize).run t' = .ok g u := by
  have hclear : t'.clear = t.clear := by
    rw [Table.clear, Table.clear, List.map_const', List.map_const', hl]
  obtain ⟨v, -, hrun⟩ := exists_judged base stop blockSize t.length
  rw [hrun t rfl] at h
  rw [hrun t' hl]
  cases v with
  | error e => cases h
  | ok g' =>
    cases h
    exact congrArg (EStateM.Result.ok g) hclear

end Grid

namespace Recorded

structure Beside (n : Nat) (R : Journal → Journal → Prop) (r r' : Recorded) : Prop where
  table : r'.table = r.table
  length : r.table.length = n
  journal : R r.journal r'.journal

variable {n : Nat} {R : Journal → Journal → Prop} {r r' : Recorded}

def Told (R : Journal → Journal → Prop) : Prop := ∀ j k n, R j k → R (j.record n) (k.record n)

theorem exists_create_congr {base stop : Address} {blockSize : Word} {g : Grid} {u : Recorded}
    (h : (create base stop blockSize).run r = .ok g u) (hl : r'.table.length = r.table.length) :
    ∃ u', (create base stop blockSize).run r' = .ok g u' ∧ u'.table = u.table ∧
      (r'.journal = r.journal → u'.journal = u.journal) := by
  rw [run_create] at h ⊢
  cases hc : (Grid.create base stop blockSize).run r.table with
  | error e t =>
    rw [hc] at h
    cases h
  | ok g' t =>
    rw [hc] at h
    cases h
    rw [Grid.run_create_congr hc hl]
    exact ⟨_, rfl, rfl, fun hj => by rw [hj]⟩

theorem alike_create (hR : Told R) (h : Beside n R r r') (base stop : Address) (blockSize : Word) :
    Alike Eq (Beside n R) ((create base stop blockSize).run r) ((create base stop blockSize).run r') := by
  have hl := Grid.length_reached_create base stop blockSize r.table
  rw [run_create, run_create, h.table]
  cases hc : (Grid.create base stop blockSize).run r.table with
  | ok g t =>
    rw [hc] at hl
    exact .ok rfl ⟨rfl, hl.trans h.length, hR _ _ _ h.journal⟩
  | error e t =>
    rw [hc] at hl
    exact .error ⟨rfl, hl.trans h.length, h.journal⟩

theorem alike_allocate (hR : Told R) (h : Beside n R r r') (g : Grid) (k : Nat) :
    Alike Eq (Beside n R) ((allocate g k).run r) ((allocate g k).run r') := by
  have hl := g.length_reached_allocate k r.table
  rw [run_allocate, run_allocate, h.table]
  cases ha : (g.allocate k).run r.table with
  | ok a t =>
    rw [ha] at hl
    exact .ok rfl ⟨rfl, hl.trans h.length, hR _ _ _ h.journal⟩
  | error e t =>
    rw [ha] at hl
    exact .error ⟨rfl, hl.trans h.length, h.journal⟩

theorem alike_malloc (hR : Told R) (h : Beside n R r r') (g : Grid) (size : Word) :
    Alike Eq (Beside n R) ((malloc g size).run r) ((malloc g size).run r') := by
  rw [run_malloc, run_malloc]
  cases g.blocksFor size with
  | ok k => exact alike_allocate hR h g k
  | error e => exact .error h

theorem alike_free (hR : Told R) (h : Beside n R r r') (g : Grid) (a : Address) :
    Alike Eq (Beside n R) ((free g a).run r) ((free g a).run r') := by
  have hl := g.length_reached_free a r.table
  rw [run_free, run_free, h.table]
  cases hf : (g.free a).run r.table with
  | ok k t =>
    rw [hf] at hl
    exact .ok rfl ⟨rfl, hl.trans h.length, hR _ _ _ h.journal⟩
  | error e t =>
    rw [hf] at hl
    exact .error ⟨rfl, hl.trans h.length, h.journal⟩

theorem alike_read {α : Type} (h : Beside n R r r') (f : Table → Except Failure α) :
    Alike Eq (Beside n R) ((do Step.judged (f (← get).table) : Step Recorded α).run r)
      ((do Step.judged (f (← get).table) : Step Recorded α).run r') := by
  simp only [EStateM.run_bind, EStateM.run_get, h.table]
  cases f r.table with
  | ok a => exact .ok rfl h
  | error e => exact .error h

end Recorded

end PhysicalHeap
