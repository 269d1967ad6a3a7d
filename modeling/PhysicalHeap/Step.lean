import PhysicalHeap.Failure

namespace PhysicalHeap

/-- A computation on a state that may fail. The state it had reached survives the failure. -/
abbrev Step (σ : Type) : Type → Type := EStateM Failure σ

namespace Step

variable {σ τ α : Type}

/-- A verdict reached without touching the state. -/
def judged (x : Except Failure α) : Step σ α := fun s =>
  match x with
  | .ok a => .ok a s
  | .error e => .error e s

/-- Turns a refusal into a value; a fault still stops the computation. -/
def attempt (f : Step σ α) : Step σ (Except Refusal α) := fun s =>
  match f.run s with
  | .ok a s => .ok (.ok a) s
  | .error (.refused r) s => .ok (.error r) s
  | .error (.halted h) s => .error (.halted h) s

/-- Runs a step on a part of the state, and puts the part back however the step ends. -/
def focus (view : σ → τ) (update : τ → σ → σ) (f : Step τ α) : Step σ α := fun s =>
  match f.run (view s) with
  | .ok a t => .ok a (update t s)
  | .error e t => .error e (update t s)

@[simp] theorem run_judged (x : Except Failure α) (s : σ) :
    (judged x : Step σ α).run s = match x with
      | .ok a => .ok a s
      | .error e => .error e s := by
  cases x with
  | ok a => rfl
  | error e => rfl

@[simp] theorem run_attempt (f : Step σ α) (s : σ) :
    (attempt f).run s = match f.run s with
      | .ok a s => .ok (.ok a) s
      | .error (.refused r) s => .ok (.error r) s
      | .error (.halted h) s => .error (.halted h) s := rfl

@[simp] theorem run_focus (view : σ → τ) (update : τ → σ → σ) (f : Step τ α) (s : σ) :
    (focus view update f).run s = match f.run (view s) with
      | .ok a t => .ok a (update t s)
      | .error e t => .error e (update t s) := rfl

end Step

/-- The state a run has reached, whether it succeeded or failed. -/
def reached {σ α : Type} : EStateM.Result Failure σ α → σ
  | .ok _ s => s
  | .error _ s => s

@[simp] theorem reached_ok {σ α : Type} (a : α) (s : σ) :
    reached (.ok a s : EStateM.Result Failure σ α) = s := rfl

@[simp] theorem reached_error {σ α : Type} (e : Failure) (s : σ) :
    reached (.error e s : EStateM.Result Failure σ α) = s := rfl

end PhysicalHeap
