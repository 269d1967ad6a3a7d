import PhysicalHeap.Board
import PhysicalHeap.Session

namespace PhysicalHeap

/-- A program that takes and drops interrupt masks, and uses the heap. A mask that is acquired gets
the next number and lives until it is dropped. So does one that is held around a body, but if it is
still alive where the body ends, it is dropped there. `within` holds a mask around its body that has
no number, so that nothing else can drop it. -/
inductive Script where
  | skip
  | acquire
  | drop (i : Nat)
  | hold (body : Script)
  | within (body : Script)
  | observe
  | abort (reason : String)
  | request (q : Request)
  | seq (a b : Script)

/-- What a script works on. The list tells for each numbered mask whether it is held; `seen` is what
was observed, in order. -/
structure Bench where
  session : Session
  held : List Bool
  seen : List Word

namespace Bench

open Step

variable {α : Type}

def fresh : Bench := ⟨⟨⟨Board.placement, by decide⟩, Board.machine, []⟩, [], []⟩

def masks (b : Bench) : Word := b.session.machine.masks

def withMachine (f : Machine → Machine) (b : Bench) : Bench :=
  { b with session := { b.session with machine := f b.session.machine } }

def acquire (b : Bench) : Bench := { b.withMachine Machine.mask with held := b.held ++ [true] }

def isHeld (b : Bench) (i : Nat) : Bool := b.held[i]?.getD false

/-- A mask is given up at most once. -/
def drop (i : Nat) (b : Bench) : Bench :=
  if b.isHeld i then { b.withMachine Machine.unmask with held := b.held.set i false } else b

def observe (b : Bench) : Bench := { b with seen := b.seen ++ [b.masks] }

/-- Changes the bench before and after a step, and after it however the step ends. -/
def around (before after : Bench → Bench) (f : Step Bench α) : Step Bench α := fun b =>
  match f.run (before b) with
  | .ok a b => .ok a (after b)
  | .error e b => .error e (after b)

def within (f : Step Bench α) : Step Bench α :=
  around (withMachine Machine.mask) (withMachine Machine.unmask) f

def holding (f : Step Bench α) : Step Bench α := fun b =>
  (around acquire (drop b.held.length) f).run b

def onSession (f : Step Session α) : Step Bench α :=
  focus Bench.session (fun s b => { b with session := s }) f

@[simp] theorem run_around (before after : Bench → Bench) (f : Step Bench α) (b : Bench) :
    (around before after f).run b = match f.run (before b) with
      | .ok a b => .ok a (after b)
      | .error e b => .error e (after b) := rfl

end Bench

namespace Script

open Step

/-- Runs a script up to its end, or up to the first fault. A refused request does not end it. -/
def run : Script → Step Bench Unit
  | skip => return ()
  | acquire => modify Bench.acquire
  | drop i => modify (Bench.drop i)
  | hold body => Bench.holding body.run
  | within body => Bench.within body.run
  | observe => modify Bench.observe
  | abort reason => throw (.halted (.abort reason))
  | request q => do
    let _ ← attempt (Bench.onSession (Session.perform q))
  | seq a b => do
    a.run
    b.run

def nest (last : Script) : (n : Nat) → Script
  | 0 => last
  | n + 1 => within (seq observe (nest last n))

end Script

end PhysicalHeap
