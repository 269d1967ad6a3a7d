import PhysicalHeap.Script

namespace PhysicalHeap

/-- What is still to be done for a script. When a failure has ended it, what is left to run is passed by,
and masks are given up all the same. -/
inductive Task where
  | run (s : Script)
  | unmask
  | drop (i : Nat)

/-- How far a script has come: the bench as it stands, what is still to be done, and the failure that has
ended the script, if one has. -/
structure Progress where
  bench : Bench
  todo : List Task
  failure : Option Failure

namespace Progress

open Step

variable {α : Type}

def masks (p : Progress) : Word := p.bench.masks

def start (s : Script) (b : Bench) : Progress := ⟨b, [.run s], none⟩

def after (todo : List Task) : EStateM.Result Failure Bench α → Progress
  | .ok _ b => ⟨b, todo, none⟩
  | .error e b => ⟨b, todo, some e⟩

def enter (b : Bench) (todo : List Task) : Script → Progress
  | .skip => ⟨b, todo, none⟩
  | .acquire => ⟨b.acquire, todo, none⟩
  | .drop i => ⟨b.drop i, todo, none⟩
  | .hold body => ⟨b.acquire, .run body :: .drop b.held.length :: todo, none⟩
  | .within body => ⟨b.withMachine Machine.mask, .run body :: .unmask :: todo, none⟩
  | .observe => ⟨b.observe, todo, none⟩
  | .abort reason => ⟨b, todo, some (.halted (.abort reason))⟩
  | .request q => after todo ((attempt (Bench.onSession (Session.perform q))).run b)
  | .seq s t => ⟨b, .run s :: .run t :: todo, none⟩

/-- Takes one step. There is none when nothing is left to be done. -/
def next : Progress → Option Progress
  | ⟨_, [], _⟩ => none
  | ⟨b, .run s :: todo, none⟩ => some (enter b todo s)
  | ⟨b, .run _ :: todo, some e⟩ => some ⟨b, todo, some e⟩
  | ⟨b, .unmask :: todo, e⟩ => some ⟨b.withMachine Machine.unmask, todo, e⟩
  | ⟨b, .drop i :: todo, e⟩ => some ⟨b.drop i, todo, e⟩

end Progress

def Bench.alive (b : Bench) : Nat := b.held.count true

/-- How many masks are alive that have no number: each will be given up by a task of its own. -/
def Task.alive : List Task → Nat
  | [] => 0
  | .unmask :: todo => alive todo + 1
  | .run _ :: todo => alive todo
  | .drop _ :: todo => alive todo

def Progress.alive (p : Progress) : Nat := p.bench.alive + Task.alive p.todo

end PhysicalHeap
