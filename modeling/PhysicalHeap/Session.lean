import PhysicalHeap.Lease

namespace PhysicalHeap

/-- A machine with an arena in use. Leases are numbered in the order in which they were taken; the
place of one that has been given up stays empty. -/
structure Session where
  arena : Arena
  machine : Machine
  leases : List (Option Lease)

inductive Request where
  | allocate (size : Word)
  | allocateZeroed (size : Word)
  | allocateRaw (size : Word)
  | release (a : Address)
  | releaseRaw (pointer : Word)
  | lengthAt (a : Address)
  | stats
  | lease (size : Word)
  | write (i : Nat) (offset : Word) (byte : UInt8)
  | read (i : Nat)
  | scrub (i : Nat)
  | surrender (i : Nat)
  | drop (i : Nat)
  deriving DecidableEq

inductive Reply where
  | done
  | address (a : Option Address)
  | pointer (w : Word)
  | status (code : Int)
  | count (n : Nat)
  | stats (s : Stats)
  | leased (number : Option (Nat × Lease))
  | bytes (rs : Runs)
  | noLease
  deriving DecidableEq

namespace Session

open Step

variable {α : Type}

def onMachine (f : Step Machine α) : Step Session α :=
  focus Session.machine (fun m s => { s with machine := m }) f

def lease? (s : Session) (i : Nat) : Option Lease := (s.leases[i]?).join

def enter (l : Lease) : Step Session Nat := do
  let s ← get
  set { s with leases := s.leases ++ [some l] }
  return s.leases.length

def leave (i : Nat) : Step Session Unit :=
  modify fun s => { s with leases := s.leases.set i none }

def onLease (i : Nat) (f : Lease → Step Session Reply) : Step Session Reply := do
  match (← get).lease? i with
  | some l => f l
  | none => return .noLease

def perform : Request → Step Session Reply
  | .allocate size => do return .address (← onMachine ((← get).arena.allocate size))
  | .allocateZeroed size => do return .address (← onMachine ((← get).arena.allocateZeroed size))
  | .allocateRaw size => do return .pointer (← onMachine ((← get).arena.allocateRaw size))
  | .release a => do
    onMachine ((← get).arena.release a)
    return .done
  | .releaseRaw pointer => do return .status (← onMachine ((← get).arena.releaseRaw pointer))
  | .lengthAt a => do return .count (← onMachine ((← get).arena.lengthAt a))
  | .stats => do return .stats (← onMachine (← get).arena.stats)
  | .lease size => do
    match ← onMachine (Lease.take (← get).arena size) with
    | none => return .leased none
    | some l => return .leased (some (← enter l, l))
  | .write i offset byte => onLease i fun l => do
    onMachine (l.write offset byte)
    return .done
  | .read i => onLease i fun l => do return .bytes (l.read (← get).machine)
  | .scrub i => onLease i fun l => do
    onMachine l.scrub
    return .done
  | .surrender i => onLease i fun l => do
    leave i
    return .address (some l.address)
  | .drop i => onLease i fun l => do
    leave i
    onMachine (l.drop (← get).arena)
    return .done

def run : List Request → Session → List (Except Failure Reply) × Session
  | [], s => ([], s)
  | q :: qs, s =>
    match (perform q).run s with
    | .ok a s => let (as, s) := run qs s; (.ok a :: as, s)
    | .error e s => let (as, s) := run qs s; (.error e :: as, s)

end Session

end PhysicalHeap
