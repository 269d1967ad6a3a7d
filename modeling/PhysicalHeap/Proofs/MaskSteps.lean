import PhysicalHeap.Session

namespace PhysicalHeap

namespace Step

variable {σ τ α β γ : Type} {view : σ → γ} {f : Step σ α}

/-- The state shows the same before and after a step, however the step ends. -/
def Keeps (view : σ → γ) (f : Step σ α) : Prop := ∀ s, view (reached (f.run s)) = view s

namespace Keeps

theorem pure (a : α) : Keeps view (Pure.pure a : Step σ α) := fun _ => rfl

theorem get : Keeps view (MonadState.get : Step σ σ) := fun _ => rfl

theorem throw (e : Failure) : Keeps view (MonadExcept.throw e : Step σ α) := fun _ => rfl

theorem modify {g : σ → σ} (h : ∀ s, view (g s) = view s) :
    Keeps view (modify g : Step σ Unit) := h

theorem bind {k : α → Step σ β} (hf : Keeps view f) (hk : ∀ a, Keeps view (k a)) :
    Keeps view (f >>= k) := by
  intro s
  have h := hf s
  rw [EStateM.run_bind]
  generalize f.run s = o at h ⊢
  cases o with
  | ok a t => exact (hk a t).trans h
  | error e t => exact h

theorem judged (x : Except Failure α) : Keeps view (judged x) := by
  intro s
  cases x with
  | ok a => rfl
  | error e => rfl

theorem attempt (hf : Keeps view f) : Keeps view (attempt f) := by
  intro s
  have h := hf s
  rw [run_attempt]
  generalize f.run s = o at h ⊢
  cases o with
  | ok a t => exact h
  | error e t =>
    cases e with
    | refused r => exact h
    | halted f => exact h

theorem focus {part : σ → τ} {update : τ → σ → σ} (h : ∀ t s, view (update t s) = view s)
    (f : Step τ α) : Keeps view (focus part update f) := by
  intro s
  rw [run_focus]
  cases f.run (part s) with
  | ok a t => exact h t s
  | error e t => exact h t s

theorem focus_part {part : σ → τ} {update : τ → σ → σ} {view : τ → γ} {f : Step τ α}
    (h : ∀ t s, part (update t s) = t) (hf : Keeps view f) :
    Keeps (fun s => view (part s)) (Step.focus part update f) := by
  intro s
  have hs := hf (part s)
  rw [run_focus]
  generalize f.run (part s) = o at hs ⊢
  cases o with
  | ok a t => exact (congrArg view (h t s)).trans hs
  | error e t => exact (congrArg view (h t s)).trans hs

end Keeps

end Step

open Step

namespace Machine

variable {α : Type}

theorem masks_inside {f : Step Machine α} (hf : Keeps masks f) (m : Machine) :
    (reached (f.run m.mask)).masks = m.masks + 1 := hf m.mask

/-- A section takes one mask before its body and gives it up after, so that it comes out even if the body
does. -/
theorem keeps_masked {f : Step Machine α} (hf : Keeps masks f) : Keeps masks (masked f) := by
  intro m
  have hback : (reached (f.run m.mask)).unmask.masks = m.masks := by
    rw [unmask, masks_inside hf, UInt64.add_sub_cancel]
  rw [run_masked]
  generalize f.run m.mask = o at hback ⊢
  cases o with
  | ok a m' => exact hback
  | error e m' => exact hback

theorem keeps_note (n : Notice) : Keeps masks (note n) := .modify fun _ => rfl

end Machine

namespace Arena

open Machine

variable (s : Arena) {α : Type}

theorem keeps_critical (f : Step Recorded α) : Keeps masks (s.critical f) := by
  apply keeps_masked
  apply Keeps.focus
  intro r m
  rfl

theorem keeps_allocate (size : Word) : Keeps masks (s.allocate size) := by
  refine (s.keeps_critical _).attempt.bind fun taken => ?_
  cases taken with
  | ok a => exact .pure _
  | error r => exact (keeps_note _).bind fun _ => .pure _

theorem keeps_allocateZeroed (size : Word) : Keeps masks (s.allocateZeroed size) := by
  refine (s.keeps_critical _).attempt.bind fun taken => ?_
  cases taken with
  | ok taken =>
    refine Keeps.bind (.modify ?_) fun _ => .pure _
    intro m
    rfl
  | error r => exact (keeps_note _).bind fun _ => .pure _

theorem keeps_release (a : Address) : Keeps masks (s.release a) := by
  refine (s.keeps_critical _).attempt.bind fun freed => ?_
  cases freed with
  | ok => exact .pure _
  | error r => exact (keeps_note _).bind fun _ => .throw _

theorem keeps_allocateRaw (size : Word) : Keeps masks (s.allocateRaw size) := by
  refine (s.keeps_allocate size).bind fun o => ?_
  cases o with
  | some a => exact .pure _
  | none => exact .pure _

theorem keeps_releaseRaw (pointer : Word) : Keeps masks (s.releaseRaw pointer) := by
  refine (Keeps.judged _).bind fun a => (s.keeps_release a).attempt.bind fun freed => ?_
  cases freed with
  | ok => exact .pure _
  | error r => exact .pure _

theorem keeps_lengthAt (a : Address) : Keeps masks (s.lengthAt a) := s.keeps_critical _

theorem keeps_stats : Keeps masks s.stats := s.keeps_critical _

theorem keeps_take (size : Word) : Keeps masks (Lease.take s size) := by
  refine (s.keeps_critical _).attempt.bind fun rounded => ?_
  cases rounded with
  | error r => exact .pure _
  | ok n =>
    refine (s.keeps_allocate size).bind fun o => ?_
    cases o with
    | none => exact .pure _
    | some a => exact .pure _

end Arena

namespace Lease

theorem keeps_write (x : Lease) (offset : Word) (byte : UInt8) :
    Keeps Machine.masks (x.write offset byte) := by
  rw [write]
  by_cases h : offset < x.length
  · rw [if_pos h]
    exact .modify fun _ => rfl
  · rw [if_neg h]
    exact .throw _

theorem keeps_scrub (x : Lease) : Keeps Machine.masks x.scrub := by
  apply Keeps.modify
  intro m
  rfl

end Lease

namespace Session

variable {α : Type}

def masks (s : Session) : Word := s.machine.masks

theorem keeps_onMachine {f : Step Machine α} (hf : Keeps Machine.masks f) : Keeps masks (onMachine f) :=
  .focus_part (fun _ _ => rfl) hf

theorem keeps_onLease (i : Nat) {f : Lease → Step Session Reply} (hf : ∀ x, Keeps masks (f x)) :
    Keeps masks (onLease i f) := by
  refine Keeps.get.bind fun s => ?_
  cases s.lease? i with
  | some x => exact hf x
  | none => exact .pure _

theorem keeps_leave (i : Nat) : Keeps masks (leave i) := .modify fun _ => rfl

theorem keeps_enter (x : Lease) : Keeps masks (enter x) := fun _ => rfl

theorem keeps_served {f : Arena → Step Machine α} (hf : ∀ s, Keeps Machine.masks (f s)) (g : α → Reply) :
    Keeps masks (do return g (← onMachine (f (← get).arena)) : Step Session Reply) :=
  Keeps.get.bind fun s => (keeps_onMachine (hf s.arena)).bind fun _ => .pure _

/-- As many interrupt masks are held after a request as before it, whether it is served, refused, or stops
the computation. -/
theorem keeps_perform (q : Request) : Keeps masks (perform q) := by
  cases q with
  | allocate size => exact keeps_served (fun s => s.keeps_allocate size) _
  | allocateZeroed size => exact keeps_served (fun s => s.keeps_allocateZeroed size) _
  | allocateRaw size => exact keeps_served (fun s => s.keeps_allocateRaw size) _
  | release a => exact keeps_served (fun s => s.keeps_release a) _
  | releaseRaw pointer => exact keeps_served (fun s => s.keeps_releaseRaw pointer) _
  | lengthAt a => exact keeps_served (fun s => s.keeps_lengthAt a) _
  | stats => exact keeps_served (fun s => s.keeps_stats) _
  | lease size =>
    refine Keeps.get.bind fun s => (keeps_onMachine (s.arena.keeps_take size)).bind fun o => ?_
    cases o with
    | none => exact .pure _
    | some x => exact (keeps_enter x).bind fun _ => .pure _
  | write i offset byte =>
    exact keeps_onLease i fun x => (keeps_onMachine (x.keeps_write offset byte)).bind fun _ => .pure _
  | read i => exact keeps_onLease i fun _ => Keeps.get.bind fun _ => .pure _
  | scrub i =>
    exact keeps_onLease i fun x => (keeps_onMachine x.keeps_scrub).bind fun _ => .pure _
  | surrender i => exact keeps_onLease i fun _ => (keeps_leave i).bind fun _ => .pure _
  | drop i =>
    refine keeps_onLease i fun x => (keeps_leave i).bind fun _ => Keeps.get.bind fun s => ?_
    exact (keeps_onMachine ((s.arena.keeps_release x.address).attempt.bind fun _ => .pure _)).bind
      fun _ => .pure _

end Session

end PhysicalHeap
