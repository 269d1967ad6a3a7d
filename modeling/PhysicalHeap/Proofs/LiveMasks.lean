import Mathlib.Computability.StateTransition
import PhysicalHeap.Proofs.MaskSteps
import PhysicalHeap.Script.Progress

namespace PhysicalHeap

open Step StateTransition

namespace Bench

variable {b : Bench} {i : Nat}

theorem drop_of_held (h : b.isHeld i = true) :
    b.drop i = { b.withMachine Machine.unmask with held := b.held.set i false } := if_pos h

theorem drop_of_not_held (h : ¬ b.isHeld i = true) : b.drop i = b := if_neg h

theorem alive_acquire (b : Bench) : b.acquire.alive = b.alive + 1 :=
  List.count_append

theorem isHeld_iff : b.isHeld i = true ↔ b.held[i]? = some true := by
  rw [isHeld]
  cases b.held[i]? with
  | none => simp
  | some x => simp

theorem alive_drop (h : b.isHeld i = true) : b.alive = (b.drop i).alive + 1 := by
  obtain ⟨hi, ht⟩ := List.getElem?_eq_some_iff.1 (isHeld_iff.1 h)
  have hpos : 0 < b.held.count true := List.count_pos_iff.2 (ht ▸ List.getElem_mem hi)
  have hset : (b.held.set i false).count true = b.held.count true - 1 := by
    rw [List.count_set hi, ht]
    rfl
  rw [drop_of_held h]
  change b.held.count true = (b.held.set i false).count true + 1
  omega

theorem keeps_masks_request (q : Request) :
    Keeps masks (Step.attempt (onSession (Session.perform q))) :=
  (Keeps.focus_part (fun _ _ => rfl) (Session.keeps_perform q)).attempt

theorem keeps_held_request (q : Request) :
    Keeps held (Step.attempt (onSession (Session.perform q))) := by
  refine Keeps.attempt (.focus ?_ _)
  intro s b
  rfl

end Bench

namespace Progress

variable {α : Type} {b : Bench} {s : Script} {todo : List Task} {e : Option Failure} {p p' : Progress}

theorem bench_after (todo : List Task) (o : EStateM.Result Failure Bench α) :
    (after todo o).bench = reached o := by
  cases o with
  | ok a b => rfl
  | error e b => rfl

theorem todo_after (todo : List Task) (o : EStateM.Result Failure Bench α) :
    (after todo o).todo = todo := by
  cases o with
  | ok a b => rfl
  | error e b => rfl

theorem next_eq_none_of_todo (h : p.todo = []) : p.next = none := by
  obtain ⟨b, todo, e⟩ := p
  obtain rfl : todo = [] := h
  rfl

/-- What a step does to the count of masks, and to how many masks are alive. -/
inductive Moved (p p' : Progress) : Prop where
  | still (hm : p'.masks = p.masks) (ha : p'.alive = p.alive)
  | taken (hm : p'.masks = p.masks + 1) (ha : p'.alive = p.alive + 1)
  | given (hm : p'.masks = p.masks - 1) (ha : p.alive = p'.alive + 1)

theorem moved_drop (i : Nat) (hm : p.masks = b.masks) (ha : p.alive = b.alive + Task.alive todo) :
    Moved p ⟨b.drop i, todo, e⟩ := by
  by_cases h : b.isHeld i = true
  · apply Moved.given
    · rw [hm, Bench.drop_of_held h]
      rfl
    · change p.alive = (b.drop i).alive + Task.alive todo + 1
      rw [ha, Bench.alive_drop h, Nat.add_right_comm]
  · rw [Bench.drop_of_not_held h]
    exact .still hm.symm ha.symm

theorem moved_enter (b : Bench) (todo : List Task) (s : Script) :
    Moved ⟨b, .run s :: todo, none⟩ (enter b todo s) := by
  cases s with
  | skip | abort | observe | seq => exact .still rfl rfl
  | acquire | hold =>
    refine .taken rfl ?_
    change b.acquire.alive + Task.alive todo = b.alive + Task.alive todo + 1
    rw [Bench.alive_acquire, Nat.add_right_comm]
  | drop i => exact moved_drop i rfl rfl
  | within => exact .taken rfl rfl
  | request q =>
    apply Moved.still
    · rw [masks, enter, bench_after]
      exact Bench.keeps_masks_request q b
    · have hheld := Bench.keeps_held_request q b
      rw [alive, enter, bench_after, todo_after, Bench.alive, hheld]
      rfl

/-- Each step leaves the count and the masks alone, or takes a mask and counts it, or gives one up that is
counted. -/
theorem moved_of_next (h : p' ∈ p.next) : Moved p p' := by
  obtain ⟨b, todo, e⟩ := p
  cases todo with
  | nil => cases h
  | cons t todo =>
    cases t with
    | unmask =>
      obtain rfl := Option.some.inj h
      exact .given rfl rfl
    | drop i =>
      obtain rfl := Option.some.inj h
      exact moved_drop i rfl rfl
    | run s =>
      cases e with
      | none =>
        obtain rfl := Option.some.inj h
        exact moved_enter b todo s
      | some e =>
        obtain rfl := Option.some.inj h
        exact .still rfl rfl

/-- The count of masks is the number of masks alive, those that others hold included, as far as a word can
tell. -/
def Counted (others : Nat) (p : Progress) : Prop := p.masks = UInt64.ofNat (others + p.alive)

variable {others : Nat}

theorem Counted.moved (hp : Counted others p) (h : Moved p p') : Counted others p' := by
  cases h with
  | still hm ha => rw [Counted, hm, ha, hp]
  | taken hm ha =>
    rw [Counted, hm, ha, ← Nat.add_assoc, UInt64.ofNat_add, hp]
    rfl
  | given hm ha =>
    have hsucc : p.masks = UInt64.ofNat (others + p'.alive) + 1 := by
      rw [hp, ha, ← Nat.add_assoc, UInt64.ofNat_add]
      rfl
    rw [Counted, hm, hsucc, UInt64.add_sub_cancel]

theorem Counted.reaches (hp : Counted others p) (h : Reaches next p p') : Counted others p' := by
  induction h with
  | refl => exact hp
  | tail _ hstep ih => exact ih.moved (moved_of_next hstep)

theorem Counted.toNat_masks (hp : Counted others p) :
    p.masks.toNat = (others + p.alive) % Word.range := by
  rw [hp, UInt64.toNat_ofNat']
  rfl

theorem Moved.masks_ne_zero (h : Moved p p') (hp : p.masks.toNat = others + p.alive)
    (hdown : p'.masks = p.masks - 1) : p.masks ≠ 0 := by
  cases h with
  | still hm _ => grind
  | taken hm _ => grind
  | given _ ha =>
    intro h0
    rw [h0, ha] at hp
    change 0 = _ at hp
    omega

theorem reaches_around {t : Task} {before leave : Bench → Bench} {f : Step Bench α}
    (ht : ∀ b e, next ⟨b, t :: todo, e⟩ = some ⟨leave b, todo, e⟩) (b : Bench) :
    Reaches next (after (t :: todo) (f.run (before b)))
      (after todo ((Bench.around before leave f).run b)) := by
  rw [Bench.run_around]
  cases f.run (before b) with
  | ok a b => exact .single (ht b none)
  | error e b => exact .single (ht b (some e))

/-- Taken step by step, a script leads to where its run ends, whatever is left to be done after it. -/
theorem reaches_run (s : Script) (b : Bench) (todo : List Task) :
    Reaches next ⟨b, .run s :: todo, none⟩ (after todo (s.run.run b)) := by
  induction s generalizing b todo with
  | skip | acquire | drop | observe | abort => exact .single rfl
  | request q =>
    have hstep : next ⟨b, .run (.request q) :: todo, none⟩ =
        some (after todo ((Script.request q).run.run b)) := by
      rw [next, enter, Script.run, EStateM.run_bind]
      cases (attempt (Bench.onSession (Session.perform q))).run b with
      | ok a b' => rfl
      | error e b' => rfl
    exact .single hstep
  | hold body ih =>
    exact .head rfl ((ih b.acquire _).trans (reaches_around (fun _ _ => rfl) b))
  | within body ih =>
    exact .head rfl ((ih _ (.unmask :: todo)).trans (reaches_around (fun _ _ => rfl) b))
  | seq s t ihs iht =>
    refine .head rfl ((ihs b (.run t :: todo)).trans ?_)
    rw [Script.run, EStateM.run_bind]
    cases s.run.run b with
    | ok a b' => exact iht b' todo
    -- a failure passes the second script by
    | error e b' => exact .single rfl

end Progress

namespace Script

open Progress

/-- Whatever a script does, and whether it ends by itself or by a failure, the count of interrupt masks is
at every step the number of masks that are alive, `others` of which are not the script's to drop. A word
tells it modulo its range, hence exactly as long as there are fewer masks than words, and then it is never
taken down from zero. The run comes to an end, where it has given back all masks that it took but those
that are alive under a number. -/
theorem masks_count_alive (s : Script) {b : Bench} {others : Nat}
    (h : b.masks.toNat = others + b.alive) :
    let o := s.run.run b
    (∀ p, Reaches next (start s b) p →
      p.masks.toNat = (others + p.alive) % Word.range ∧
      (others + p.alive < Word.range → p.masks.toNat = others + p.alive ∧
        ∀ p' ∈ p.next, p'.masks = p.masks - 1 → p.masks ≠ 0)) ∧
    after [] o ∈ eval next (start s b) ∧
    (reached o).masks.toNat = (others + (reached o).alive) % Word.range ∧
    (others + (reached o).alive < Word.range →
      (reached o).masks.toNat + b.alive = b.masks.toNat + (reached o).alive) := by
  intro o
  have hstart : Counted others (start s b) := by
    have hword : b.masks = UInt64.ofNat (others + b.alive) := by rw [← h, UInt64.ofNat_toNat]
    exact hword
  have hlast : Reaches next (start s b) (after [] o) := reaches_run s b []
  have hend : (reached o).masks.toNat = (others + (reached o).alive) % Word.range := by
    have hmasks := (hstart.reaches hlast).toNat_masks
    rwa [masks, alive, bench_after, todo_after] at hmasks
  refine ⟨fun p hp => ?_, mem_eval.2 ⟨hlast, next_eq_none_of_todo (todo_after [] o)⟩, hend,
    fun hlt => ?_⟩
  · have hmasks := (hstart.reaches hp).toNat_masks
    refine ⟨hmasks, fun hlt => ?_⟩
    have hexact := hmasks.trans (Nat.mod_eq_of_lt hlt)
    exact ⟨hexact, fun p' hp' => (moved_of_next hp').masks_ne_zero hexact⟩
  · rw [hend, Nat.mod_eq_of_lt hlt, h]
    exact Nat.add_right_comm _ _ _

theorem masks_count_alive_unwound :
    let placement : Placement := ⟨0x42000000, 0x2000, 0x41000000, 0x1000⟩
    let b : Bench := ⟨⟨⟨placement, by decide⟩, { Board.machine with masks := 3 }, []⟩, [], []⟩
    let body : Script := .seq (.request (.lengthAt ⟨0⟩)) (.seq .observe
      (.seq (.request (.releaseRaw 0x1000000000000)) .observe))
    let s : Script := .seq .acquire (.hold (.hold (.seq (.drop 1) (.within body))))
    let o := s.run.run b
    b.masks.toNat = 3 + b.alive ∧ after [] o ∈ eval next (start s b) ∧
      (after [] o).failure = some (.halted .wideAddress) ∧ (reached o).seen = [6] ∧
      (reached o).held = [true, false, false] ∧ (reached o).masks.toNat = b.masks.toNat + 1 := by
  intro placement b body s o
  have h : b.masks.toNat = 3 + b.alive := rfl
  obtain ⟨-, heval, -, hend⟩ := masks_count_alive s h
  have hheld : (reached o).held = [true, false, false] := by decide +kernel
  have halive : (reached o).alive = 1 := congrArg (List.count true) hheld
  have hlast : (reached o).masks.toNat + 0 = b.masks.toNat + (reached o).alive :=
    hend (by rw [halive]; decide)
  rw [halive, Nat.add_zero] at hlast
  exact ⟨h, heval, by decide +kernel, by decide +kernel, hheld, hlast⟩

end Script

end PhysicalHeap
