import PhysicalHeap.Console

namespace PhysicalHeap

namespace Transmitter

theorem await_of_isFull {d : Transmitter} (h : d.isFull = true) : d.await = d.poll.await := by
  rw [await, if_pos h]

theorem await_of_not_isFull {d : Transmitter} (h : ¬ d.isFull = true) : d.await = d.poll := by
  rw [await, if_neg h]

theorem await_eq (d : Transmitter) :
    d.await = { d with
      waited := d.waited + (d.busy - d.waited) + 1, polls := d.polls + (d.busy - d.waited) + 1 } := by
  induction d using await.induct with
  | case1 d h ih =>
    have hw : d.waited < d.busy := d.isFull_iff.1 h
    rw [await_of_isFull h, ih]
    simp only [poll, mk.injEq, and_true, true_and]
    omega
  | case2 d h =>
    have hz : d.busy - d.waited = 0 := Nat.sub_eq_zero_of_le (Nat.not_lt.1 (mt d.isFull_iff.2 h))
    rw [await_of_not_isFull h, hz]
    rfl

/-- A byte is sent once, after one poll more than the device was going to be full for. -/
theorem send_eq (d : Transmitter) (b : UInt8) :
    d.send b =
      { d with waited := 0, polls := d.polls + (d.busy - d.waited) + 1, sent := d.sent.push b } := by
  rw [send, await_eq]
  rfl

end Transmitter

namespace Console

variable {c : Console}

theorem write_of_ready (h : c.ready = true) (s : String) :
    c.write s = { c with device := (Text.bytes s).foldl Transmitter.sendText c.device } := if_pos h

theorem write_of_not_ready (h : c.ready = false) (s : String) : c.write s = c :=
  if_neg (by rw [h]; exact Bool.false_ne_true)

theorem ready_write (c : Console) (s : String) : (c.write s).ready = c.ready := by
  cases h : c.ready with
  | true =>
    rw [write_of_ready h]
    exact h
  | false =>
    rw [write_of_not_ready h]
    exact h

end Console

end PhysicalHeap
