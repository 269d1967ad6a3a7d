import PhysicalHeap.Console.Lemmas
import PhysicalHeap.Journal

namespace PhysicalHeap

/-- What goes out for the bytes of a text: before each newline a carriage return. -/
def Text.wire (bytes : List UInt8) : List UInt8 :=
  bytes.flatMap fun b => if b = newline then [carriageReturn, b] else [b]

theorem Text.wire_append (bs cs : List UInt8) : wire (bs ++ cs) = wire bs ++ wire cs := List.flatMap_append

theorem Transmitter.sent_sendText (d : Transmitter) (b : UInt8) :
    (d.sendText b).sent.toList = d.sent.toList ++ Text.wire [b] := by
  rw [sendText, Text.wire, List.flatMap_singleton]
  by_cases h : b = Text.newline
  · rw [if_pos h, if_pos h]
    simp [send_eq]
  · rw [if_neg h, if_neg h]
    simp [send_eq]

namespace Console

def sent (c : Console) : List UInt8 := c.device.sent.toList

theorem sent_write {c : Console} (h : c.ready = true) (s : String) :
    (c.write s).sent = c.sent ++ Text.wire (Text.bytes s) := by
  rw [write_of_ready h, sent, sent]
  generalize c.device = d
  induction Text.bytes s generalizing d with
  | nil => exact (List.append_nil _).symm
  | cons b bs ih =>
    rw [List.foldl_cons, ih, Transmitter.sent_sendText, List.append_assoc, ← Text.wire_append,
      List.singleton_append]

theorem sent_write_of_not_ready {c : Console} (h : c.ready = false) (s : String) :
    (c.write s).sent = c.sent := by
  rw [write_of_not_ready h]

def lines (c : Console) (ns : List Notice) : List UInt8 :=
  if c.ready then ns.flatMap fun n => Text.wire (Text.bytes n.line) else []

theorem sent_write_line (c : Console) (n : Notice) : (c.write n.line).sent = c.sent ++ c.lines [n] := by
  rw [lines]
  cases h : c.ready with
  | true => rw [sent_write h, if_pos rfl, List.flatMap_singleton]
  | false => rw [sent_write_of_not_ready h, if_neg Bool.false_ne_true, List.append_nil]

theorem lines_append (c : Console) (ns ms : List Notice) :
    c.lines (ns ++ ms) = c.lines ns ++ c.lines ms := by
  rw [lines, lines, lines]
  cases c.ready with
  | true => exact List.flatMap_append
  | false => rfl

end Console

namespace Threshold

def admitted (t : Threshold) (ns : List Notice) : List Notice := ns.filter fun n => t.admits n.level

theorem admitted_trace (ns : List Notice) : admitted (some .trace) ns = ns := by
  apply List.filter_eq_self.2
  intro n _
  cases n.level <;> rfl

end Threshold

namespace Journal

def recordAll (j : Journal) (ns : List Notice) : Journal := ns.foldl record j

theorem recordAll_snoc (j : Journal) (ns : List Notice) (n : Notice) :
    j.recordAll (ns ++ [n]) = (j.recordAll ns).record n := by
  rw [recordAll, List.foldl_append]
  rfl

theorem threshold_recordAll (j : Journal) (ns : List Notice) :
    (j.recordAll ns).threshold = j.threshold := by
  induction ns generalizing j with
  | nil => rfl
  | cons n ns ih => exact (ih (j.record n)).trans (threshold_record j n)

/-- From one point on to another, a journal kept and printed certain notices and no others. -/
structure Wrote (j j' : Journal) (ns : List Notice) : Prop where
  kept : j'.kept = j.kept ++ ns
  sent : j'.console.sent = j.console.sent ++ j.console.lines ns
  ready : j'.console.ready = j.console.ready

theorem Wrote.refl (j : Journal) : Wrote j j [] := by
  refine ⟨(List.append_nil _).symm, ?_, rfl⟩
  rw [Console.lines, List.flatMap_nil, ite_self, List.append_nil]

theorem wrote_record (j : Journal) (n : Notice) :
    Wrote j (j.record n) (j.threshold.admitted [n]) := by
  rw [record]
  by_cases h : j.admits n.level = true
  · have hn : j.threshold.admitted [n] = [n] := List.filter_cons_of_pos h
    rw [if_pos h, hn]
    exact ⟨rfl, j.console.sent_write_line n, j.console.ready_write n.line⟩
  · have hn : j.threshold.admitted [n] = [] := List.filter_cons_of_neg h
    rw [if_neg h, hn]
    exact Wrote.refl j

theorem Wrote.trans {j j' j'' : Journal} {ns ms : List Notice} (h : Wrote j j' ns)
    (h' : Wrote j' j'' ms) : Wrote j j'' (ns ++ ms) := by
  refine ⟨?_, ?_, h'.ready.trans h.ready⟩
  · rw [h'.kept, h.kept, List.append_assoc]
  · have hl : j'.console.lines ms = j.console.lines ms := by rw [Console.lines, Console.lines, h.ready]
    rw [h'.sent, h.sent, hl, Console.lines_append, List.append_assoc]

theorem wrote_recordAll (j : Journal) (ns : List Notice) :
    Wrote j (j.recordAll ns) (j.threshold.admitted ns) := by
  induction ns generalizing j with
  | nil => exact Wrote.refl j
  | cons n ns ih =>
    have hall := (j.wrote_record n).trans (ih (j.record n))
    rwa [threshold_record, Threshold.admitted, Threshold.admitted, ← List.filter_append] at hall

end Journal

end PhysicalHeap
