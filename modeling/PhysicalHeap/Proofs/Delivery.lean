import PhysicalHeap.Board
import PhysicalHeap.Console.Output
import PhysicalHeap.Proofs.Transcript

namespace PhysicalHeap

namespace Text

/-- The text with a carriage return before each newline. -/
def returned (s : String) : String :=
  String.ofList (s.toList.flatMap fun x => if x = '\n' then ['\r', '\n'] else [x])

/-- Takes out the carriage return before each newline. -/
def unreturned : List UInt8 → List UInt8
  | [] => []
  | b :: bs =>
    if b = carriageReturn ∧ bs.head? = some newline then unreturned bs else b :: unreturned bs

theorem bytes_ofList (xs : List Char) : bytes (String.ofList xs) = xs.flatMap String.utf8EncodeChar := by
  rw [bytes, String.toList_ofList]

theorem bytes_append (s t : String) : bytes (s ++ t) = bytes s ++ bytes t := by
  rw [bytes, String.toList_append, List.flatMap_append]
  rfl

theorem toUTF8_eq_bytes (s : String) : s.toUTF8.data.toList = bytes s := by
  rw [String.toUTF8_eq_toByteArray, ← String.utf8Encode_toList, List.utf8Encode,
    List.data_toByteArray, bytes]

theorem length_bytes (s : String) : (bytes s).length = s.utf8ByteSize := by
  rw [← toUTF8_eq_bytes, Array.length_toList, String.toUTF8_eq_toByteArray]
  exact String.size_toByteArray

theorem newline_mem_iff (x : Char) : newline ∈ String.utf8EncodeChar x ↔ x = '\n' := by
  have hx : x = '\n' ↔ x.val.toNat = 10 := by
    rw [Char.ext_iff, ← UInt32.toNat_inj]
    rfl
  have hb : ∀ v, newline = UInt8.ofNat v ↔ v % 256 = 10 := by
    intro v
    rw [← UInt8.toNat_inj, UInt8.toNat_ofNat']
    exact eq_comm
  rw [hx, String.utf8EncodeChar]
  generalize x.val.toNat = v
  -- the bytes of a longer encoding are at least 0x80
  by_cases h₁ : v ≤ 0x7f
  · rw [if_pos h₁]
    simp only [List.mem_singleton, hb]
    omega
  · rw [if_neg h₁]
    by_cases h₂ : v ≤ 0x7ff
    · rw [if_pos h₂]
      simp only [List.mem_cons, List.not_mem_nil, or_false, hb]
      omega
    · rw [if_neg h₂]
      by_cases h₃ : v ≤ 0xffff
      · rw [if_pos h₃]
        simp only [List.mem_cons, List.not_mem_nil, or_false, hb]
        omega
      · rw [if_neg h₃]
        simp only [List.mem_cons, List.not_mem_nil, or_false, hb]
        omega

theorem wire_of_not_mem {bs : List UInt8} (h : newline ∉ bs) : wire bs = bs := by
  induction bs with
  | nil => rfl
  | cons b bs ih =>
    have hb : b ≠ newline := fun e => h (e ▸ List.mem_cons_self)
    have hbs : newline ∉ bs := fun e => h (List.mem_cons_of_mem _ e)
    rw [wire, List.flatMap_cons, if_neg hb]
    exact congrArg (b :: ·) (ih hbs)

theorem wire_utf8EncodeChar (x : Char) :
    wire (String.utf8EncodeChar x) =
      (if x = '\n' then ['\r', '\n'] else [x]).flatMap String.utf8EncodeChar := by
  by_cases h : x = '\n'
  · subst h
    decide
  · rw [wire_of_not_mem (by rwa [newline_mem_iff]), if_neg h, List.flatMap_singleton]

/-- Putting the carriage returns in byte by byte is the same as putting them into the text. -/
theorem wire_bytes (s : String) : wire (bytes s) = bytes (returned s) := by
  rw [returned, bytes_ofList, bytes]
  induction s.toList with
  | nil => rfl
  | cons x xs ih =>
    rw [List.flatMap_cons, wire_append, ih, wire_utf8EncodeChar, List.flatMap_cons, List.flatMap_append]

theorem head?_wire_ne (bs : List UInt8) : (wire bs).head? ≠ some newline := by
  cases bs with
  | nil => exact nofun
  | cons b bs =>
    rw [wire, List.flatMap_cons]
    by_cases h : b = newline
    · rw [if_pos h]
      exact fun e => absurd (Option.some.inj e) (by decide)
    · rw [if_neg h]
      exact fun e => h (Option.some.inj e)

theorem unreturned_wire (bs : List UInt8) : unreturned (wire bs) = bs := by
  induction bs with
  | nil => rfl
  | cons b bs ih =>
    have hcons : ∀ c cs, c ≠ carriageReturn ∨ cs.head? ≠ some newline →
        unreturned (c :: cs) = c :: unreturned cs := by
      intro c cs h
      rw [unreturned, if_neg (fun ⟨hc, hcs⟩ => h.elim (· hc) (· hcs))]
    have hwire := wire_append [b] bs
    rw [List.singleton_append] at hwire
    rw [hwire, wire, List.flatMap_singleton]
    by_cases h : b = newline
    · subst h
      rw [if_pos rfl, List.cons_append, unreturned, if_pos ⟨rfl, rfl⟩]
      exact (hcons _ _ (Or.inl (by decide))).trans (congrArg _ ih)
    · rw [if_neg h]
      exact (hcons _ _ (Or.inr (head?_wire_ne bs))).trans (congrArg _ ih)

end Text

namespace Transmitter

variable {d : Transmitter}

/-- The device after some bytes went out, each of them after one poll more than it is full for. -/
def emit (d : Transmitter) (bs : List UInt8) : Transmitter :=
  { d with polls := d.polls + (d.busy + 1) * bs.length, sent := d.sent ++ bs.toArray }

theorem emit_nil (d : Transmitter) : d.emit [] = d := by
  simp [emit]

theorem emit_append (d : Transmitter) (bs cs : List UInt8) :
    d.emit (bs ++ cs) = (d.emit bs).emit cs := by
  simp [emit, Nat.mul_add, Nat.add_assoc]

theorem send_eq_emit (h : d.waited = 0) (b : UInt8) : d.send b = d.emit [b] := by
  simp [send_eq, emit, h, Nat.add_assoc]

theorem sendText_eq_emit (h : d.waited = 0) (b : UInt8) : d.sendText b = d.emit (Text.wire [b]) := by
  rw [sendText, Text.wire, List.flatMap_singleton]
  by_cases hb : b = Text.newline
  · have hw : (d.emit [Text.carriageReturn]).waited = 0 := h
    rw [if_pos hb, if_pos hb, send_eq_emit h, send_eq_emit hw]
    exact (d.emit_append [_] [b]).symm
  · rw [if_neg hb, if_neg hb, send_eq_emit h]

theorem foldl_sendText (h : d.waited = 0) (bs : List UInt8) :
    bs.foldl sendText d = d.emit (Text.wire bs) := by
  induction bs generalizing d with
  | nil => exact d.emit_nil.symm
  | cons b bs ih =>
    have hw : (d.emit (Text.wire [b])).waited = 0 := h
    rw [List.foldl_cons, sendText_eq_emit h, ih hw, ← emit_append, ← Text.wire_append,
      List.singleton_append]

end Transmitter

namespace Output

def said : Output → String
  | text s => s
  | pieces ss => String.join ss
  | char x => String.singleton x
  | device _ _ => ""

def busyAfter (busy : Nat) : Output → Nat
  | device busy _ => busy
  | _ => busy

/-- How often the device is polled: for each byte that goes out, once more than it is full for then. -/
def polls (busy : Nat) : List Output → Nat
  | [] => 0
  | o :: os => (busy + 1) * (Text.returned o.said).utf8ByteSize + polls (o.busyAfter busy) os

end Output

namespace Console

variable {c : Console}

def adjust (c : Console) : Output → Console
  | .device busy idle => { c with device := c.device.configure busy idle }
  | _ => c

def after (c : Console) (o : Output) : Console := (c.write o.said).adjust o

theorem ready_adjust (c : Console) (o : Output) : (c.adjust o).ready = c.ready := by
  cases o <;> rfl

theorem sent_adjust (c : Console) (o : Output) : (c.adjust o).sent = c.sent := by
  cases o <;> rfl

theorem polls_adjust (c : Console) (o : Output) : (c.adjust o).device.polls = c.device.polls := by
  cases o <;> rfl

theorem busy_adjust (c : Console) (o : Output) :
    (c.adjust o).device.busy = o.busyAfter c.device.busy := by
  cases o <;> rfl

theorem waited_adjust (h : c.device.waited = 0) (o : Output) : (c.adjust o).device.waited = 0 := by
  cases o with
  | text | pieces | char => exact h
  | device => rfl

theorem write_empty (c : Console) : c.write "" = c := by
  cases h : c.ready with
  | true => exact write_of_ready h ""
  | false => exact write_of_not_ready h ""

theorem write_append (c : Console) (s t : String) : c.write (s ++ t) = (c.write s).write t := by
  cases h : c.ready with
  | true =>
    rw [write_of_ready ((c.ready_write s).trans h), write_of_ready h, write_of_ready h,
      Text.bytes_append, List.foldl_append]
  | false => rw [write_of_not_ready h, write_of_not_ready h, write_of_not_ready h]

theorem run_printAll (c : Console) (ss : List String) :
    (printAll ss).run c = .ok () (c.write (String.join ss)) := by
  induction ss generalizing c with
  | nil => exact congrArg (EStateM.Result.ok ()) c.write_empty.symm
  | cons s ss ih =>
    rw [String.join_cons, write_append]
    exact ih (c.write s)

theorem run_perform (c : Console) (o : Output) : (perform o).run c = .ok () (c.after o) := by
  cases o with
  | text s | char x => rfl
  | pieces ss => exact c.run_printAll ss
  | device busy idle =>
    rw [after, Output.said, write_empty]
    rfl

theorem run_eq (c : Console) (os : List Output) :
    run os c = (os.map fun _ => .ok (), os.foldl after c) := by
  induction os generalizing c with
  | nil => rfl
  | cons o os ih =>
    rw [run, run_perform]
    dsimp only
    rw [ih, List.map_cons, List.foldl_cons]

theorem ready_after (c : Console) (o : Output) : (c.after o).ready = c.ready := by
  rw [after, ready_adjust, ready_write]

theorem ready_run (c : Console) (os : List Output) : (os.foldl after c).ready = c.ready := by
  induction os generalizing c with
  | nil => rfl
  | cons o os ih => rw [List.foldl_cons, ih, ready_after]

theorem dropped_run (hr : c.ready = false) (os : List Output) :
    (os.foldl after c).sent = c.sent ∧ (os.foldl after c).device.polls = c.device.polls := by
  induction os generalizing c with
  | nil => exact ⟨rfl, rfl⟩
  | cons o os ih =>
    obtain ⟨hsent, hpolls⟩ := ih ((c.ready_after o).trans hr)
    rw [after, write_of_not_ready hr] at hsent hpolls
    rw [List.foldl_cons, after, write_of_not_ready hr]
    exact ⟨hsent.trans (c.sent_adjust o), hpolls.trans (c.polls_adjust o)⟩

theorem device_write (hr : c.ready = true) (hw : c.device.waited = 0) (s : String) :
    (c.write s).device = c.device.emit (Text.wire (Text.bytes s)) := by
  rw [write_of_ready hr, Transmitter.foldl_sendText hw]

theorem sent_run (hr : c.ready = true) (os : List Output) :
    (os.foldl after c).sent =
      c.sent ++ Text.wire (Text.bytes (String.join (os.map Output.said))) := by
  induction os generalizing c with
  | nil => exact (List.append_nil _).symm
  | cons o os ih =>
    rw [List.foldl_cons, ih ((c.ready_after o).trans hr), after, sent_adjust, sent_write hr,
      List.append_assoc, ← Text.wire_append, ← Text.bytes_append, List.map_cons, String.join_cons]

theorem polls_run (hr : c.ready = true) (hw : c.device.waited = 0) (os : List Output) :
    (os.foldl after c).device.polls = c.device.polls + Output.polls c.device.busy os := by
  induction os generalizing c with
  | nil => rfl
  | cons o os ih =>
    have hd := device_write hr hw o.said
    have hwaited : (c.after o).device.waited = 0 := waited_adjust (by rw [hd]; exact hw) o
    have hlength := Text.length_bytes (Text.returned o.said)
    rw [← Text.wire_bytes] at hlength
    rw [List.foldl_cons, ih ((c.ready_after o).trans hr) hwaited, after, polls_adjust, busy_adjust, hd,
      Output.polls, ← hlength, ← Nat.add_assoc]
    rfl

/-- However a text is split into writes, a console that was started sends its encoding, with a carriage
return before each newline and nothing else changed, so that it can be recovered. Each byte costs one poll
more than the device is full for, which may change in between, as may its other flags. A console that was
not started sends nothing and leaves its device alone. Nothing that is sent ever fails. -/
theorem delivered (c : Console) (os : List Output) :
    let c' := (run os c).2
    let said := String.join (os.map Output.said)
    let bytes := (Text.returned said).toUTF8.data.toList
    (run os c).1 = os.map (fun _ => .ok ()) ∧ c'.ready = c.ready ∧
    (c.ready = true → c'.sent = c.sent ++ bytes ∧ Text.unreturned bytes = said.toUTF8.data.toList) ∧
    (c.ready = true → c.device.waited = 0 →
      c'.device.polls = c.device.polls + Output.polls c.device.busy os) ∧
    (c.ready = false → c'.sent = c.sent ∧ c'.device.polls = c.device.polls) := by
  intro c' said bytes
  have hbytes : bytes = Text.wire (Text.bytes said) := by
    rw [Text.wire_bytes]
    exact Text.toUTF8_eq_bytes _
  have hrun := run_eq c os
  have hc' : c' = os.foldl after c := congrArg Prod.snd hrun
  rw [hc', hbytes, Text.unreturned_wire, Text.toUTF8_eq_bytes]
  exact ⟨congrArg Prod.fst hrun, c.ready_run os, fun hr => ⟨sent_run hr os, rfl⟩,
    fun hr hw => polls_run hr hw os, fun hr => dropped_run hr os⟩

theorem delivered_split :
    let c := Board.console Board.serialBase
    let os : List Output := [.text "a\r", .device 2 0xFFFFFFFF, .pieces ["\n", "\u0a0a"], .device 0 0x20,
      .char '\n']
    let bytes : List UInt8 := [0x61, 0x0D, 0x0D, 0x0A, 0xE0, 0xA8, 0x8A, 0x0D, 0x0A]
    c.start.device.waited = 0 ∧ (run os c.start).1 = [.ok (), .ok (), .ok (), .ok (), .ok ()] ∧
      (run os c.start).2.sent = bytes ∧
      Text.unreturned bytes = [0x61, 0x0D, 0x0A, 0xE0, 0xA8, 0x8A, 0x0A] ∧
      (run os c.start).2.device.polls = 2 * 1 + 5 * 3 + 2 * 1 ∧
      (run os c).1 = [.ok (), .ok (), .ok (), .ok (), .ok ()] ∧ (run os c).2.sent = [] ∧
      (run os c).2.device.polls = 0 := by
  intro c os bytes
  have hw : c.start.device.waited = 0 := rfl
  obtain ⟨hok, -, hstarted, hpolls, -⟩ := delivered c.start os
  obtain ⟨hok', -, -, -, hsilent⟩ := delivered c os
  obtain ⟨hsent', hpolls'⟩ := hsilent rfl
  exact ⟨hw, hok, (hstarted rfl).1.trans (by decide +kernel), by decide,
    (hpolls rfl hw).trans (by decide +kernel), hok', hsent', hpolls'⟩

end Console

end PhysicalHeap
