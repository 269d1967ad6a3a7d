import PhysicalHeap.Journal.Notice

namespace PhysicalHeap

namespace Text

def after? (opening cs : List Char) : Option (List Char) :=
  if opening.isPrefixOf cs then some (cs.drop opening.length) else none

theorem after?_append (opening cs : List Char) : after? opening (opening ++ cs) = some cs := by
  rw [after?, if_pos (List.isPrefixOf_iff_prefix.2 (List.prefix_append _ _)), List.drop_left]

def decimal (cs : List Char) : Nat × List Char :=
  (Nat.ofDigitChars 10 (cs.takeWhile Char.isDigit) 0, cs.dropWhile Char.isDigit)

theorem decimal_append (n : Nat) {c : Char} (hc : c.isDigit = false) (cs : List Char) :
    decimal (Nat.toDigits 10 n ++ c :: cs) = (n, c :: cs) := by
  have hd : ∀ x ∈ Nat.toDigits 10 n, x.isDigit = true :=
    fun x hx => Nat.isDigit_of_mem_toDigits (by decide) (by decide) hx
  have hstop : ¬ c.isDigit = true := by rw [hc]; exact Bool.false_ne_true
  rw [decimal, List.takeWhile_append_of_pos hd, List.dropWhile_append_of_pos hd,
    List.takeWhile_cons_of_neg hstop, List.dropWhile_cons_of_neg hstop, List.append_nil,
    Nat.ofDigitChars_ten_toDigits]

def hexValue (c : Char) : Nat := if c.isDigit then c.toNat - '0'.toNat else c.toNat - 'a'.toNat + 10

theorem hexValue_digitChar : ∀ d < 16, hexValue (Nat.digitChar d) = d := by decide

def ofHex (cs : List Char) : Nat := cs.foldl (fun n c => 16 * n + hexValue c) 0

theorem ofHex_toDigits (n : Nat) : ofHex (Nat.toDigits 16 n) = n := by
  induction n using Nat.strongRecOn with
  | ind n ih =>
    rw [Nat.toDigits_eq_if (by decide)]
    by_cases h : n < 16
    · rw [if_pos h]
      exact (Nat.zero_add _).trans (hexValue_digitChar n h)
    · have hq := ih (n / 16) (Nat.div_lt_self (by omega) (by decide))
      rw [if_neg h, ofHex, List.foldl_append, ← ofHex, hq]
      change 16 * (n / 16) + hexValue (n % 16).digitChar = n
      rw [hexValue_digitChar _ (Nat.mod_lt n (by decide))]
      exact Nat.div_add_mod n 16

theorem ofHex_replicate_append (k : Nat) (cs : List Char) :
    ofHex (List.replicate k '0' ++ cs) = ofHex cs := by
  induction k with
  | zero => rfl
  | succ k ih => exact ih

theorem ofHex_hex (width : Nat) (w : Word) : ofHex (w.hex width).toList = w.toNat := by
  rw [Word.hex, String.toList_ofList, ofHex_replicate_append, ofHex_toDigits]

theorem length_hex (w : Word) : (w.hex 16).toList.length = 16 := by
  have hle : (Nat.toDigits 16 w.toNat).length ≤ 16 :=
    (Nat.length_toDigits_le_iff (by decide) (by decide)).2 w.toNat_lt
  rw [Word.hex, String.toList_ofList, List.length_append, List.length_replicate]
  omega

end Text

namespace Notice

def opening : List Char := "[TRACE] blockheap_kernel::mm::heap: heap: ".toList

def blocks? (cs : List Char) : Option (Nat × Address) := do
  let (n, rest) := Text.decimal cs
  let rest ← Text.after? " blocks at 0x".toList rest
  if rest.drop 16 = ['\n'] then return (n, ⟨UInt64.ofNat (Text.ofHex (rest.take 16))⟩) else none

/-- Reads a line that tells of blocks being taken or given back. Other lines tell nothing of blocks. -/
def ofLine? (line : String) : Option Notice := do
  let rest ← Text.after? opening line.toList
  match Text.after? "freed ".toList rest with
  | some rest => (blocks? rest).map fun b => .freed b.1 b.2
  | none => (blocks? rest).map fun b => .taken b.1 b.2

def ending (n : Nat) (a : Address) : List Char :=
  Nat.toDigits 10 n ++ ' ' :: ("blocks at 0x".toList ++ ((a.word.hex 16).toList ++ ['\n']))

theorem blocks?_ending (n : Nat) (a : Address) : blocks? (ending n a) = some (n, a) := by
  have hafter : Text.after? " blocks at 0x".toList
      (' ' :: ("blocks at 0x".toList ++ ((a.word.hex 16).toList ++ ['\n']))) =
      some ((a.word.hex 16).toList ++ ['\n']) :=
    Text.after?_append " blocks at 0x".toList _
  have hlen := Text.length_hex a.word
  have hblank : Char.isDigit ' ' = false := rfl
  simp only [blocks?, ending, Text.decimal_append n hblank, hafter, Option.bind_eq_bind,
    Option.bind_some]
  rw [List.drop_left' hlen, List.take_left' hlen, if_pos rfl, Text.ofHex_hex, UInt64.ofNat_toNat]
  rfl

theorem toList_line (n : Notice) :
    n.line.toList = ('[' :: n.level.label.toList) ++ ("] ".toList ++ (n.target.toList ++ (": ".toList ++
      (n.text.toList ++ ['\n'])))) := by
  simp only [line, String.toList_append, List.append_assoc]
  rfl

theorem opening_eq :
    opening = ('[' :: Level.trace.label.toList) ++ ("] ".toList ++
      ("blockheap_kernel::mm::heap".toList ++ (": ".toList ++ "heap: ".toList))) := by decide

theorem ending_eq (n : Nat) (a : Address) :
    ending n a = (toString n).toList ++ (" blocks at ".toList ++ (a.text.toList ++ ['\n'])) := by
  rw [ending, Address.text, String.toList_append, Nat.toString_eq_ofList_toDigits,
    String.toList_ofList, String.toList_ofList, List.append_assoc]
  rfl

theorem toList_line_taken (n : Nat) (a : Address) :
    (taken n a).line.toList = opening ++ ending n a := by
  have htext : (taken n a).text = "heap: " ++ toString n ++ " blocks at " ++ a.text := rfl
  rw [toList_line, opening_eq, ending_eq, htext, level, target, String.toList_append,
    String.toList_append, String.toList_append]
  simp only [List.append_assoc]

theorem toList_line_freed (n : Nat) (a : Address) :
    (freed n a).line.toList = opening ++ ("freed ".toList ++ ending n a) := by
  have htext : (freed n a).text = "heap: freed " ++ toString n ++ " blocks at " ++ a.text := rfl
  have hfreed : "heap: freed ".toList = "heap: ".toList ++ "freed ".toList := by decide
  rw [toList_line, opening_eq, ending_eq, htext, level, target, String.toList_append,
    String.toList_append, String.toList_append, hfreed]
  simp only [List.append_assoc]

theorem after?_freed_ending (n : Nat) (a : Address) : Text.after? "freed ".toList (ending n a) = none := by
  have hd : ∀ x ∈ Nat.toDigits 10 n, x.isDigit = true :=
    fun x hx => Nat.isDigit_of_mem_toDigits (by decide) (by decide) hx
  rw [ending, Text.after?, if_neg]
  cases h : Nat.toDigits 10 n with
  | nil => exact absurd h Nat.toDigits_ne_nil
  | cons d ds =>
    -- a number does not open with a letter
    have hf : ('f' == d) = false := by
      rw [beq_eq_false_iff_ne]
      rintro rfl
      exact absurd (hd 'f' (h ▸ List.mem_cons_self)) (by decide)
    change ¬ ('f' == d && _) = true
    rw [hf, Bool.false_and]
    exact Bool.false_ne_true

theorem ofLine?_line_taken (n : Nat) (a : Address) : ofLine? (taken n a).line = some (.taken n a) := by
  rw [ofLine?, toList_line_taken, Text.after?_append]
  simp only [Option.bind_eq_bind, Option.bind_some, after?_freed_ending, blocks?_ending, Option.map_some]

theorem ofLine?_line_freed (n : Nat) (a : Address) : ofLine? (freed n a).line = some (.freed n a) := by
  rw [ofLine?, toList_line_freed, Text.after?_append]
  simp only [Option.bind_eq_bind, Option.bind_some, Text.after?_append, blocks?_ending, Option.map_some]

theorem ofLine?_line_of_level_ne {n : Notice} (h : n.level ≠ .trace) : ofLine? n.line = none := by
  rw [ofLine?, toList_line]
  cases hl : n.level with
  | trace => exact absurd hl h
  | _ => rfl

end Notice

end PhysicalHeap
