namespace PhysicalHeap

structure Run where
  byte : UInt8
  count : Nat
  deriving DecidableEq

/-- Bytes in order, as runs. Reading past the end gives zeros. -/
abbrev Runs := List Run

namespace Runs

def length : Runs → Nat
  | [] => 0
  | r :: rs => r.count + length rs

def byteAt : Runs → Nat → UInt8
  | [], _ => 0
  | r :: rs, i => if i < r.count then r.byte else byteAt rs (i - r.count)

/-- Puts `n` equal bytes in front, joining them with a first run of the same byte. -/
def push (b : UInt8) (n : Nat) (rs : Runs) : Runs :=
  if n = 0 then rs
  else
    match rs with
    | [] => [⟨b, n⟩]
    | r :: rest => if r.byte = b then ⟨b, n + r.count⟩ :: rest else ⟨b, n⟩ :: r :: rest

def append (rs ts : Runs) : Runs := rs.foldr (fun r acc => push r.byte r.count acc) ts

def front : (n : Nat) → Runs → Runs
  | n, [] => push 0 n []
  | n, r :: rs =>
    if n ≤ r.count then push r.byte n [] else push r.byte r.count (front (n - r.count) rs)

def rest : (n : Nat) → Runs → Runs
  | _, [] => []
  | n, r :: rs => if n < r.count then ⟨r.byte, r.count - n⟩ :: rs else rest (n - r.count) rs

def expand (rs : Runs) : List UInt8 := rs.flatMap fun r => List.replicate r.count r.byte

def ofList (bytes : List UInt8) : Runs := bytes.foldr (fun b acc => push b 1 acc) []

theorem length_push (b : UInt8) (n : Nat) (rs : Runs) : length (push b n rs) = n + length rs := by
  unfold push
  split
  · next h => omega
  · cases rs with
    | nil => simp [length]
    | cons r rest =>
      by_cases h : r.byte = b
      · simp [h, length]
        omega
      · simp [h, length]

theorem byteAt_push (b : UInt8) (n : Nat) (rs : Runs) (i : Nat) :
    byteAt (push b n rs) i = if i < n then b else byteAt rs (i - n) := by
  unfold push
  split
  · next h => simp [h]
  · cases rs with
    | nil => simp [byteAt]
    | cons r rest =>
      by_cases h : r.byte = b
      · simp only [h, if_true, byteAt]
        by_cases hi : i < n
        · simp [hi, Nat.lt_add_right r.count hi]
        · by_cases hr : i < n + r.count
          · have : i - n < r.count := by omega
            simp [hi, hr, this]
          · have : ¬ i - n < r.count := by omega
            simp [hi, hr, this, Nat.sub_sub]
      · simp [h, byteAt]

theorem byteAt_append (rs ts : Runs) (i : Nat) :
    byteAt (append rs ts) i = if i < length rs then byteAt rs i else byteAt ts (i - length rs) := by
  induction rs generalizing i with
  | nil => simp [append, length]
  | cons r rs ih =>
    change byteAt (push r.byte r.count (append rs ts)) i = _
    rw [byteAt_push, ih, byteAt, length]
    by_cases h : i < r.count
    · simp [h, Nat.lt_add_right (length rs) h]
    · by_cases hl : i < r.count + length rs
      · have : i - r.count < length rs := by omega
        simp [h, hl, this]
      · have : ¬ i - r.count < length rs := by omega
        simp [h, hl, this, Nat.sub_sub]

theorem length_front (n : Nat) (rs : Runs) : length (front n rs) = n := by
  induction rs generalizing n with
  | nil => simp [front, length_push, length]
  | cons r rs ih =>
    by_cases h : n ≤ r.count
    · simp [front, h, length_push, length]
    · simp only [front, h, if_false, length_push, ih]
      omega

theorem byteAt_front (n : Nat) (rs : Runs) (i : Nat) :
    byteAt (front n rs) i = if i < n then byteAt rs i else 0 := by
  induction rs generalizing n i with
  | nil => simp [front, byteAt_push, byteAt]
  | cons r rs ih =>
    by_cases h : n ≤ r.count
    · simp only [front, h, if_true, byteAt_push, byteAt]
      by_cases hi : i < n
      · simp [hi, Nat.lt_of_lt_of_le hi h]
      · simp [hi]
    · simp only [front, h, if_false, byteAt_push, ih, byteAt]
      by_cases hi : i < r.count
      · have : i < n := by omega
        simp [hi, this]
      · by_cases hn : i < n
        · have : i - r.count < n - r.count := by omega
          simp [hi, hn, this]
        · have : ¬ i - r.count < n - r.count := by omega
          simp [hi, hn, this]

theorem byteAt_rest (n : Nat) (rs : Runs) (i : Nat) : byteAt (rest n rs) i = byteAt rs (n + i) := by
  induction rs generalizing n with
  | nil => simp [rest, byteAt]
  | cons r rs ih =>
    by_cases h : n < r.count
    · simp only [rest, h, if_true, byteAt]
      by_cases hi : i < r.count - n
      · have : n + i < r.count := by omega
        simp [hi, this]
      · have h1 : ¬ n + i < r.count := by omega
        have h2 : n + i - r.count = i - (r.count - n) := by omega
        simp [hi, h1, h2]
    · simp only [rest, h, if_false, ih, byteAt]
      have h1 : ¬ n + i < r.count := by omega
      have h2 : n + i - r.count = n - r.count + i := by omega
      simp [h1, h2]

theorem expand_push (b : UInt8) (n : Nat) (rs : Runs) :
    expand (push b n rs) = List.replicate n b ++ expand rs := by
  unfold push
  split
  · next h => simp [h]
  · cases rs with
    | nil => simp [expand]
    | cons r rest =>
      by_cases h : r.byte = b
      · simp [h, expand, List.flatMap_cons, ← List.append_assoc, List.replicate_append_replicate]
      · simp [h, expand, List.flatMap_cons]

theorem expand_ofList (bytes : List UInt8) : expand (ofList bytes) = bytes := by
  induction bytes with
  | nil => rfl
  | cons b bytes ih =>
    change expand (push b 1 (ofList bytes)) = _
    rw [expand_push, ih]
    rfl

theorem length_expand (rs : Runs) : (expand rs).length = length rs := by
  induction rs with
  | nil => rfl
  | cons r rs ih => simpa [expand, List.flatMap_cons, length] using ih

theorem getElem?_expand (rs : Runs) (i : Nat) :
    (expand rs)[i]? = if i < length rs then some (byteAt rs i) else none := by
  induction rs generalizing i with
  | nil => simp [expand, length]
  | cons r rs ih =>
    change (List.replicate r.count r.byte ++ expand rs)[i]? = _
    rw [List.getElem?_append, length, byteAt]
    simp only [List.length_replicate]
    by_cases h : i < r.count
    · simp [h, Nat.lt_add_right (length rs) h]
    · rw [if_neg h, ih]
      by_cases hl : i < r.count + length rs
      · have : i - r.count < length rs := by omega
        simp [h, hl, this]
      · have : ¬ i - r.count < length rs := by omega
        simp [hl, this]

theorem length_ofList (bytes : List UInt8) : length (ofList bytes) = bytes.length := by
  rw [← length_expand, expand_ofList]

theorem byteAt_ofList (bytes : List UInt8) (i : Nat) : byteAt (ofList bytes) i = bytes[i]?.getD 0 := by
  induction bytes generalizing i with
  | nil => rfl
  | cons b bytes ih =>
    change byteAt (push b 1 (ofList bytes)) i = _
    rw [byteAt_push, ih]
    cases i with
    | zero => rfl
    | succ i => simp

end Runs

end PhysicalHeap
