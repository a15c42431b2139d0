/-
  `libc/stdlib/atoi.c`: decimal to binary, from the last character back.

  Every character counts as `c - 48` at its place, in arithmetic modulo 2^32: `parsed s` is this
  Horner value.  Of a string of digits it is the positional value (`parsed_digits`), of any length
  and with any number of leading zeros.

  There is no case for a sign.  A minus sign before `k` digits counts as -3 times 10^k, so what
  `itoa` prints for a negative value is read back as something else, with one exception: twice
  2115098112 is 3 times 10^10, modulo 2^32.
-/
import FreeMicroNix.Libc.Decimal
import FreeMicroNix.Libc.Strings
import Mathlib.Data.BitVec
import Mathlib.Tactic.IntervalCases
import Mathlib.Tactic.Ring

namespace FreeMicroNix.Libc

open PartialMemory Sequence

/-! ## The function -/

/-- `for (i = len; i > 0; --i) { out += (str[i-1] - 48) * pow; pow *= 10; }` -/
def atoiLoop (h : Heap CChar) (str : Uint32) : Nat → Uint32 → Uint32 → Option Uint32
  | 0, out, _ => some out
  | i + 1, out, pow => do
    let c ← h (str + BitVec.ofNat 32 i)
    atoiLoop h str i (out + (promote c - 48) * pow) (pow * 10)

def atoi (h : Heap CChar) (str : Uint32) : Option Uint32 := do
  let len ← strlen h str
  atoiLoop h str len.toNat 0 1

/-! ## What it returns -/

/-- The value of a string, every character taken for a digit. -/
def parsed (s : CString) : Uint32 := s.foldl (fun v c => v * 10 + (promote c - 48)) 0

theorem parsed_concat (s : CString) (c : CChar) :
    parsed (s ++ [c]) = parsed s * 10 + (promote c - 48) := by
  rw [parsed, List.foldl_append]
  rfl

theorem ten : BitVec.ofNat 32 10 = 10 := rfl

section Results

variable {h : Heap CChar} {p : Uint32} {s : CString}

/-- **The loop** adds the value of the characters before `i`, at the place `pow`. -/
theorem atoiLoop_eq (hs : Cells h p s) (out pow : Uint32) :
    atoiLoop h p s.length out pow = some (out + parsed s * pow) := by
  induction s using List.reverseRecOn generalizing out pow with
  | nil =>
    show some out = some (out + 0 * pow)
    rw [zero_mul, add_zero]
  | append_singleton s c ih =>
    obtain ⟨hinit, hlast⟩ := cells_append_iff.mp hs
    rw [cells_singleton_iff] at hlast
    -- the last character counts first, and the others at ten times its place
    have hvalue : out + (promote c - 48) * pow + parsed s * (pow * 10)
        = out + (parsed s * 10 + (promote c - 48)) * pow := by ring
    rw [List.length_append, List.length_singleton, atoiLoop, bind_of_eq_some hlast, ih hinit,
      parsed_concat, hvalue]

/-- `atoi` too needs nothing but the bytes and the terminator. -/
theorem atoi_cells (hne : ∀ c ∈ s, c ≠ 0) (hcells : Cells h p (s ++ [0]))
    (hlen : s.length < addressSpace) : atoi h p = some (parsed s) := by
  have hturns : s.length % 2 ^ 32 = s.length := Nat.mod_eq_of_lt hlen
  rw [atoi, bind_of_eq_some (strlen_cells hne hcells hlen), BitVec.toNat_ofNat, hturns,
    atoiLoop_eq (cells_append_iff.mp hcells).1, zero_add, mul_one]

/-- **`atoi`** returns the value of its string. -/
theorem atoi_eq (hs : IsString h p s) : atoi h p = some (parsed s) :=
  atoi_cells hs.ne hs.cells hs.turns

/-- The digits are the characters whose value is what `itoa` wrote them for. -/
theorem promote_digit {c : CChar} (hc : ch '0' ≤ c ∧ c ≤ ch '9') :
    promote c - 48 = BitVec.ofNat 32 (digitValue c) := by
  revert c
  decide +kernel

/-- **Digits** are read as their positional value, modulo 2^32. -/
theorem parsed_digits (hs : ∀ c ∈ s, ch '0' ≤ c ∧ c ≤ ch '9') :
    parsed s = BitVec.ofNat 32 (positional 10 s) := by
  induction s using List.reverseRecOn with
  | nil => rfl
  | append_singleton s c ih =>
    have hlast := promote_digit (hs c (List.mem_append_right s (List.mem_singleton_self c)))
    rw [parsed_concat, ih fun d hd => hs d (List.mem_append_left [c] hd), hlast,
      positional_concat, BitVec.ofNat_add, BitVec.ofNat_mul, mul_comm]
    rfl

/-- The first character counts at the place of its distance from the end. -/
theorem parsed_cons (c : CChar) (s : CString) :
    parsed (c :: s) = (promote c - 48) * BitVec.ofNat 32 (10 ^ s.length) + parsed s := by
  induction s using List.reverseRecOn with
  | nil =>
    show 0 * 10 + (promote c - 48) = (promote c - 48) * 1 + 0
    ring
  | append_singleton s d ih =>
    rw [← List.cons_append, parsed_concat, parsed_concat, ih, List.length_append,
      List.length_singleton, Nat.pow_succ, BitVec.ofNat_mul, ten]
    ring

theorem parsed_magnitude {n : Nat} (hs : IsMagnitude n s) : parsed s = BitVec.ofNat 32 n := by
  rw [parsed_digits hs.digits, hs.value]

end Results

/-! ## Reading back what `itoa` prints -/

/-- A minus sign is 45, which is 3 less than 48. -/
theorem promote_minus : promote (ch '-') - 48 = BitVec.ofNat 32 (2 ^ 32 - 3) := by decide

/-- A number behind a minus sign. -/
theorem parsed_minus (m : Nat) :
    parsed (ch '-' :: ((digitsUp 10 m).map itoaDigit).reverse)
      = BitVec.ofNat 32 ((2 ^ 32 - 3) * 10 ^ (digitsUp 10 m).length + m) := by
  rw [parsed_cons, promote_minus, parsed_magnitude (isMagnitude_digitsUp m), List.length_reverse,
    List.length_map, ← BitVec.ofNat_mul, ← BitVec.ofNat_add]

/-- Where the place of the minus sign makes up for the sign. -/
theorem minus_place_iff {m k : Nat} (hlt : m < 2 ^ 31) (hk : 1 ≤ k) (hup : m < 10 ^ k)
    (hlow : 10 ^ (k - 1) ≤ m) :
    ((2 ^ 32 - 3) * 10 ^ k + m) % 2 ^ 32 = 2 ^ 32 - m ↔ m = 2115098112 := by
  have hfew : k - 1 < 10 := by
    apply (Nat.pow_lt_pow_iff_right (a := 10) (by decide)).mp
    omega
  have hmost : k ≤ 10 := by omega
  -- with fewer than ten digits the place is at most 10^9, and nothing wraps
  interval_cases k <;> omega

/-- The digits of a positive number. -/
theorem digits_bounds {m : Nat} (hpos : 0 < m) :
    1 ≤ (digitsUp 10 m).length ∧ m < 10 ^ (digitsUp 10 m).length ∧
      10 ^ ((digitsUp 10 m).length - 1) ≤ m := by
  rcases hlength : (digitsUp 10 m).length with _ | k
  · exact absurd (List.eq_nil_of_length_eq_zero hlength) (digitsUp_ne_nil 10 m)
  · have hless := length_digitsUp_le (show 2 ≤ 10 by decide) m
    rw [hlength] at hless
    refine ⟨Nat.succ_pos k, (hless k).mp (Nat.le_refl _), ?_⟩
    rcases k with _ | k
    · exact hpos
    · exact Nat.le_of_not_lt (mt (hless k).mpr (Nat.not_succ_le_self _))

/-- **What is read back**: a nonnegative value, and of the negative ones a single one. -/
theorem parsed_itoaString_iff (val : Uint32) :
    parsed (itoaString val 10) = val ↔ 0 ≤ val.toInt ∨ val.toInt = -2115098112 := by
  have hbase : Signed 10 := Or.inr rfl
  have hint := BitVec.toInt_eq_toNat_cond val
  have hlt := val.isLt
  by_cases hmin : val = BitVec.intMin 32
  · -- the string of twenty digits is not the numeral of any `int`
    subst hmin
    rw [itoaString_eq]
    decide +kernel
  rw [itoaString_eq, numeral_decimal val hbase, (printed_eq_iff val).mpr hmin]
  by_cases hneg : val.toInt < 0
  · obtain ⟨m, hm⟩ : ∃ m, val.toInt.natAbs = m := ⟨_, rfl⟩
    have hne : val.toNat ≠ 2 ^ 31 := fun h => hmin (BitVec.eq_of_toNat_eq h)
    have hvalue : val.toNat = 2 ^ 32 - m := by omega
    have hcondition : m = 2115098112 ↔ 0 ≤ val.toInt ∨ val.toInt = -2115098112 := by omega
    obtain ⟨hk, hup, hlow⟩ := digits_bounds (show 0 < m by omega)
    -- the two sides are numbers below 2^32
    rw [if_pos hneg, hm, List.singleton_append, parsed_minus, ← BitVec.toNat_inj,
      BitVec.toNat_ofNat, hvalue, minus_place_iff (by omega) hk hup hlow]
    exact hcondition
  · have hvalue : val.toInt.natAbs = val.toNat := by omega
    rw [if_neg hneg, List.nil_append, parsed_magnitude (isMagnitude_digitsUp _), hvalue,
      BitVec.ofNat_toNat, BitVec.setWidth_eq]
    exact iff_of_true rfl (Or.inl (Int.not_lt.mp hneg))

/-- The object `itoa` has written into, at `p`, is a string. -/
theorem isString_itoa {val : Uint32} {contents : Nat → CChar} {base : Int} {h : Heap CChar}
    {p : Uint32} (hobject : ∀ i ≤ (itoa val contents base).2,
      h (p + BitVec.ofNat 32 i) = some ((itoa val contents base).1 i)) (hnonnull : p ≠ 0)
    (hend : p.toNat + (itoa val contents base).2 < 2 ^ 32) :
    IsString h p (itoaString val base) where
  ne c hc := by
    rw [itoaString_eq] at hc
    exact numeral_ne_zero hc
  cells := by
    rw [itoa_written] at hobject
    intro i c hc
    obtain ⟨hi, rfl⟩ := List.getElem?_eq_some_iff.mp hc
    have hinside := writeList_inside contents (p := 0) hi
    rw [List.length_append, List.length_singleton] at hi
    rw [Nat.zero_add] at hinside
    rw [hobject i (Nat.le_of_lt_succ hi)]
    exact congrArg some hinside
  nonnull := hnonnull
  object := by
    rw [itoa_written] at hend
    exact hend

/-- **`atoi` after `itoa`.**  Whatever the object held before, the string in it is read back as the
    value exactly if that is not negative, or is -2115098112. -/
theorem atoi_itoa_iff {val : Uint32} {contents : Nat → CChar} {h : Heap CChar} {p : Uint32}
    (hobject : ∀ i ≤ (itoa val contents 10).2,
      h (p + BitVec.ofNat 32 i) = some ((itoa val contents 10).1 i)) (hnonnull : p ≠ 0)
    (hend : p.toNat + (itoa val contents 10).2 < 2 ^ 32) :
    atoi h p = some val ↔ 0 ≤ val.toInt ∨ val.toInt = -2115098112 := by
  rw [atoi_eq (isString_itoa hobject hnonnull hend), Option.some_inj]
  exact parsed_itoaString_iff val

/-- A string at 0x1000, and nothing else. -/
def textAt (s : CString) : Heap CChar := lay (fun _ => none) 0x1000 (s ++ [0])

theorem atoi_itoa_iff_1996 :
    atoi (textAt (str "1996")) 0x1000 = some 1996 ↔
      0 ≤ (1996 : Uint32).toInt ∨ (1996 : Uint32).toInt = -2115098112 := by
  have hprinted : itoaString 1996 10 = str "1996" := by
    rw [itoaString_eq]
    decide +kernel
  have hwritten := itoa_written 1996 (fun _ => 0) 10
  rw [hprinted] at hwritten
  have hobject : ∀ i ≤ (itoa 1996 (fun _ => 0) 10).2, textAt (str "1996") (0x1000
      + BitVec.ofNat 32 i) = some ((itoa 1996 (fun _ => 0) 10).1 i) := by
    rw [hwritten]
    decide
  have hend : (0x1000 : Uint32).toNat + (itoa 1996 (fun _ => 0) 10).2 < 2 ^ 32 := by
    rw [hwritten]
    decide
  exact atoi_itoa_iff hobject (by decide) hend

/-- The minus sign of -1 counts as -30. -/
theorem atoi_minus_one :
    (∀ i ≤ (itoa (-1) (fun _ => 0) 10).2, textAt (str "-1") (0x1000 + BitVec.ofNat 32 i)
        = some ((itoa (-1) (fun _ => 0) 10).1 i)) ∧
      atoi (textAt (str "-1")) 0x1000 = some (-29) ∧ (-29 : Uint32) ≠ -1 := by
  have hprinted : itoaString (-1) 10 = str "-1" := by
    rw [itoaString_eq]
    decide +kernel
  have hstring : IsString (textAt (str "-1")) 0x1000 (str "-1") := by decide
  constructor
  · rw [itoa_written, hprinted]
    decide
  · rw [atoi_eq hstring]
    exact ⟨by decide, by decide⟩

end FreeMicroNix.Libc
