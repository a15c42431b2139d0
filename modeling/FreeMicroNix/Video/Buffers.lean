/-
  The objects `itoa` is given in `vga.c`, and how many bytes it writes there.

  There are four calls: `kprintf` formats into `buf`, of 20 bytes, under `%d`, `%u` and `%x`, and
  `Terminal_Print_Int` into the literal `"\0"`, of two.  A numeral and its terminator stay within
  the object exactly for the values `ItoaCall.Fits` (`itoa_fits_iff`): under `%u` a negative value
  is sign-extended to 64 bits and takes 20 digits, and so does the smallest `int` under `%d`, whose
  negation is itself.
-/
import FreeMicroNix.Libc.Decimal

namespace FreeMicroNix

open Sequence

/-! ## The calls -/

/-- A call of `itoa`. -/
inductive ItoaCall where
  | kprintfD
  | kprintfU
  | kprintfX
  | printInt
  deriving DecidableEq

namespace ItoaCall

/-- The base passed: under `kprintf` the letter of the directive, as an `int`. -/
def base : ItoaCall → Int
  | kprintfD => (ch 'd').toInt
  | kprintfU => (ch 'u').toInt
  | kprintfX => (ch 'x').toInt
  | printInt => 16

/-- The size of the object passed: `char buf[20]`, and the literal `"\0"`. -/
def size : ItoaCall → Nat
  | kprintfD => 20
  | kprintfU => 20
  | kprintfX => 20
  | printInt => 2

/-- The values whose numeral fits. -/
def Fits : ItoaCall → Uint32 → Prop
  | kprintfD, val => val ≠ BitVec.intMin 32
  | kprintfU, val => 0 ≤ val.toInt
  | kprintfX, _ => True
  | printInt, val => 0 ≤ val.toInt ∧ val.toInt < 16

end ItoaCall

/-! ## The bytes written -/

/-- The terminator stands behind the numeral. -/
theorem itoa_terminator (val : Uint32) (str : Nat → CChar) (base : Int) :
    (itoa val str base).1 (numeral val base).length = 0 := by
  have hlen : (numeral val base).length < (numeral val base ++ [0]).length := by
    rw [List.length_append]
    exact Nat.lt_succ_self _
  have hzero := writeList_inside str (p := 0) hlen
  rw [Nat.zero_add] at hzero
  rw [itoa_eq]
  exact hzero.trans (List.getElem_concat_length rfl hlen)

/-- Bytes past the object stay as they were, for every content, exactly if numeral and terminator
    fit. -/
theorem itoa_inside_iff (val : Uint32) (base : Int) (size : Nat) :
    (∀ str i, size ≤ i → (itoa val str base).1 i = str i) ↔
      (numeral val base).length + 1 ≤ size := by
  constructor
  · intro h
    rcases Nat.lt_or_ge (numeral val base).length size with hlt | hge
    · exact hlt
    · -- the terminator itself lies past the object
      have hend := h (fun _ => 1) _ hge
      rw [itoa_terminator] at hend
      exact absurd hend (by decide)
  · intro hfits str i hi
    rw [itoa_eq]
    show writeList str 0 (numeral val base ++ [0]) i = str i
    apply writeList_outside
    right
    rw [Nat.zero_add, List.length_append]
    exact Nat.le_trans hfits hi

/-! ## The four calls -/

/-- A sign and eighteen digits are enough for all but the smallest `int`, which takes twenty
    digits. -/
theorem decimal_fits_iff (val : Uint32) :
    (numeral val (ch 'd').toInt).length + 1 ≤ 20 ↔ val ≠ BitVec.intMin 32 := by
  have hlen := length_digitsUp_le (show 2 ≤ 10 by decide) (printed val).natAbs 17
  rw [numeral_decimal val (Or.inl rfl), List.length_append, List.length_reverse, List.length_map]
  by_cases hmin : val = BitVec.intMin 32
  · have hud : (printed val).natAbs = 2 ^ 64 - 2 ^ 31 := by
      rw [hmin]
      decide
    have hsign : printed val < 0 := by
      rw [hmin]
      decide
    rw [if_pos hsign, List.length_singleton]
    refine iff_of_false (fun h => ?_) (fun h => h hmin)
    have hfew := hlen.mp (by omega)
    omega
  · have hsign : (if printed val < 0 then [ch '-'] else []).length ≤ 1 := by
      split_ifs <;> decide
    have hleast := BitVec.le_toInt val
    have hmost := BitVec.toInt_lt (x := val)
    rw [← (printed_eq_iff val).mpr hmin] at hleast hmost
    have hfew := hlen.mpr (by omega)
    exact iff_of_true (by omega) hmin

theorem unsigned_fits_iff (val : Uint32) :
    (numeral val (ch 'u').toInt).length + 1 ≤ 20 ↔ 0 ≤ val.toInt := by
  have hlen := length_digitsUp_le (show 2 ≤ 10 by decide) (val.signExtend 64).toNat 18
  rw [numeral_unsigned val (by decide) (by decide), if_neg (by decide), List.length_reverse,
    List.length_map]
  refine (Nat.add_le_add_iff_right (n := 1)).trans (hlen.trans ?_)
  by_cases hneg : val.toInt < 0
  · refine iff_of_false (fun h => ?_) (Int.not_le.mpr hneg)
    rw [signExtend_neg ((toInt_neg_iff val).mp hneg)] at h
    omega
  · refine iff_of_true ?_ (Int.not_lt.mp hneg)
    rw [toInt_neg_iff] at hneg
    rw [signExtend_nonneg (by omega)]
    omega

/-- A hexadecimal numeral has no sign, and its digits are those of the 64 bits. -/
theorem length_hexadecimal_le (val : Uint32) {base : Int} (hbase : base = 120 ∨ base = 16)
    (k : Nat) :
    (numeral val base).length + 1 ≤ k + 2 ↔ (val.signExtend 64).toNat < 16 ^ (k + 1) := by
  rw [numeral_unsigned val (by omega) (by omega), if_pos hbase, List.length_reverse,
    List.length_map]
  exact (Nat.add_le_add_iff_right (n := 1)).trans (length_digitsUp_le (by decide) _ k)

theorem printInt_fits_iff (val : Uint32) :
    (numeral val 16).length + 1 ≤ 2 ↔ 0 ≤ val.toInt ∧ val.toInt < 16 := by
  rw [length_hexadecimal_le val (Or.inr rfl) 0]
  have hlt := val.isLt
  have hcond := BitVec.toInt_eq_toNat_cond val
  by_cases hneg : val.toInt < 0
  · refine iff_of_false (fun h => ?_) (fun h => absurd h.1 (Int.not_le.mpr hneg))
    rw [signExtend_neg ((toInt_neg_iff val).mp hneg)] at h
    omega
  · rw [toInt_neg_iff] at hneg
    rw [signExtend_nonneg (by omega)]
    rw [if_pos (by omega)] at hcond
    omega

/-- **The buffers, exactly.**  At each call of `itoa` the numeral and its terminator take at most
    the bytes of the object, and no byte past it changes, if and only if the value is one that
    fits: not the smallest `int` under `%d`, not a negative one under `%u`, any under `%x`, and
    one of 0..15 in `Terminal_Print_Int`. -/
theorem itoa_fits_iff (call : ItoaCall) (val : Uint32) :
    ((∀ str, (itoa val str call.base).2 + 1 ≤ call.size) ↔ call.Fits val) ∧
      ((∀ str i, call.size ≤ i → (itoa val str call.base).1 i = str i) ↔ call.Fits val) := by
  have hcount : (∀ str, (itoa val str call.base).2 + 1 ≤ call.size) ↔
      (numeral val call.base).length + 1 ≤ call.size := by
    constructor
    · intro h
      have hlen := h fun _ => 0
      rw [itoa_eq] at hlen
      exact hlen
    · intro h str
      rw [itoa_eq]
      exact h
  rw [itoa_inside_iff, hcount, and_self]
  cases call with
  | kprintfD => exact decimal_fits_iff val
  | kprintfU => exact unsigned_fits_iff val
  | kprintfX =>
    refine iff_of_true ?_ trivial
    have hx : (ch 'x').toInt = 120 ∨ (ch 'x').toInt = 16 := Or.inl (by decide)
    have hlen := (length_hexadecimal_le val hx 15).mpr (val.signExtend 64).isLt
    exact Nat.le_trans hlen (by decide)
  | printInt => exact printInt_fits_iff val

/-- `%u` with -1: twenty digits and a terminator. -/
theorem itoa_overruns_unsigned :
    ¬ ∀ (call : ItoaCall) (val : Uint32) str, (itoa val str call.base).2 + 1 ≤ call.size := by
  intro h
  have hlen := h .kprintfU 0xFFFFFFFF fun _ => 0
  rw [itoa_eq] at hlen
  have hfits := (unsigned_fits_iff 0xFFFFFFFF).mp hlen
  exact absurd hfits (by decide)

end FreeMicroNix
