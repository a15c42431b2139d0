/-
  What `itoa` writes: a numeral, in closed form.

  The digit loop writes the digits of `ud` from the least significant one on (`itoaDigits_eq`),
  the reversal puts them in order (`itoaReverse_eq`), and the object then holds `numeral val base`
  and a terminator, whatever it held before (`itoa_eq`).  How many bytes that takes is a question
  about `Nat.digits` (`length_digitsUp_le`).

  `ud` is 64 bits wide and `val` is sign-extended into it: without the sign branch a negative value
  has as many digits as a number just below 2^64.
-/
import FreeMicroNix.Lib.Sequence
import FreeMicroNix.Libc.Itoa
import Mathlib.Data.Nat.Digits.Lemmas

namespace FreeMicroNix

open Sequence

/-! ## The digits -/

/-- The digits of `ud`, least significant first; zero has the one digit 0. -/
def digitsUp (divisor ud : Nat) : List Nat := if ud = 0 then [0] else Nat.digits divisor ud

/-- One turn of the digit loop. -/
theorem digitsUp_eq {divisor : Nat} (hdivisor : 2 ≤ divisor) (ud : Nat) :
    digitsUp divisor ud
      = ud % divisor :: if ud / divisor = 0 then [] else digitsUp divisor (ud / divisor) := by
  unfold digitsUp
  by_cases hud : ud = 0
  · subst hud
    simp
  · rw [if_neg hud, Nat.digits_def' hdivisor (Nat.pos_of_ne_zero hud)]
    by_cases hrest : ud / divisor = 0
    · rw [if_pos hrest, hrest, Nat.digits_zero]
    · rw [if_neg hrest, if_neg hrest]

theorem digitsUp_lt {divisor ud d : Nat} (hdivisor : 2 ≤ divisor) (h : d ∈ digitsUp divisor ud) :
    d < divisor := by
  unfold digitsUp at h
  by_cases hud : ud = 0
  · rw [if_pos hud, List.mem_singleton] at h
    omega
  · rw [if_neg hud] at h
    exact Nat.digits_lt_base hdivisor h

/-- At most `k + 1` digits, exactly below the power of the base. -/
theorem length_digitsUp_le {divisor : Nat} (hdivisor : 2 ≤ divisor) (ud k : Nat) :
    (digitsUp divisor ud).length ≤ k + 1 ↔ ud < divisor ^ (k + 1) := by
  unfold digitsUp
  by_cases hud : ud = 0
  · subst hud
    rw [if_pos rfl]
    exact iff_of_true (Nat.succ_le_succ (Nat.zero_le k)) (Nat.pow_pos (by omega))
  · rw [if_neg hud, Nat.digits_length_le_iff hdivisor]

/-! ## The loops -/

/-- **The digit loop** writes the digits and stops behind them. -/
theorem itoaDigits_eq (divisor : Nat) (hdivisor : 2 ≤ divisor) (ud : Nat) (str : Nat → CChar)
    (p : Nat) :
    itoaDigits divisor hdivisor ud str p
      = (writeList str p ((digitsUp divisor ud).map itoaDigit),
          p + (digitsUp divisor ud).length) := by
  induction ud using Nat.strong_induction_on generalizing str p with
  | _ ud ih =>
    rw [itoaDigits, digitsUp_eq hdivisor]
    by_cases hrest : ud / divisor = 0
    · simp only [if_pos hrest, List.map_cons, List.map_nil, writeList_cons, writeList_nil,
        List.length_singleton]
    · have hpos : 0 < ud := Nat.pos_of_ne_zero fun h => hrest (by rw [h, Nat.zero_div])
      have hless := Nat.div_lt_self hpos hdivisor
      simp only [if_neg hrest, ih (ud / divisor) hless, List.map_cons, writeList_cons,
        List.length_cons, Nat.add_assoc, Nat.add_comm 1]

/-- **The reversal loop** reverses the stretch between its two pointers. -/
theorem itoaReverse_eq (str : Nat → CChar) (p1 p2 : Nat) :
    itoaReverse str p1 p2 = reverseSpan str p1 p2 := by
  induction str, p1, p2 using itoaReverse.induct with
  | case1 str p1 p2 hlt tmp ih =>
    rw [itoaReverse, if_pos hlt, ← reverseSpan_exchange str hlt]
    exact ih
  | case2 str p1 p2 hge =>
    rw [itoaReverse, if_neg hge, reverseSpan_of_le str (Nat.le_of_not_lt hge)]

/-! ## The numeral -/

/-- The sign branch is taken: `(base == 'd' || base == 10) && val < 0`. -/
def SignBranch (val : Uint32) (base : Int) : Prop := (base = 100 ∨ base = 10) ∧ val.toInt < 0

instance (val : Uint32) (base : Int) : Decidable (SignBranch val base) :=
  inferInstanceAs (Decidable (_ ∧ _))

/-- `divisor` -/
def itoaDivisor (val : Uint32) (base : Int) : Nat :=
  if ¬ SignBranch val base ∧ (base = 120 ∨ base = 16) then 16 else 10

theorem two_le_itoaDivisor (val : Uint32) (base : Int) : 2 ≤ itoaDivisor val base := by
  unfold itoaDivisor
  split_ifs <;> decide

/-- `ud` -/
def itoaUnsigned (val : Uint32) (base : Int) : Uint64 :=
  if SignBranch val base then (-val).signExtend 64 else val.signExtend 64

/-- The digits of the numeral, most significant first. -/
def numeralDigits (val : Uint32) (base : Int) : CString :=
  ((digitsUp (itoaDivisor val base) (itoaUnsigned val base).toNat).map itoaDigit).reverse

/-- **The numeral**: a sign where the branch writes one, and the digits. -/
def numeral (val : Uint32) (base : Int) : CString :=
  (if SignBranch val base then [ch '-'] else []) ++ numeralDigits val base

/-- Unless signed decimal is asked for, the numeral is that of the sign-extended value. -/
theorem numeral_unsigned (val : Uint32) {base : Int} (hletter : base ≠ 100) (hten : base ≠ 10) :
    numeral val base = ((digitsUp (if base = 120 ∨ base = 16 then 16 else 10)
      (val.signExtend 64).toNat).map itoaDigit).reverse := by
  have hsign : ¬ SignBranch val base := fun h => h.1.elim hletter hten
  have hdivisor : itoaDivisor val base = if base = 120 ∨ base = 16 then 16 else 10 := by
    unfold itoaDivisor
    simp only [hsign, not_false_eq_true, true_and]
  rw [numeral, if_neg hsign, numeralDigits, itoaUnsigned, if_neg hsign, hdivisor, List.nil_append]

/-- `itoa` with its locals named. -/
theorem itoa_named (val : Uint32) (str : Nat → CChar) (base : Int) :
    itoa val str base =
      let start := if SignBranch val base then 1 else 0
      let str := if SignBranch val base then Function.update str 0 (ch '-') else str
      let digits :=
        if ¬ SignBranch val base ∧ (base = 120 ∨ base = 16) then
          itoaDigits 16 (by decide) (itoaUnsigned val base).toNat str start
        else itoaDigits 10 (by decide) (itoaUnsigned val base).toNat str start
      (itoaReverse (Function.update digits.1 digits.2 0) start (digits.2 - 1), digits.2) := rfl

/-- **`itoa` writes the numeral and a terminator**, and returns the offset of the terminator. -/
theorem itoa_eq (val : Uint32) (str : Nat → CChar) (base : Int) :
    itoa val str base
      = (writeList str 0 (numeral val base ++ [0]), (numeral val base).length) := by
  have hdigits : ∀ str start,
      (if ¬ SignBranch val base ∧ (base = 120 ∨ base = 16) then
          itoaDigits 16 (by decide) (itoaUnsigned val base).toNat str start
        else itoaDigits 10 (by decide) (itoaUnsigned val base).toNat str start)
      = (writeList str start (numeralDigits val base).reverse,
          start + (numeralDigits val base).length) := by
    intro str start
    rw [numeralDigits, List.reverse_reverse, List.length_reverse, List.length_map]
    unfold itoaDivisor
    split_ifs <;> exact itoaDigits_eq _ _ _ _ _
  -- the digits, the terminator behind them, and the reversal of the digits
  have hlast : ∀ str start,
      itoaReverse (Function.update (writeList str start (numeralDigits val base).reverse)
          (start + (numeralDigits val base).length) 0)
        start (start + (numeralDigits val base).length - 1)
      = writeList str start (numeralDigits val base ++ [0]) := by
    intro str start
    have hend := update_writeList str start (numeralDigits val base).reverse 0
    rw [List.length_reverse] at hend
    have hback := reverseSpan_writeList str start (numeralDigits val base).reverse [0]
    rw [List.length_reverse, List.reverse_reverse] at hback
    rw [hend, itoaReverse_eq, hback]
  rw [itoa_named]
  simp only [hdigits, hlast]
  unfold numeral
  by_cases hsign : SignBranch val base
  · simp only [if_pos hsign, List.cons_append, List.nil_append, writeList_cons,
      List.length_cons, Nat.add_comm 1, Nat.zero_add]
  · simp only [if_neg hsign, List.nil_append, Nat.zero_add]

/-- The string `itoa` leaves is the numeral. -/
theorem itoaString_eq (val : Uint32) (base : Int) : itoaString val base = numeral val base := by
  unfold itoaString
  rw [itoa_eq]
  apply List.ext_getElem
  · rw [List.length_map, List.length_range]
  · intro i hi hi'
    have hlen : i < (numeral val base ++ [0]).length := by
      rw [List.length_append]
      omega
    have hinside := writeList_inside (fun _ => (0 : CChar)) (p := 0) hlen
    rw [Nat.zero_add, List.getElem_append_left hi'] at hinside
    rw [List.getElem_map, List.getElem_range]
    exact hinside

/-- No byte of a numeral is a terminator. -/
theorem numeral_ne_zero {val : Uint32} {base : Int} {c : CChar} (h : c ∈ numeral val base) :
    c ≠ 0 := by
  have hdigit : ∀ d < 16, itoaDigit d ≠ 0 := by decide
  rcases List.mem_append.mp h with h | h
  · have hminus : c = ch '-' := by
      by_cases hsign : SignBranch val base
      · rw [if_pos hsign] at h
        exact List.mem_singleton.mp h
      · rw [if_neg hsign] at h
        exact absurd h List.not_mem_nil
    rw [hminus]
    decide
  · obtain ⟨d, hd, rfl⟩ := List.mem_map.mp (List.mem_reverse.mp h)
    have hlt := digitsUp_lt (two_le_itoaDivisor val base) hd
    have hmost : itoaDivisor val base ≤ 16 := by
      unfold itoaDivisor
      split_ifs <;> decide
    exact hdigit d (by omega)

/-! ## The number divided -/

theorem toInt_neg_iff (val : Uint32) : val.toInt < 0 ↔ 2 ^ 31 ≤ val.toNat := by
  have hint := BitVec.toInt_eq_toNat_cond val
  have hlt := val.isLt
  omega

/-- A nonnegative `int` is widened to itself. -/
theorem signExtend_nonneg {val : Uint32} (h : val.toNat < 2 ^ 31) :
    (val.signExtend 64).toNat = val.toNat := by
  have hmsb : val.msb = false := BitVec.msb_eq_false_iff_two_mul_lt.mpr (by omega)
  rw [BitVec.toNat_signExtend, hmsb, BitVec.toNat_setWidth, Nat.mod_eq_of_lt (by omega)]
  rfl

/-- A negative one to a number just below 2^64. -/
theorem signExtend_neg {val : Uint32} (h : 2 ^ 31 ≤ val.toNat) :
    (val.signExtend 64).toNat = val.toNat + (2 ^ 64 - 2 ^ 32) := by
  have hmsb : val.msb = true := BitVec.msb_eq_true_iff_two_mul_ge.mpr (by omega)
  rw [BitVec.toNat_signExtend, hmsb, BitVec.toNat_setWidth, Nat.mod_eq_of_lt (by omega),
    if_pos rfl]

/-! ## The value of a string of digits -/

/-- The digit a character stands for. -/
def digitValue (c : CChar) : Nat :=
  if c ≤ ch '9' then (c - ch '0').toNat else (c - ch 'A').toNat + 10

/-- The positional value, most significant digit first. -/
def positional (base : Nat) (s : CString) : Nat := s.foldl (fun v c => base * v + digitValue c) 0

theorem digitValue_itoaDigit {d : Nat} (hd : d < 16) : digitValue (itoaDigit d) = d := by
  revert d
  decide

theorem positional_concat (base : Nat) (s : CString) (c : CChar) :
    positional base (s ++ [c]) = base * positional base s + digitValue c := by
  rw [positional, List.foldl_append]
  rfl

/-- **The digits of a number** have its value. -/
theorem positional_digitsUp {base : Nat} (hbase : 2 ≤ base) (hmost : base ≤ 16) (n : Nat) :
    positional base ((digitsUp base n).map itoaDigit).reverse = n := by
  induction n using Nat.strong_induction_on with
  | _ n ih =>
    have hdigit : n % base < 16 := Nat.lt_of_lt_of_le (Nat.mod_lt n (by omega)) hmost
    rw [digitsUp_eq hbase, List.map_cons, List.reverse_cons, positional_concat,
      digitValue_itoaDigit hdigit]
    by_cases hrest : n / base = 0
    · rw [if_pos hrest]
      show base * 0 + n % base = n
      rw [Nat.mod_eq_of_lt ((Nat.div_eq_zero_iff_lt (by omega)).mp hrest), Nat.mul_zero,
        Nat.zero_add]
    · have hpos : 0 < n := Nat.pos_of_ne_zero fun h => hrest (by rw [h, Nat.zero_div])
      rw [if_neg hrest, ih (n / base) (Nat.div_lt_self hpos hbase)]
      exact Nat.div_add_mod n base

/-! ## Hexadecimal -/

/-- The hexadecimal numeral of a number. -/
def hexNumeral (n : Nat) : CString := ((digitsUp 16 n).map itoaDigit).reverse

/-- A numeral has one value. -/
theorem hexNumeral_inj {m n : Nat} : hexNumeral m = hexNumeral n ↔ m = n := by
  constructor
  · intro h
    have hvalue := congrArg (positional 16) h
    unfold hexNumeral at hvalue
    rw [positional_digitsUp (by decide) (by decide), positional_digitsUp (by decide) (by decide)]
      at hvalue
    exact hvalue
  · rintro rfl
    rfl

theorem mem_hexNumeral {n : Nat} {c : CChar} (h : c ∈ hexNumeral n) :
    c ∈ str "0123456789ABCDEF" := by
  have hdigit : ∀ d < 16, itoaDigit d ∈ str "0123456789ABCDEF" := by decide
  obtain ⟨d, hd, rfl⟩ := List.mem_map.mp (List.mem_reverse.mp h)
  exact hdigit d (digitsUp_lt (by decide) hd)

/-- What `%x` prints is the numeral of the sign-extended value. -/
theorem itoaString_hex (val : Uint32) :
    itoaString val 120 = hexNumeral (val.signExtend 64).toNat := by
  rw [itoaString_eq, numeral_unsigned val (by decide) (by decide), if_pos (Or.inl rfl)]
  rfl

/-- A sign-extended value is a value of 32 bits only below 2^31. -/
theorem signExtend_eq_iff {val v : Uint32} :
    (val.signExtend 64).toNat = v.toNat ↔ val = v ∧ v.toNat < 2 ^ 31 := by
  have hlt := v.isLt
  rw [← BitVec.toNat_inj]
  rcases Nat.lt_or_ge val.toNat (2 ^ 31) with hlow | hhigh
  · rw [signExtend_nonneg hlow]
    omega
  · rw [signExtend_neg hhigh]
    omega

/-- Sign extension keeps values apart. -/
theorem signExtend_inj {val v : Uint32} :
    (val.signExtend 64).toNat = (v.signExtend 64).toNat ↔ val = v := by
  have hval := val.isLt
  have hv := v.isLt
  rw [← BitVec.toNat_inj]
  rcases Nat.lt_or_ge val.toNat (2 ^ 31) with hlow | hhigh
  · rw [signExtend_nonneg hlow]
    rcases Nat.lt_or_ge v.toNat (2 ^ 31) with hlow' | hhigh'
    · rw [signExtend_nonneg hlow']
    · rw [signExtend_neg hhigh']
      omega
  · rw [signExtend_neg hhigh]
    rcases Nat.lt_or_ge v.toNat (2 ^ 31) with hlow' | hhigh'
    · rw [signExtend_nonneg hlow']
      omega
    · rw [signExtend_neg hhigh']
      omega

end FreeMicroNix
