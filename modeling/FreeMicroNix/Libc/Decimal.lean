/-
  Signed decimal: what `itoa` writes for base 10 and under `'d'`.

  `IsDecimal v s` says what the canonical decimal numeral of an integer is, and names no program: a
  minus sign for a negative one, and digits without a leading zero whose positional value is the
  magnitude.  An integer is determined by its numeral (`IsDecimal.unique`).

  `itoa` negates a negative value in 32 bits and widens the result to 64.  That is the magnitude but
  for the smallest `int`, whose negation is itself, negative, and widened with its sign.
-/
import FreeMicroNix.Libc.Numeral

namespace FreeMicroNix

open Sequence

/-! ## Numerals -/

/-- The decimal digits of `n`, without a leading zero. -/
structure IsMagnitude (n : Nat) (s : CString) : Prop where
  nonempty : s ≠ []
  digits : ∀ c ∈ s, ch '0' ≤ c ∧ c ≤ ch '9'
  canonical : s.head? = some (ch '0') → s.length = 1
  value : positional 10 s = n

/-- **The canonical decimal numeral** of an integer. -/
def IsDecimal (v : Int) (s : CString) : Prop :=
  ∃ ds, s = (if v < 0 then [ch '-'] else []) ++ ds ∧ IsMagnitude v.natAbs ds

/-- A minus sign is not a digit. -/
theorem IsMagnitude.head_ne {n : Nat} {s : CString} (hs : IsMagnitude n s) :
    s.head? ≠ some (ch '-') := by
  intro hhead
  have hdigit := hs.digits _ (List.mem_of_mem_head? hhead)
  exact absurd hdigit.1 (by decide)

/-- The sign is what the numeral says it is. -/
theorem IsDecimal.head_iff {v : Int} {s : CString} (hs : IsDecimal v s) :
    s.head? = some (ch '-') ↔ v < 0 := by
  obtain ⟨ds, rfl, hds⟩ := hs
  by_cases hneg : v < 0
  · rw [if_pos hneg]
    exact iff_of_true rfl hneg
  · rw [if_neg hneg]
    exact iff_of_false hds.head_ne hneg

/-- **Distinct integers have distinct numerals.** -/
theorem IsDecimal.unique {v w : Int} {s : CString} (hv : IsDecimal v s) (hw : IsDecimal w s) :
    v = w := by
  -- the first character tells the sign, and what is behind it the magnitude
  have hsign : v < 0 ↔ w < 0 := hv.head_iff.symm.trans hw.head_iff
  obtain ⟨ds, hds, hmagnitude⟩ := hv
  obtain ⟨ds', hds', hmagnitude'⟩ := hw
  have hsame : ds = ds' := by
    simp only [hsign] at hds
    exact List.append_cancel_left (hds.symm.trans hds')
  have habs : v.natAbs = w.natAbs := by
    rw [← hmagnitude.value, ← hmagnitude'.value, hsame]
  omega

/-! ## The digits -/

theorem digitsUp_ne_nil (divisor ud : Nat) : digitsUp divisor ud ≠ [] := by
  unfold digitsUp
  split_ifs with hud
  · exact List.cons_ne_nil 0 []
  · exact Nat.digits_ne_nil_iff_ne_zero.mpr hud

/-- The most significant digit is not zero, unless it is the only one. -/
theorem digitsUp_getLast {divisor ud : Nat} (h : (digitsUp divisor ud).getLast? = some 0) :
    (digitsUp divisor ud).length = 1 := by
  unfold digitsUp at h ⊢
  by_cases hud : ud = 0
  · rw [if_pos hud]
    rfl
  · rw [if_neg hud] at h
    have hne := Nat.digits_ne_nil_iff_ne_zero (b := divisor).mpr hud
    rw [List.getLast?_eq_some_getLast hne] at h
    exact absurd (Option.some_inj.mp h) (Nat.getLast_digit_ne_zero divisor hud)

theorem itoaDigit_decimal {d : Nat} (hd : d < 10) :
    (ch '0' ≤ itoaDigit d ∧ itoaDigit d ≤ ch '9') ∧ (itoaDigit d = ch '0' ↔ d = 0) := by
  revert d
  decide

/-- **The digits of a number**, in order, are its canonical numeral. -/
theorem isMagnitude_digitsUp (n : Nat) : IsMagnitude n ((digitsUp 10 n).map itoaDigit).reverse where
  nonempty h := digitsUp_ne_nil 10 n (List.map_eq_nil_iff.mp (List.reverse_eq_nil_iff.mp h))
  digits c hc := by
    obtain ⟨d, hd, rfl⟩ := List.mem_map.mp (List.mem_reverse.mp hc)
    exact (itoaDigit_decimal (digitsUp_lt (by decide) hd)).1
  canonical h := by
    -- the first character is the digit written last
    rw [List.head?_reverse, List.getLast?_map, Option.map_eq_some_iff] at h
    obtain ⟨d, hlast, hzero⟩ := h
    have hd := digitsUp_lt (by decide) (List.mem_of_getLast? hlast)
    rw [(itoaDigit_decimal hd).2.mp hzero] at hlast
    rw [List.length_reverse, List.length_map]
    exact digitsUp_getLast hlast
  value := positional_digitsUp (by decide) (by decide) n

/-! ## `itoa` -/

section Signed

variable {val : Uint32} {base : Int}

/-- The two ways to ask for signed decimal. -/
def Signed (base : Int) : Prop := base = (ch 'd').toInt ∨ base = 10

theorem signBranch_iff (hbase : Signed base) : SignBranch val base ↔ val.toInt < 0 :=
  and_iff_right hbase

/-- The integer whose numeral is written: the value, but for the smallest `int`. -/
def printed (val : Uint32) : Int :=
  if val = BitVec.intMin 32 then -(2 ^ 64 - 2 ^ 31) else val.toInt

theorem printed_neg_iff (val : Uint32) : printed val < 0 ↔ val.toInt < 0 := by
  unfold printed
  split_ifs with hmin
  · subst hmin
    decide
  · exact Iff.rfl

theorem printed_eq_iff (val : Uint32) : printed val = val.toInt ↔ val ≠ BitVec.intMin 32 := by
  unfold printed
  split_ifs with hmin
  · subst hmin
    decide
  · exact iff_of_true rfl hmin

theorem printed_inj {val val' : Uint32} (h : printed val = printed val') : val = val' := by
  have hleast := BitVec.le_toInt val
  have hleast' := BitVec.le_toInt val'
  unfold printed at h
  split_ifs at h with hmin hmin' hmin'
  · rw [hmin, hmin']
  · omega
  · omega
  · exact BitVec.eq_of_toInt_eq h

/-- The number divided is the magnitude. -/
theorem itoaUnsigned_toNat (hbase : Signed base) :
    (itoaUnsigned val base).toNat = (printed val).natAbs := by
  by_cases hmin : val = BitVec.intMin 32
  · -- the negation is negative again
    subst hmin
    rw [itoaUnsigned, if_pos ((signBranch_iff hbase).mpr (by decide))]
    decide
  · rw [(printed_eq_iff val).mpr hmin, itoaUnsigned]
    have hlt := val.isLt
    have hint := BitVec.toInt_eq_toNat_cond val
    rcases Nat.lt_or_ge val.toNat (2 ^ 31) with hlow | hhigh
    · have hneg : ¬ val.toInt < 0 := mt (toInt_neg_iff val).mp (Nat.not_le_of_lt hlow)
      rw [if_neg (mt (signBranch_iff hbase).mp hneg), signExtend_nonneg hlow]
      omega
    · have hne : val.toNat ≠ 2 ^ 31 := fun h => hmin (BitVec.eq_of_toNat_eq h)
      have hnegated : (-val).toNat = 2 ^ 32 - val.toNat := by
        rw [BitVec.toNat_neg, Nat.mod_eq_of_lt (by omega)]
      rw [if_pos ((signBranch_iff hbase).mpr ((toInt_neg_iff val).mpr hhigh)),
        signExtend_nonneg (by omega)]
      omega

theorem numeral_decimal (val : Uint32) (hbase : Signed base) :
    numeral val base = (if printed val < 0 then [ch '-'] else [])
      ++ ((digitsUp 10 (printed val).natAbs).map itoaDigit).reverse := by
  have hdivisor : itoaDivisor val base = 10 := by
    refine if_neg fun h => ?_
    rcases hbase with rfl | rfl
    · exact absurd h.2 (by decide)
    · exact absurd h.2 (by decide)
  rw [numeral, numeralDigits, hdivisor, itoaUnsigned_toNat hbase]
  simp only [signBranch_iff hbase, printed_neg_iff]

/-- **What `itoa` writes** in signed decimal is a canonical numeral. -/
theorem itoaString_isDecimal (val : Uint32) (hbase : Signed base) :
    IsDecimal (printed val) (itoaString val base) := by
  rw [itoaString_eq, numeral_decimal val hbase]
  exact ⟨_, rfl, isMagnitude_digitsUp _⟩

/-- The string ends where the pointer `itoa` returns points. -/
theorem itoa_written (val : Uint32) (contents : Nat → CChar) (base : Int) :
    itoa val contents base
      = (writeList contents 0 (itoaString val base ++ [0]), (itoaString val base).length) := by
  rw [itoaString_eq]
  exact itoa_eq val contents base

/-- **Signed decimal.**  The string is terminated where the returned pointer points, and distinct
    values have distinct strings; it is the numeral of the value exactly if that is not the smallest
    `int`. -/
theorem itoa_decimal_iff (hbase : Signed base) (val : Uint32) (contents : Nat → CChar) :
    itoa val contents base
        = (writeList contents 0 (itoaString val base ++ [0]), (itoaString val base).length) ∧
      (∀ val', itoaString val' base = itoaString val base → val' = val) ∧
      (IsDecimal val.toInt (itoaString val base) ↔ val ≠ BitVec.intMin 32) := by
  refine ⟨itoa_written val contents base, fun val' heq => ?_, ?_⟩
  · have hdecimal := itoaString_isDecimal val' hbase
    rw [heq] at hdecimal
    exact printed_inj (hdecimal.unique (itoaString_isDecimal val hbase))
  · rw [← printed_eq_iff]
    constructor
    · exact fun hdecimal => (itoaString_isDecimal val hbase).unique hdecimal
    · intro heq
      rw [← heq]
      exact itoaString_isDecimal val hbase

end Signed

theorem itoa_decimal_iff_minus_42 :
    itoa (-42) (fun _ => 0) 10
        = (writeList (fun _ => 0) 0 (itoaString (-42) 10 ++ [0]), (itoaString (-42) 10).length) ∧
      (∀ val', itoaString val' 10 = itoaString (-42) 10 → val' = -42) ∧
      (IsDecimal (-42 : Uint32).toInt (itoaString (-42) 10) ↔ (-42 : Uint32) ≠ BitVec.intMin 32) :=
  itoa_decimal_iff (Or.inr rfl) (-42) (fun _ => 0)

/-- The smallest `int` is printed with the magnitude 2^64 - 2^31. -/
theorem itoa_intMin :
    itoaString (BitVec.intMin 32) 10 = str "-18446744071562067968" ∧
      ¬ IsDecimal (BitVec.intMin 32).toInt (itoaString (BitVec.intMin 32) 10) := by
  refine ⟨?_, fun hdecimal => ?_⟩
  · rw [itoaString_eq]
    decide +kernel
  · have hwritten := itoaString_isDecimal (BitVec.intMin 32) (Or.inr rfl : Signed 10)
    exact (printed_eq_iff _).mp (hwritten.unique hdecimal) rfl

end FreeMicroNix
