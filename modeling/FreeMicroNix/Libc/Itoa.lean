/-
  `libc/stdlib/itoa.c`: the number formatter behind `kprintf` and `Terminal_Print_Int`.

  The destination is the object `str` points to, as its contents by offset; the pointers `p`,
  `p1` and `p2` of the source are offsets into it.  `ud` is the 64-bit unsigned value the digit
  loop divides: the `int` argument sign-extended, or its negation (taken in 32 bits, where
  `-INT_MIN` is `INT_MIN` again) for a negative decimal.
-/
import FreeMicroNix.Types
import Mathlib.Logic.Function.Basic

namespace FreeMicroNix

/-- `(remainder < 10) ? remainder + '0' : remainder + 'A' - 10`. -/
def itoaDigit (remainder : Nat) : CChar :=
  if remainder < 10 then BitVec.ofNat 8 remainder + ch '0'
  else BitVec.ofNat 8 remainder + ch 'A' - 10#8

/-- The digit loop, least significant digit first: the contents written and the offset after the
    last digit. -/
def itoaDigits (divisor : Nat) (hdivisor : 2 ≤ divisor) (ud : Nat) (str : Nat → CChar) (p : Nat) :
    (Nat → CChar) × Nat :=
  let str := Function.update str p (itoaDigit (ud % divisor))
  if ud / divisor = 0 then (str, p + 1)
  else itoaDigits divisor hdivisor (ud / divisor) str (p + 1)
termination_by ud
decreasing_by
  rename_i hne
  exact Nat.div_lt_self (Nat.pos_of_ne_zero fun h => hne (by rw [h, Nat.zero_div])) hdivisor

/-- The in-place reversal: `while (p1 < p2)` exchange the two bytes and close in. -/
def itoaReverse (str : Nat → CChar) (p1 p2 : Nat) : Nat → CChar :=
  if p1 < p2 then
    let tmp := str p1
    itoaReverse (Function.update (Function.update str p1 (str p2)) p2 tmp) (p1 + 1) (p2 - 1)
  else str
termination_by p2 - p1

/-- `itoa`: the contents of the object afterwards and the offset of the terminator it returns. -/
def itoa (val : Uint32) (str : Nat → CChar) (base : Int) : (Nat → CChar) × Nat :=
  let negative := (base = 100 ∨ base = 10) ∧ val.toInt < 0
  let ud : Uint64 := if negative then (-val).signExtend 64 else val.signExtend 64
  let start := if negative then 1 else 0
  let str := if negative then Function.update str 0 (ch '-') else str
  let digits :=
    if ¬ negative ∧ (base = 120 ∨ base = 16) then itoaDigits 16 (by decide) ud.toNat str start
    else itoaDigits 10 (by decide) ud.toNat str start
  let str := Function.update digits.1 digits.2 0
  (itoaReverse str start (digits.2 - 1), digits.2)

/-- The string `itoa` leaves in the object. -/
def itoaString (val : Uint32) (base : Int) : CString :=
  let written := itoa val (fun _ => 0) base
  (List.range written.2).map written.1

end FreeMicroNix
