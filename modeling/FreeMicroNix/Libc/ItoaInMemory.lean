/-
  `libc/stdlib/itoa.c` on the heap.

  `Libc.Itoa` has the destination as an object of its own, by offsets.  Here it lies in memory, and
  `p`, `p1` and `p2` are addresses.  The two agree wherever the numeral and its terminator fit into
  mapped memory (`itoa_lays`), and there the function writes nothing else.

  The reversal exchanges its two bytes through `tmp` where `strreverse` uses three `^=`.  On two
  addresses that differ these do the same (`itoaExchange_eq`), mapped or not, and both loops stop
  before their pointers meet: so they are one function, and what is known of one holds of the other.
-/
import FreeMicroNix.Libc.Numeral
import FreeMicroNix.Libc.Strreverse

namespace FreeMicroNix.Libc

open PartialMemory

/-! ## The function -/

/-- `do { … *p++ = …; } while (ud /= divisor);` -/
def itoaDigits (divisor : Nat) (hdivisor : 2 ≤ divisor) (h : Heap CChar) (p : Uint32) (ud : Nat) :
    Option (Heap CChar × Uint32) := do
  let h ← write h p (itoaDigit (ud % divisor))
  if ud / divisor = 0 then some (h, p + 1)
  else itoaDigits divisor hdivisor h (p + 1) (ud / divisor)
termination_by ud
decreasing_by
  rename_i hne
  exact Nat.div_lt_self (Nat.pos_of_ne_zero fun h => hne (by rw [h, Nat.zero_div])) hdivisor

/-- `char tmp = *p1; *p1 = *p2; *p2 = tmp;` -/
def itoaExchange (h : Heap CChar) (p1 p2 : Uint32) : Option (Heap CChar) := do
  let tmp ← h p1
  let c ← h p2
  let h ← write h p1 c
  write h p2 tmp

/-- `while (p1 < p2)` -/
def itoaReverse (h : Heap CChar) (p1 p2 : Uint32) : Option (Heap CChar) :=
  if p1 < p2 then do
    let h ← itoaExchange h p1 p2
    itoaReverse h (p1 + 1) (p2 - 1)
  else some h
termination_by p2.toNat
decreasing_by bv_omega

theorem two_le_ten : 2 ≤ 10 := by decide

theorem two_le_sixteen : 2 ≤ 16 := by decide

/-- `itoa`: the heap afterwards, and the address of the terminator. -/
def itoa (h : Heap CChar) (val : Uint32) (str : Uint32) (base : Int) :
    Option (Heap CChar × Uint32) := do
  let negative := (base = 100 ∨ base = 10) ∧ val.toInt < 0
  let ud : Uint64 := if negative then (-val).signExtend 64 else val.signExtend 64
  let h ← (if negative then write h str (ch '-') else some h)
  let start := if negative then str + 1 else str
  let (h, p) ←
    (if ¬ negative ∧ (base = 120 ∨ base = 16) then itoaDigits 16 two_le_sixteen h start ud.toNat
    else itoaDigits 10 two_le_ten h start ud.toNat)
  let h ← write h p 0
  let h ← itoaReverse h start (p - 1)
  some (h, p)

/-! ## The two exchanges -/

section Results

variable {h : Heap CChar} {p q str : Uint32} {val : Uint32} {base : Int}

/-- **One exchange is the other**, on any two addresses that differ. -/
theorem itoaExchange_eq (hne : p ≠ q) : itoaExchange h p q = xorExchange h p q := by
  unfold itoaExchange
  cases hp : h p with
  | none =>
    rw [xorExchange, xorAssign, hp]
    rfl
  | some c =>
    cases hq : h q with
    | none =>
      rw [xorExchange, xorAssign, hp, hq]
      rfl
    | some d =>
      have hq' : Function.update h p (some d) q = some d := by
        rw [Function.update_of_ne hne.symm, hq]
      rw [xorExchange_eq hp hq hne]
      refine (bind_of_eq_some (write_of_mapped hp d) _).trans ?_
      exact write_of_mapped hq' c

/-- **So is one reversal the other.** -/
theorem itoaReverse_eq (h : Heap CChar) (p q : Uint32) :
    itoaReverse h p q = strreverseLoop h p q := by
  induction hn : q.toNat using Nat.strong_induction_on generalizing h p q with
  | _ n ih =>
    rw [itoaReverse, strreverseLoop]
    by_cases hlt : p < q
    · rw [if_pos hlt, if_pos hlt, itoaExchange_eq (BitVec.ne_of_lt hlt)]
      have hless : (q - 1).toNat < n := by bv_omega
      exact congrArg _ (funext fun g => ih _ hless g (p + 1) (q - 1) rfl)
    · rw [if_neg hlt, if_neg hlt]

/-! ## What it writes -/

/-- The digit loop, the least significant digit first. -/
theorem itoaDigits_lays {divisor : Nat} (hdivisor : 2 ≤ divisor) {ud : Nat}
    (hmapped : Mapped h p (digitsUp divisor ud).length)
    (hlen : (digitsUp divisor ud).length ≤ 2 ^ 32) :
    itoaDigits divisor hdivisor h p ud
      = some (lay h p ((digitsUp divisor ud).map itoaDigit),
          p + BitVec.ofNat 32 (digitsUp divisor ud).length) := by
  induction ud using Nat.strong_induction_on generalizing h p with
  | _ ud ih =>
    rw [digitsUp_eq hdivisor] at hmapped hlen ⊢
    rw [List.length_cons] at hmapped hlen
    rw [itoaDigits, bind_of_eq_some (write_within hmapped (within_self p (Nat.succ_pos _)) _)]
    by_cases hrest : ud / divisor = 0
    · simp only [if_pos hrest, List.map_cons, List.map_nil, List.length_singleton]
      rw [lay_singleton]
      rfl
    · have hpos : 0 < ud := Nat.pos_of_ne_zero fun h => hrest (by rw [h, Nat.zero_div])
      simp only [if_neg hrest, List.map_cons, List.length_cons] at hmapped hlen ⊢
      rw [ih (ud / divisor) (Nat.div_lt_self hpos hdivisor) ((hmapped.tail hlen).update _ _)
        (by omega), lay_cons _ _ _ (by rw [List.length_map]; omega), add_one_add_ofNat]

/-- `itoa` from the digit loop on. -/
def itoaFrom (divisor : Nat) (hdivisor : 2 ≤ divisor) (ud : Nat) (h : Heap CChar) (str : Uint32) :
    Option (Heap CChar × Uint32) := do
  let (h, p) ← itoaDigits divisor hdivisor h str ud
  let h ← write h p 0
  let h ← itoaReverse h str (p - 1)
  some (h, p)

/-- The digits, their terminator, and the reversal. -/
theorem itoaFrom_lays {divisor : Nat} (hdivisor : 2 ≤ divisor) {ud : Nat} (hnonnull : p ≠ 0)
    (hfits : p.toNat + ((digitsUp divisor ud).length + 1) ≤ 2 ^ 32)
    (hmapped : Mapped h p ((digitsUp divisor ud).length + 1)) :
    itoaFrom divisor hdivisor ud h p
      = some (lay h p (((digitsUp divisor ud).map itoaDigit).reverse ++ [0]),
          p + BitVec.ofNat 32 (digitsUp divisor ud).length) := by
  let digits := (digitsUp divisor ud).map itoaDigit
  have hlength : digits.length = (digitsUp divisor ud).length := List.length_map _
  have hrun := itoaDigits_lays hdivisor (hmapped.mono (Nat.le_succ _)) (by omega)
  have hend := write_lay (show Mapped h p (digits.length + 1) from hlength.symm ▸ hmapped) 0
    (by omega)
  rw [hlength] at hend
  have hcells : Cells (lay h p (digits ++ [0])) p digits := by
    have hall := cells_lay h p (show (digits ++ [0]).length ≤ 2 ^ 32 by
      rw [List.length_append, List.length_singleton]
      omega)
    exact (cells_append_iff.mp hall).1
  have hback := strreverseLoop_eq hcells hnonnull (by omega)
  rw [hlength, ← itoaReverse_eq] at hback
  refine (bind_of_eq_some hrun _).trans ?_
  refine (bind_of_eq_some hend _).trans ?_
  refine (bind_of_eq_some hback _).trans ?_
  -- the bytes reversed are those laid, and the terminator behind them stays
  have hreverse : digits.reverse.length = digits.length := List.length_reverse
  rw [lay_concat h p 0 (by omega), lay_lay _ _ hreverse.symm,
    lay_concat h p 0 (show digits.reverse.length < 2 ^ 32 by omega), hreverse]

/-- `itoa` with its locals named. -/
theorem itoa_named (h : Heap CChar) (val str : Uint32) (base : Int) :
    itoa h val str base =
      (if SignBranch val base then write h str (ch '-') else some h) >>= fun h =>
        itoaFrom (itoaDivisor val base) (two_le_itoaDivisor val base) (itoaUnsigned val base).toNat h
          (if SignBranch val base then str + 1 else str) := by
  have hdigits : ∀ h start,
      (if ¬ SignBranch val base ∧ (base = 120 ∨ base = 16) then
          itoaDigits 16 (by decide) h start (itoaUnsigned val base).toNat
        else itoaDigits 10 (by decide) h start (itoaUnsigned val base).toNat)
      = itoaDigits (itoaDivisor val base) (two_le_itoaDivisor val base) h start
          (itoaUnsigned val base).toNat := by
    intro h start
    unfold itoaDivisor
    split_ifs <;> rfl
  show Option.bind (if SignBranch val base then write h str (ch '-') else some h) _
    = Option.bind (if SignBranch val base then write h str (ch '-') else some h) _
  refine congrArg (Option.bind _) (funext fun h => ?_)
  exact congrArg (fun x : Option (Heap CChar × Uint32) => x.bind _) (hdigits h _)

/-- **`itoa` on the heap** lays the numeral of the object-level function and a terminator, and
    returns the address of the terminator. -/
theorem itoa_lays (hroom : Object h str ((numeral val base).length + 1)) :
    itoa h val str base
      = some (lay h str (numeral val base ++ [0]),
          str + BitVec.ofNat 32 (numeral val base).length) := by
  obtain ⟨hmapped, hnonnull, hfits⟩ := hroom
  let n := (digitsUp (itoaDivisor val base) (itoaUnsigned val base).toNat).length
  have hdigits : (numeralDigits val base).length = n := by
    rw [numeralDigits, List.length_reverse, List.length_map]
  rw [itoa_named]
  unfold numeral at hmapped hfits ⊢
  by_cases hsign : SignBranch val base
  · simp only [if_pos hsign, List.singleton_append, List.length_cons, hdigits] at hmapped hfits ⊢
    have hfrom := itoaFrom_lays (two_le_itoaDivisor val base) (p := str + 1) (by bv_omega)
      (by bv_omega) ((hmapped.tail (by omega)).update str (ch '-'))
    rw [write_within hmapped (within_self str (Nat.succ_pos _))]
    refine hfrom.trans ?_
    rw [List.cons_append, lay_cons _ _ _ (by rw [List.length_append, List.length_singleton]; omega),
      add_one_add_ofNat]
    rfl
  · simp only [if_neg hsign, List.nil_append, hdigits] at hmapped hfits ⊢
    exact itoaFrom_lays (two_le_itoaDivisor val base) hnonnull hfits hmapped

end Results

end FreeMicroNix.Libc
