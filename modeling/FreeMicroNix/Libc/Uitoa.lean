/-
  `libc/stdlib/uitoa.c`: an unsigned number in a base from 2 to 16, padded with zeros.

  The digits are written from the least significant one on while `min` counts down, the zeros that
  `min` still asks for behind them, and the whole is reversed.  `utoa` is this text for a value of
  any width; `uitoa` is it for an `unsigned int`.

  With a base it accepts the converter writes `utoaNumeral val base min` and a terminator, provided
  they fit into the buffer (`utoa_eq`).  The digits are those of `itoa` (`digitsUp`, `itoaDigit`):
  where the two functions differ, they differ in the number that is divided.
-/
import FreeMicroNix.Libc.Numeral
import FreeMicroNix.Libc.Strreverse

namespace FreeMicroNix.Libc

open PartialMemory

/-! ## The function -/

/-- `num` -/
def num : CString := str "0123456789ABCDEF"

/-- `do { *wstr++ = num[val%base]; if (min > 0) min--; } while (val/=base);` -/
def utoaDigits (base : Nat) (hbase : 2 ≤ base) (h : Heap CChar) (wstr : Uint32) (val : Nat)
    (min : Int) : Option (Heap CChar × Uint32 × Int) := do
  let c ← num[val % base]?
  let h ← write h wstr c
  let min := if min > 0 then min - 1 else min
  if val / base = 0 then some (h, wstr + 1, min)
  else utoaDigits base hbase h (wstr + 1) (val / base) min
termination_by val
decreasing_by
  rename_i hne
  exact Nat.div_lt_self (Nat.pos_of_ne_zero fun h => hne (by rw [h, Nat.zero_div])) hbase

/-- `while (min > 0) { *wstr++ = '0'; min--; }` -/
def utoaPad (h : Heap CChar) (wstr : Uint32) (min : Int) : Option (Heap CChar × Uint32) :=
  if min > 0 then do
    let h ← write h wstr (ch '0')
    utoaPad h (wstr + 1) (min - 1)
  else some (h, wstr)
termination_by min.toNat

/-- The heap afterwards, and `buf`. -/
def utoa (h : Heap CChar) (buf : Uint32) (val : Nat) (base min : Int) :
    Option (Heap CChar × Uint32) :=
  if hbase : base < 2 ∨ base > 16 then do
    let h ← write h buf 0
    some (h, buf)
  else do
    let (h, wstr, min) ← utoaDigits base.toNat (by omega) h buf val min
    let (h, wstr) ← utoaPad h wstr min
    let h ← write h wstr 0
    let (h, _) ← strreverse h buf
    some (h, buf)

def uitoa (h : Heap CChar) (buf : Uint32) (val : Uint32) (base min : Int) :
    Option (Heap CChar × Uint32) :=
  utoa h buf val.toNat base min

/-! ## What it writes -/

/-- **The numeral**: zeros up to the length `min`, and the digits. -/
def utoaNumeral (val : Nat) (base min : Int) : CString :=
  List.replicate (min.toNat - (digitsUp base.toNat val).length) (ch '0')
    ++ ((digitsUp base.toNat val).map itoaDigit).reverse

/-- The table has the digits `itoa` computes. -/
theorem num_getElem? {d : Nat} (hd : d < 16) : num[d]? = some (itoaDigit d) := by
  revert d
  decide

theorem itoaDigit_ne_zero {d : Nat} (hd : d < 16) : itoaDigit d ≠ 0 := by
  revert d
  decide

section Results

variable {h : Heap CChar} {buf wstr : Uint32} {val : Nat}

/-- **The digit loop** writes the digits; `min` counts them off. -/
theorem utoaDigits_eq {base : Nat} (hbase : 2 ≤ base) (hmost : base ≤ 16)
    (hmapped : Mapped h wstr (digitsUp base val).length)
    (hlen : (digitsUp base val).length ≤ 2 ^ 32) (min : Int) :
    ∃ min', utoaDigits base hbase h wstr val min
        = some (lay h wstr ((digitsUp base val).map itoaDigit),
            wstr + BitVec.ofNat 32 (digitsUp base val).length, min') ∧
      min'.toNat = min.toNat - (digitsUp base val).length := by
  induction val using Nat.strong_induction_on generalizing h wstr min with
  | _ val ih =>
    have hdigit : val % base < 16 := Nat.lt_of_lt_of_le (Nat.mod_lt val (by omega)) hmost
    -- `min` is counted down, but not below zero
    have hcount : (if min > 0 then min - 1 else min).toNat = min.toNat - 1 := by
      split_ifs <;> omega
    rw [digitsUp_eq hbase] at hmapped hlen ⊢
    rw [List.length_cons] at hmapped hlen
    rw [utoaDigits, bind_of_eq_some (num_getElem? hdigit),
      bind_of_eq_some (write_within hmapped (within_self wstr (Nat.succ_pos _)) _)]
    by_cases hrest : val / base = 0
    · simp only [if_pos hrest, List.map_cons, List.map_nil, List.length_singleton]
      exact ⟨_, by rw [lay_singleton]; rfl, hcount⟩
    · have hpos : 0 < val := Nat.pos_of_ne_zero fun h => hrest (by rw [h, Nat.zero_div])
      rw [if_neg hrest] at hmapped hlen
      obtain ⟨min', hrun, hmin⟩ := ih (val / base) (Nat.div_lt_self hpos hbase)
        ((hmapped.tail hlen).update _ _) (by omega) (if min > 0 then min - 1 else min)
      simp only [if_neg hrest, List.map_cons, List.length_cons]
      refine ⟨min', ?_, by omega⟩
      rw [hrun, lay_cons _ _ _ (by rw [List.length_map]; omega), add_one_add_ofNat]

/-- The padding loop writes the zeros. -/
theorem utoaPad_eq (min : Int) (hmapped : Mapped h wstr min.toNat) (hlen : min.toNat ≤ 2 ^ 32) :
    utoaPad h wstr min = some (lay h wstr (List.replicate min.toNat (ch '0')),
      wstr + BitVec.ofNat 32 min.toNat) := by
  obtain ⟨n, hn⟩ : ∃ n, min.toNat = n := ⟨_, rfl⟩
  induction n generalizing h wstr min with
  | zero =>
    have hstop : ¬ min > 0 := by omega
    rw [utoaPad, if_neg hstop, hn, List.replicate_zero, lay_nil, BitVec.add_zero]
  | succ n ih =>
    have hgo : min > 0 := by omega
    have hless : (min - 1).toNat = n := by omega
    rw [hn] at hmapped hlen ⊢
    have htail := (hmapped.tail hlen).update wstr (ch '0')
    rw [← hless] at htail
    rw [utoaPad, if_pos hgo,
      bind_of_eq_some (write_within hmapped (within_self wstr (Nat.succ_pos _)) _),
      ih (min - 1) htail (by omega) hless, hless, List.replicate_succ,
      lay_cons _ _ _ (by rw [List.length_replicate]; omega), add_one_add_ofNat]

theorem utoaNumeral_reverse (val : Nat) (base min : Int) :
    (utoaNumeral val base min).reverse = (digitsUp base.toNat val).map itoaDigit
      ++ List.replicate (min.toNat - (digitsUp base.toNat val).length) (ch '0') := by
  rw [utoaNumeral, List.reverse_append, List.reverse_reverse, List.reverse_replicate]

theorem length_utoaNumeral (val : Nat) (base min : Int) :
    (utoaNumeral val base min).length = (digitsUp base.toNat val).length
      + (min.toNat - (digitsUp base.toNat val).length) := by
  rw [← List.length_reverse, utoaNumeral_reverse, List.length_append, List.length_map,
    List.length_replicate]

theorem utoaNumeral_ne_zero {base : Int} (hbase : 2 ≤ base) (hmost : base ≤ 16) {min : Int}
    {c : CChar} (hc : c ∈ utoaNumeral val base min) : c ≠ 0 := by
  rcases List.mem_append.mp hc with hpad | hdigit
  · rw [List.eq_of_mem_replicate hpad]
    decide
  · obtain ⟨d, hd, rfl⟩ := List.mem_map.mp (List.mem_reverse.mp hdigit)
    have hlt := digitsUp_lt (by omega) hd
    exact itoaDigit_ne_zero (by omega)

/-- **The converter** writes the numeral and a terminator into the buffer, and returns it. -/
theorem utoa_eq {base min : Int} (hbase : 2 ≤ base) (hmost : base ≤ 16)
    (hmapped : Mapped h buf ((utoaNumeral val base min).length + 1)) (hnonnull : buf ≠ 0)
    (hobject : buf.toNat + (utoaNumeral val base min).length < 2 ^ 32) :
    utoa h buf val base min = some (lay h buf (utoaNumeral val base min ++ [0]), buf) := by
  have hreverse := utoaNumeral_reverse val base min
  have hlength := length_utoaNumeral val base min
  rw [← List.length_reverse] at hmapped hobject hlength
  have hne : ∀ c ∈ (utoaNumeral val base min).reverse, c ≠ 0 := fun c hc =>
    utoaNumeral_ne_zero hbase hmost (List.mem_reverse.mp hc)
  have hturned := strreverse_lay h hne hnonnull hobject
  rw [List.reverse_reverse] at hturned
  -- what the loops write, the other way round
  obtain ⟨s, hs⟩ : ∃ s, (utoaNumeral val base min).reverse = s := ⟨_, rfl⟩
  rw [hs] at hmapped hobject hreverse hlength hturned
  have hroomDigits : Mapped h buf (digitsUp base.toNat val).length := hmapped.mono (by omega)
  obtain ⟨min', hdigits, hmin⟩ :=
    utoaDigits_eq (by omega) (by omega) hroomDigits (by omega) min
  rw [← hmin] at hreverse hlength
  have hroom : Mapped (lay h buf ((digitsUp base.toNat val).map itoaDigit))
      (buf + BitVec.ofNat 32 (digitsUp base.toNat val).length) min'.toNat :=
    ((hmapped.mono (by omega)).drop (by omega)).lay _
  have hpad := utoaPad_eq min' hroom (by omega)
  have hlaid : lay (lay h buf ((digitsUp base.toNat val).map itoaDigit))
      (buf + BitVec.ofNat 32 (digitsUp base.toNat val).length)
        (List.replicate min'.toNat (ch '0')) = lay h buf s := by
    rw [hreverse, lay_append _ _ (by rw [List.length_map, List.length_replicate]; omega),
      List.length_map]
  rw [hlaid, add_ofNat_add_ofNat, ← hlength] at hpad
  rw [utoa, dif_neg (by omega), bind_of_eq_some hdigits]
  show (utoaPad _ _ _ >>= _) = _
  rw [bind_of_eq_some hpad]
  show (write _ _ _ >>= _) = _
  rw [bind_of_eq_some (write_lay hmapped 0 (by omega)), bind_of_eq_some hturned]

/-! ## Against `itoa` -/

/-- Without a minimum there is no padding. -/
theorem utoaNumeral_zero (val : Nat) (base : Int) :
    utoaNumeral val base 0 = ((digitsUp base.toNat val).map itoaDigit).reverse := by
  show List.replicate (0 - _) (ch '0') ++ _ = _
  rw [Nat.zero_sub, List.replicate_zero, List.nil_append]

theorem utoaNumeral_inj {base : Int} (hbase : 2 ≤ base) (hmost : base ≤ 16) {w : Nat}
    (heq : utoaNumeral val base 0 = utoaNumeral w base 0) : val = w := by
  rw [utoaNumeral_zero, utoaNumeral_zero] at heq
  have hvalue := positional_digitsUp (show 2 ≤ base.toNat by omega) (by omega) val
  rw [heq, positional_digitsUp (by omega) (by omega)] at hvalue
  exact hvalue.symm

/-- Unless it is asked for signed decimal, `itoa` writes the sign-extended value. -/
theorem itoaString_unsigned (val : Uint32) {base : Int} (hletter : base ≠ 100) (hten : base ≠ 10) :
    itoaString val base = utoaNumeral (val.signExtend 64).toNat
      (if base = 120 ∨ base = 16 then 16 else 10) 0 := by
  rw [itoaString_eq, utoaNumeral_zero, numeral_unsigned val hletter hten]
  split_ifs <;> rfl

/-- The sign extension changes exactly the negative values. -/
theorem signExtend_eq_iff (val : Uint32) :
    (val.signExtend 64).toNat = val.toNat ↔ 0 ≤ val.toInt := by
  rw [← Int.not_lt, toInt_neg_iff]
  rcases Nat.lt_or_ge val.toNat (2 ^ 31) with hlow | hhigh
  · rw [signExtend_nonneg hlow]
    exact iff_of_true rfl (Nat.not_le_of_lt hlow)
  · rw [signExtend_neg hhigh]
    exact iff_of_false (by omega) (not_not_intro hhigh)

/-- In base 10 and above eleven bytes are enough for `uitoa`, and what they hold is the numeral. -/
theorem uitoa_isString (hmapped : Mapped h buf 11) (hnonnull : buf ≠ 0)
    (hobject : buf.toNat + 10 < 2 ^ 32) (val : Uint32) (base : Int) (hbase : 10 ≤ base)
    (hmost : base ≤ 16) :
    ∃ h', uitoa h buf val base 0 = some (h', buf) ∧
      ∀ s, IsString h' buf s ↔ s = utoaNumeral val.toNat base 0 := by
  have hlength : (utoaNumeral val.toNat base 0).length ≤ 10 := by
    have hpow : 10 ^ (9 + 1) ≤ base.toNat ^ (9 + 1) := Nat.pow_le_pow_left (by omega) _
    rw [length_utoaNumeral, Int.toNat_zero, Nat.zero_sub, Nat.add_zero,
      length_digitsUp_le (by omega)]
    exact Nat.lt_of_lt_of_le (by omega) hpow
  have hroom : Mapped h buf ((utoaNumeral val.toNat base 0).length + 1) :=
    hmapped.mono (by omega)
  have hwritten := utoa_eq (by omega) hmost hroom hnonnull (by omega)
  have hstring : IsString (lay h buf (utoaNumeral val.toNat base 0 ++ [0])) buf
      (utoaNumeral val.toNat base 0) :=
    terminated_lay h (fun c hc => utoaNumeral_ne_zero (by omega) hmost hc) hnonnull (by omega)
  refine ⟨_, hwritten, fun s => ⟨fun hs => hs.unique hstring, ?_⟩⟩
  rintro rfl
  exact hstring

/-- **`itoa` against `uitoa`.**  In hexadecimal and in unsigned decimal they write the same string
    for exactly the nonnegative values: `itoa` divides a negative one as the 64-bit number it is
    sign-extended to. -/
theorem itoa_uitoa_iff (hmapped : Mapped h buf 11) (hnonnull : buf ≠ 0)
    (hobject : buf.toNat + 10 < 2 ^ 32) (val : Uint32) :
    ∃ hex dec, uitoa h buf val 16 0 = some (hex, buf) ∧ uitoa h buf val 10 0 = some (dec, buf) ∧
      (IsString hex buf (itoaString val (ch 'x').toInt) ↔ 0 ≤ val.toInt) ∧
      (IsString hex buf (itoaString val 16) ↔ 0 ≤ val.toInt) ∧
      (IsString dec buf (itoaString val (ch 'u').toInt) ↔ 0 ≤ val.toInt) := by
  obtain ⟨hex, hhex, hhexString⟩ :=
    uitoa_isString hmapped hnonnull hobject val 16 (by decide) (by decide)
  obtain ⟨dec, hdec, hdecString⟩ :=
    uitoa_isString hmapped hnonnull hobject val 10 (by decide) (by decide)
  have hsame : ∀ base : Int, 2 ≤ base → base ≤ 16 →
      (utoaNumeral (val.signExtend 64).toNat base 0 = utoaNumeral val.toNat base 0
        ↔ 0 ≤ val.toInt) := by
    intro base hbase hmost
    rw [← signExtend_eq_iff]
    exact ⟨utoaNumeral_inj hbase hmost, congrArg (utoaNumeral · base 0)⟩
  refine ⟨hex, dec, hhex, hdec, ?_, ?_, ?_⟩
  · rw [hhexString, itoaString_unsigned val (by decide) (by decide)]
    exact hsame 16 (by decide) (by decide)
  · rw [hhexString, itoaString_unsigned val (by decide) (by decide)]
    exact hsame 16 (by decide) (by decide)
  · rw [hdecString, itoaString_unsigned val (by decide) (by decide)]
    exact hsame 10 (by decide) (by decide)

end Results

/-- A buffer of eleven bytes at 0x1000, and nothing else. -/
def elevenBytes : Heap CChar := lay (fun _ => none) 0x1000 (List.replicate 11 0)

theorem elevenBytes_mapped : Mapped elevenBytes 0x1000 11 := by
  rw [mapped_iff (by decide)]
  decide

theorem itoa_uitoa_iff_255 :
    ∃ hex dec, uitoa elevenBytes 0x1000 255 16 0 = some (hex, 0x1000) ∧
      uitoa elevenBytes 0x1000 255 10 0 = some (dec, 0x1000) ∧
      (IsString hex 0x1000 (itoaString 255 (ch 'x').toInt) ↔ 0 ≤ (255 : Uint32).toInt) ∧
      (IsString hex 0x1000 (itoaString 255 16) ↔ 0 ≤ (255 : Uint32).toInt) ∧
      (IsString dec 0x1000 (itoaString 255 (ch 'u').toInt) ↔ 0 ≤ (255 : Uint32).toInt) :=
  itoa_uitoa_iff elevenBytes_mapped (by decide) (by decide) 255

/-- The kernel is linked at 0xC0000000: `itoa` prints that address with eight digits too many. -/
theorem itoa_kernel_address :
    ∃ hex, uitoa elevenBytes 0x1000 0xC0000000 16 0 = some (hex, 0x1000) ∧
      IsString hex 0x1000 (str "C0000000") ∧
      itoaString 0xC0000000 (ch 'x').toInt = str "FFFFFFFFC0000000" ∧
      ¬ IsString hex 0x1000 (itoaString 0xC0000000 (ch 'x').toInt) := by
  obtain ⟨hex, hrun, hstring⟩ := uitoa_isString elevenBytes_mapped (by decide) (by decide)
    0xC0000000 16 (by decide) (by decide)
  have hitoa : itoaString 0xC0000000 (ch 'x').toInt = str "FFFFFFFFC0000000" := by
    rw [itoaString_eq]
    decide +kernel
  have huitoa : utoaNumeral (0xC0000000 : Uint32).toNat 16 0 = str "C0000000" := by
    decide +kernel
  refine ⟨hex, hrun, (hstring _).mpr huitoa.symm, hitoa, ?_⟩
  rw [hstring, hitoa, huitoa]
  decide

end FreeMicroNix.Libc
