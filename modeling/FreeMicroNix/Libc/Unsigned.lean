/-
  The unsigned converters, and the way back.

  `libc/stdlib/u64toa.c` is the text of `uitoa.c` with an `unsigned long long`: both are `utoa`, of
  values of different widths.  `IsUnsigned base min n s` says what a numeral is, and names no
  program: as many characters as `n` has digits and `min` asks for, each a digit of the base, of
  positional value `n`.  The padding does not change the value (`positional_zeros`).

  Back from decimal the way is `atoi`, on digits modulo 2^32 (`parsed_digits`), and padding does not
  matter there either.
-/
import FreeMicroNix.Libc.Atoi
import FreeMicroNix.Libc.Uitoa

namespace FreeMicroNix.Libc

open PartialMemory

/-- `u64toa` -/
def u64toa (h : Heap CChar) (buf : Uint32) (val : Uint64) (base min : Int) :
    Option (Heap CChar × Uint32) :=
  utoa h buf val.toNat base min

/-! ## Numerals -/

/-- The number of digits, one for zero. -/
def digitCount (base n : Nat) : Nat := max 1 (Nat.digits base n).length

/-- The room a numeral takes, with its terminator. -/
def roomFor (base min : Int) (n : Nat) : Nat := max min.toNat (digitCount base.toNat n) + 1

/-- `s` is a numeral of `n`, padded to the length `min`. -/
structure IsUnsigned (base min : Int) (n : Nat) (s : CString) : Prop where
  length : (s.length : Int) = max min (digitCount base.toNat n)
  digits : ∀ c ∈ s, c ∈ (str "0123456789ABCDEF").take base.toNat
  value : positional base.toNat s = n

theorem length_digitsUp (base n : Nat) : (digitsUp base n).length = digitCount base n := by
  unfold digitsUp digitCount
  by_cases hn : n = 0
  · rw [if_pos hn, hn, Nat.digits_zero]
    rfl
  · have hpos := List.length_pos_of_ne_nil (Nat.digits_ne_nil_iff_ne_zero (b := base).mpr hn)
    rw [if_neg hn]
    omega

theorem itoaDigit_mem {base d : Nat} (hmost : base ≤ 16) (hd : d < base) :
    itoaDigit d ∈ (str "0123456789ABCDEF").take base := by
  have hdigit : (str "0123456789ABCDEF")[d]? = some (itoaDigit d) := num_getElem? (by omega)
  exact List.mem_of_getElem? ((List.getElem?_take_of_lt hd).trans hdigit)

/-- Zeros in front do not count. -/
theorem positional_zeros (base k : Nat) (s : CString) :
    positional base (List.replicate k (ch '0') ++ s) = positional base s := by
  induction k with
  | zero => rfl
  | succ k ih =>
    rw [← ih, List.replicate_succ, List.cons_append]
    show List.foldl _ (base * 0 + digitValue (ch '0')) _ = _
    rfl

/-- **The numeral the converters write.** -/
theorem utoaNumeral_isUnsigned {base : Int} (hbase : 2 ≤ base) (hmost : base ≤ 16) (n : Nat)
    (min : Int) : IsUnsigned base min n (utoaNumeral n base min) where
  length := by
    have hone : 1 ≤ digitCount base.toNat n := Nat.le_max_left _ _
    rw [length_utoaNumeral, length_digitsUp]
    omega
  digits c hc := by
    rcases List.mem_append.mp hc with hpad | hdigit
    · rw [List.eq_of_mem_replicate hpad]
      exact itoaDigit_mem (d := 0) (by omega) (by omega)
    · obtain ⟨d, hd, rfl⟩ := List.mem_map.mp (List.mem_reverse.mp hdigit)
      exact itoaDigit_mem (by omega) (digitsUp_lt (by omega) hd)
  value := by
    rw [utoaNumeral, positional_zeros]
    exact positional_digitsUp (by omega) (by omega) n

/-! ## The converters -/

section Converters

variable {h : Heap CChar} {buf : Uint32} {base min : Int}

/-- A converter has written a numeral of `n` into its buffer, with a terminator and nothing else,
    and returned the buffer. -/
def Writes (h : Heap CChar) (buf : Uint32) (base min : Int) (n : Nat)
    (result : Option (Heap CChar × Uint32)) : Prop :=
  ∃ h' s, result = some (h', buf) ∧ IsString h' buf s ∧ IsUnsigned base min n s ∧
    ∀ a, ¬ Within buf (s.length + 1) a → h' a = h a

theorem utoa_writes (hbase : 2 ≤ base) (hmost : base ≤ 16) {n : Nat}
    (hroom : Object h buf (roomFor base min n)) :
    Writes h buf base min n (utoa h buf n base min) := by
  have hlength : (utoaNumeral n base min).length + 1 = roomFor base min n := by
    rw [length_utoaNumeral, length_digitsUp, roomFor]
    omega
  have hmapped := hroom.mapped
  have hfits := hroom.fits
  rw [← hlength] at hmapped hfits
  refine ⟨_, _, utoa_eq hbase hmost hmapped hroom.nonnull (by omega),
    terminated_lay h (fun c hc => utoaNumeral_ne_zero hbase hmost hc) hroom.nonnull (by omega),
    utoaNumeral_isUnsigned hbase hmost n min, fun a ha => lay_outside h ?_⟩
  rw [List.length_append]
  exact ha

/-- With any other base it writes the empty string. -/
theorem utoa_other (hbase : base < 2 ∨ 16 < base) (hroom : Object h buf 1) (n : Nat) :
    utoa h buf n base min = some (lay h buf ([] ++ [0]), buf) := by
  rw [utoa, dif_pos hbase,
    bind_of_eq_some (write_within hroom.mapped (within_self buf Nat.one_pos) 0), List.nil_append,
    lay_singleton]

/-- **The unsigned converters.** -/
theorem unsigned_converters (h : Heap CChar) (buf : Uint32) (base min : Int) :
    (2 ≤ base → base ≤ 16 →
      (∀ val : Uint64, Object h buf (roomFor base min val.toNat) →
        Writes h buf base min val.toNat (u64toa h buf val base min)) ∧
      ∀ val : Uint32, Object h buf (roomFor base min val.toNat) →
        Writes h buf base min val.toNat (uitoa h buf val base min)) ∧
    (base < 2 ∨ 16 < base → Object h buf 1 → ∃ h', IsString h' buf [] ∧
      (∀ a, a ≠ buf → h' a = h a) ∧
      (∀ val : Uint64, u64toa h buf val base min = some (h', buf)) ∧
      ∀ val : Uint32, uitoa h buf val base min = some (h', buf)) ∧
    ∀ val : Uint32, uitoa h buf val base min = u64toa h buf (val.setWidth 64) base min := by
  refine ⟨fun hbase hmost => ⟨fun val hroom => utoa_writes hbase hmost hroom,
    fun val hroom => utoa_writes hbase hmost hroom⟩, fun hbase hroom => ?_, fun val => ?_⟩
  · refine ⟨_, terminated_lay h (fun c hc => absurd hc List.not_mem_nil) hroom.nonnull ?_,
      fun a ha => ?_, fun val => utoa_other hbase hroom _, fun val => utoa_other hbase hroom _⟩
    · exact buf.isLt
    · rw [List.nil_append, lay_singleton, Function.update_of_ne ha]
  · have hwide : (val.setWidth 64).toNat = val.toNat := by
      rw [BitVec.toNat_setWidth, Nat.mod_eq_of_lt (by omega)]
    rw [uitoa, u64toa, hwide]

end Converters

/-- 255 in hexadecimal, with four characters at least. -/
theorem unsigned_converters_255 :
    Writes elevenBytes 0x1000 16 4 255 (u64toa elevenBytes 0x1000 255 16 4) ∧
      Writes elevenBytes 0x1000 16 4 255 (uitoa elevenBytes 0x1000 255 16 4) := by
  have hroom : Object elevenBytes 0x1000 (roomFor 16 4 255) :=
    ⟨elevenBytes_mapped.mono (by decide +kernel), by decide, by decide +kernel⟩
  have hboth := (unsigned_converters elevenBytes 0x1000 16 4).1 (by decide) (by decide)
  exact ⟨hboth.1 255 hroom, hboth.2 255 hroom⟩

/-! ## Reading decimal digits -/

/-- **`atoi` on digits**: any number of them, modulo 2^32; so it reads back what `uitoa` writes in
    decimal, with any padding. -/
theorem atoi_decimal :
    (∀ (h : Heap CChar) (p : Uint32) (s : CString), (∀ c ∈ s, ch '0' ≤ c ∧ c ≤ ch '9') →
      Cells h p (s ++ [0]) → s.length < 2 ^ 32 →
      atoi h p = some (BitVec.ofNat 32 (positional 10 s))) ∧
    ∀ (h : Heap CChar) (buf v : Uint32) (min : Int), Object h buf (roomFor 10 min v.toNat) →
      ∃ h', uitoa h buf v 10 min = some (h', buf) ∧ atoi h' buf = some v := by
  have hdigits : ∀ c ∈ (str "0123456789ABCDEF").take 10, ch '0' ≤ c ∧ c ≤ ch '9' := by decide
  constructor
  · intro h p s hs hcells hlen
    have hne : ∀ c ∈ s, c ≠ 0 := by
      rintro c hc rfl
      exact absurd (hs 0 hc).1 (by decide)
    rw [atoi_cells hne hcells hlen, parsed_digits hs]
  · intro h buf v min hroom
    obtain ⟨h', s, hwritten, hstring, hs, -⟩ := utoa_writes (by decide) (by decide) hroom
    have hvalue : positional 10 s = v.toNat := hs.value
    refine ⟨h', hwritten, ?_⟩
    rw [atoi_eq hstring, parsed_digits fun c hc => hdigits c (hs.digits c hc), hvalue,
      BitVec.ofNat_toNat, BitVec.setWidth_eq]

/-- Digits beyond 2^32, and a padded number. -/
theorem atoi_decimal_4294967301 :
    atoi (textAt (str "004294967301")) 0x1000 = some 5 ∧
      ∃ h', uitoa elevenBytes 0x1000 5 10 3 = some (h', 0x1000) ∧ atoi h' 0x1000 = some 5 := by
  have hvalue : BitVec.ofNat 32 (positional 10 (str "004294967301")) = 5 := by decide +kernel
  have hroom : Object elevenBytes 0x1000 (roomFor 10 3 (5 : Uint32).toNat) :=
    ⟨elevenBytes_mapped.mono (by decide +kernel), by decide, by decide +kernel⟩
  refine ⟨?_, atoi_decimal.2 elevenBytes 0x1000 5 3 hroom⟩
  rw [← hvalue]
  exact atoi_decimal.1 _ _ _ (by decide) (by decide) (by decide)

end FreeMicroNix.Libc
