/-
  The machine types of the kernel: `stdint.h` on the i686 target, plain `char`, and C strings.

  The integer types are bit vectors, so that every value is in range and the arithmetic wraps as
  the target's does.  Plain `char` is a SIGNED 8-bit type there: where the code promotes a
  character to `int`, the model sign-extends it.

  A C string is the list of the bytes its pointer leads to; the terminator is the first zero
  byte, or the end of the list.  `strlen` is the loop of `libc/string/strlen.c` on that list.
-/
import Mathlib.Algebra.GroupWithZero.Nat
import Mathlib.Data.List.Basic
import Mathlib.Data.List.TakeWhile
import Mathlib.Tactic.Common

namespace FreeMicroNix

abbrev Uint8 := BitVec 8
abbrev Uint16 := BitVec 16
abbrev Uint32 := BitVec 32
abbrev Uint64 := BitVec 64

/-- The lines of a chip and the bytes of a table entry are numbered by `Fin 8`. -/
instance neZero_eight : NeZero 8 := ⟨by decide⟩

/-- Two bytes as a word. -/
def word (hi lo : Uint8) : Uint16 := hi ++ lo

/-- Two words as a double word. -/
def dword (hi lo : Uint16) : Uint32 := hi ++ lo

theorem getLsbD_word (hi lo : Uint8) (i : Nat) :
    (word hi lo).getLsbD i = if i < 8 then lo.getLsbD i else hi.getLsbD (i - 8) := by
  show (hi ++ lo : BitVec (8 + 8)).getLsbD i = _
  rw [BitVec.getLsbD_append]

theorem getLsbD_dword (hi lo : Uint16) (i : Nat) :
    (dword hi lo).getLsbD i = if i < 16 then lo.getLsbD i else hi.getLsbD (i - 16) := by
  show (hi ++ lo : BitVec (16 + 16)).getLsbD i = _
  rw [BitVec.getLsbD_append]

theorem word_low (hi lo : Uint8) : (word hi lo).extractLsb' 0 8 = lo := by
  apply BitVec.eq_of_getLsbD_eq
  intro i h
  simp [getLsbD_word, h]

/-- A word is its two bytes. -/
theorem word_bytes (w : Uint16) : word (w.extractLsb' 8 8) (w.extractLsb' 0 8) = w := by
  apply BitVec.eq_of_getLsbD_eq
  intro i hi
  rw [getLsbD_word]
  by_cases hlow : i < 8
  · simp [hlow]
  · have hsub : i - 8 < 8 := by omega
    have hsum : 8 + (i - 8) = i := by omega
    simp [hlow, hsub, hsum]

/-- A double word is its two words. -/
theorem dword_words (w : Uint32) : dword (w.extractLsb' 16 16) (w.extractLsb' 0 16) = w := by
  apply BitVec.eq_of_getLsbD_eq
  intro i hi
  rw [getLsbD_dword]
  by_cases hlow : i < 16
  · simp [hlow]
  · have hsub : i - 16 < 16 := by omega
    have hsum : 16 + (i - 16) = i := by omega
    simp [hlow, hsub, hsum]

/-- Shifting right by `s` and masking `w` bits out takes the `w` bits from bit `s` on. -/
theorem masked_field (x : Uint32) (s w : Nat) (hw : w ≤ 32) :
    ((x >>> s) &&& BitVec.ofNat 32 (2 ^ w - 1)).setWidth w = x.extractLsb' s w := by
  apply BitVec.eq_of_getLsbD_eq
  intro i hi
  have hmask : (BitVec.ofNat 32 (2 ^ w - 1)).getLsbD i = true := by
    rw [BitVec.getLsbD_ofNat, Nat.testBit_two_pow_sub_one]
    simp only [Bool.and_eq_true, decide_eq_true_eq]
    omega
  rw [BitVec.getLsbD_setWidth, BitVec.getLsbD_and, hmask, BitVec.getLsbD_ushiftRight,
    BitVec.getLsbD_extractLsb', Bool.and_true]

/-- The same without a shift. -/
theorem masked_low (x : Uint32) (w : Nat) (hw : w ≤ 32) :
    (x &&& BitVec.ofNat 32 (2 ^ w - 1)).setWidth w = x.extractLsb' 0 w := by
  have hfield := masked_field x 0 w hw
  rw [BitVec.ushiftRight_zero] at hfield
  exact hfield

/-- The low bits are a field. -/
theorem extractLsb'_setWidth {n k : Nat} (x : BitVec n) (s w : Nat) (h : s + w ≤ k) :
    (x.setWidth k).extractLsb' s w = x.extractLsb' s w := by
  apply BitVec.eq_of_getLsbD_eq
  intro i hi
  have hk : s + i < k := by omega
  rw [BitVec.getLsbD_extractLsb', BitVec.getLsbD_extractLsb', BitVec.getLsbD_setWidth]
  simp only [hk, decide_true, Bool.true_and]

/-- A field of a field. -/
theorem extractLsb'_extractLsb' {n : Nat} (x : BitVec n) (s t k w : Nat) (h : t + w ≤ k) :
    (x.extractLsb' s k).extractLsb' t w = x.extractLsb' (s + t) w := by
  apply BitVec.eq_of_getLsbD_eq
  intro i hi
  have hk : t + i < k := by omega
  rw [BitVec.getLsbD_extractLsb', BitVec.getLsbD_extractLsb', BitVec.getLsbD_extractLsb']
  simp only [hk, hi, decide_true, Bool.true_and, Nat.add_assoc]

/-- Plain `char`, as its 8 bits. -/
abbrev CChar := BitVec 8

/-- The bytes of a string, up to its terminator. -/
abbrev CString := List CChar

/-- The character constant `'c'`. -/
def ch (c : Char) : CChar := BitVec.ofNat 8 c.toNat

/-- The string literal `"s"`. -/
def str (s : String) : CString := s.toList.map ch

/-- `for (i = 0; s[i] != '\0'; i++) ;` — a `size_t` cannot overflow here, an object being
    smaller than the address space. -/
def strlen : CString → Nat
  | [] => 0
  | c :: s => if c ≠ 0 then strlen s + 1 else 0

/-- A string without an inner terminator ends where its list does. -/
theorem strlen_eq_length : ∀ {s : CString}, (∀ c ∈ s, c ≠ 0) → strlen s = s.length
  | [], _ => rfl
  | c :: s, h => by
      have htail := strlen_eq_length (fun d hd => h d (List.mem_cons_of_mem c hd))
      rw [strlen, if_pos (h c List.mem_cons_self), htail, List.length_cons]

theorem strlen_le_length : ∀ s : CString, strlen s ≤ s.length
  | [] => Nat.le_refl 0
  | c :: s => by
      have htail := strlen_le_length s
      rw [strlen, List.length_cons]
      split <;> omega

/-- The characters `strlen` counts are those before the first zero byte. -/
theorem take_strlen : ∀ s : CString, s.take (strlen s) = s.takeWhile (· ≠ 0)
  | [] => rfl
  | c :: s => by
      by_cases hc : c = 0
      · simp [strlen, hc]
      · rw [strlen, if_pos hc, List.take_succ_cons, take_strlen s,
          List.takeWhile_cons_of_pos (by simpa using hc)]

/-- Nor is such a string cut at a terminator. -/
theorem takeWhile_whole {s : CString} (hs : ∀ c ∈ s, c ≠ 0) : s.takeWhile (· ≠ 0) = s :=
  List.takeWhile_eq_self_iff.mpr fun c hc => by simpa using hs c hc

/-! ## The printing characters -/

/-- Printable ASCII: a space up to a tilde. -/
def Printable (c : CChar) : Prop := ch ' ' ≤ c ∧ c ≤ ch '~'

instance (c : CChar) : Decidable (Printable c) := inferInstanceAs (Decidable (_ ∧ _))

/-- The alphabet of plain text: printable characters and newlines. -/
def Plain (c : CChar) : Prop := Printable c ∨ c = ch '\n'

instance (c : CChar) : Decidable (Plain c) := inferInstanceAs (Decidable (_ ∨ _))

/-- No character below the space is printable: in particular no terminator and no control. -/
theorem Printable.ne {c d : CChar} (h : Printable c) (hd : d < ch ' ') : c ≠ d := by
  rintro rfl
  exact absurd h.1 (by simpa using hd)

theorem Printable.plain {c : CChar} (h : Printable c) : Plain c := Or.inl h

theorem Plain.ne_zero {c : CChar} (h : Plain c) : c ≠ 0 := by
  rcases h with h | rfl
  · exact h.ne (by decide)
  · decide

end FreeMicroNix
