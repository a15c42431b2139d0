/-
  `strreverse` byte by byte, and called twice.

  `strreverse_eq` gives the heap it leaves as one list laid over the string.  Here that heap is
  read back:

  1. inside the string a byte is the one as far from the other end (`lay_reverse_inside`),
     whatever the parity of the length: the middle byte of an odd one is its own mirror image;
  2. the terminator is outside the laid list, so the result is a string again, of the reversed
     bytes (`isString_reverse`), and the function may be called on it;
  3. reversing these lays the first string where it was.
-/
import FreeMicroNix.Libc.Strreverse

namespace FreeMicroNix.Libc

open PartialMemory

section Reversal

variable {h : Heap CChar} {p : Uint32} {s : CString}

/-- The byte `i` of the reversed list is the byte `n - 1 - i` that was there. -/
theorem lay_reverse_inside (hs : Cells h p s) (hlen : s.length < 2 ^ 32) {i : Nat}
    (hi : i < s.length) :
    lay h p s.reverse (p + BitVec.ofNat 32 i) = h (p + BitVec.ofNat 32 (s.length - 1 - i)) := by
  have hin : i < s.reverse.length := by
    rw [List.length_reverse]
    exact hi
  have hmirror : s.length - 1 - i < s.length := by omega
  have hbyte := hs (s.length - 1 - i) _ (List.getElem?_eq_getElem hmirror)
  rw [lay_inside h p (by omega) hin, List.getElem?_reverse hi, List.getElem?_eq_getElem hmirror,
    hbyte]

/-- The terminator lies behind the bytes that are exchanged. -/
theorem terminator_outside (hlen : s.length < 2 ^ 32) :
    ¬ Within p s.reverse.length (p + BitVec.ofNat 32 s.length) := by
  rw [List.length_reverse, Within, add_ofNat_sub p hlen]
  exact Nat.lt_irrefl _

theorem terminator_kept (hs : IsString h p s) :
    lay h p s.reverse (p + BitVec.ofNat 32 s.length) = some 0 := by
  have hzero := (cells_append_iff.mp hs.cells).2
  rw [cells_singleton_iff] at hzero
  rw [lay_outside h (terminator_outside hs.length_lt), hzero]

/-- What `strreverse` leaves is a string. -/
theorem isString_reverse (hs : IsString h p s) : IsString (lay h p s.reverse) p s.reverse where
  ne c hc := hs.ne c (List.mem_reverse.mp hc)
  cells := by
    have hshort : s.reverse.length ≤ 2 ^ 32 := by
      rw [List.length_reverse]
      exact Nat.le_of_lt hs.length_lt
    rw [cells_append_iff, cells_singleton_iff, List.length_reverse]
    exact ⟨cells_lay h p hshort, terminator_kept hs⟩
  nonnull := hs.nonnull
  object := by
    rw [List.length_reverse]
    exact hs.object

/-- The reversed list laid, and then the list itself: the heap is as it was. -/
theorem lay_reverse_back (hs : IsString h p s) : lay (lay h p s.reverse) p s = h := by
  rw [lay_lay h p List.length_reverse, lay_of_cells (cells_append_iff.mp hs.cells).1]

end Reversal

/-- **Reversal in place.**  `strreverse` returns its argument; byte `i` of the string is the old
    byte `n - 1 - i`, the terminator and every byte outside the string are as before, and a second
    call restores the heap. -/
theorem strreverse_mirrors {h : Heap CChar} {p : Uint32} {s : CString} (hs : IsString h p s) :
    ∃ h', strreverse h p = some (h', p) ∧
      (∀ i < s.length,
        h' (p + BitVec.ofNat 32 i) = h (p + BitVec.ofNat 32 (s.length - 1 - i))) ∧
      h' (p + BitVec.ofNat 32 s.length) = some 0 ∧
      (∀ a, ¬ Within p s.length a → h' a = h a) ∧
      strreverse h' p = some (h, p) := by
  have hcells := (cells_append_iff.mp hs.cells).1
  refine ⟨lay h p s.reverse, strreverse_eq hs, ?_, terminator_kept hs, ?_, ?_⟩
  · intro i hi
    exact lay_reverse_inside hcells hs.length_lt hi
  · intro a ha
    exact lay_outside h (by rw [List.length_reverse]; exact ha)
  · rw [strreverse_eq (isString_reverse hs), List.reverse_reverse, lay_reverse_back hs]

/-- Three bytes, one of them negative, in an object with nothing around it. -/
def threeBytes : Heap CChar := lay (fun _ => none) 0x1000 ([ch 'a', 0x80, ch 'c'] ++ [0])

theorem strreverse_mirrors_three :
    ∃ h', strreverse threeBytes 0x1000 = some (h', 0x1000) ∧
      (∀ i < 3, h' (0x1000 + BitVec.ofNat 32 i)
        = threeBytes (0x1000 + BitVec.ofNat 32 (3 - 1 - i))) ∧
      h' (0x1000 + BitVec.ofNat 32 3) = some 0 ∧
      (∀ a, ¬ Within 0x1000 3 a → h' a = threeBytes a) ∧
      strreverse h' 0x1000 = some (threeBytes, 0x1000) :=
  strreverse_mirrors (s := [ch 'a', 0x80, ch 'c']) (by decide)

end FreeMicroNix.Libc
