/-
  Translation through a page directory of 4 MiB pages, as the loader sets it up.

  `translate` is the processor's walk with CR4.PSE set: the top ten bits of the address pick an
  entry, and a present entry with the PS bit maps four megabytes.  The loader defines no page
  tables, so an entry without PS leads nowhere here.  `pageDirectory` is the table of `loader.asm`;
  `translate_pageDirectory` and `translate_cleared` say what it maps, before and after its first
  entry is gone.
-/
import FreeMicroNix.Types
import Mathlib.Logic.Function.Basic

namespace FreeMicroNix

/-! ## Translation -/

/-- A page directory: 1024 entries. -/
abbrev PageDirectory := BitVec 10 → Uint32

/-- The entry of an address. -/
def pageNumber (va : Uint32) : BitVec 10 := va.extractLsb' 22 10

/-- The physical address of a virtual one, if it is mapped. -/
def translate (d : PageDirectory) (va : Uint32) : Option Uint32 :=
  let entry := d (pageNumber va)
  if entry.getLsbD 0 ∧ entry.getLsbD 7 then
    some (entry.extractLsb' 22 10 ++ va.extractLsb' 0 22 : BitVec (10 + 22))
  else none

/-- `K_OFFSET_ADDR` -/
def kOffsetAddr : Uint32 := 0xC0000000

/-- `K_PAGE_NUMBER` -/
def kPageNumber : Nat := (kOffsetAddr >>> 22).toNat

/-- `_pageDirectory`, entry by entry as in the source. -/
def pageDirectoryTable : List Uint32 :=
  [0x00000083] ++ List.replicate (kPageNumber - 1) 0 ++
    [0x00000083] ++ List.replicate (1024 - kPageNumber - 1) 0

def pageDirectory : PageDirectory := fun k => pageDirectoryTable.getD k.toNat 0

/-- The directory after entry 0 is cleared. -/
def cleared : PageDirectory := Function.update pageDirectory 0 0

/-! ## What the directory maps -/

/-- Two entries map, and they map the same page. -/
theorem pageDirectory_eq (k : BitVec 10) :
    pageDirectory k = if k.toNat = 0 ∨ k.toNat = 768 then 0x83 else 0 := by
  have hnumber : kPageNumber = 768 := by decide
  unfold pageDirectory pageDirectoryTable
  rw [hnumber, List.append_assoc, List.append_assoc, List.getD_eq_getElem?_getD]
  generalize k.toNat = n
  simp only [List.getElem?_append, List.length_singleton, List.length_replicate,
    List.getElem?_replicate]
  have hcases : n = 0 ∨ 0 < n ∧ n < 768 ∨ n = 768 ∨ 768 < n := by omega
  rcases hcases with rfl | ⟨hpos, hlt⟩ | rfl | hlt
  · rfl
  · rw [if_neg (by omega), if_pos (by omega), if_pos (by omega), if_neg (by omega)]
    rfl
  · rfl
  · have hzero : ¬ (n = 0 ∨ n = 768) := by omega
    rw [if_neg (by omega), if_neg (by omega), if_neg (by omega), if_neg hzero]
    split <;> rfl

/-- The low four megabytes. -/
def Low (va : Uint32) : Prop := va.toNat < 0x400000

instance (va : Uint32) : Decidable (Low va) := inferInstanceAs (Decidable (_ < _))

/-- The four megabytes of the kernel's page. -/
def High (va : Uint32) : Prop := 0xC0000000 ≤ va.toNat ∧ va.toNat < 0xC0400000

theorem toNat_pageNumber (va : Uint32) : (pageNumber va).toNat = va.toNat / 0x400000 := by
  have hva := va.isLt
  unfold pageNumber
  rw [BitVec.extractLsb'_toNat, Nat.shiftRight_eq_div_pow]
  omega

theorem Low.pageNumber {va : Uint32} (h : Low va) : pageNumber va = 0 := by
  apply BitVec.eq_of_toNat_eq
  rw [toNat_pageNumber]
  exact Nat.div_eq_of_lt h

theorem High.pageNumber {va : Uint32} (h : High va) : FreeMicroNix.pageNumber va = 768 := by
  obtain ⟨hlo, hhi⟩ := h
  apply BitVec.eq_of_toNat_eq
  rw [toNat_pageNumber]
  show va.toNat / 0x400000 = 768
  omega

/-- An address of a page that is not mapped. -/
theorem translate_absent {d : PageDirectory} {va : Uint32} (h : d (pageNumber va) = 0) :
    translate d va = none := by
  unfold translate
  rw [h]
  exact if_neg (by decide)

/-- An address of a page mapped to the low four megabytes. -/
theorem translate_mapped {d : PageDirectory} {va pa : Uint32} (h : d (pageNumber va) = 0x83)
    (hpa : pa.toNat = va.toNat % 0x400000) : translate d va = some pa := by
  have happend :
      ((0x83#32).extractLsb' 22 10 ++ va.extractLsb' 0 22 : BitVec (10 + 22)) = pa := by
    apply BitVec.eq_of_toNat_eq
    have hva := va.isLt
    rw [BitVec.toNat_append, BitVec.extractLsb'_toNat, BitVec.extractLsb'_toNat, hpa]
    simp
  unfold translate
  rw [h]
  exact (if_pos (by decide)).trans (congrArg some happend)

/-- **The loader's directory**: the low four megabytes at their own addresses, and again at the top
    of the kernel's half. -/
theorem translate_pageDirectory {va : Uint32} :
    (Low va → translate pageDirectory va = some va) ∧
      (High va → translate pageDirectory va = some (va - kOffsetAddr)) := by
  constructor
  · intro h
    apply translate_mapped
    · rw [h.pageNumber]
      rfl
    · exact (Nat.mod_eq_of_lt h).symm
  · intro h
    apply translate_mapped
    · rw [h.pageNumber, pageDirectory_eq]
      rfl
    · obtain ⟨hlo, hhi⟩ := h
      have hle : kOffsetAddr ≤ va := BitVec.le_def.mpr hlo
      rw [BitVec.toNat_sub_of_le hle]
      show va.toNat - 0xC0000000 = _
      omega

/-- **The directory without entry 0** maps the kernel's half as before, and nothing below it. -/
theorem translate_cleared {va : Uint32} :
    (High va → translate cleared va = some (va - kOffsetAddr)) ∧
      (va < kOffsetAddr → translate cleared va = none) := by
  constructor
  · intro h
    rw [← translate_pageDirectory.2 h]
    unfold translate cleared
    rw [Function.update_of_ne]
    rw [h.pageNumber]
    decide
  · intro h
    apply translate_absent
    unfold cleared
    by_cases hzero : pageNumber va = 0
    · rw [hzero, Function.update_self]
    · rw [Function.update_of_ne hzero, pageDirectory_eq, if_neg]
      rintro (hk | hk)
      · exact hzero (BitVec.eq_of_toNat_eq hk)
      · have hva : va.toNat / 0x400000 = 768 := by rw [← toNat_pageNumber, hk]
        have hlt : va.toNat < 0xC0000000 := BitVec.lt_def.mp h
        omega

end FreeMicroNix
