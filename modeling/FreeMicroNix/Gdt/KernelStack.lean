/-
  The kernel stack of an interrupt from user mode.

  `tss_set_kernel_stack` writes the stack into `tss_entry`; the processor reads it from the segment
  its task register names.  `Initialize_GDT` gives that segment the base 0 and not the address of
  `tss_entry`, so the two meet only when the segment is linked at address 0
  (`kernel_stack_used_iff`).  Everywhere else the stack is read from other memory, or from other
  fields of the segment, and the last part of the file shows that no placement makes up for it.
-/
import FreeMicroNix.Gdt.Table
import FreeMicroNix.Lib.WordStack

namespace FreeMicroNix

open WordStack

/-! ## What the processor loads -/

/-- The stack of ring 0 as a transition from ring 3 loads it: `ss0` at offset 8 and `esp0` at
    offset 4 of the segment in the task register, if they lie within its limit. -/
def Gdt.ring0Stack (g : Gdt) (mem : Memory) : Option (Uint16 × Uint32) :=
  if 9 ≤ g.tr.limit then
    some (word (mem (g.tr.base + 9)) (mem (g.tr.base + 8)), read32 mem (g.tr.base + 4))
  else none

/-- The segment after `tss_setup` and calls of `tss_set_kernel_stack`, the last with `stack`. -/
def tssWithStack (stack : Uint32) : TssEntry := { tssSetup with esp0 := stack }

/-- Only the last of the calls counts. -/
theorem setKernelStacks_tss {g : Gdt} (h : g.tssEntry = tssSetup) (esps : List Uint32)
    (last : Uint32) :
    ((esps ++ [last]).foldl tssSetKernelStack g).tssEntry = tssWithStack last := by
  have hothers : ∀ (esps : List Uint32) (g : Gdt) (e : Uint32),
      { (esps.foldl tssSetKernelStack g).tssEntry with esp0 := e }
        = { g.tssEntry with esp0 := e } := by
    intro esps
    induction esps with
    | nil => intro g e; rfl
    | cons stack esps ih => intro g e; exact ih (tssSetKernelStack g stack) e
  rw [List.foldl_append, List.foldl_cons, List.foldl_nil, tssWithStack, ← h]
  exact hothers esps g last

/-- The task register is not theirs to write. -/
theorem setKernelStacks_tr (g : Gdt) (esps : List Uint32) :
    (esps.foldl tssSetKernelStack g).tr = g.tr := by
  induction esps generalizing g with
  | nil => rfl
  | cons stack esps ih => exact ih (tssSetKernelStack g stack)

/-- With the base 0 the stack is read at the addresses 4 and 8. -/
theorem Installed.ring0Stack {g : Gdt} (h : Installed g) (esps : List Uint32) (mem : Memory) :
    (esps.foldl tssSetKernelStack g).ring0Stack mem
      = some (word (mem 9) (mem 8), read32 mem 4) := by
  rw [Gdt.ring0Stack, setKernelStacks_tr, h.tr]
  rfl

/-! ## A segment at address 0 -/

/-- The words at the addresses 4 and 8 are then those of the segment. -/
theorem stack_at_zero {mem : Memory} {last : Uint32} (h : Holds mem 0 (tssWithStack last).words) :
    word (mem 9) (mem 8) = 0x10 ∧ read32 mem 4 = last := by
  have hesp : read32 mem 4 = last := h 1 last rfl
  have hss : read32 mem 8 = 0x10 := h 2 0x10 rfl
  obtain ⟨hlow, hhigh, -, -⟩ := read32_bytes mem 8
  rw [hss] at hlow hhigh
  refine ⟨?_, hesp⟩
  rw [← hlow, show (9 : Uint32) = 8 + 1 from rfl, ← hhigh]
  decide

/-! ## A segment anywhere else -/

/-- Byte `k` of the segment, and zero behind it. -/
def tssByte (last : Uint32) (k : Nat) : Uint8 :=
  ((tssWithStack last).words.getD (k / 4) 0).extractLsb' (8 * (k % 4)) 8

/-- The words behind `esp0`, which the stack does not change. -/
def tssTail : List Uint32 := tssSetup.words.drop 2

theorem tssWithStack_words (last : Uint32) : (tssWithStack last).words = 0 :: last :: tssTail := rfl

theorem tssByte_low (last : Uint32) {k : Nat} (hk : k < 4) : tssByte last k = 0 := by
  have hword : k / 4 = 0 := by omega
  rw [tssByte, hword, tssWithStack_words, List.getD_cons_zero]
  exact BitVec.extractLsb'_zero

/-- No byte behind `ss0`'s first is the low byte of the kernel's data selector. -/
theorem tssByte_ne (last : Uint32) {k : Nat} (hk : 8 < k) : tssByte last k ≠ 0x10 := by
  have htail : ∀ k < 104, 8 < k →
      (tssTail.getD (k / 4 - 2) 0).extractLsb' (8 * (k % 4)) 8 ≠ 0x10#8 := by decide
  have hword : (tssWithStack last).words.getD (k / 4) 0 = tssTail.getD (k / 4 - 2) 0 := by
    obtain ⟨j, hj⟩ : ∃ j, k / 4 = j + 2 := ⟨k / 4 - 2, by omega⟩
    rw [tssWithStack_words, hj, List.getD_cons_succ, List.getD_cons_succ, Nat.add_sub_cancel]
  rw [tssByte, hword]
  rcases Nat.lt_or_ge k 104 with hin | hout
  · exact htail k hin hk
  · have hend : tssTail.length ≤ k / 4 - 2 := by
      show 24 ≤ k / 4 - 2
      omega
    rw [List.getD_eq_getElem?_getD, List.getElem?_eq_none hend, Option.getD_none,
      show BitVec.extractLsb' _ 8 (0 : Uint32) = 0 from BitVec.extractLsb'_zero]
    decide

theorem holds_tss (address last : Uint32) :
    Holds (layout address (tssWithStack last).words) address (tssWithStack last).words :=
  holds_layout address (Nat.le_of_ble_eq_true rfl)

/-- **No other address serves.**  At any address but 0 there is a memory that holds the segment and
    from which another stack is read: where byte 8 falls into the segment it is a byte of `esp0`,
    and reading the stack from address 4 then makes that byte one of the zeros before it. -/
theorem stack_elsewhere {address : Uint32} (h : address ≠ 0) (last : Uint32) :
    ¬ (word (layout address (tssWithStack last).words 9)
          (layout address (tssWithStack last).words 8) = 0x10 ∧
        read32 (layout address (tssWithStack last).words) 4 = last) := by
  rintro ⟨hss, hesp⟩
  have hbyte : ∀ x, layout address (tssWithStack last).words x
      = tssByte last (x - address).toNat := fun _ => rfl
  -- the low byte of the selector, at address 8
  have hlow : tssByte last (8 - address).toNat = 0x10 := by
    have hlow := congrArg (BitVec.extractLsb' 0 8) hss
    rw [word_low, hbyte] at hlow
    exact hlow
  obtain ⟨h0, h1, h2, h3⟩ := read32_bytes (layout address (tssWithStack last).words) 4
  rw [hesp, hbyte] at h0 h1 h2 h3
  -- so byte 8 is a byte of `esp0`, and the address is 1, 2, 3 or 4
  have hnear : 4 ≤ (8 - address).toNat ∧ (8 - address).toNat < 8 := by
    constructor
    · by_contra hlt
      rw [tssByte_low last (by omega)] at hlow
      exact absurd hlow (by decide)
    · by_contra hge
      have hne : (8 - address).toNat ≠ 8 := by bv_omega
      exact tssByte_ne last (by omega) hlow
  have haddress : address = 1 ∨ address = 2 ∨ address = 3 ∨ address = 4 := by bv_omega
  rcases haddress with rfl | rfl | rfl | rfl
  · -- each byte of `esp0` is read one place lower, the first from `prev_tss`
    change last.extractLsb' 24 8 = 0x10 at hlow
    rw [tssByte_low last (show (4 - 1 : Uint32).toNat < 4 by decide)] at h0
    change last.extractLsb' 8 8 = last.extractLsb' 0 8 at h1
    change last.extractLsb' 16 8 = last.extractLsb' 8 8 at h2
    change last.extractLsb' 24 8 = last.extractLsb' 16 8 at h3
    rw [h3, h2, h1, h0] at hlow
    exact absurd hlow (by decide)
  · change last.extractLsb' 16 8 = 0x10 at hlow
    rw [tssByte_low last (show (4 - 2 : Uint32).toNat < 4 by decide)] at h0
    change last.extractLsb' 16 8 = last.extractLsb' 0 8 at h2
    rw [h2, h0] at hlow
    exact absurd hlow (by decide)
  · change last.extractLsb' 8 8 = 0x10 at hlow
    rw [tssByte_low last (show (4 + 1 - 3 : Uint32).toNat < 4 by decide)] at h1
    rw [h1] at hlow
    exact absurd hlow (by decide)
  · change last.extractLsb' 0 8 = 0x10 at hlow
    rw [tssByte_low last (show (4 - 4 : Uint32).toNat < 4 by decide)] at h0
    rw [h0] at hlow
    exact absurd hlow (by decide)

/-- **The kernel stack, exactly.**  After `Initialize_GDT` and any calls of `tss_set_kernel_stack`,
    whatever lies around the segment, a transition to ring 0 loads the last stack set if and only
    if the segment is linked at address 0. -/
theorem kernel_stack_used_iff (g : Gdt) (t : Terminal) (address : Uint32) (esps : List Uint32)
    (last : Uint32) :
    ∃ g' t', initializeGdt g t = some (g', t') ∧
      ((∀ mem, Holds mem address ((esps ++ [last]).foldl tssSetKernelStack g').tssEntry.words →
          ((esps ++ [last]).foldl tssSetKernelStack g').ring0Stack mem = some (0x10, last)) ↔
        address = 0) := by
  obtain ⟨g', t', hrun, hinstalled⟩ := initializeGdt_installed g t
  refine ⟨g', t', hrun, ?_⟩
  simp only [hinstalled.ring0Stack, setKernelStacks_tss hinstalled.tss, Option.some.injEq,
    Prod.mk.injEq]
  constructor
  · intro hall
    by_contra hne
    exact stack_elsewhere hne last (hall _ (holds_tss address last))
  · rintro rfl mem hmem
    exact stack_at_zero hmem

/-- The globals before `Initialize_GDT`: zeroed, the table linked in the kernel's data. -/
def coldGdt : Gdt where
  address := 0xC0109100
  entries := fun _ => ⟨0, 0, 0, 0, 0, 0⟩
  gp := ⟨0, 0⟩
  tssEntry := ⟨0, 0, 0, 0, 0, 0, 0, 0, 0, 0, 0, 0, 0, 0, 0, 0, 0, 0, 0, 0, 0, 0, 0, 0, 0, 0, 0⟩
  gdtr := ⟨0, 0⟩
  tr := ⟨0, 0, 0⟩

/-- A segment linked in the kernel's data, and one call. -/
theorem kernel_stack_lost :
    ¬ ∀ g' t' mem, initializeGdt coldGdt coldTerminal = some (g', t') →
      Holds mem 0xC0109000#32 ([0xC0108000#32].foldl tssSetKernelStack g').tssEntry.words →
      ([0xC0108000#32].foldl tssSetKernelStack g').ring0Stack mem
        = some (0x10, 0xC0108000#32) := by
  intro hall
  obtain ⟨g', t', hrun, hinstalled⟩ := initializeGdt_installed coldGdt coldTerminal
  have htss := setKernelStacks_tss hinstalled.tss [] 0xC0108000#32
  have hread := hinstalled.ring0Stack ([] ++ [0xC0108000#32])
  rw [List.nil_append] at htss hread
  have hmem := holds_tss 0xC0109000#32 0xC0108000#32
  have hstack := hall g' t' _ hrun (by rw [htss]; exact hmem)
  rw [hread, Option.some.injEq, Prod.mk.injEq] at hstack
  exact stack_elsewhere (by decide) _ hstack

end FreeMicroNix
