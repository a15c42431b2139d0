/-
  `gdt_loader` and the segment registers it leaves.

  Behind its `lgdt` the routine loads `ds`, `es`, `ss` and `cs` from the new table.  The loads of
  `fs` and `gs` are commented out: the two keep what the boot loader had in them, selectors of a
  table that is gone.  C code never loads a segment register, but `IDT_ISR_Stub` does: it saves the
  four data segment registers, and at its end pops what it has saved — through the kernel's table.

  1. The checks of the processor, out of the descriptors of a table (`Gdt.dataOk` and the others).
  2. `gdtLoader_loads` — the routine goes through, whatever the boot loader left.
  3. `loadable` — the fourteen selectors that the table of `Initialize_GDT` lets into a data segment
     register in ring 0 (`Installed.dataOk_iff`).
  4. `Gdt.unaccessed` — no check looks at the accessed bits, and the pops of a stub set those of the
     user's segments at most (`Installed.loadSegment_unaccessed`).
  5. `Installed.comesBackIf` — an interrupt of kernel code comes back, or its return faults, as `fs`
     and `gs` hold two of these or not.
-/
import FreeMicroNix.Gdt.Table
import FreeMicroNix.Isa.ContextFidelity

namespace FreeMicroNix

open LastWrite WordStack

/-! ## What the processor checks -/

namespace Descriptor

/-- The readable bit of a code segment. -/
def readable (d : Descriptor) : Bool := d.access.getLsbD 1

/-- The conforming bit of a code segment. -/
def conforming (d : Descriptor) : Bool := d.isCode && d.access.getLsbD 2

/-- A data segment register takes it at a level, under a selector: a data or readable code segment
    that is present, and no more privileged than the two, unless conforming. -/
def takenAsData (d : Descriptor) (sel : Uint16) (level : BitVec 2) : Bool :=
  d.present && (d.isData || d.isCode && d.readable) &&
    (d.conforming || level ≤ d.dpl && rpl sel ≤ d.dpl)

/-- `ss` takes it. -/
def takenAsStack (d : Descriptor) (sel : Uint16) (level : BitVec 2) : Bool :=
  d.present && d.isData && d.writable && d.dpl = level && rpl sel = level

/-- A far jump takes it. -/
def takenByJump (d : Descriptor) (sel : Uint16) (level : BitVec 2) : Bool :=
  d.present && d.isCode &&
    (if d.conforming then d.dpl ≤ level else d.dpl = level && rpl sel ≤ level)

/-- `iret` takes it, to the level the selector asks for. -/
def takenByReturn (d : Descriptor) (sel : Uint16) : Bool :=
  d.present && d.isCode && (if d.conforming then d.dpl ≤ rpl sel else d.dpl = rpl sel)

end Descriptor

namespace Gdt

variable (g : Gdt)

/-- A data segment register may be loaded with null. -/
def dataOk (sel : Uint16) (level : BitVec 2) : Bool :=
  nullSelector sel || (g.descriptor sel).any fun d => d.takenAsData sel level

def stackOk (sel : Uint16) (level : BitVec 2) : Bool :=
  !nullSelector sel && (g.descriptor sel).any fun d => d.takenAsStack sel level

def jumpOk (sel : Uint16) (level : BitVec 2) : Bool :=
  !nullSelector sel && (g.descriptor sel).any fun d => d.takenByJump sel level

def returnOk (sel : Uint16) : Bool :=
  !nullSelector sel && (g.descriptor sel).any fun d => d.takenByReturn sel

/-- A processor with this table. -/
def platform (plat : Platform) : Platform :=
  { plat with dataOk := g.dataOk, stackOk := g.stackOk, codeOk := g.returnOk }

end Gdt

/-! ## `gdt_loader` -/

namespace Cpu

/-- `mov ss, ax` -/
def movSs (g : Gdt) (c : Cpu) : Option Cpu :=
  if g.stackOk (selector c.eax) c.ring then some { c with ss := selector c.eax } else none

/-- `jmp sel:target`, which stays at the current level. -/
def farJump (g : Gdt) (c : Cpu) (sel : Uint16) (target : Uint32) : Option Cpu :=
  if g.jumpOk sel c.ring then
    some { c with cs := sel &&& 0xFFFC ||| c.ring.setWidth 16, eip := target }
  else none

end Cpu

/-- `gdt_loader` behind its `lgdt`. -/
def gdtLoader (g : Gdt) (plat : Platform) (flush : Uint32) (c : Cpu) : Option Cpu := do
  let c ← c.run (g.platform plat) [.movAx 0x10, .movSeg .ds, .movSeg .es]
  let c ← c.movSs g
  let c ← c.farJump g 0x08 flush
  -- .flush: ret
  some { c with eip := c.slot 0, esp := c.esp + 4 }

/-- What `gdt_loader` leaves: the kernel's segments but for `fs` and `gs`, the lower half of `eax`
    lost, and the return to its caller. -/
structure Reloaded (b c : Cpu) : Prop where
  registers : c.toRegisters = { b.toRegisters with
    eax := dword (b.eax.extractLsb' 16 16) 0x10
    cs := 0x08, ds := 0x10, es := 0x10, ss := 0x10
    eip := b.slot 0 }
  esp : c.esp = b.esp + 4
  mem : c.mem = b.mem

/-- Flat segments of the kernel in the slots 1 and 2, accessed or not: all that the routine needs. -/
structure KernelSlots (g : Gdt) : Prop where
  code : g.descriptor 0x08 = some ⟨0, 0xFFFFF, 0x9A, 0xC⟩ ∨
    g.descriptor 0x08 = some ⟨0, 0xFFFFF, 0x9B, 0xC⟩
  data : g.descriptor 0x10 = some ⟨0, 0xFFFFF, 0x92, 0xC⟩ ∨
    g.descriptor 0x10 = some ⟨0, 0xFFFFF, 0x93, 0xC⟩

section Loader

variable {g : Gdt}

theorem KernelSlots.dataOk (h : KernelSlots g) : g.dataOk 0x10 0 = true := by
  unfold Gdt.dataOk
  rcases h.data with hd | hd <;> rw [hd] <;> decide

theorem KernelSlots.stackOk (h : KernelSlots g) : g.stackOk 0x10 0 = true := by
  unfold Gdt.stackOk
  rcases h.data with hd | hd <;> rw [hd] <;> decide

theorem KernelSlots.jumpOk (h : KernelSlots g) : g.jumpOk 0x08 0 = true := by
  unfold Gdt.jumpOk
  rcases h.code with hd | hd <;> rw [hd] <;> decide

theorem KernelSlots.returnOk (h : KernelSlots g) : g.returnOk 0x08 = true := by
  unfold Gdt.returnOk
  rcases h.code with hd | hd <;> rw [hd] <;> decide

/-- When `gdt_loader` runs the segments of the kernel are there. -/
theorem gdtLoaded_kernelSlots (g : Gdt) : KernelSlots (gdtLoaded g) := by
  have hslot : ∀ sel d, lastWrite GdtRow.writes gdtRows (slotOf sel) = some d →
      sel.getLsbD 2 = false → 8 * (slotOf sel).toNat + 7 ≤ 47 →
      (gdtLoaded g).descriptor sel = some d := by
    intro sel d hlast hti hlimit
    have hd : (gdtLoaded g).slot (slotOf sel) = d := by
      rw [gdtLoaded_slot, hlast]
      rfl
    rw [← hd]
    exact if_pos ⟨rfl, hti, hlimit⟩
  exact ⟨Or.inl (hslot 0x08 _ (by decide) (by decide) (by decide)),
    Or.inl (hslot 0x10 _ (by decide) (by decide) (by decide))⟩

/-- They stay. -/
theorem Installed.kernelSlots (h : Installed g) : KernelSlots g :=
  ⟨Or.inr (h.descriptor (by decide)), Or.inr (h.descriptor (by decide))⟩

/-- **`gdt_loader`** goes through in ring 0, whatever selectors it finds. -/
theorem gdtLoader_loads (h : KernelSlots g) (plat : Platform) (flush : Uint32) {b : Cpu}
    (hring : b.ring = 0) : ∃ c, gdtLoader g plat flush b = some c ∧ Reloaded b c := by
  let c₁ : Cpu := { b with eax := dword (b.eax.extractLsb' 16 16) 0x10 }
  have heax : selector c₁.eax = 0x10 := Cpu.selector_dword _ _
  have hdata : ∀ (c : Cpu) (r : SegReg), selector c.eax = 0x10 → c.ring = 0 →
      Instr.exec (g.platform plat) c (.movSeg r) = some (c.setSeg 0x10 r) := by
    intro c r heax' hring'
    show c.loadSeg (g.platform plat) r (selector c.eax) = _
    rw [heax']
    refine Cpu.loadSeg_of_ok r ?_
    rw [hring']
    exact h.dataOk
  let c₂ : Cpu := { c₁ with ds := 0x10, es := 0x10 }
  have hsegs : b.run (g.platform plat) [.movAx 0x10, .movSeg .ds, .movSeg .es] = some c₂ := by
    have hax : Instr.exec (g.platform plat) b (.movAx 0x10) = some c₁ := rfl
    rw [Cpu.run_cons_of hax, Cpu.run_cons_of (hdata c₁ .ds heax hring),
      Cpu.run_cons_of (hdata (c₁.setSeg 0x10 .ds) .es heax hring)]
    rfl
  let c₃ : Cpu := { c₂ with ss := 0x10 }
  have hstack : c₂.movSs g = some c₃ := by
    have heax₂ : selector c₂.eax = 0x10 := heax
    have hring₂ : c₂.ring = 0 := hring
    unfold Cpu.movSs
    rw [heax₂, hring₂]
    exact if_pos h.stackOk
  have hjump : c₃.farJump g 0x08 flush = some { c₃ with cs := 0x08, eip := flush } := by
    have hring₃ : c₃.ring = 0 := hring
    unfold Cpu.farJump
    rw [hring₃]
    exact if_pos h.jumpOk
  refine ⟨{ c₃ with cs := 0x08, eip := b.slot 0, esp := b.esp + 4 }, ?_, ⟨rfl, rfl, rfl⟩⟩
  unfold gdtLoader
  rw [hsegs]
  show (c₂.movSs g >>= _) = _
  rw [hstack]
  show (c₃.farJump g 0x08 flush >>= _) = _
  rw [hjump]
  rfl

end Loader

/-! ## What the table lets into a data segment register -/

/-- Null, the kernel's segments, and those of user mode, which may be asked for at any level. -/
def loadable : List Uint16 :=
  [0x00, 0x01, 0x02, 0x03, 0x08, 0x10, 0x18, 0x19, 0x1A, 0x1B, 0x20, 0x21, 0x22, 0x23]

theorem loadable_inside {sel : Uint16} (h : sel ∈ loadable) :
    sel.getLsbD 2 = false ∧ sel.toNat < 48 := by
  have hall : loadable.all (fun sel => sel.getLsbD 2 = false && sel.toNat < 48) = true := by decide
  simpa using List.all_eq_true.mp hall sel h

/-- The selectors of the table, one by one. -/
theorem loadable_table : ∀ n < 48, (BitVec.ofNat 16 n).getLsbD 2 = false →
    ((nullSelector (BitVec.ofNat 16 n) ||
      (gdtDescriptors[(slotOf (BitVec.ofNat 16 n)).toNat]?).any fun d =>
        d.takenAsData (BitVec.ofNat 16 n) 0) = true ↔ BitVec.ofNat 16 n ∈ loadable) := by
  decide

/-- **What the table lets into a data segment register** in ring 0. -/
theorem Installed.dataOk_iff {g : Gdt} (h : Installed g) (sel : Uint16) :
    g.dataOk sel 0 = true ↔ sel ∈ loadable := by
  unfold Gdt.dataOk
  by_cases hti : sel.getLsbD 2 = false
  · rw [h.descriptor hti]
    by_cases hin : sel.toNat < 48
    · have htable := loadable_table sel.toNat hin
      rw [BitVec.ofNat_toNat, BitVec.setWidth_eq] at htable
      exact htable hti
    · have hslot : (slotOf sel).toNat = sel.toNat / 8 := by
        have hsel : sel.toNat < 65536 := sel.isLt
        simp [slotOf, BitVec.toNat_setWidth, Nat.shiftRight_eq_div_pow]
        omega
      have hnone : gdtDescriptors[(slotOf sel).toNat]? = none := by
        refine List.getElem?_eq_none ?_
        show 6 ≤ (slotOf sel).toNat
        omega
      have hne : slotOf sel ≠ 0 := by
        intro hzero
        rw [hzero] at hslot
        simp at hslot
        omega
      have hnull : nullSelector sel = false := by
        rw [nullSelector, decide_eq_false hne, Bool.false_and]
      rw [hnone, hnull]
      exact iff_of_false Bool.false_ne_true fun hmem => hin (loadable_inside hmem).2
  · have hnone : g.descriptor sel = none := if_neg fun hor => hti hor.2.1
    have hnull : nullSelector sel = false := by
      rw [nullSelector, decide_eq_false hti, Bool.and_false]
    rw [hnone, hnull]
    exact iff_of_false Bool.false_ne_true fun hmem => hti (loadable_inside hmem).1

/-! ## The accessed bits -/

/-- A descriptor with the accessed bit clear. -/
def Descriptor.unaccessed (d : Descriptor) : Descriptor := { d with access := d.access &&& 0xFE#8 }

/-- The slots of user mode. -/
def userSlot (slot : Uint32) : Bool := slot = 3 || slot = 4

/-- The table with the accessed bits of the user's segments clear. -/
def Gdt.unaccessed (g : Gdt) : Gdt :=
  { g with entries := fun slot =>
      if userSlot slot then { g.entries slot with access := (g.entries slot).access &&& 0xFE#8 }
      else g.entries slot }

section Unaccessed

variable (g : Gdt)

theorem slot_unaccessed (slot : Uint32) :
    g.unaccessed.slot slot = if userSlot slot then (g.slot slot).unaccessed else g.slot slot := by
  unfold Gdt.slot Gdt.unaccessed
  dsimp only
  split <;> rfl

theorem descriptor_unaccessed (sel : Uint16) :
    g.unaccessed.descriptor sel = (g.descriptor sel).map fun d =>
      if userSlot (slotOf sel) then d.unaccessed else d := by
  unfold Gdt.descriptor
  rw [slot_unaccessed]
  show (if g.gdtr.base = g.address ∧ sel.getLsbD 2 = false ∧
    8 * (slotOf sel).toNat + 7 ≤ g.gdtr.limit.toNat then _ else _) = _
  by_cases hin : g.gdtr.base = g.address ∧ sel.getLsbD 2 = false ∧
      8 * (slotOf sel).toNat + 7 ≤ g.gdtr.limit.toNat
  · rw [if_pos hin, if_pos hin]
    rfl
  · rw [if_neg hin, if_neg hin]
    rfl

/-- The kernel's segments are as they were. -/
theorem descriptor_unaccessed_kernel {sel : Uint16} (hslot : userSlot (slotOf sel) = false) :
    g.unaccessed.descriptor sel = g.descriptor sel := by
  rw [descriptor_unaccessed, hslot]
  exact Option.map_id'

theorem unaccessed_unaccessed : g.unaccessed.unaccessed = g.unaccessed := by
  refine congrArg (fun entries => { g with entries := entries }) (funext fun slot => ?_)
  unfold Gdt.unaccessed
  dsimp only
  by_cases huser : userSlot slot = true
  · rw [if_pos huser, if_pos huser]
    exact congrArg (fun access => { g.entries slot with access := access })
      ((BitVec.and_assoc _ _ _).trans (congrArg _ (BitVec.and_self)))
  · rw [if_neg huser, if_neg huser]

/-- What a check has to do with: no bit of the access byte but the lowest is cleared. -/
theorem getLsbD_unaccessed (access : Uint8) {n : Nat} (hn : n ≠ 0) :
    (access &&& 0xFE#8).getLsbD n = access.getLsbD n := by
  rw [BitVec.getLsbD_and]
  by_cases h8 : n < 8
  · have hmask : ∀ n < 8, n ≠ 0 → (0xFE#8).getLsbD n = true := by decide
    rw [hmask n h8 hn, Bool.and_true]
  · rw [BitVec.getLsbD_of_ge access n (Nat.not_lt.mp h8), Bool.false_and]

/-- A check that does not look at the accessed bit. -/
theorem any_unaccessed {check : Descriptor → Bool} (hcheck : ∀ d, check d.unaccessed = check d)
    (sel : Uint16) : (g.unaccessed.descriptor sel).any check = (g.descriptor sel).any check := by
  rw [descriptor_unaccessed]
  cases g.descriptor sel with
  | none => rfl
  | some d =>
    show check (if _ then _ else _) = check d
    split
    · exact hcheck d
    · rfl

end Unaccessed

namespace Descriptor

variable (d : Descriptor)

@[simp] theorem unaccessed_present : d.unaccessed.present = d.present :=
  getLsbD_unaccessed d.access (by decide)

@[simp] theorem unaccessed_dpl : d.unaccessed.dpl = d.dpl := by
  apply BitVec.eq_of_getLsbD_eq
  intro n hn
  show ((d.access &&& 0xFE#8).extractLsb' 5 2).getLsbD n = (d.access.extractLsb' 5 2).getLsbD n
  rw [BitVec.getLsbD_extractLsb', BitVec.getLsbD_extractLsb', getLsbD_unaccessed _ (by omega)]

@[simp] theorem unaccessed_isCode : d.unaccessed.isCode = d.isCode :=
  congrArg₂ _ (getLsbD_unaccessed d.access (by decide)) (getLsbD_unaccessed d.access (by decide))

@[simp] theorem unaccessed_isData : d.unaccessed.isData = d.isData :=
  congrArg₂ (fun s x => s && !x) (getLsbD_unaccessed d.access (by decide))
    (getLsbD_unaccessed d.access (by decide))

@[simp] theorem unaccessed_writable : d.unaccessed.writable = d.writable :=
  getLsbD_unaccessed d.access (by decide)

@[simp] theorem unaccessed_readable : d.unaccessed.readable = d.readable :=
  getLsbD_unaccessed d.access (by decide)

@[simp] theorem unaccessed_conforming : d.unaccessed.conforming = d.conforming :=
  congrArg₂ _ d.unaccessed_isCode (getLsbD_unaccessed d.access (by decide))

end Descriptor

section Unaccessed

variable {g : Gdt}

theorem dataOk_unaccessed : g.unaccessed.dataOk = g.dataOk := by
  funext sel level
  unfold Gdt.dataOk
  rw [any_unaccessed g fun d => by simp [Descriptor.takenAsData]]

/-- **No check looks at the accessed bits**: a processor finds the same in both tables. -/
theorem platform_unaccessed (plat : Platform) : g.unaccessed.platform plat = g.platform plat := by
  have hstack : g.unaccessed.stackOk = g.stackOk := by
    funext sel level
    unfold Gdt.stackOk
    rw [any_unaccessed g fun d => by simp [Descriptor.takenAsStack]]
  have hreturn : g.unaccessed.returnOk = g.returnOk := by
    funext sel
    unfold Gdt.returnOk
    rw [any_unaccessed g fun d => by simp [Descriptor.takenByReturn]]
  unfold Gdt.platform
  rw [dataOk_unaccessed, hstack, hreturn]

/-- What `Initialize_GDT` leaves does not depend on the slots it fills. -/
theorem rows_congr {rows : List GdtRow} {g g' : Gdt} (hsame : g' = { g with entries := g'.entries })
    (hagree : ∀ slot, slot ∉ rows.map GdtRow.num → g'.entries slot = g.entries slot) :
    rows.foldl addGdtRow g' = rows.foldl addGdtRow g := by
  induction rows generalizing g g' with
  | nil =>
    rw [List.foldl_nil, List.foldl_nil, hsame, funext fun slot => hagree slot List.not_mem_nil]
  | cons row rows ih =>
    refine ih ?_ fun slot hslot => ?_
    · rw [hsame]
      rfl
    · show Function.update g'.entries row.num _ slot = Function.update g.entries row.num _ slot
      by_cases h : slot = row.num
      · rw [h, Function.update_self, Function.update_self]
      · rw [Function.update_of_ne h, Function.update_of_ne h]
        refine hagree slot fun hmem => ?_
        rcases List.mem_cons.mp hmem with hhead | htail
        · exact h hhead
        · exact hslot htail

theorem initializeGdt_unaccessed (g : Gdt) (t : Terminal) :
    initializeGdt g.unaccessed t = initializeGdt g t := by
  have hrows : gdtRows.foldl addGdtRow { g.unaccessed with
        gp := { base := g.address, limit := BitVec.ofNat 16 (8 * gdtSize - 1) } }
      = gdtRows.foldl addGdtRow { g with
        gp := { base := g.address, limit := BitVec.ofNat 16 (8 * gdtSize - 1) } } := by
    refine rows_congr rfl fun slot hslot => if_neg ?_
    have hnot : ¬ (slot = 3 ∨ slot = 4) := by
      rintro (rfl | rfl)
      · exact hslot (by decide)
      · exact hslot (by decide)
    simpa [userSlot] using hnot
  have hloaded : gdtLoaded g.unaccessed = gdtLoaded g :=
    congrArg (fun g : Gdt => { g with tssEntry := tssSetup, gdtr := g.gp }) hrows
  rw [initializeGdt_table, initializeGdt_table, segmentsLoaded, hloaded]
  rfl

/-- The table of `Initialize_GDT` as it leaves it. -/
theorem Installed.unaccessed (h : Installed g) : Installed g.unaccessed := by
  refine ⟨h.gdtr, h.tr, h.tss, fun n hn => ?_⟩
  have hclear : ∀ n, (hn : n < gdtDescriptors.length) → userSlot (BitVec.ofNat 32 n) = true →
      gdtDescriptors[n].unaccessed = gdtDescriptors[n] := by decide
  rw [slot_unaccessed, h.slots n hn]
  split
  · exact hclear n hn ‹_›
  · rfl

/-- The accessed bit set, and cleared again. -/
theorem clear_accessed (access : Uint8) : (access ||| 0x01#8) &&& 0xFE#8 = access &&& 0xFE#8 := by
  have hmask : 0x01#8 &&& 0xFE#8 = 0#8 := by decide
  rw [BitVec.and_comm, BitVec.and_or_distrib_left, BitVec.and_comm 0xFE#8 0x01#8, hmask,
    BitVec.or_zero, BitVec.and_comm]

/-- The kernel's segments are accessed. -/
theorem Installed.accessed (h : Installed g.unaccessed) {slot : Uint32}
    (huser : userSlot slot = false) (hslot : slot = 1 ∨ slot = 2) :
    (g.entries slot).access ||| 0x01#8 = (g.entries slot).access := by
  have hentry : (g.unaccessed.entries slot) = g.entries slot := if_neg (by simp [huser])
  rw [← hentry]
  rcases hslot with rfl | rfl
  · have haccess : (g.unaccessed.entries 1).access = 0x9B :=
      congrArg Descriptor.access (h.slots 1 (by decide))
    rw [haccess]
    decide
  · have haccess : (g.unaccessed.entries 2).access = 0x93 :=
      congrArg Descriptor.access (h.slots 2 (by decide))
    rw [haccess]
    decide

/-- **A load of a segment register**, with the table of `Initialize_GDT`: the kernel's segments are
    accessed already. -/
theorem Installed.loadSegment_unaccessed (h : Installed g.unaccessed) {sel : Uint16}
    (hsel : sel ∈ loadable) : (g.loadSegment sel).unaccessed = g.unaccessed := by
  unfold Gdt.loadSegment
  by_cases hnull : nullSelector sel = true
  · rw [if_pos hnull]
  · rw [if_neg hnull]
    have hslots : loadable.all (fun sel => nullSelector sel || userSlot (slotOf sel) ||
        slotOf sel = 1 || slotOf sel = 2) = true := by decide
    have hslot := List.all_eq_true.mp hslots sel hsel
    rw [(Bool.not_eq_true _).mp hnull, Bool.false_or] at hslot
    refine congrArg (fun entries => { g with entries := entries }) (funext fun slot => ?_)
    dsimp only
    by_cases hsame : slot = slotOf sel
    · subst hsame
      rw [Function.update_self]
      by_cases huser : userSlot (slotOf sel) = true
      · rw [if_pos huser, if_pos huser]
        exact congrArg (fun access => { g.entries (slotOf sel) with access := access })
          (clear_accessed _)
      · rw [if_neg huser, if_neg huser]
        have hkernel : slotOf sel = 1 ∨ slotOf sel = 2 := by simpa [huser] using hslot
        exact congrArg (fun access => { g.entries (slotOf sel) with access := access })
          (h.accessed ((Bool.not_eq_true _).mp huser) hkernel)
    · rw [Function.update_of_ne hsame]

end Unaccessed

/-! ## An interrupt of the kernel -/

/-- Kernel code behind `gdt_loader`: the segments it has loaded, and flags without virtual-8086 mode
    and as the register has them. -/
structure InKernel (c : Cpu) : Prop where
  cs : c.cs = 0x08
  ds : c.ds = 0x10
  es : c.es = 0x10
  vm : c.eflags.getLsbD 17 = false
  flags : loadFlags c.eflags = c.eflags

/-- An instruction that faults stops the code. -/
theorem Cpu.run_cons_fault {plat : Platform} {c : Cpu} {i : Instr} (h : i.exec plat c = none)
    (code : List Instr) : c.run plat (i :: code) = none := by
  unfold Cpu.run
  rw [List.foldlM_cons, h]
  rfl

/-- A pop of a selector, in ring 0. -/
theorem Cpu.exec_popSeg (plat : Platform) (c : Cpu) (hring : c.ring = 0) (r : SegReg) :
    Instr.exec plat c (.popSeg r) = if plat.dataOk (selector (c.slot 0)) 0 = true then
      some (Cpu.setSeg { c with esp := c.esp + 4 } (selector (c.slot 0)) r) else none := by
  rw [← hring]
  rfl

/-- **The return faults** if one of the two selectors it pops first cannot be loaded. -/
theorem fromHandler_faults {plat : Platform} {c : Cpu} {p : Uint32} (hp : p = c.esp + 4)
    (hring : c.ring = 0)
    (hbad : ¬ (plat.dataOk (selector (contextAt c.mem p).fs) 0 = true ∧
      plat.dataOk (selector (contextAt c.mem p).gs) 0 = true)) : fromHandler plat c = none := by
  subst hp
  let c₁ : Cpu := { c with eax := c.slot 0, esp := c.esp + 4 }
  have hpop : Instr.exec plat c .popEax = some c₁ := rfl
  have hgs := Cpu.exec_popSeg plat c₁ hring .gs
  unfold fromHandler leaveHandler
  rw [Cpu.run_cons_of hpop]
  by_cases hok : plat.dataOk (selector (c₁.slot 0)) 0 = true
  · rw [if_pos hok] at hgs
    let c₂ : Cpu := { c₁ with gs := selector (c₁.slot 0), esp := c₁.esp + 4 }
    have hfs := Cpu.exec_popSeg plat c₂ hring .fs
    have hword : selector (c₂.slot 0) = selector (contextAt c.mem (c.esp + 4)).fs :=
      congrArg selector (wordAt_add c.mem (c.esp + 4) 1 0)
    rw [hword, if_neg fun hfsOk => hbad ⟨hfsOk, hok⟩] at hfs
    rw [Cpu.run_cons_of hgs]
    exact Cpu.run_cons_fault hfs _
  · rw [if_neg hok] at hgs
    exact Cpu.run_cons_fault hgs _

/-- **An interrupt of kernel code**, around a handler that leaves the context alone: it comes back
    to where the code was, or the return faults, as `fs` and `gs` can be loaded or not. -/
structure ComesBackIf (plat : Platform) (s : Stub) (handler : Cpu → Cpu) (c : Cpu)
    (loads : Prop) : Prop where
  back : loads → ∃ e q, toHandler plat s c = some e ∧ fromHandler plat (handler e) = some q ∧
    q.toRegisters = c.toRegisters ∧ q.esp = c.esp
  fault : ¬ loads → ∃ e, toHandler plat s c = some e ∧ fromHandler plat (handler e) = none

theorem Installed.comesBackIf {g : Gdt} (hg : Installed g) (plat : Platform) {s : Stub}
    {vector : Uint32} (hs : s.pushes = [0, vector]) {handler : Cpu → Cpu}
    (hconf : Conforming handler) {c : Cpu} (hc : InKernel c)
    (hkeeps : ∀ e, Faithful c vector (argument e) (contextAt e.mem (argument e)) →
      contextAt (handler e).mem (argument e) = contextAt e.mem (argument e)) :
    ComesBackIf (g.platform plat) s handler c (c.fs ∈ loadable ∧ c.gs ∈ loadable) := by
  have hring : c.ring = 0 := by
    unfold Cpu.ring
    rw [hc.cs]
    decide
  have hdata : ∀ sel, (g.platform plat).dataOk sel 0 = true ↔ sel ∈ loadable := hg.dataOk_iff
  have hkernel : (g.platform plat).dataOk stubDs 0 = true := hg.kernelSlots.dataOk
  obtain ⟨e, hentry, hentered⟩ := toHandler_spec hkernel c hs
  obtain ⟨harg, hfaithful⟩ := hentered.faithful
  rw [← harg] at hfaithful
  have hsame := hkeeps e hfaithful
  have hp : argument e = (handler e).esp + 4 := by
    rw [harg, hconf.esp]
    bv_omega
  have hring' : (handler e).ring = 0 := (congrArg rpl (hconf.cs e)).trans hentered.ring
  constructor
  · rintro ⟨hfs, hgs⟩
    have hnt : (handler e).eflags.getLsbD 14 = false := (hconf.nt e).trans hentered.nt
    have hret : Returnable (g.platform plat) 0 (contextAt (handler e).mem (argument e)) := by
      rw [hsame]
      refine ⟨?_, ?_, fun h => absurd rfl h, ?_, ?_⟩
      · rw [hfaithful.cs, hc.cs]
        decide
      · rw [hfaithful.cs, hc.cs]
        exact hg.kernelSlots.returnOk
      · simp only [List.forall_mem_cons, hfaithful.gs, hfaithful.fs, hfaithful.es, hfaithful.ds,
          hc.ds, hc.es, hdata, and_self]
        exact ⟨hgs, hfs, by decide, by decide, List.forall_mem_nil _⟩
      · rw [hfaithful.eflags]
        exact hc.vm
    obtain ⟨q, hrun, -, hresumed⟩ := fromHandler_spec hp hring' hnt hret
    refine ⟨e, q, hentry, hrun, ?_⟩
    rw [hsame, hconf.ss, hentered.ss, if_pos rfl, if_pos rfl, if_pos hring] at hresumed
    have hesp : argument e + 68 = c.esp := by
      rw [harg, hentered.esp hring]
      bv_omega
    rw [hesp] at hresumed
    refine Resumed.untouched hfaithful hc.flags ?_
    rw [if_pos hring, if_pos hring]
    exact hresumed
  · intro hbad
    refine ⟨e, hentry, fromHandler_faults hp hring' ?_⟩
    rw [hsame, hfaithful.fs, hfaithful.gs, hdata, hdata]
    exact hbad

end FreeMicroNix
