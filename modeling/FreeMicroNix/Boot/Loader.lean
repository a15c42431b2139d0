/-
  `kernel/i686/loader.asm` from the setting of CR0.PG on, and the memory it and `kmain` access.

  A boot is a run of accesses.  The loader goes through three phases: at its load address, in the
  kernel's half with both mappings, and in the kernel's half alone; the store to `_pageDirectory`
  is an access like any other and changes the directory through its own translation.  Every access
  has the physical address it is meant for, and `Translated` asks the directory in force for it.

  After the store nothing below the kernel's half is mapped.  The terminal and the boot
  information are accessed at their physical addresses all the same, so every boot fails there
  (`boot_translated_iff`).
-/
import FreeMicroNix.Lib.Run
import FreeMicroNix.Boot.Paging
import FreeMicroNix.Video.Putch

namespace FreeMicroNix

open Run

/-! ## The image -/

/-- Where the linker puts things, by `linker.ld`.  The image ends within the four megabytes the
    loader maps. -/
structure LinkMap where
  /-- The end of `.kernel_early_bootstrap`, which begins at `K_PHYS_ADDR`. -/
  earlyEnd : Uint32
  /-- `_pageDirectory` -/
  pageDirectory : Uint32
  /-- `_InitialKernelStack` -/
  initialKernelStack : Uint32
  /-- `kernel_end` -/
  kernelEnd : Uint32
  earlyEnd_le : earlyEnd.toNat ≤ 0x400000
  kernelEnd_le : kernelEnd.toNat ≤ 0xC0400000
  pageDirectory_mem : 0xC0100000 ≤ pageDirectory.toNat ∧
    pageDirectory.toNat + 4096 ≤ kernelEnd.toNat
  stack_mem : 0xC0100000 ≤ initialKernelStack.toNat ∧
    initialKernelStack.toNat + 0x8000 ≤ kernelEnd.toNat

namespace LinkMap

/-- An address of the early section. -/
def Early (map : LinkMap) (va : Uint32) : Prop :=
  0x100000 ≤ va.toNat ∧ va.toNat < map.earlyEnd.toNat

/-- An address of the sections of the kernel's half. -/
def Kernel (map : LinkMap) (va : Uint32) : Prop :=
  0xC0100000 ≤ va.toNat ∧ va.toNat < map.kernelEnd.toNat

/-- An address of the initial stack. -/
def Stack (map : LinkMap) (va : Uint32) : Prop :=
  map.initialKernelStack.toNat ≤ va.toNat ∧ va.toNat < map.initialKernelStack.toNat + 0x8000

theorem Early.low {map : LinkMap} {va : Uint32} (h : map.Early va) : Low va :=
  Nat.lt_of_lt_of_le h.2 map.earlyEnd_le

theorem Kernel.high {map : LinkMap} {va : Uint32} (h : map.Kernel va) : High va :=
  ⟨Nat.le_trans (by decide) h.1, Nat.lt_of_lt_of_le h.2 map.kernelEnd_le⟩

theorem Stack.kernel {map : LinkMap} {va : Uint32} (h : map.Stack va) : map.Kernel va :=
  ⟨Nat.le_trans map.stack_mem.1 h.1, Nat.lt_of_lt_of_le h.2 map.stack_mem.2⟩

theorem pageDirectory_high (map : LinkMap) : High map.pageDirectory := by
  have hmem := map.pageDirectory_mem
  have hend := map.kernelEnd_le
  constructor
  · omega
  · omega

end LinkMap

/-! ## Accesses -/

/-- `sizeof(multiboot_info_t)` -/
def multibootInfoSize : Nat := 88

/-- A memory access of the boot. -/
inductive BootAccess where
  /-- An instruction of `loader`. -/
  | fetchEarly (va : Uint32)
  /-- An instruction of `StartHigherHalf`, of `kmain` and of what they call. -/
  | fetch (va : Uint32)
  /-- `mov DWORD [_pageDirectory], 0` -/
  | clearIdentity
  /-- A word of the kernel stack. -/
  | stack (va : Uint32)
  /-- An object of the kernel's sections. -/
  | object (va : Uint32)
  /-- A cell of the terminal. -/
  | terminalCell (index : Uint32)
  /-- A byte of the `multiboot_info_t`. -/
  | multiboot (offset : Uint32)
  deriving DecidableEq

/-- Where the loader is. -/
inductive Phase where
  | early
  | higherHalf
  | kernel
  deriving DecidableEq

/-- CR3, the directory it points to, and the phase. -/
structure Boot where
  cr3 : Uint32
  directory : PageDirectory
  phase : Phase

/-- The cells `Initialize_Terminal` stores to, in order. -/
def initializeTerminalCells : List BootAccess :=
  (initializeTerminal coldTerminal).log.filterMap fun access =>
    match access with
    | .store _ _ index _ _ => some (.terminalCell index)
    | _ => none

section Path

variable (map : LinkMap) (mbootAddr : Uint32)

namespace BootAccess

/-- The address the code uses. -/
def virtual : BootAccess → Uint32
  | fetchEarly va => va
  | fetch va => va
  | clearIdentity => map.pageDirectory
  | stack va => va
  | object va => va
  | terminalCell index => (initializeTerminal coldTerminal).terminalBuffer + 2 * index
  | multiboot offset => mbootAddr + offset

/-- The address it means: the image is loaded `K_OFFSET_ADDR` below where it is linked, but for
    the early section; the terminal and the boot information are where they are. -/
def physical : BootAccess → Uint32
  | fetchEarly va => va
  | fetch va => va - kOffsetAddr
  | clearIdentity => map.pageDirectory - kOffsetAddr
  | stack va => va - kOffsetAddr
  | object va => va - kOffsetAddr
  | terminalCell index => 0xB8000 + 2 * index
  | multiboot offset => mbootAddr + offset

/-- What the code may access in a phase. -/
def Allowed (phase : Phase) : BootAccess → Prop
  | fetchEarly va => phase = .early ∧ map.Early va
  | fetch va => map.Kernel va
  | clearIdentity => phase = .higherHalf
  | stack va => phase = .kernel ∧ map.Stack va
  | object va => phase = .kernel ∧ map.Kernel va
  | terminalCell index => phase = .kernel ∧ index < 2000
  | multiboot offset => phase = .kernel ∧ offset.toNat < multibootInfoSize

end BootAccess

namespace Boot

/-- The loader once paging is on. -/
def start : Boot where
  cr3 := map.pageDirectory - kOffsetAddr
  directory := pageDirectory
  phase := .early

/-- A store of a double word: it changes the directory if that is where it goes. -/
def store (s : Boot) (va value : Uint32) : Boot :=
  match translate s.directory va with
  | none => s
  | some pa =>
      if pa - s.cr3 < 4096 then
        { s with directory :=
            Function.update s.directory ((pa - s.cr3).extractLsb' 2 10) value }
      else s

/-- One access. -/
def step (s : Boot) : BootAccess → Boot
  | .fetch _ => { s with phase := if s.phase = .early then .higherHalf else s.phase }
  | .clearIdentity => { s.store map.pageDirectory 0 with phase := .kernel }
  | _ => s

/-- The access reaches, through the directory in force, the address it means. -/
def Translated (s : Boot) (a : BootAccess) : Prop :=
  translate s.directory (a.virtual map mbootAddr) = some (a.physical map mbootAddr)

end Boot

/-- **A boot**: accesses the code may make in the phase it is in, among them those of
    `Initialize_Terminal`, in their order. -/
structure BootRun (run : List BootAccess) : Prop where
  allowed : Guarded (Boot.step map) (fun s a => a.Allowed map s.phase) (Boot.start map) run
  terminal : initializeTerminalCells.Sublist run

/-! ## The directory in force -/

/-- What the loader keeps: the directory of the source until the store, and after it the same
    without its first entry. -/
structure Boot.Mapped (s : Boot) : Prop where
  cr3 : s.cr3 = map.pageDirectory - kOffsetAddr
  directory : s.directory = if s.phase = .kernel then cleared else pageDirectory

/-- The store to `_pageDirectory` hits entry 0. -/
theorem Boot.Mapped.store {s : Boot} (h : s.Mapped map) (hphase : s.phase ≠ .kernel) :
    (s.store map.pageDirectory 0).cr3 = s.cr3 ∧
      (s.store map.pageDirectory 0).directory = cleared := by
  obtain ⟨hcr3, hdirectory⟩ := h
  rw [if_neg hphase] at hdirectory
  have hpa := translate_pageDirectory.2 map.pageDirectory_high
  have hentry : map.pageDirectory - kOffsetAddr - s.cr3 = 0 := by
    rw [hcr3]
    exact BitVec.sub_self _
  unfold Boot.store
  rw [hdirectory, hpa]
  dsimp only
  rw [hentry, if_pos (by decide)]
  exact ⟨rfl, rfl⟩

/-- **The step.**  An allowed access keeps what the loader keeps, and enters the last phase exactly
    by the store. -/
theorem Boot.Mapped.step {s : Boot} (h : s.Mapped map) {a : BootAccess}
    (hallowed : a.Allowed map s.phase) :
    (s.step map a).Mapped map ∧
      ((s.step map a).phase = .kernel ↔ s.phase = .kernel ∨ a = .clearIdentity) := by
  have hother : ∀ a : BootAccess, a ≠ .clearIdentity →
      (s.phase = .kernel ↔ s.phase = .kernel ∨ a = .clearIdentity) :=
    fun a ha => (or_iff_left ha).symm
  cases a with
  | fetch va =>
    have hphase : (s.step map (.fetch va)).phase = .kernel ↔ s.phase = .kernel := by
      show (if s.phase = .early then Phase.higherHalf else s.phase) = .kernel ↔ _
      split
      · rename_i hearly
        simp [hearly]
      · exact Iff.rfl
    refine ⟨⟨h.cr3, ?_⟩, hphase.trans (hother _ BootAccess.noConfusion)⟩
    have hdirectory : (s.step map (.fetch va)).directory = s.directory := rfl
    rw [hdirectory, h.directory]
    simp only [hphase]
  | clearIdentity =>
    have hphase : s.phase ≠ .kernel := by
      rw [show s.phase = .higherHalf from hallowed]
      decide
    obtain ⟨hcr3, hdirectory⟩ := h.store map hphase
    exact ⟨⟨hcr3.trans h.cr3, hdirectory⟩, iff_of_true rfl (Or.inr rfl)⟩
  | fetchEarly va => exact ⟨h, hother _ BootAccess.noConfusion⟩
  | stack va => exact ⟨h, hother _ BootAccess.noConfusion⟩
  | object va => exact ⟨h, hother _ BootAccess.noConfusion⟩
  | terminalCell index => exact ⟨h, hother _ BootAccess.noConfusion⟩
  | multiboot offset => exact ⟨h, hother _ BootAccess.noConfusion⟩

/-- **The run.**  Before every access of an allowed run the directory is the one of the phase, and
    the phase is the last one exactly if the store has been made. -/
theorem mapped_of_allowed : ∀ (s : Boot) (run : List BootAccess), s.Mapped map →
    Guarded (Boot.step map) (fun s a => a.Allowed map s.phase) s run →
    (run.foldl (Boot.step map) s).Mapped map ∧
      ((run.foldl (Boot.step map) s).phase = .kernel ↔
        s.phase = .kernel ∨ .clearIdentity ∈ run)
  | s, [], h, _ => ⟨h, by simp⟩
  | s, a :: run, h, hguard => by
      obtain ⟨hallowed, hrest⟩ := hguard
      obtain ⟨hmapped, hphase⟩ := h.step map hallowed
      obtain ⟨hend, hlast⟩ := mapped_of_allowed (s.step map a) run hmapped hrest
      refine ⟨hend, hlast.trans ?_⟩
      rw [hphase, List.mem_cons, or_assoc, @eq_comm _ BootAccess.clearIdentity a]

/-! ## One access -/

theorem terminalBuffer_eq : (initializeTerminal coldTerminal).terminalBuffer = vgaMemory := by
  rw [initializeTerminal_eq]
  rfl

/-- The cells are below the kernel's half. -/
theorem terminalCell_below {index : Uint32} (h : index < 2000) :
    (BootAccess.terminalCell index).virtual map mbootAddr < kOffsetAddr := by
  have hindex : index.toNat < 2000 := BitVec.lt_def.mp h
  show (initializeTerminal coldTerminal).terminalBuffer + 2 * index < kOffsetAddr
  rw [terminalBuffer_eq]
  apply BitVec.lt_def.mpr
  rw [BitVec.toNat_add, BitVec.toNat_mul]
  show (0xB8000 + 2 * index.toNat % 2 ^ 32) % 2 ^ 32 < 0xC0000000
  omega

/-- So is all of the boot information. -/
theorem multiboot_below {offset : Uint32} (hmboot : Low mbootAddr)
    (h : offset.toNat < multibootInfoSize) : mbootAddr + offset < kOffsetAddr := by
  unfold Low at hmboot
  unfold multibootInfoSize at h
  apply BitVec.lt_def.mpr
  rw [BitVec.toNat_add]
  show _ < 0xC0000000
  omega

theorem High.offset_le {va : Uint32} (h : High va) : kOffsetAddr ≤ va := BitVec.le_def.mpr h.1

/-- The three kinds of access: through the kernel's half, early at its own address, and late below
    the kernel's half. -/
theorem allowed_cases (hmboot : Low mbootAddr) {phase : Phase} {a : BootAccess}
    (hallowed : a.Allowed map phase) :
    High (a.virtual map mbootAddr) ∧
        a.physical map mbootAddr = a.virtual map mbootAddr - kOffsetAddr ∨
      phase ≠ .kernel ∧ Low (a.virtual map mbootAddr) ∧
        a.physical map mbootAddr = a.virtual map mbootAddr ∨
      phase = .kernel ∧ a.virtual map mbootAddr < kOffsetAddr := by
  cases a with
  | fetchEarly va =>
    obtain ⟨rfl, hearly⟩ := hallowed
    exact Or.inr (Or.inl ⟨by decide, hearly.low, rfl⟩)
  | fetch va => exact Or.inl ⟨LinkMap.Kernel.high hallowed, rfl⟩
  | clearIdentity => exact Or.inl ⟨map.pageDirectory_high, rfl⟩
  | stack va => exact Or.inl ⟨hallowed.2.kernel.high, rfl⟩
  | object va => exact Or.inl ⟨hallowed.2.high, rfl⟩
  | terminalCell index =>
    exact Or.inr (Or.inr ⟨hallowed.1, terminalCell_below map mbootAddr hallowed.2⟩)
  | multiboot offset =>
    exact Or.inr (Or.inr ⟨hallowed.1, multiboot_below mbootAddr hmboot hallowed.2⟩)

/-- **One access**, in a phase that allows it: it is translated as meant before the store, and
    after it if it goes through the kernel's half. -/
theorem translated_iff {s : Boot} (h : s.Mapped map) (hmboot : Low mbootAddr) {a : BootAccess}
    (hallowed : a.Allowed map s.phase) :
    s.Translated map mbootAddr a ↔
      s.phase ≠ .kernel ∨ kOffsetAddr ≤ a.virtual map mbootAddr := by
  unfold Boot.Translated
  rw [h.directory]
  rcases allowed_cases map mbootAddr hmboot hallowed with ⟨hhigh, hphysical⟩ |
    ⟨hphase, hlow, hphysical⟩ | ⟨hphase, hbelow⟩
  · refine iff_of_true ?_ (Or.inr hhigh.offset_le)
    rw [hphysical]
    split
    · exact translate_cleared.1 hhigh
    · exact translate_pageDirectory.2 hhigh
  · refine iff_of_true ?_ (Or.inl hphase)
    rw [if_neg hphase, hphysical]
    exact translate_pageDirectory.1 hlow
  · rw [if_pos hphase, translate_cleared.2 hbelow]
    refine iff_of_false (Option.some_ne_none _).symm ?_
    rintro (hnot | hle)
    · exact hnot hphase
    · exact BitVec.not_le.mpr hbelow hle

/-! ## Every boot -/

/-- `Initialize_Terminal` stores to 2000 cells. -/
theorem initializeTerminalCells_eq :
    initializeTerminalCells
      = (List.range (vgaHeight * vgaWidth)).map fun i => .terminalCell (BitVec.ofNat 32 i) := by
  unfold initializeTerminalCells
  rw [initializeTerminal_eq]
  generalize vgaHeight * vgaWidth = n
  show ((List.range n).map initStore).filterMap _ = _
  rw [List.filterMap_map]
  exact congrFun (List.filterMap_eq_map'
    (f := fun i => BootAccess.terminalCell (BitVec.ofNat 32 i))) (List.range n)

/-- **Boot-time translation, exactly.**  In every boot, with the boot information anywhere below
    four megabytes, an access is translated to the address it means if and only if it is made
    before the store to `_pageDirectory` or through the kernel's half; and every boot makes others,
    beginning with the first cell of the terminal. -/
theorem boot_translated_iff (hmboot : Low mbootAddr) (run : List BootAccess)
    (hrun : BootRun map run) :
    (∀ pre a post, run = pre ++ a :: post →
      ((pre.foldl (Boot.step map) (Boot.start map)).Translated map mbootAddr a ↔
        .clearIdentity ∉ pre ∨ kOffsetAddr ≤ a.virtual map mbootAddr)) ∧
      ¬ ∀ pre a post, run = pre ++ a :: post →
        (pre.foldl (Boot.step map) (Boot.start map)).Translated map mbootAddr a := by
  have hstart : (Boot.start map).Mapped map := ⟨rfl, rfl⟩
  have hstart' : (Boot.start map).phase ≠ .kernel := Phase.noConfusion
  have hsplit := (guarded_iff_split _ _ _ run).mp hrun.allowed
  have haccess : ∀ pre a post, run = pre ++ a :: post →
      ((pre.foldl (Boot.step map) (Boot.start map)).Translated map mbootAddr a ↔
        .clearIdentity ∉ pre ∨ kOffsetAddr ≤ a.virtual map mbootAddr) := by
    intro pre a post h
    have hpre := ((guarded_append _ _ _ pre (a :: post)).mp (h ▸ hrun.allowed)).1
    obtain ⟨hmapped, hphase⟩ := mapped_of_allowed map (Boot.start map) pre hstart hpre
    rw [translated_iff map mbootAddr hmapped hmboot (hsplit pre a post h), ne_eq, hphase,
      or_iff_right hstart']
  refine ⟨haccess, fun hall => ?_⟩
  -- the first cell
  have hcell : .terminalCell 0 ∈ run := by
    apply hrun.terminal.subset
    rw [initializeTerminalCells_eq]
    exact List.mem_map.mpr ⟨0, List.mem_range.mpr (by decide), rfl⟩
  obtain ⟨pre, post, h⟩ := List.append_of_mem hcell
  have hpre := ((guarded_append _ _ _ pre (.terminalCell 0 :: post)).mp (h ▸ hrun.allowed)).1
  have hphase := (mapped_of_allowed map (Boot.start map) pre hstart hpre).2
  have hstored := (hphase.mp (hsplit pre _ post h).1).resolve_left hstart'
  rcases (haccess pre _ post h).mp (hall pre _ post h) with hnot | hle
  · exact hnot hstored
  · exact BitVec.not_le.mpr (terminalCell_below map mbootAddr (by decide)) hle

end Path

/-! ## A boot -/

/-- A kernel of 64 KiB. -/
def smallMap : LinkMap where
  earlyEnd := 0x100040
  pageDirectory := 0xC0101000
  initialKernelStack := 0xC0108000
  kernelEnd := 0xC0110000
  earlyEnd_le := by decide
  kernelEnd_le := by decide
  pageDirectory_mem := by decide
  stack_mem := by decide

/-- The first instruction of the loader and of `StartHigherHalf`, the store, and stores to cells. -/
def bootTo (cells : List BootAccess) : List BootAccess :=
  [.fetchEarly 0x10000C, .fetch 0xC0102000] ++ .clearIdentity :: cells

/-- Cells of the screen may be stored to in the last phase, in any number and order. -/
theorem guarded_cells (map : LinkMap) {s : Boot} (h : s.phase = .kernel) :
    ∀ cells : List BootAccess, (∀ a ∈ cells, ∃ index < 2000, a = .terminalCell index) →
      Guarded (Boot.step map) (fun s a => a.Allowed map s.phase) s cells
  | [], _ => trivial
  | a :: cells, hcells => by
      obtain ⟨index, hindex, rfl⟩ := hcells _ List.mem_cons_self
      exact ⟨⟨h, hindex⟩, guarded_cells map h cells fun b hb =>
        hcells b (List.mem_cons_of_mem _ hb)⟩

theorem bootTo_allowed {cells : List BootAccess}
    (hcells : ∀ a ∈ cells, ∃ index < 2000, a = .terminalCell index) :
    Guarded (Boot.step smallMap) (fun s a => a.Allowed smallMap s.phase) (Boot.start smallMap)
      (bootTo cells) :=
  ⟨⟨rfl, by decide, by decide⟩, ⟨by decide, by decide⟩, rfl,
    guarded_cells smallMap rfl cells hcells⟩

theorem bootTo_run : BootRun smallMap (bootTo initializeTerminalCells) := by
  refine ⟨bootTo_allowed fun a ha => ?_, ?_⟩
  · rw [initializeTerminalCells_eq] at ha
    obtain ⟨i, hi, rfl⟩ := List.mem_map.mp ha
    refine ⟨BitVec.ofNat 32 i, ?_, rfl⟩
    apply BitVec.lt_def.mpr
    rw [BitVec.toNat_ofNat]
    exact Nat.lt_of_le_of_lt (Nat.mod_le i _) (List.mem_range.mp hi)
  · generalize initializeTerminalCells = cells
    exact (List.sublist_cons_self _ cells).trans (List.sublist_append_right _ _)

/-- The store itself, through the kernel's half. -/
theorem boot_translated_store :
    ([.fetchEarly 0x10000C, .fetch 0xC0102000].foldl (Boot.step smallMap)
      (Boot.start smallMap)).Translated smallMap 0x9500 .clearIdentity := by
  have hexact := (boot_translated_iff smallMap 0x9500 (by decide) _ bootTo_run).1
  generalize initializeTerminalCells = cells at hexact
  exact (hexact _ .clearIdentity cells rfl).mpr (Or.inl (by decide))

/-- The first cell of the terminal, right after it: no page. -/
theorem boot_not_translated_terminal :
    BootRun smallMap (bootTo initializeTerminalCells) ∧
      (∃ post, initializeTerminalCells = .terminalCell 0 :: post) ∧
      ¬ ([.fetchEarly 0x10000C, .fetch 0xC0102000, .clearIdentity].foldl (Boot.step smallMap)
        (Boot.start smallMap)).Translated smallMap 0x9500 (.terminalCell 0) := by
  refine ⟨bootTo_run, ?_, ?_⟩
  · have hsize : vgaHeight * vgaWidth = 1999 + 1 := rfl
    rw [initializeTerminalCells_eq, hsize, List.range_succ_eq_map, List.map_cons]
    exact ⟨_, rfl⟩
  · have hallowed := @bootTo_allowed [] fun _ ha => absurd ha List.not_mem_nil
    have hmapped := (mapped_of_allowed smallMap _ (bootTo []) ⟨rfl, rfl⟩ hallowed).1
    have hiff := translated_iff smallMap 0x9500 hmapped (by decide) (a := .terminalCell 0)
      ⟨rfl, by decide⟩
    intro h
    rcases hiff.mp h with hphase | hle
    · exact hphase rfl
    · exact BitVec.not_le.mpr (terminalCell_below smallMap 0x9500 (by decide)) hle

end FreeMicroNix
