/-
  `kernel/x86/gdt/gdt.c`: the global descriptor table and the task state segment, as the kernel
  writes them and as the processor reads them.

  A `GdtEntry` has the fields of `gdt_entry_t`, and `bytes` is their layout; `decodeDescriptor` is
  the processor's reading of eight bytes as a segment descriptor, in which base and limit lie in
  pieces.  `decode_addGdtDescriptor` is the round trip.  A `TssEntry` has the fields of
  `tss_entry_t`, and `words` is their layout as the 26 double words of the segment.

  `Initialize_GDT` fills six slots, loads the two registers of the processor and the segment
  registers, and prints.  `initializeGdt_installed` is what it leaves, and the only thing later
  modules use of it.
-/
import FreeMicroNix.Lib.LastWrite
import FreeMicroNix.Video.Vga

namespace FreeMicroNix

open LastWrite

/-! ## Entries and their bytes -/

/-- `gdt_entry_t` -/
structure GdtEntry where
  limit0_15 : Uint16
  base0_15 : Uint16
  base16_23 : Uint8
  access : Uint8
  granularity : Uint8
  base24_31 : Uint8
  deriving DecidableEq

/-- The eight bytes of an entry, in memory order. -/
def GdtEntry.bytes (e : GdtEntry) : Fin 8 → Uint8
  | 0 => e.limit0_15.extractLsb' 0 8
  | 1 => e.limit0_15.extractLsb' 8 8
  | 2 => e.base0_15.extractLsb' 0 8
  | 3 => e.base0_15.extractLsb' 8 8
  | 4 => e.base16_23
  | 5 => e.access
  | 6 => e.granularity
  | 7 => e.base24_31

/-- `gdt_ptr_t` -/
structure GdtPtr where
  limit : Uint16
  base : Uint32
  deriving DecidableEq

/-- `tss_entry_t` -/
structure TssEntry where
  prevTss : Uint32
  esp0 : Uint32
  ss0 : Uint32
  esp1 : Uint32
  ss1 : Uint32
  esp2 : Uint32
  ss2 : Uint32
  cr3 : Uint32
  eip : Uint32
  eflags : Uint32
  eax : Uint32
  ecx : Uint32
  edx : Uint32
  ebx : Uint32
  esp : Uint32
  ebp : Uint32
  esi : Uint32
  edi : Uint32
  es : Uint32
  cs : Uint32
  ss : Uint32
  ds : Uint32
  fs : Uint32
  gs : Uint32
  ldt : Uint32
  trap : Uint16
  iomapBase : Uint16
  deriving DecidableEq

/-- The segment as double words, upwards from its address. -/
def TssEntry.words (tss : TssEntry) : List Uint32 :=
  [tss.prevTss, tss.esp0, tss.ss0, tss.esp1, tss.ss1, tss.esp2, tss.ss2, tss.cr3, tss.eip,
    tss.eflags, tss.eax, tss.ecx, tss.edx, tss.ebx, tss.esp, tss.ebp, tss.esi, tss.edi, tss.es,
    tss.cs, tss.ss, tss.ds, tss.fs, tss.gs, tss.ldt, dword tss.iomapBase tss.trap]

/-- `sizeof(tss_entry)` -/
def sizeofTss : Nat := 104

/-- The task register: the selector loaded, and the base and limit of its descriptor. -/
structure TaskRegister where
  selector : Uint16
  base : Uint32
  limit : Nat
  deriving DecidableEq

/-- The globals of the file, and the two registers of the processor they are loaded into. -/
structure Gdt where
  /-- `&gdt` -/
  address : Uint32
  /-- `gdt`, and the memory around it, by entries. -/
  entries : Uint32 → GdtEntry
  gp : GdtPtr
  tssEntry : TssEntry
  gdtr : GdtPtr
  tr : TaskRegister

/-- `GDT_SIZE` -/
def gdtSize : Nat := 6

/-! ## What the kernel writes -/

/-- `tss_setup`: every field is assigned. -/
def tssSetup : TssEntry where
  prevTss := 0
  esp0 := 0
  ss0 := 0x10
  esp1 := 0
  ss1 := 0
  esp2 := 0
  ss2 := 0
  cr3 := 0
  eip := 0
  eflags := 0
  eax := 0
  ecx := 0
  edx := 0
  ebx := 3
  esp := 0
  ebp := 0
  esi := 0
  edi := 0
  es := 0x13
  cs := 0x0B
  ss := 0
  ds := 0x13
  fs := 0x13
  gs := 0x13
  ldt := 0
  trap := 0
  iomapBase := 0

/-- `tss_set_kernel_stack` -/
def tssSetKernelStack (g : Gdt) (stack : Uint32) : Gdt :=
  { g with tssEntry := { g.tssEntry with esp0 := stack } }

/-- `Add_GDT_Descriptor` -/
def addGdtDescriptor (g : Gdt) (num base limit : Uint32) (access granularity : Uint8) : Gdt :=
  { g with
    entries := Function.update g.entries num
      { base0_15 := (base &&& 0xFFFF#32).setWidth 16
        base16_23 := ((base >>> 16) &&& 0xFF#32).setWidth 8
        base24_31 := ((base >>> 24) &&& 0xFF#32).setWidth 8
        limit0_15 := (limit &&& 0xFFFF#32).setWidth 16
        access := access
        granularity := ((limit >>> 16) &&& 0x0F#32).setWidth 8 ||| granularity &&& 0xF0#8 } }

/-! ## The processor's view -/

/-- A segment descriptor, decoded. -/
structure Descriptor where
  base : Uint32
  limit : BitVec 20
  access : Uint8
  flags : BitVec 4
  deriving DecidableEq

namespace Descriptor

/-- The last offset within the segment: the limit counts pages when bit G is set. -/
def lastByte (d : Descriptor) : Nat :=
  if d.flags.getLsbD 3 then d.limit.toNat * 4096 + 4095 else d.limit.toNat

def present (d : Descriptor) : Bool := d.access.getLsbD 7

def dpl (d : Descriptor) : BitVec 2 := d.access.extractLsb' 5 2

/-- A code segment: bit S and the executable bit. -/
def isCode (d : Descriptor) : Bool := d.access.getLsbD 4 && d.access.getLsbD 3

/-- A data segment. -/
def isData (d : Descriptor) : Bool := d.access.getLsbD 4 && !d.access.getLsbD 3

/-- The writable bit of a data segment. -/
def writable (d : Descriptor) : Bool := d.access.getLsbD 1

/-- A 32-bit task state segment that is not busy. -/
def availableTss (d : Descriptor) : Bool := d.access.extractLsb' 0 5 = 0b01001#5

end Descriptor

/-- Eight bytes read as a segment descriptor. -/
def decodeDescriptor (b : Fin 8 → Uint8) : Descriptor where
  base := dword (word (b 7) (b 4)) (word (b 3) (b 2))
  limit := (b 6).extractLsb' 0 4 ++ word (b 1) (b 0)
  access := b 5
  flags := (b 6).extractLsb' 4 4

/-- The descriptor in a slot. -/
def Gdt.slot (g : Gdt) (num : Uint32) : Descriptor := decodeDescriptor (g.entries num).bytes

/-- The slot a selector names. -/
def slotOf (sel : Uint16) : Uint32 := (sel >>> 3).setWidth 32

/-- A null selector. -/
def nullSelector (sel : Uint16) : Bool := slotOf sel = 0 && sel.getLsbD 2 = false

namespace Gdt

/-- The descriptor a selector names, if it lies within the limit of the table. -/
def descriptor (g : Gdt) (sel : Uint16) : Option Descriptor :=
  if g.gdtr.base = g.address ∧ sel.getLsbD 2 = false ∧
      8 * (slotOf sel).toNat + 7 ≤ g.gdtr.limit.toNat then
    some (g.slot (slotOf sel))
  else none

/-- A segment register loaded with a selector that passes the checks: the processor marks the
    descriptor as accessed.  A null selector has none. -/
def loadSegment (g : Gdt) (sel : Uint16) : Gdt :=
  if nullSelector sel then g
  else
    let accessed := { g.entries (slotOf sel) with
      access := (g.entries (slotOf sel)).access ||| 0x01#8 }
    { g with entries := Function.update g.entries (slotOf sel) accessed }

/-- The task register loaded from a descriptor, which is marked busy. -/
def loadTask (g : Gdt) (sel : Uint16) (d : Descriptor) : Gdt :=
  let busy := { g.entries (slotOf sel) with access := d.access ||| 0x02#8 }
  { g with
    entries := Function.update g.entries (slotOf sel) busy
    tr := { selector := sel, base := d.base, limit := d.lastByte } }

/-- `ltr`: the selector must name an available task state segment that is present. -/
def ltr (g : Gdt) (sel : Uint16) : Option Gdt :=
  match g.descriptor sel with
  | none => none
  | some d =>
      if slotOf sel ≠ 0 ∧ d.availableTss ∧ d.present then some (g.loadTask sel d) else none

end Gdt

/-! ## `Initialize_GDT` -/

/-- One call of `Add_GDT_Descriptor` in `Initialize_GDT`. -/
structure GdtRow where
  num : Uint32
  base : Uint32
  limit : Uint32
  access : Uint8
  granularity : Uint8

/-- The null segment, kernel code and data, user code and data, and the task state segment — whose
    base is zero, as in the source. -/
def gdtRows : List GdtRow :=
  [⟨0, 0, 0, 0, 0⟩, ⟨1, 0, 0xFFFFFFFF, 0x9A, 0xCF⟩, ⟨2, 0, 0xFFFFFFFF, 0x92, 0xCF⟩,
    ⟨3, 0, 0xFFFFFFFF, 0xFA, 0xCF⟩, ⟨4, 0, 0xFFFFFFFF, 0xF2, 0xCF⟩,
    ⟨5, 0, BitVec.ofNat 32 (sizeofTss - 1), 0xE9, 0⟩]

def addGdtRow (g : Gdt) (row : GdtRow) : Gdt :=
  addGdtDescriptor g row.num row.base row.limit row.access row.granularity

/-- What `gdt_loader` loads into `ds`, `es`, `ss` and `cs`. -/
def gdtSegments : List Uint16 := [0x10, 0x10, 0x10, 0x08]

/-- `Initialize_GDT`, with `gdt_loader` and `tss_loader` as far as the tables go; `none` when the
    processor rejects the task register.  It rejects none of the segments (`Isa.Segments`). -/
def initializeGdt (g : Gdt) (t : Terminal) : Option (Gdt × Terminal) :=
  let g := { g with gp := { base := g.address, limit := BitVec.ofNat 16 (8 * gdtSize - 1) } }
  let g := gdtRows.foldl addGdtRow g
  let g := { g with tssEntry := tssSetup }
  -- `gdt_loader`: lgdt [gp], and the segment registers
  let g := { g with gdtr := g.gp }
  let g := gdtSegments.foldl Gdt.loadSegment g
  let t := kprintf t (fun _ => []) (str "Global Descriptor Table Initialized\n") fun _ => 0
  -- `tss_loader`: ltr 0x2B
  match g.ltr 0x2B with
  | none => none
  | some g =>
      some (g, kprintf t (fun _ => []) (str "Task State Segment Initialized\n") fun _ => 0)

/-! ## The round trip -/

/-- A double word is its four pieces, as a descriptor holds a base. -/
theorem dword_pieces (x : Uint32) :
    dword (word (x.extractLsb' 24 8) (x.extractLsb' 16 8))
      (word ((x.extractLsb' 0 16).extractLsb' 8 8) ((x.extractLsb' 0 16).extractLsb' 0 8)) = x := by
  have hhigh := word_bytes (x.extractLsb' 16 16)
  rw [extractLsb'_extractLsb' x 16 8 16 8 (by decide),
    extractLsb'_extractLsb' x 16 0 16 8 (by decide)] at hhigh
  rw [hhigh, word_bytes, dword_words]

/-- The granularity byte holds the top of the limit below and the flags above. -/
theorem granularity_fields (limit : Uint32) (granularity : Uint8) :
    let byte := ((limit >>> 16) &&& 0x0F#32).setWidth 8 ||| granularity &&& 0xF0#8
    byte.extractLsb' 0 4 = limit.extractLsb' 16 4 ∧
      byte.extractLsb' 4 4 = granularity.extractLsb' 4 4 := by
  have hlow : ∀ i < 4, (0x0F#32).getLsbD i = true ∧ (0xF0#8).getLsbD i = false := by decide
  have hhigh : ∀ i < 4, (0x0F#32).getLsbD (4 + i) = false ∧ (0xF0#8).getLsbD (4 + i) = true := by
    decide
  constructor <;> apply BitVec.eq_of_getLsbD_eq <;> intro i hi
  · obtain ⟨hkeep, hdrop⟩ := hlow i hi
    have hi8 : i < 8 := by omega
    simp only [BitVec.getLsbD_extractLsb', BitVec.getLsbD_or, BitVec.getLsbD_and,
      BitVec.getLsbD_setWidth, BitVec.getLsbD_ushiftRight, Nat.zero_add, hkeep, hdrop, hi8,
      decide_true, Bool.true_and, Bool.and_true, Bool.and_false, Bool.or_false]
  · obtain ⟨hdrop, hkeep⟩ := hhigh i hi
    simp only [BitVec.getLsbD_extractLsb', BitVec.getLsbD_or, BitVec.getLsbD_and,
      BitVec.getLsbD_setWidth, hkeep, hdrop, Bool.and_true, Bool.and_false, Bool.false_or]

/-- The limit is its pieces. -/
theorem limit_pieces (x : Uint32) :
    x.extractLsb' 16 4 ++ word ((x.extractLsb' 0 16).extractLsb' 8 8)
      ((x.extractLsb' 0 16).extractLsb' 0 8) = x.setWidth 20 := by
  rw [word_bytes]
  apply BitVec.eq_of_getLsbD_eq
  intro i hi
  rw [BitVec.getLsbD_append, BitVec.getLsbD_setWidth]
  by_cases hlow : i < 16
  · simp [hlow, hi]
  · have hsub : i - 16 < 4 := by omega
    have hsum : 16 + (i - 16) = i := by omega
    simp [hlow, hi, hsub, hsum]

/-- **The descriptor the processor reads is the one the kernel meant**, its limit cut to 20 bits. -/
theorem slot_addGdtDescriptor (g : Gdt) (num base limit : Uint32) (access granularity : Uint8) :
    (addGdtDescriptor g num base limit access granularity).slot num =
      { base := base
        limit := limit.setWidth 20
        access := access
        flags := granularity.extractLsb' 4 4 } := by
  obtain ⟨htop, hflags⟩ := granularity_fields limit granularity
  have hbase24 : ((base >>> 24) &&& 0xFF#32).setWidth 8 = base.extractLsb' 24 8 :=
    masked_field base 24 8 (by decide)
  have hbase16 : ((base >>> 16) &&& 0xFF#32).setWidth 8 = base.extractLsb' 16 8 :=
    masked_field base 16 8 (by decide)
  have hbase0 : (base &&& 0xFFFF#32).setWidth 16 = base.extractLsb' 0 16 :=
    masked_low base 16 (by decide)
  have hlimit0 : (limit &&& 0xFFFF#32).setWidth 16 = limit.extractLsb' 0 16 :=
    masked_low limit 16 (by decide)
  show decodeDescriptor (GdtEntry.bytes (Function.update g.entries num _ num)) = _
  rw [Function.update_self]
  simp only [decodeDescriptor, GdtEntry.bytes, hbase24, hbase16, hbase0, hlimit0, htop, hflags,
    dword_pieces, limit_pieces]

/-- The descriptor a row writes into its slot. -/
def GdtRow.writes (row : GdtRow) (slot : Uint32) : Option Descriptor :=
  if row.num = slot then
    some { base := row.base
           limit := row.limit.setWidth 20
           access := row.access
           flags := row.granularity.extractLsb' 4 4 }
  else none

theorem slot_addGdtRow (g : Gdt) (row : GdtRow) (slot : Uint32) :
    (addGdtRow g row).slot slot = (row.writes slot).getD (g.slot slot) := by
  unfold GdtRow.writes
  by_cases h : row.num = slot
  · subst h
    rw [if_pos rfl]
    exact slot_addGdtDescriptor g row.num row.base row.limit row.access row.granularity
  · have hsame : (addGdtRow g row).entries slot = g.entries slot :=
      Function.update_of_ne (Ne.symm h) _ _
    rw [if_neg h, Gdt.slot, hsame]
    rfl

/-- A slot holds the descriptor of the last call that named it. -/
theorem slot_rows (g : Gdt) (rows : List GdtRow) (slot : Uint32) :
    (rows.foldl addGdtRow g).slot slot
      = (lastWrite GdtRow.writes rows slot).getD (g.slot slot) := by
  have hstep : ∀ (g : Gdt) (row : GdtRow), True →
      (addGdtRow g row).slot slot = (row.writes slot).getD (g.slot slot) :=
    fun g row _ => slot_addGdtRow g row slot
  exact read_foldl Gdt.slot GdtRow.writes hstep g rows fun _ _ => trivial

/-! ## What `Initialize_GDT` leaves -/

/-- Loading the task register changes the busy bit of its own slot. -/
theorem slot_loadTask (g : Gdt) (sel : Uint16) (slot : Uint32) :
    (g.loadTask sel (g.slot (slotOf sel))).slot slot =
      if slot = slotOf sel then
        { g.slot (slotOf sel) with access := (g.slot (slotOf sel)).access ||| 0x02#8 }
      else g.slot slot := by
  by_cases h : slot = slotOf sel
  · subst h
    rw [if_pos rfl, Gdt.slot, Gdt.loadTask]
    dsimp only
    rw [Function.update_self]
    rfl
  · have hsame : (g.loadTask sel (g.slot (slotOf sel))).entries slot = g.entries slot :=
      Function.update_of_ne h _ _
    rw [if_neg h, Gdt.slot, hsame]
    rfl

/-- A descriptor marked as accessed. -/
def Descriptor.accessed (d : Descriptor) : Descriptor := { d with access := d.access ||| 0x01#8 }

/-- A load of a segment register marks the descriptor of its own slot. -/
theorem slot_loadSegment (g : Gdt) (sel : Uint16) (slot : Uint32) :
    (g.loadSegment sel).slot slot =
      if nullSelector sel = false ∧ slot = slotOf sel then (g.slot slot).accessed
      else g.slot slot := by
  unfold Gdt.loadSegment
  by_cases hnull : nullSelector sel = true
  · rw [if_pos hnull, if_neg fun h => Bool.false_ne_true (h.1.symm.trans hnull)]
  · rw [if_neg hnull]
    by_cases h : slot = slotOf sel
    · subst h
      rw [if_pos ⟨(Bool.not_eq_true _).mp hnull, rfl⟩, Gdt.slot]
      dsimp only
      rw [Function.update_self]
      rfl
    · rw [if_neg fun hor => h hor.2, Gdt.slot]
      dsimp only
      rw [Function.update_of_ne h]
      rfl

/-- It writes to the table alone. -/
theorem loadSegment_frame (g : Gdt) (sel : Uint16) :
    g.loadSegment sel = { g with entries := (g.loadSegment sel).entries } := by
  unfold Gdt.loadSegment
  split <;> rfl

theorem loadSegments_frame (g : Gdt) (sels : List Uint16) :
    sels.foldl Gdt.loadSegment g = { g with entries := (sels.foldl Gdt.loadSegment g).entries } := by
  induction sels generalizing g with
  | nil => rfl
  | cons sel sels ih =>
    rw [List.foldl_cons, ih, loadSegment_frame]

/-- Several loads, slot by slot. -/
theorem slot_loadSegments (g : Gdt) (sels : List Uint16) (slot : Uint32) :
    (sels.foldl Gdt.loadSegment g).slot slot =
      sels.foldl (fun d sel =>
        if nullSelector sel = false ∧ slot = slotOf sel then d.accessed else d) (g.slot slot) := by
  induction sels generalizing g with
  | nil => rfl
  | cons sel sels ih =>
    rw [List.foldl_cons, List.foldl_cons, ih, slot_loadSegment]

/-- The descriptors of the table, slot by slot: flat segments, those of the kernel accessed, and the
    busy task state segment. -/
def gdtDescriptors : List Descriptor :=
  [⟨0, 0, 0, 0⟩, ⟨0, 0xFFFFF, 0x9B, 0xC⟩, ⟨0, 0xFFFFF, 0x93, 0xC⟩, ⟨0, 0xFFFFF, 0xFA, 0xC⟩,
    ⟨0, 0xFFFFF, 0xF2, 0xC⟩, ⟨0, 103, 0xEB, 0⟩]

/-- The tables as `Initialize_GDT` leaves them. -/
structure Installed (g : Gdt) : Prop where
  gdtr : g.gdtr = { base := g.address, limit := 47 }
  tr : g.tr = { selector := 0x2B, base := 0, limit := 103 }
  tss : g.tssEntry = tssSetup
  slots : ∀ n, (h : n < gdtDescriptors.length) → g.slot (BitVec.ofNat 32 n) = gdtDescriptors[n]

/-- A selector of the table names the descriptor of its slot; any other names none. -/
theorem Installed.descriptor {g : Gdt} (h : Installed g) {sel : Uint16}
    (hti : sel.getLsbD 2 = false) : g.descriptor sel = gdtDescriptors[(slotOf sel).toNat]? := by
  have hslot : BitVec.ofNat 32 (slotOf sel).toNat = slotOf sel := by
    rw [BitVec.ofNat_toNat, BitVec.setWidth_eq]
  unfold Gdt.descriptor
  rw [h.gdtr]
  by_cases hin : (slotOf sel).toNat < gdtDescriptors.length
  · have hlimit : 8 * (slotOf sel).toNat + 7 ≤ (47 : Uint16).toNat := by
      change _ < 6 at hin
      change _ ≤ 47
      omega
    rw [if_pos ⟨rfl, hti, hlimit⟩, List.getElem?_eq_getElem hin, ← h.slots _ hin, hslot]
  · have hlimit : ¬ 8 * (slotOf sel).toNat + 7 ≤ (47 : Uint16).toNat := by
      change ¬ _ < 6 at hin
      change ¬ _ ≤ 47
      omega
    rw [if_neg fun hor => hlimit hor.2.2, List.getElem?_eq_none (Nat.not_lt.mp hin)]

/-- The globals when `gdt_loader` has executed its `lgdt`. -/
def gdtLoaded (g : Gdt) : Gdt :=
  let gp : GdtPtr := { base := g.address, limit := BitVec.ofNat 16 (8 * gdtSize - 1) }
  { gdtRows.foldl addGdtRow { g with gp := gp } with tssEntry := tssSetup, gdtr := gp }

theorem gdtLoaded_slot (g : Gdt) (slot : Uint32) :
    (gdtLoaded g).slot slot = (lastWrite GdtRow.writes gdtRows slot).getD (g.slot slot) :=
  slot_rows _ gdtRows slot

/-- The globals when `tss_loader` is called. -/
def segmentsLoaded (g : Gdt) : Gdt := gdtSegments.foldl Gdt.loadSegment (gdtLoaded g)

/-- The lines of `Initialize_GDT`. -/
def gdtLines (t : Terminal) : Terminal :=
  kprintf (kprintf t (fun _ => []) (str "Global Descriptor Table Initialized\n") fun _ => 0)
    (fun _ => []) (str "Task State Segment Initialized\n") fun _ => 0

/-- The table it leaves does not depend on the screen. -/
theorem initializeGdt_table (g : Gdt) (t : Terminal) :
    initializeGdt g t = ((segmentsLoaded g).ltr 0x2B).map fun g => (g, gdtLines t) := by
  unfold initializeGdt
  dsimp only
  split
  case h_1 hltr =>
    have hnone : (segmentsLoaded g).ltr 0x2B = none := hltr
    rw [hnone]
    rfl
  case h_2 g' hltr =>
    have hsome : (segmentsLoaded g).ltr 0x2B = some g' := hltr
    rw [hsome]
    rfl

/-- The registers and the segment it is loaded with, behind the loads. -/
theorem segmentsLoaded_frame (g : Gdt) :
    (segmentsLoaded g).gdtr = { base := (segmentsLoaded g).address, limit := 47 } ∧
      (segmentsLoaded g).tssEntry = tssSetup := by
  rw [segmentsLoaded, loadSegments_frame]
  exact ⟨rfl, rfl⟩

/-- The slots the kernel has written, behind the loads. -/
theorem segmentsLoaded_written (g : Gdt) {slot : Uint32} {d : Descriptor}
    (hlast : lastWrite GdtRow.writes gdtRows slot = some d) :
    (segmentsLoaded g).slot slot = gdtSegments.foldl (fun d sel =>
      if nullSelector sel = false ∧ slot = slotOf sel then d.accessed else d) d := by
  rw [segmentsLoaded, slot_loadSegments, gdtLoaded_slot, hlast]
  rfl

/-- **`Initialize_GDT`**: the processor takes the task register, and the table is as listed. -/
theorem initializeGdt_installed (g : Gdt) (t : Terminal) :
    ∃ g' t', initializeGdt g t = some (g', t') ∧ Installed g' := by
  have hrun := initializeGdt_table g t
  have hrows : ∀ n, (h : n < gdtDescriptors.length) → BitVec.ofNat 32 n ≠ slotOf 0x2B →
      (lastWrite GdtRow.writes gdtRows (BitVec.ofNat 32 n)).map (gdtSegments.foldl (fun d sel =>
        if nullSelector sel = false ∧ BitVec.ofNat 32 n = slotOf sel then d.accessed else d))
        = some gdtDescriptors[n] := by
    decide
  have hslots : ∀ n, (h : n < gdtDescriptors.length) → BitVec.ofNat 32 n ≠ slotOf 0x2B →
      (segmentsLoaded g).slot (BitVec.ofNat 32 n) = gdtDescriptors[n] := by
    intro n h hslot
    obtain ⟨d, hlast, hd⟩ := Option.map_eq_some_iff.mp (hrows n h hslot)
    exact (segmentsLoaded_written g hlast).trans hd
  have htss : (segmentsLoaded g).slot (slotOf 0x2B) = ⟨0, 103, 0xE9, 0⟩ := by
    have hlast : lastWrite GdtRow.writes gdtRows (slotOf 0x2B) = some ⟨0, 103, 0xE9, 0⟩ := by
      decide
    exact (segmentsLoaded_written g hlast).trans (by decide)
  obtain ⟨hgdtr, hentry⟩ := segmentsLoaded_frame g
  generalize segmentsLoaded g = g₁ at hrun hslots htss hgdtr hentry
  have hdescriptor : g₁.descriptor 0x2B = some ⟨0, 103, 0xE9, 0⟩ := by
    have hlimit : 8 * (slotOf 0x2B).toNat + 7 ≤ (47 : Uint16).toNat := by decide
    unfold Gdt.descriptor
    rw [hgdtr, ← htss]
    exact if_pos ⟨rfl, by decide, hlimit⟩
  have hltr : g₁.ltr 0x2B = some (g₁.loadTask 0x2B ⟨0, 103, 0xE9, 0⟩) := by
    rw [Gdt.ltr, hdescriptor]
    exact if_pos ⟨by decide, by decide, by decide⟩
  rw [hltr] at hrun
  refine ⟨_, _, hrun, hgdtr, rfl, hentry, fun n h => ?_⟩
  have hbusy : ∀ n, (h : n < gdtDescriptors.length) → BitVec.ofNat 32 n = slotOf 0x2B →
      (⟨0, 103, 0xEB, 0⟩ : Descriptor) = gdtDescriptors[n] := by
    decide
  rw [← htss, slot_loadTask]
  by_cases hslot : BitVec.ofNat 32 n = slotOf 0x2B
  · rw [if_pos hslot, htss, ← hbusy n h hslot]
    rfl
  · rw [if_neg hslot]
    exact hslots n h hslot

end FreeMicroNix
