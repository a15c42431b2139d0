/-
  The descriptor tables as bytes of memory.

  `Gdt.Table` and `Isa.Idt` keep the tables as functions from slots to entries.  Here they are what
  the linker and the compiler make of them: five objects in one memory, written by stores of one,
  two and four bytes in the order of the source, and read back by the processor through the
  registers `lgdt`, `lidt` and `ltr` load from that same memory.

  1. **Objects** — `Placement` is where the linker puts them, no two with a common address.
  2. **Stores** — the functions of `gdt.c` and `idt.c` again, on memory.
  3. **Records** — one call is one record laid (`addGdtDescriptor_lays`, `createIdtEntry_lays`).
  4. **Refinement** — `Represents` relates memory and tables; each call keeps it and writes nothing
     outside the objects (`run_represents`).
  5. **Runs** — so does any sequence of calls, and what the processor fetches is what the tables say
     (`tables_in_memory`).
-/
import FreeMicroNix.Gdt.Descriptors
import FreeMicroNix.Gdt.KernelStack
import FreeMicroNix.Lib.Records
import FreeMicroNix.Libc.Copy

namespace FreeMicroNix.InMemory

open PartialMemory

/-! ## Objects -/

/-- The globals of `gdt.c` and `idt.c`. -/
inductive TableObject where
  | gdt
  | gp
  | tssEntry
  | idt
  | idtp
  deriving DecidableEq

/-- `sizeof` -/
def TableObject.size : TableObject → Nat
  | gdt => 48
  | gp => 6
  | tssEntry => 104
  | idt => 2048
  | idtp => 6

/-- Where they are linked. -/
structure Placement where
  address : TableObject → Uint32
  apart : ∀ o o', o ≠ o' → Apart (address o) o.size (address o') o'.size

/-- Memory, and the registers loaded from it. -/
structure TableMemory where
  mem : Heap Uint8
  gdtr : GdtPtr
  idtr : IdtPtr
  tr : TaskRegister

/-- A word and a double word, low byte first. -/
def bytes16 (w : Uint16) : List Uint8 := [w.extractLsb' 0 8, w.extractLsb' 8 8]

def bytes32 (w : Uint32) : List Uint8 :=
  [w.extractLsb' 0 8, w.extractLsb' 8 8, w.extractLsb' 16 8, w.extractLsb' 24 8]

/-! ## Stores -/

/-- `Add_GDT_Descriptor`.  The last statement reads the byte it writes. -/
def addGdtDescriptor (p : Placement) (h : Heap Uint8) (num base limit : Uint32)
    (access granularity : Uint8) : Option (Heap Uint8) := do
  let slot := p.address .gdt + 8 * num
  let h ← store h (slot + 2#32) (bytes16 ((base &&& 0xFFFF#32).setWidth 16))
  let h ← store h (slot + 4#32) [((base >>> 16) &&& 0xFF#32).setWidth 8]
  let h ← store h (slot + 7#32) [((base >>> 24) &&& 0xFF#32).setWidth 8]
  let h ← store h (slot + 0#32) (bytes16 ((limit &&& 0xFFFF#32).setWidth 16))
  let h ← store h (slot + 5#32) [access]
  let h ← store h (slot + 6#32) [((limit >>> 16) &&& 0x0F#32).setWidth 8]
  let old ← h (slot + 6#32)
  store h (slot + 6#32) [old ||| granularity &&& 0xF0#8]

/-- `Create_IDT_Entry` -/
def createIdtEntry (p : Placement) (h : Heap Uint8) (num : Uint8) (base : Uint32) (sel : Uint16)
    (flags : Uint8) : Option (Heap Uint8) := do
  let slot := p.address .idt + 8 * num.setWidth 32
  let h ← store h (slot + 6#32) (bytes16 (((base >>> 16) &&& 0xFFFF#32).setWidth 16))
  let h ← store h (slot + 0#32) (bytes16 ((base &&& 0xFFFF#32).setWidth 16))
  let h ← store h (slot + 2#32) (bytes16 sel)
  let h ← store h (slot + 4#32) [0]
  store h (slot + 5#32) [flags]

/-- The assignments of `tss_setup` with their offsets, in the order of the source. -/
def tssStores : List (Nat × List Uint8) :=
  [(0, bytes32 0), (4, bytes32 0), (8, bytes32 0x10), (12, bytes32 0), (16, bytes32 0),
    (20, bytes32 0), (24, bytes32 0), (28, bytes32 0), (32, bytes32 0), (36, bytes32 0),
    (40, bytes32 0), (44, bytes32 0), (48, bytes32 0), (52, bytes32 3), (56, bytes32 0),
    (60, bytes32 0), (64, bytes32 0), (68, bytes32 0), (72, bytes32 0x13), (76, bytes32 0x0B),
    (80, bytes32 0), (84, bytes32 0x13), (88, bytes32 0x13), (92, bytes32 0x13), (96, bytes32 0),
    (100, bytes16 0), (102, bytes16 0)]

/-- `tss_setup` -/
def tssSetup (p : Placement) (h : Heap Uint8) : Option (Heap Uint8) :=
  tssStores.foldlM (fun h s => store h (p.address .tssEntry + BitVec.ofNat 32 s.1) s.2) h

/-- `tss_set_kernel_stack` -/
def tssSetKernelStack (p : Placement) (h : Heap Uint8) (stack : Uint32) : Option (Heap Uint8) :=
  store h (p.address .tssEntry + 4#32) (bytes32 stack)

/-! ## Fetches -/

/-- Eight bytes from memory. -/
def fetch (h : Heap Uint8) (a : Uint32) : Option (Fin 8 → Uint8) :=
  (load h a 8).map fun xs k => xs.getD k 0

/-- A pseudo-descriptor: the limit in two bytes, the base in four. -/
def fetchPointer (h : Heap Uint8) (a : Uint32) : Option (Uint16 × Uint32) := do
  let b0 ← h (a + 0#32)
  let b1 ← h (a + 1#32)
  let b2 ← h (a + 2#32)
  let b3 ← h (a + 3#32)
  let b4 ← h (a + 4#32)
  let b5 ← h (a + 5#32)
  some (word b1 b0, dword (word b5 b4) (word b3 b2))

/-- The descriptor a selector names. -/
def TableMemory.fetchDescriptor (m : TableMemory) (sel : Uint16) : Option Descriptor :=
  if sel.getLsbD 2 = false ∧ 8 * (slotOf sel).toNat + 7 ≤ m.gdtr.limit.toNat then
    (fetch m.mem (m.gdtr.base + 8 * slotOf sel)).map decodeDescriptor
  else none

/-- The gate of a vector. -/
def TableMemory.fetchGate (m : TableMemory) (v : Uint8) : Option Gate :=
  if 8 * v.toNat + 7 ≤ m.idtr.limit.toNat then
    (fetch m.mem (m.idtr.base + 8 * v.setWidth 32)).map decodeGate
  else none

/-- A segment register loaded: the processor marks the descriptor as accessed where it found it. -/
def TableMemory.loadSegment (m : TableMemory) (sel : Uint16) : Option TableMemory :=
  if nullSelector sel then some m
  else do
    let d ← m.fetchDescriptor sel
    let mem ← store m.mem (m.gdtr.base + 8 * slotOf sel + 5#32) [d.access ||| 0x01#8]
    some { m with mem := mem }

/-- `ltr`: the processor marks the descriptor busy where it found it. -/
def TableMemory.ltr (m : TableMemory) (sel : Uint16) : Option TableMemory := do
  let d ← m.fetchDescriptor sel
  if slotOf sel ≠ 0 ∧ d.availableTss ∧ d.present then
    let mem ← store m.mem (m.gdtr.base + 8 * slotOf sel + 5#32) [d.access ||| 0x02#8]
    some { m with mem := mem, tr := { selector := sel, base := d.base, limit := d.lastByte } }
  else none

/-! ## Functions that load a register -/

/-- `gdt_loader`: lgdt [gp], and the segment registers. -/
def gdtLoader (p : Placement) (m : TableMemory) : Option TableMemory := do
  let (limit, base) ← fetchPointer m.mem (p.address .gp)
  gdtSegments.foldlM TableMemory.loadSegment { m with gdtr := { limit := limit, base := base } }

/-- `Initialize_GDT` -/
def initializeGdt (p : Placement) (m : TableMemory) (t : Terminal) :
    Option (TableMemory × Terminal) := do
  let mem ← store m.mem (p.address .gp + 2#32) (bytes32 (p.address .gdt))
  let mem ← store mem (p.address .gp + 0#32) (bytes16 (BitVec.ofNat 16 (8 * gdtSize - 1)))
  let mem ← gdtRows.foldlM (fun mem row =>
    addGdtDescriptor p mem row.num row.base row.limit row.access row.granularity) mem
  let mem ← tssSetup p mem
  let m ← gdtLoader p { m with mem := mem }
  let t := kprintf t (fun _ => []) (str "Global Descriptor Table Initialized\n") fun _ => 0
  -- `tss_loader`: ltr 0x2B
  let m ← m.ltr 0x2B
  some (m, kprintf t (fun _ => []) (str "Task State Segment Initialized\n") fun _ => 0)

/-- `Install_IDT` -/
def installIdt (p : Placement) (m : TableMemory) (t : Terminal) :
    Option (TableMemory × Terminal) := do
  let mem ← store m.mem (p.address .idtp + 0#32) (bytes16 (BitVec.ofNat 16 (8 * numInterrupts - 1)))
  let mem ← store mem (p.address .idtp + 2#32) (bytes32 (p.address .idt))
  let (mem, _) ← Libc.memset mem (p.address .idt) 0 (BitVec.ofNat 32 (8 * numInterrupts))
  -- `idt_loader`: lidt [idtp]
  let (limit, base) ← fetchPointer mem (p.address .idtp)
  some ({ m with mem := mem, idtr := { limit := limit, base := base } },
    kprintf t (fun _ => []) (str "Interrupt Descriptor Table Initialized\n") fun _ => 0)

/-! ## Records -/

/-- An entry as a record. -/
def gdtRecord (e : GdtEntry) : List Uint8 := List.ofFn e.bytes

def idtRecord (e : IdtEntry) : List Uint8 := List.ofFn e.bytes

/-- A pseudo-descriptor, packed. -/
def pointerRecord (limit : Uint16) (base : Uint32) : List Uint8 := bytes16 limit ++ bytes32 base

def tssRecord (tss : TssEntry) : List Uint8 := tss.words.flatMap bytes32

section Records

variable {p : Placement} {h : Heap Uint8} {n : Nat}

theorem exists_eight {a : Uint32} (hmapped : Mapped h a 8) :
    ∃ b0 b1 b2 b3 b4 b5 b6 b7, h = lay h a [b0, b1, b2, b3, b4, b5, b6, b7] := by
  obtain ⟨xs, hcells, hlen⟩ := hmapped.exists_cells (by decide)
  match xs, hlen with
  | [b0, b1, b2, b3, b4, b5, b6, b7], _ =>
    exact ⟨b0, b1, b2, b3, b4, b5, b6, b7, (lay_of_cells hcells).symm⟩

/-- The bound of a field, by evaluation. -/
theorem field_fits {k m : Nat} (h : k.ble m = true) : k ≤ m := Nat.le_of_ble_eq_true h

/-- **One descriptor**: eight stores are one record, whatever was there. -/
theorem addGdtDescriptor_lays {num : Uint32} (hmapped : Mapped h (p.address .gdt + 8 * num) 8)
    (base limit : Uint32) (access granularity : Uint8) (e : GdtEntry) :
    addGdtDescriptor p h num base limit access granularity
      = some (lay h (p.address .gdt + 8 * num)
          (gdtRecord (e.assign base limit access granularity))) := by
  obtain ⟨b0, b1, b2, b3, b4, b5, b6, b7, hstart⟩ := exists_eight hmapped
  have hn : 8 ≤ 2 ^ 32 := by decide
  unfold addGdtDescriptor
  rw [hstart]
  refine (bind_of_eq_some (store_field hmapped hn rfl (field_fits rfl)) _).trans ?_
  refine (bind_of_eq_some (store_field hmapped hn rfl (field_fits rfl)) _).trans ?_
  refine (bind_of_eq_some (store_field hmapped hn rfl (field_fits rfl)) _).trans ?_
  refine (bind_of_eq_some (store_field hmapped hn rfl (field_fits rfl)) _).trans ?_
  refine (bind_of_eq_some (store_field hmapped hn rfl (field_fits rfl)) _).trans ?_
  refine (bind_of_eq_some (store_field hmapped hn rfl (field_fits rfl)) _).trans ?_
  -- the byte the first of the two statements on it has left
  refine (bind_of_eq_some (show _ = some (((limit >>> 16) &&& 0x0F#32).setWidth 8) from
    lay_inside h _ (by decide) (field_fits rfl)) _).trans ?_
  refine (store_field hmapped hn rfl (field_fits rfl)).trans ?_
  rw [← hstart]
  rfl

/-- **One gate.** -/
theorem createIdtEntry_lays {num : Uint8}
    (hmapped : Mapped h (p.address .idt + 8 * num.setWidth 32) 8) (base : Uint32) (sel : Uint16)
    (flags : Uint8) :
    createIdtEntry p h num base sel flags
      = some (lay h (p.address .idt + 8 * num.setWidth 32)
          (idtRecord
            { baseHi := ((base >>> 16) &&& 0xFFFF#32).setWidth 16
              baseLo := (base &&& 0xFFFF#32).setWidth 16
              sel := sel
              always0 := 0
              flags := flags })) := by
  obtain ⟨b0, b1, b2, b3, b4, b5, b6, b7, hstart⟩ := exists_eight hmapped
  have hn : 8 ≤ 2 ^ 32 := by decide
  unfold createIdtEntry
  rw [hstart]
  refine (bind_of_eq_some (store_field hmapped hn rfl (field_fits rfl)) _).trans ?_
  refine (bind_of_eq_some (store_field hmapped hn rfl (field_fits rfl)) _).trans ?_
  refine (bind_of_eq_some (store_field hmapped hn rfl (field_fits rfl)) _).trans ?_
  refine (bind_of_eq_some (store_field hmapped hn rfl (field_fits rfl)) _).trans ?_
  refine (store_field hmapped hn rfl (field_fits rfl)).trans ?_
  rw [← hstart]
  rfl

/-- **The segment**: the assignments go from its first field to its last. -/
theorem tssSetup_lays (hmapped : Mapped h (p.address .tssEntry) 104) :
    tssSetup p h = some (lay h (p.address .tssEntry) (tssRecord FreeMicroNix.tssSetup)) := by
  have hlays := stores_consecutive hmapped (by decide)
    (show Consecutive ([] : List Uint8).length tssStores by decide) (by decide)
  rw [lay_nil] at hlays
  refine hlays.trans ?_
  have hrecord : [] ++ tssStores.flatMap Prod.snd = tssRecord FreeMicroNix.tssSetup := by decide
  rw [hrecord]

theorem fetchPointer_of_cells {a : Uint32} {limit : Uint16} {base : Uint32}
    (hcells : Cells h a (pointerRecord limit base)) : fetchPointer h a = some (limit, base) := by
  have hbyte : ∀ i x, (pointerRecord limit base)[i]? = some x →
      h (a + BitVec.ofNat 32 i) = some x := hcells
  unfold fetchPointer
  rw [hbyte 0 _ rfl, hbyte 1 _ rfl, hbyte 2 _ rfl, hbyte 3 _ rfl, hbyte 4 _ rfl, hbyte 5 _ rfl]
  show some (word (limit.extractLsb' 8 8) (limit.extractLsb' 0 8),
    dword (word (base.extractLsb' 24 8) (base.extractLsb' 16 8))
      (word (base.extractLsb' 8 8) (base.extractLsb' 0 8))) = some (limit, base)
  have hbase := dword_pieces base
  rw [extractLsb'_extractLsb' base 0 8 16 8 (by decide),
    extractLsb'_extractLsb' base 0 0 16 8 (by decide)] at hbase
  rw [word_bytes, hbase]

/-- A pseudo-descriptor written over another, from its base or from its limit on. -/
theorem pointer_lays {a : Uint32} {l : Uint16} {b : Uint32} (hcells : Cells h a (pointerRecord l b))
    (limit : Uint16) (base : Uint32) :
    (∃ h', store h (a + 2#32) (bytes32 base) = some h' ∧
      store h' (a + 0#32) (bytes16 limit) = some (lay h a (pointerRecord limit base))) ∧
    ∃ h', store h (a + 0#32) (bytes16 limit) = some h' ∧
      store h' (a + 2#32) (bytes32 base) = some (lay h a (pointerRecord limit base)) := by
  have hmapped : Mapped h a 6 := hcells.mapped
  have hn : 6 ≤ 2 ^ 32 := by decide
  have hstart : lay h a (pointerRecord l b) = h := lay_of_cells hcells
  constructor
  · have hfirst := store_field hmapped hn (show (pointerRecord l b).length = 6 from rfl)
      (show 2 + (bytes32 base).length ≤ 6 from field_fits rfl)
    rw [hstart] at hfirst
    exact ⟨_, hfirst, store_field hmapped hn rfl (field_fits rfl)⟩
  · have hfirst := store_field hmapped hn (show (pointerRecord l b).length = 6 from rfl)
      (show 0 + (bytes16 limit).length ≤ 6 from field_fits rfl)
    rw [hstart] at hfirst
    exact ⟨_, hfirst, store_field hmapped hn rfl (field_fits rfl)⟩

theorem fetch_of_cells {a : Uint32} {b : Fin 8 → Uint8} (hcells : Cells h a (List.ofFn b)) :
    fetch h a = some b := by
  have hload := load_of_cells hcells
  rw [List.length_ofFn] at hload
  rw [fetch, hload]
  refine congrArg some (funext fun k => ?_)
  show (List.ofFn b).getD k 0 = b k
  rw [List.getD_eq_getElem?_getD, List.getElem?_ofFn, dif_pos k.isLt]
  rfl

end Records

/-! ## Refinement -/

/-- What the objects hold. -/
def content (s : Tables) : TableObject → List Uint8
  | .gdt => table gdtSize gdtRecord s.gdt.entries
  | .gp => pointerRecord s.gdt.gp.limit s.gdt.gp.base
  | .tssEntry => tssRecord s.gdt.tssEntry
  | .idt => table numInterrupts idtRecord s.idt.entries
  | .idtp => pointerRecord s.idt.idtp.limit s.idt.idtp.base

theorem length_gdtRecord (e : GdtEntry) : (gdtRecord e).length = 8 := List.length_ofFn

theorem length_idtRecord (e : IdtEntry) : (idtRecord e).length = 8 := List.length_ofFn

theorem length_content (s : Tables) : ∀ o, (content s o).length = o.size
  | .gdt => length_table length_gdtRecord
  | .gp => rfl
  | .tssEntry => rfl
  | .idt => length_table length_idtRecord
  | .idtp => rfl

theorem size_le (o : TableObject) : o.size ≤ 2 ^ 32 := by
  cases o <;> decide

/-- **The relation**: the bytes of every object, the registers, and the addresses the kernel's code
    uses. -/
structure Represents (p : Placement) (m : TableMemory) (s : Tables) : Prop where
  cells : ∀ o, Cells m.mem (p.address o) (content s o)
  gdtr : m.gdtr = s.gdt.gdtr
  idtr : m.idtr = s.idt.idtr
  tr : m.tr = s.gdt.tr
  gdtAddress : s.gdt.address = p.address .gdt
  idtAddress : s.idt.address = p.address .idt

/-- The addresses of no object. -/
def Placement.Outside (p : Placement) (a : Uint32) : Prop := ∀ o, ¬ Within (p.address o) o.size a

/-- `memset` leaves entries of zeros. -/
theorem idtTable_zero :
    table numInterrupts idtRecord (fun _ : Uint8 => IdtEntry.zero) = List.replicate 2048 0 := by
  have hzero : idtRecord IdtEntry.zero = List.replicate 8 0 := by decide
  show ((List.range numInterrupts).map fun _ => idtRecord IdtEntry.zero).flatten = _
  rw [hzero, List.map_const', List.length_range, List.flatten_replicate_replicate]
  rfl

section Refinement

variable {p : Placement} {m : TableMemory} {s s' : Tables} {mem : Heap Uint8}

theorem mapped_object (hcells : ∀ o, Cells mem (p.address o) (content s o)) (o : TableObject) :
    Mapped mem (p.address o) o.size := by
  rw [← length_content s o]
  exact (hcells o).mapped

/-- A slot of either table. -/
theorem mapped_slot (hcells : ∀ o, Cells mem (p.address o) (content s o)) (o : TableObject) {k : Nat}
    (hk : 8 * k + 8 ≤ o.size) : Mapped mem (p.address o + BitVec.ofNat 32 (8 * k)) 8 :=
  ((mapped_object hcells o).mono hk).drop (hk.trans (size_le o))

/-- An object laid as the tables have it then. -/
theorem cells_lay_content (hcells : ∀ o, Cells mem (p.address o) (content s o)) (o : TableObject)
    (hothers : ∀ o', o' ≠ o → content s' o' = content s o') :
    ∀ o', Cells (lay mem (p.address o) (content s' o)) (p.address o') (content s' o') :=
  cells_lay_object hcells p.apart (length_content s) (length_content s') size_le o hothers

theorem lay_content_outside (mem : Heap Uint8) (s' : Tables) (o : TableObject) {a : Uint32}
    (ha : p.Outside a) : lay mem (p.address o) (content s' o) a = mem a := by
  refine lay_outside mem ?_
  rw [length_content]
  exact ha o

/-- The slot of a selector or of a call. -/
theorem gdt_slot (p : Placement) (num : Uint32) :
    p.address .gdt + 8 * num = p.address .gdt + BitVec.ofNat 32 (8 * num.toNat) := by
  bv_omega

theorem idt_slot (p : Placement) (v : Uint8) :
    p.address .idt + 8 * v.setWidth 32 = p.address .idt + BitVec.ofNat 32 (8 * v.toNat) := by
  bv_omega

/-- The tables with one global entry replaced. -/
def setGdtEntry (s : Tables) (num : Uint32) (e : GdtEntry) : Tables :=
  { s with gdt := { s.gdt with entries := Function.update s.gdt.entries num e } }

theorem lay_gdtRecord (hcells : ∀ o, Cells mem (p.address o) (content s o)) {num : Uint32}
    (hnum : num.toNat < gdtSize) (e : GdtEntry) :
    lay mem (p.address .gdt + 8 * num) (gdtRecord e)
      = lay mem (p.address .gdt) (content (setGdtEntry s num e) .gdt) := by
  rw [gdt_slot]
  exact lay_record (hcells .gdt) length_gdtRecord (by decide) (by decide) hnum e

/-- One `Add_GDT_Descriptor`. -/
theorem addGdtRow_lays (hcells : ∀ o, Cells mem (p.address o) (content s o)) (row : GdtRow)
    (hrow : row.num.toNat < gdtSize) :
    addGdtDescriptor p mem row.num row.base row.limit row.access row.granularity
      = some (lay mem (p.address .gdt) (content { s with gdt := addGdtRow s.gdt row } .gdt)) := by
  have hslot : Mapped mem (p.address .gdt + 8 * row.num) 8 := by
    rw [gdt_slot]
    refine mapped_slot hcells .gdt ?_
    show 8 * row.num.toNat + 8 ≤ 48
    change row.num.toNat < 6 at hrow
    omega
  rw [addGdtDescriptor_lays hslot _ _ _ _ (s.gdt.entries row.num), lay_gdtRecord hcells hrow]
  rfl

/-- The rows of `Initialize_GDT`, one after the other. -/
theorem addGdtRows_lays (rows : List GdtRow) (hrows : ∀ row ∈ rows, row.num.toNat < gdtSize)
    (hcells : ∀ o, Cells mem (p.address o) (content s o)) :
    ∃ mem', rows.foldlM (fun mem row =>
        addGdtDescriptor p mem row.num row.base row.limit row.access row.granularity) mem
        = some mem' ∧
      (∀ o, Cells mem' (p.address o) (content { s with gdt := rows.foldl addGdtRow s.gdt } o)) ∧
      ∀ a, p.Outside a → mem' a = mem a := by
  induction rows generalizing mem s with
  | nil => exact ⟨mem, rfl, hcells, fun _ _ => rfl⟩
  | cons row rows ih =>
    have hrow := addGdtRow_lays hcells row (hrows row List.mem_cons_self)
    have hothers : ∀ o', o' ≠ .gdt →
        content { s with gdt := addGdtRow s.gdt row } o' = content s o' := by
      intro o' ho'
      cases o' <;> first | rfl | exact absurd rfl ho'
    have hnext := cells_lay_content hcells .gdt hothers
    obtain ⟨mem', hrun, hcells', houtside⟩ :=
      ih (fun r hr => hrows r (List.mem_cons_of_mem row hr)) hnext
    refine ⟨mem', ?_, hcells', fun a ha => ?_⟩
    · rw [List.foldlM_cons, hrow]
      exact hrun
    · rw [houtside a ha, lay_content_outside _ _ _ ha]

/-- One `Create_IDT_Entry`. -/
theorem createGate_lays (hcells : ∀ o, Cells mem (p.address o) (content s o)) (row : GateRow) :
    createIdtEntry p mem row.num row.base row.sel row.flags
      = some (lay mem (p.address .idt)
          (content (DescriptorCall.run s (.createIdtEntry row)) .idt)) := by
  have hnum : row.num.toNat < 256 := row.num.isLt
  have hslot : Mapped mem (p.address .idt + 8 * row.num.setWidth 32) 8 := by
    rw [idt_slot]
    refine mapped_slot hcells .idt ?_
    show 8 * row.num.toNat + 8 ≤ 2048
    omega
  rw [createIdtEntry_lays hslot, idt_slot]
  exact congrArg some
    (lay_record (hcells .idt) length_idtRecord (by decide) (by decide) hnum _)

/-! ## What the processor finds -/

/-- **The descriptor of a selector**, out of the bytes. -/
theorem Represents.fetchDescriptor (hrep : Represents p m s) {sel : Uint16}
    (hslot : (slotOf sel).toNat < gdtSize) (hbase : s.gdt.gdtr.base = s.gdt.address) :
    m.fetchDescriptor sel = s.gdt.descriptor sel := by
  have hentry : Cells m.mem (p.address .gdt + 8 * slotOf sel)
      (List.ofFn (s.gdt.entries (slotOf sel)).bytes) := by
    rw [gdt_slot]
    exact (hrep.cells .gdt).entry length_gdtRecord hslot
  unfold TableMemory.fetchDescriptor Gdt.descriptor
  rw [hrep.gdtr, hbase, hrep.gdtAddress, fetch_of_cells hentry]
  by_cases hin : sel.getLsbD 2 = false ∧ 8 * (slotOf sel).toNat + 7 ≤ s.gdt.gdtr.limit.toNat
  · rw [if_pos hin, if_pos ⟨rfl, hin⟩]
    rfl
  · rw [if_neg hin, if_neg fun hor => hin hor.2]

/-- **The gate of a vector**, out of the bytes. -/
theorem Represents.fetchGate (hrep : Represents p m s) (hbase : s.idt.idtr.base = s.idt.address)
    (v : Uint8) : m.fetchGate v = s.idt.gate v := by
  have hentry : Cells m.mem (p.address .idt + 8 * v.setWidth 32)
      (List.ofFn (s.idt.entries v).bytes) := by
    rw [idt_slot]
    exact (hrep.cells .idt).entry length_idtRecord v.isLt
  unfold TableMemory.fetchGate Idt.gate
  rw [hrep.idtr, hbase, hrep.idtAddress, fetch_of_cells hentry]
  by_cases hin : 8 * v.toNat + 7 ≤ s.idt.idtr.limit.toNat
  · rw [if_pos hin, if_pos ⟨rfl, hin⟩]
    rfl
  · rw [if_neg hin, if_neg fun hor => hin hor.2]

/-- The access byte of a descriptor written where the processor found it. -/
theorem Represents.storeAccess (hrep : Represents p m s) {slot : Uint32}
    (hslot : slot.toNat < gdtSize) (hbase : s.gdt.gdtr.base = s.gdt.address) (access : Uint8) :
    ∃ mem, store m.mem (m.gdtr.base + 8 * slot + 5#32) [access] = some mem ∧
      Represents p { m with mem := mem }
        (setGdtEntry s slot { s.gdt.entries slot with access := access }) ∧
      ∀ a, p.Outside a → mem a = m.mem a := by
  let e : GdtEntry := { s.gdt.entries slot with access := access }
  have hentry : Cells m.mem (p.address .gdt + 8 * slot) (gdtRecord (s.gdt.entries slot)) := by
    rw [gdt_slot]
    exact (hrep.cells .gdt).entry length_gdtRecord hslot
  have hmapped : Mapped m.mem (p.address .gdt + 8 * slot) 8 := hentry.mapped
  have hstore := store_field hmapped (by decide) (length_gdtRecord (s.gdt.entries slot))
    (show 5 + [access].length ≤ 8 from field_fits rfl)
  rw [lay_of_cells hentry] at hstore
  have hothers : ∀ o', o' ≠ .gdt → content (setGdtEntry s slot e) o' = content s o' := by
    intro o' ho'
    cases o' <;> first | rfl | exact absurd rfl ho'
  refine ⟨lay m.mem (p.address .gdt) (content (setGdtEntry s slot e) .gdt), ?_,
    ⟨cells_lay_content hrep.cells .gdt hothers, hrep.gdtr, hrep.idtr, hrep.tr, hrep.gdtAddress,
      hrep.idtAddress⟩, fun a ha => lay_content_outside _ _ _ ha⟩
  rw [hrep.gdtr, hbase, hrep.gdtAddress]
  exact hstore.trans (congrArg some (lay_gdtRecord hrep.cells hslot e))

/-- **A segment register** loaded through the bytes is one loaded through the table, the accessed bit
    included. -/
theorem Represents.loadSegment (hrep : Represents p m s) {sel : Uint16}
    (hslot : (slotOf sel).toNat < gdtSize) (hbase : s.gdt.gdtr.base = s.gdt.address)
    (hfound : nullSelector sel = false → s.gdt.descriptor sel ≠ none) :
    ∃ m', m.loadSegment sel = some m' ∧ Represents p m' { s with gdt := s.gdt.loadSegment sel } ∧
      ∀ a, p.Outside a → m'.mem a = m.mem a := by
  unfold TableMemory.loadSegment Gdt.loadSegment
  by_cases hnull : nullSelector sel = true
  · rw [if_pos hnull, if_pos hnull]
    exact ⟨m, rfl, hrep, fun _ _ => rfl⟩
  · rw [if_neg hnull, if_neg hnull]
    obtain ⟨d, hd⟩ := Option.ne_none_iff_exists'.mp (hfound ((Bool.not_eq_true _).mp hnull))
    have hfetch : m.fetchDescriptor sel = some d := (hrep.fetchDescriptor hslot hbase).trans hd
    have haccess : d.access = (s.gdt.entries (slotOf sel)).access := by
      have hin : s.gdt.descriptor sel = some (s.gdt.slot (slotOf sel)) := by
        unfold Gdt.descriptor at hd ⊢
        split at hd
        · exact if_pos ‹_›
        · cases hd
      rw [Option.some.inj (hd.symm.trans hin)]
      rfl
    obtain ⟨mem, hstore, hrep', houtside⟩ := hrep.storeAccess hslot hbase (d.access ||| 0x01#8)
    refine ⟨{ m with mem := mem }, ?_, ?_, houtside⟩
    · exact (bind_of_eq_some hfetch _).trans (bind_of_eq_some hstore _)
    · rw [haccess] at hrep'
      exact hrep'

/-- **`ltr`** on the bytes is `ltr` on the table, the busy bit included. -/
theorem Represents.ltr (hrep : Represents p m s) {sel : Uint16} {g : Gdt}
    (hslot : (slotOf sel).toNat < gdtSize) (hbase : s.gdt.gdtr.base = s.gdt.address)
    (hltr : s.gdt.ltr sel = some g) :
    ∃ m', m.ltr sel = some m' ∧ Represents p m' { s with gdt := g } ∧
      ∀ a, p.Outside a → m'.mem a = m.mem a := by
  unfold Gdt.ltr at hltr
  cases hd : s.gdt.descriptor sel with
  | none =>
    rw [hd] at hltr
    cases hltr
  | some d =>
    rw [hd] at hltr
    change (if _ then _ else _) = _ at hltr
    by_cases htakes : slotOf sel ≠ 0 ∧ d.availableTss ∧ d.present
    · rw [if_pos htakes] at hltr
      obtain rfl : s.gdt.loadTask sel d = g := Option.some.inj hltr
      have hfetch : m.fetchDescriptor sel = some d := (hrep.fetchDescriptor hslot hbase).trans hd
      obtain ⟨mem, hstore, hrep', houtside⟩ := hrep.storeAccess hslot hbase (d.access ||| 0x02#8)
      refine ⟨{ m with
          mem := mem
          tr := { selector := sel, base := d.base, limit := d.lastByte } }, ?_,
        ⟨hrep'.cells, hrep'.gdtr, hrep'.idtr, rfl, hrep'.gdtAddress, hrep'.idtAddress⟩, houtside⟩
      refine (bind_of_eq_some hfetch _).trans ?_
      show (if _ then _ else _) = _
      rw [if_pos htakes]
      exact bind_of_eq_some hstore _
    · rw [if_neg htakes] at hltr
      cases hltr

/-- The segment registers, one after the other. -/
theorem Represents.segments (hrep : Represents p m s) (sels : List Uint16)
    (hslots : ∀ sel ∈ sels, (slotOf sel).toNat < gdtSize ∧ sel.getLsbD 2 = false)
    (hgdtr : s.gdt.gdtr = { base := s.gdt.address, limit := 47 }) :
    ∃ m', sels.foldlM TableMemory.loadSegment m = some m' ∧
      Represents p m' { s with gdt := sels.foldl Gdt.loadSegment s.gdt } ∧
      ∀ a, p.Outside a → m'.mem a = m.mem a := by
  induction sels generalizing m s with
  | nil => exact ⟨m, rfl, hrep, fun _ _ => rfl⟩
  | cons sel sels ih =>
    obtain ⟨hslot, hti⟩ := hslots sel List.mem_cons_self
    have hfound : s.gdt.descriptor sel ≠ none := by
      have hlimit : 8 * (slotOf sel).toNat + 7 ≤ (47 : Uint16).toNat := by
        change _ < 6 at hslot
        change _ ≤ 47
        omega
      unfold Gdt.descriptor
      rw [hgdtr, if_pos ⟨rfl, hti, hlimit⟩]
      exact Option.some_ne_none _
    obtain ⟨m₁, hload, hrep₁, houtside₁⟩ :=
      hrep.loadSegment hslot (by rw [hgdtr]) fun _ => hfound
    have hgdtr₁ : (s.gdt.loadSegment sel).gdtr
        = { base := (s.gdt.loadSegment sel).address, limit := 47 } := by
      rw [loadSegment_frame]
      exact hgdtr
    obtain ⟨m', hloads, hrep', houtside'⟩ :=
      ih hrep₁ (fun sel hsel => hslots sel (List.mem_cons_of_mem _ hsel)) hgdtr₁
    refine ⟨m', ?_, hrep', fun a ha => (houtside' a ha).trans (houtside₁ a ha)⟩
    rw [List.foldlM_cons, hload]
    exact hloads

/-- **`gdt_loader`**, with the table where the pseudo-descriptor says. -/
theorem Represents.gdtLoader (hrep : Represents p m s)
    (hgp : s.gdt.gp = { base := s.gdt.address, limit := 47 }) :
    ∃ m', gdtLoader p m = some m' ∧
      Represents p m' { s with
        gdt := gdtSegments.foldl Gdt.loadSegment { s.gdt with gdtr := s.gdt.gp } } ∧
      ∀ a, p.Outside a → m'.mem a = m.mem a := by
  have hpointer := fetchPointer_of_cells (hrep.cells .gp)
  have hloaded : Represents p { m with gdtr := s.gdt.gp }
      { s with gdt := { s.gdt with gdtr := s.gdt.gp } } :=
    ⟨hrep.cells, rfl, hrep.idtr, hrep.tr, hrep.gdtAddress, hrep.idtAddress⟩
  have hall : gdtSegments.all (fun sel => (slotOf sel).toNat < gdtSize && sel.getLsbD 2 = false)
      = true := by decide
  obtain ⟨m', hsegments, hleaves⟩ := hloaded.segments gdtSegments
    (fun sel hsel => by simpa using List.all_eq_true.mp hall sel hsel) hgp
  exact ⟨m', (bind_of_eq_some hpointer _).trans hsegments, hleaves⟩

/-! ## The calls -/

/-- What a call on memory leaves: the tables after it, and everything else as it was. -/
structure TablesWritten (p : Placement) (m m' : TableMemory) (s' : Tables) : Prop where
  represents : Represents p m' s'
  outside : ∀ a, p.Outside a → m'.mem a = m.mem a

/-- **`Initialize_GDT`** -/
theorem initializeGdt_leaves (hrep : Represents p m s) (t : Terminal) {g : Gdt} {t' : Terminal}
    (hrun : FreeMicroNix.initializeGdt s.gdt t = some (g, t')) :
    ∃ m', initializeGdt p m t = some (m', t') ∧ TablesWritten p m m' { s with gdt := g } := by
  let pointer : GdtPtr := { base := s.gdt.address, limit := BitVec.ofNat 16 (8 * gdtSize - 1) }
  let s₁ : Tables := { s with gdt := { s.gdt with gp := pointer } }
  let s₂ : Tables := { s₁ with gdt := gdtRows.foldl addGdtRow s₁.gdt }
  let s₃ : Tables := { s₂ with gdt := { s₂.gdt with tssEntry := FreeMicroNix.tssSetup } }
  -- the pseudo-descriptor
  obtain ⟨⟨mem₀, hbase₁, hlimit⟩, -⟩ :=
    pointer_lays (hrep.cells .gp) pointer.limit (p.address .gdt)
  have hothers₁ : ∀ o', o' ≠ .gp → content s₁ o' = content s o' := by
    intro o' ho'
    cases o' <;> first | rfl | exact absurd rfl ho'
  have hcells₁ := cells_lay_content hrep.cells .gp hothers₁
  have hgp : pointerRecord pointer.limit (p.address .gdt) = content s₁ .gp := by
    rw [← hrep.gdtAddress]
    rfl
  rw [hgp] at hlimit
  -- the rows
  obtain ⟨mem₂, hrows, hcells₂, houtside₂⟩ := addGdtRows_lays gdtRows (by decide) hcells₁
  -- the segment
  have hothers₃ : ∀ o', o' ≠ .tssEntry → content s₃ o' = content s₂ o' := by
    intro o' ho'
    cases o' <;> first | rfl | exact absurd rfl ho'
  have htss := tssSetup_lays (mapped_object hcells₂ .tssEntry)
  have hcells₃ := cells_lay_content hcells₂ .tssEntry hothers₃
  -- the registers
  have hrep₃ : Represents p
      { m with mem := lay mem₂ (p.address .tssEntry) (content s₃ .tssEntry) } s₃ :=
    ⟨hcells₃, hrep.gdtr, hrep.idtr, hrep.tr, hrep.gdtAddress, hrep.idtAddress⟩
  obtain ⟨m₄, hloader, hrep₄, houtside₄⟩ := hrep₃.gdtLoader rfl
  -- the task
  rw [initializeGdt_table] at hrun
  rcases Option.map_eq_some_iff.mp hrun with ⟨g', hltr, hpair⟩
  obtain ⟨rfl, rfl⟩ := Prod.mk.inj hpair
  have hrep₅ : Represents p m₄ { s with gdt := segmentsLoaded s.gdt } := hrep₄
  have hbase : (segmentsLoaded s.gdt).gdtr.base = (segmentsLoaded s.gdt).address :=
    congrArg GdtPtr.base (segmentsLoaded_frame s.gdt).1
  obtain ⟨m', htask, hrep', houtside'⟩ := hrep₅.ltr (by decide) hbase hltr
  refine ⟨m', ?_, hrep', fun a ha => ?_⟩
  · refine (bind_of_eq_some hbase₁ _).trans ?_
    refine (bind_of_eq_some hlimit _).trans ?_
    refine (bind_of_eq_some hrows _).trans ?_
    refine (bind_of_eq_some htss _).trans ?_
    refine (bind_of_eq_some hloader _).trans ?_
    exact bind_of_eq_some htask _
  · rw [houtside' a ha, houtside₄ a ha]
    refine (lay_content_outside _ s₃ _ ha).trans ?_
    rw [houtside₂ a ha]
    exact lay_content_outside _ s₁ _ ha

/-- **`Install_IDT`** -/
theorem installIdt_leaves (hrep : Represents p m s) (t : Terminal) :
    ∃ m', installIdt p m t = some (m', (FreeMicroNix.installIdt s.idt t).2) ∧
      TablesWritten p m m' { s with idt := (FreeMicroNix.installIdt s.idt t).1 } := by
  let pointer : IdtPtr := { base := s.idt.address, limit := BitVec.ofNat 16 (8 * numInterrupts - 1) }
  let s₁ : Tables := { s with idt := { s.idt with idtp := pointer } }
  let s₂ : Tables := { s₁ with idt := { s₁.idt with entries := fun _ => .zero } }
  obtain ⟨-, mem₀, hlimit, hbase⟩ :=
    pointer_lays (hrep.cells .idtp) pointer.limit (p.address .idt)
  have hothers₁ : ∀ o', o' ≠ .idtp → content s₁ o' = content s o' := by
    intro o' ho'
    cases o' <;> first | rfl | exact absurd rfl ho'
  have hcells₁ := cells_lay_content hrep.cells .idtp hothers₁
  have hidtp : pointerRecord pointer.limit (p.address .idt) = content s₁ .idtp := by
    rw [← hrep.idtAddress]
    rfl
  rw [hidtp] at hbase
  -- zeros are the entries `memset` leaves
  have hothers₂ : ∀ o', o' ≠ .idt → content s₂ o' = content s₁ o' := by
    intro o' ho'
    cases o' <;> first | rfl | exact absurd rfl ho'
  have hzeros : List.replicate 2048 (0 : Uint8) = content s₂ .idt := idtTable_zero.symm
  have hmemset : Libc.memset (lay m.mem (p.address .idtp) (content s₁ .idtp)) (p.address .idt) 0
      (BitVec.ofNat 32 (8 * numInterrupts))
        = some (lay (lay m.mem (p.address .idtp) (content s₁ .idtp)) (p.address .idt)
            (content s₂ .idt), p.address .idt) := by
    rw [← hzeros]
    exact Libc.memset_eq (mapped_object hcells₁ .idt) 0
  have hcells₂ := cells_lay_content hcells₁ .idt hothers₂
  have hpointer := fetchPointer_of_cells (hcells₂ .idtp)
  refine ⟨{ m with
      mem := lay (lay m.mem (p.address .idtp) (content s₁ .idtp)) (p.address .idt) (content s₂ .idt)
      idtr := pointer }, ?_,
    ⟨hcells₂, hrep.gdtr, rfl, hrep.tr, hrep.gdtAddress, hrep.idtAddress⟩, fun a ha => ?_⟩
  · refine (bind_of_eq_some hlimit _).trans ?_
    refine (bind_of_eq_some hbase _).trans ?_
    refine (bind_of_eq_some hmemset _).trans ?_
    exact bind_of_eq_some hpointer _
  · exact (lay_content_outside _ s₂ _ ha).trans (lay_content_outside _ s₁ _ ha)

/-- **`tss_set_kernel_stack`** -/
theorem tssSetKernelStack_leaves (hrep : Represents p m s) (stack : Uint32) :
    ∃ mem, tssSetKernelStack p m.mem stack = some mem ∧
      TablesWritten p m { m with mem := mem }
        { s with gdt := FreeMicroNix.tssSetKernelStack s.gdt stack } := by
  let s' : Tables := { s with gdt := FreeMicroNix.tssSetKernelStack s.gdt stack }
  have hothers : ∀ o', o' ≠ .tssEntry → content s' o' = content s o' := by
    intro o' ho'
    cases o' <;> first | rfl | exact absurd rfl ho'
  have hsplice : splice (content s .tssEntry) 4 (bytes32 stack) = content s' .tssEntry :=
    splice_append (show (bytes32 stack).length = (bytes32 s.gdt.tssEntry.esp0).length from rfl)
      ((s.gdt.tssEntry.words.drop 2).flatMap bytes32)
  have hstore := store_field (mapped_object hrep.cells .tssEntry) (size_le _)
    (length_content s .tssEntry) (show 4 + (bytes32 stack).length ≤ 104 from field_fits rfl)
  rw [lay_of_cells (hrep.cells .tssEntry), hsplice] at hstore
  exact ⟨_, hstore, ⟨cells_lay_content hrep.cells .tssEntry hothers, hrep.gdtr, hrep.idtr, hrep.tr,
    hrep.gdtAddress, hrep.idtAddress⟩, fun a ha => lay_content_outside _ s' _ ha⟩

end Refinement

/-! ## Runs -/

/-- A call of a function that writes to the objects. -/
inductive SetupCall where
  | descriptor (call : DescriptorCall)
  | initializeGdt
  | installIdt
  | tssSetKernelStack (stack : Uint32)

namespace SetupCall

/-- The call on the tables, and the line it prints. -/
def run (s : Tables × Terminal) : SetupCall → Option (Tables × Terminal)
  | descriptor call => some (call.run s.1, s.2)
  | initializeGdt => do
      let (g, t) ← FreeMicroNix.initializeGdt s.1.gdt s.2
      some ({ s.1 with gdt := g }, t)
  | installIdt =>
      let (i, t) := FreeMicroNix.installIdt s.1.idt s.2
      some ({ s.1 with idt := i }, t)
  | tssSetKernelStack stack =>
      some ({ s.1 with gdt := FreeMicroNix.tssSetKernelStack s.1.gdt stack }, s.2)

/-- The call on memory. -/
def runInMemory (p : Placement) (m : TableMemory × Terminal) :
    SetupCall → Option (TableMemory × Terminal)
  | descriptor (.addGdtDescriptor row _) => do
      let mem ← addGdtDescriptor p m.1.mem row.num row.base row.limit row.access row.granularity
      some ({ m.1 with mem := mem }, m.2)
  | descriptor (.createIdtEntry row) => do
      let mem ← createIdtEntry p m.1.mem row.num row.base row.sel row.flags
      some ({ m.1 with mem := mem }, m.2)
  | initializeGdt => InMemory.initializeGdt p m.1 m.2
  | installIdt => InMemory.installIdt p m.1 m.2
  | tssSetKernelStack stack => do
      let mem ← InMemory.tssSetKernelStack p m.1.mem stack
      some ({ m.1 with mem := mem }, m.2)

end SetupCall

section Runs

variable {p : Placement} {m : TableMemory} {s : Tables}

/-- **One call**: it goes through on both levels, prints the same, and leaves related states. -/
theorem run_represents (hrep : Represents p m s) (t : Terminal) (call : SetupCall) :
    ∃ s' m' t', call.run (s, t) = some (s', t') ∧ call.runInMemory p (m, t) = some (m', t') ∧
      TablesWritten p m m' s' := by
  cases call with
  | descriptor call =>
    cases call with
    | addGdtDescriptor row inTable =>
      have hlays := addGdtRow_lays hrep.cells row inTable
      have hothers : ∀ o', o' ≠ .gdt →
          content { s with gdt := addGdtRow s.gdt row } o' = content s o' := by
        intro o' ho'
        cases o' <;> first | rfl | exact absurd rfl ho'
      exact ⟨_, _, t, rfl, bind_of_eq_some hlays _, ⟨cells_lay_content hrep.cells .gdt hothers,
        hrep.gdtr, hrep.idtr, hrep.tr, hrep.gdtAddress, hrep.idtAddress⟩,
        fun a ha => lay_content_outside _ _ _ ha⟩
    | createIdtEntry row =>
      have hlays := createGate_lays hrep.cells row
      have hothers : ∀ o', o' ≠ .idt →
          content (DescriptorCall.run s (.createIdtEntry row)) o' = content s o' := by
        intro o' ho'
        cases o' <;> first | rfl | exact absurd rfl ho'
      exact ⟨_, _, t, rfl, bind_of_eq_some hlays _, ⟨cells_lay_content hrep.cells .idt hothers,
        hrep.gdtr, hrep.idtr, hrep.tr, hrep.gdtAddress, hrep.idtAddress⟩,
        fun a ha => lay_content_outside _ _ _ ha⟩
  | initializeGdt =>
    obtain ⟨g, t', hrun, -⟩ := initializeGdt_installed s.gdt t
    obtain ⟨m', hrun', hleaves⟩ := initializeGdt_leaves hrep t hrun
    exact ⟨_, m', t', bind_of_eq_some hrun _, hrun', hleaves⟩
  | installIdt =>
    obtain ⟨m', hrun', hleaves⟩ := installIdt_leaves hrep t
    exact ⟨_, m', _, rfl, hrun', hleaves⟩
  | tssSetKernelStack stack =>
    obtain ⟨mem, hrun', hleaves⟩ := tssSetKernelStack_leaves hrep stack
    exact ⟨_, _, t, rfl, bind_of_eq_some hrun' _, hleaves⟩

/-- Any sequence of calls. -/
theorem runs_represent (hrep : Represents p m s) (t : Terminal) (calls : List SetupCall) :
    ∃ s' m' t', calls.foldlM SetupCall.run (s, t) = some (s', t') ∧
      calls.foldlM (SetupCall.runInMemory p) (m, t) = some (m', t') ∧ TablesWritten p m m' s' := by
  induction calls generalizing m s t with
  | nil => exact ⟨s, m, t, rfl, rfl, hrep, fun _ _ => rfl⟩
  | cons call calls ih =>
    obtain ⟨s₁, m₁, t₁, hrun, hrun', hleaves⟩ := run_represents hrep t call
    obtain ⟨s', m', t', hruns, hruns', hleaves'⟩ := ih hleaves.represents t₁
    refine ⟨s', m', t', ?_, ?_, hleaves'.represents, fun a ha => ?_⟩
    · rw [List.foldlM_cons, hrun]
      exact hruns
    · rw [List.foldlM_cons, hrun']
      exact hruns'
    · rw [hleaves'.outside a ha, hleaves.outside a ha]

/-- **The tables in memory.**  After any sequence of calls the bytes of the five objects are those of
    the tables, nothing else has changed, and what the processor fetches through its registers is
    what the tables say, for every vector and every selector of the table. -/
theorem tables_in_memory (hrep : Represents p m s) (t : Terminal) (calls : List SetupCall) :
    ∃ s' m' t', calls.foldlM SetupCall.run (s, t) = some (s', t') ∧
      calls.foldlM (SetupCall.runInMemory p) (m, t) = some (m', t') ∧
      (∀ o, Cells m'.mem (p.address o) (content s' o)) ∧
      (∀ a, p.Outside a → m'.mem a = m.mem a) ∧
      (s'.idt.idtr.base = s'.idt.address → ∀ v, m'.fetchGate v = s'.idt.gate v) ∧
      (s'.gdt.gdtr.base = s'.gdt.address → ∀ sel, (slotOf sel).toNat < gdtSize →
        m'.fetchDescriptor sel = s'.gdt.descriptor sel) := by
  obtain ⟨s', m', t', hrun, hrun', hrep', houtside⟩ := runs_represent hrep t calls
  exact ⟨s', m', t', hrun, hrun', hrep'.cells, houtside, fun hbase v => hrep'.fetchGate hbase v,
    fun hbase _ hslot => hrep'.fetchDescriptor hslot hbase⟩

end Runs

/-! ## An image as it is linked -/

/-- The globals one behind the other, in the kernel's zeroed data. -/
def linkedPlacement : Placement where
  address
    | .gdt => 0xC0109100
    | .gp => 0xC0109200
    | .tssEntry => 0xC0109300
    | .idt => 0xC0109400
    | .idtp => 0xC0109D00
  apart o o' hne := by
    cases o <;> cases o' <;> first
      | exact absurd rfl hne
      | exact apart_of_le (field_fits rfl) (field_fits rfl)

def linkedMemory : TableMemory where
  mem _ := some 0
  gdtr := ⟨0, 0⟩
  idtr := ⟨0, 0⟩
  tr := ⟨0, 0, 0⟩

def linkedTables : Tables where
  gdt := coldGdt
  idt := ⟨0xC0109400, fun _ => .zero, ⟨0, 0⟩, ⟨0, 0⟩⟩

theorem linkedTables_zero : ∀ o, content linkedTables o = List.replicate o.size 0
  | .gdt => by decide
  | .gp => by decide
  | .tssEntry => by decide
  | .idt => idtTable_zero
  | .idtp => by decide

theorem linked_represents : Represents linkedPlacement linkedMemory linkedTables where
  cells o i x hx := by
    rw [linkedTables_zero] at hx
    have hzero := List.eq_of_mem_replicate (List.mem_of_getElem? hx)
    exact congrArg some hzero.symm
  gdtr := rfl
  idtr := rfl
  tr := rfl
  gdtAddress := rfl
  idtAddress := rfl

/-- Both tables, and the gate of the timer. -/
theorem tables_in_linked_memory :
    ∃ s' m' t', [SetupCall.initializeGdt, .installIdt,
        .descriptor (.createIdtEntry ⟨32, 0xC0101000, 0x08, 0x8E⟩)].foldlM SetupCall.run
          (linkedTables, coldTerminal) = some (s', t') ∧
      [SetupCall.initializeGdt, .installIdt,
        .descriptor (.createIdtEntry ⟨32, 0xC0101000, 0x08, 0x8E⟩)].foldlM
          (SetupCall.runInMemory linkedPlacement) (linkedMemory, coldTerminal) = some (m', t') ∧
      (∀ o, Cells m'.mem (linkedPlacement.address o) (content s' o)) ∧
      (∀ a, linkedPlacement.Outside a → m'.mem a = linkedMemory.mem a) ∧
      (s'.idt.idtr.base = s'.idt.address → ∀ v, m'.fetchGate v = s'.idt.gate v) ∧
      (s'.gdt.gdtr.base = s'.gdt.address → ∀ sel, (slotOf sel).toNat < gdtSize →
        m'.fetchDescriptor sel = s'.gdt.descriptor sel) :=
  tables_in_memory linked_represents coldTerminal _

end FreeMicroNix.InMemory
