/-
  `kernel/x86/isa/interrupt/idt.c`: the interrupt descriptor table, as the kernel writes it and as
  the processor reads it.

  An `IdtEntry` has the fields of `idt_entry_t`, and `bytes` is their layout in memory: eight
  bytes, little-endian, no padding.  `decodeGate` is the processor's reading of eight bytes as a
  gate descriptor.  `decode_createIdtEntry` is the round trip between the two, for every offset,
  selector and flag byte.
-/
import FreeMicroNix.Video.Vga

namespace FreeMicroNix

/-! ## Entries and their bytes -/

/-- `idt_entry_t` -/
structure IdtEntry where
  baseLo : Uint16
  sel : Uint16
  always0 : Uint8
  flags : Uint8
  baseHi : Uint16
  deriving DecidableEq

/-- The eight bytes of an entry, in memory order. -/
def IdtEntry.bytes (e : IdtEntry) : Fin 8 → Uint8
  | 0 => e.baseLo.extractLsb' 0 8
  | 1 => e.baseLo.extractLsb' 8 8
  | 2 => e.sel.extractLsb' 0 8
  | 3 => e.sel.extractLsb' 8 8
  | 4 => e.always0
  | 5 => e.flags
  | 6 => e.baseHi.extractLsb' 0 8
  | 7 => e.baseHi.extractLsb' 8 8

/-- What `memset` to zero leaves. -/
def IdtEntry.zero : IdtEntry := ⟨0, 0, 0, 0, 0⟩

/-- `idt_ptr_t` -/
structure IdtPtr where
  limit : Uint16
  base : Uint32
  deriving DecidableEq

/-- The table `idt`, linked at `address`, its pseudo-descriptor, and the register `lidt` loads. -/
structure Idt where
  address : Uint32
  entries : Uint8 → IdtEntry
  idtp : IdtPtr
  idtr : IdtPtr

/-- `NUM_INTERRUPTS` -/
def numInterrupts : Nat := 256

/-- `Create_IDT_Entry` -/
def createIdtEntry (i : Idt) (num : Uint8) (base : Uint32) (sel : Uint16) (flags : Uint8) : Idt :=
  { i with
    entries := Function.update i.entries num
      { baseHi := ((base >>> 16) &&& 0xFFFF#32).setWidth 16
        baseLo := (base &&& 0xFFFF#32).setWidth 16
        sel := sel
        always0 := 0
        flags := flags } }

/-- `Install_IDT` -/
def installIdt (i : Idt) (t : Terminal) : Idt × Terminal :=
  let i := { i with
    idtp := { limit := BitVec.ofNat 16 (8 * numInterrupts - 1), base := i.address }
    entries := fun _ => .zero }
  -- `idt_loader`: lidt [idtp]
  let i := { i with idtr := i.idtp }
  -- no directive: no argument word is read
  (i, kprintf t (fun _ => []) (str "Interrupt Descriptor Table Initialized\n") fun _ => 0)

/-! ## The processor's view -/

/-- A gate descriptor, decoded. -/
structure Gate where
  offset : Uint32
  selector : Uint16
  present : Bool
  dpl : BitVec 2
  /-- The S bit: clear for gates and other system descriptors. -/
  system : Bool
  type : BitVec 4
  deriving DecidableEq

/-- Eight bytes read as a gate descriptor. -/
def decodeGate (b : Fin 8 → Uint8) : Gate where
  offset := dword (word (b 7) (b 6)) (word (b 1) (b 0))
  selector := word (b 3) (b 2)
  present := (b 5).getLsbD 7
  dpl := (b 5).extractLsb' 5 2
  system := (b 5).getLsbD 4
  type := (b 5).extractLsb' 0 4

/-- The gate of a vector: the eight bytes at eight times the vector from the base of the table,
    if they lie within its limit. -/
def Idt.gate (i : Idt) (v : Uint8) : Option Gate :=
  if i.idtr.base = i.address ∧ 8 * v.toNat + 7 ≤ i.idtr.limit.toNat then
    some (decodeGate (i.entries v).bytes)
  else none

/-! ## The round trip -/

/-- The two shifted and masked halves are the two words. -/
theorem base_words (base : Uint32) :
    dword (((base >>> 16) &&& 0xFFFF#32).setWidth 16) ((base &&& 0xFFFF#32).setWidth 16)
      = base := by
  have hhi : ((base >>> 16) &&& 0xFFFF#32).setWidth 16 = base.extractLsb' 16 16 :=
    masked_field base 16 16 (by decide)
  have hlo : (base &&& 0xFFFF#32).setWidth 16 = base.extractLsb' 0 16 :=
    masked_low base 16 (by decide)
  rw [hhi, hlo, dword_words]

/-- **The gate the processor reads is the one the kernel meant**, and no other entry changes. -/
theorem decode_createIdtEntry (i : Idt) (num : Uint8) (base : Uint32) (sel : Uint16)
    (flags : Uint8) :
    decodeGate ((createIdtEntry i num base sel flags).entries num).bytes =
      { offset := base
        selector := sel
        present := flags.getLsbD 7
        dpl := flags.extractLsb' 5 2
        system := flags.getLsbD 4
        type := flags.extractLsb' 0 4 } := by
  show decodeGate (IdtEntry.bytes (Function.update i.entries num _ num)) = _
  rw [Function.update_self]
  simp only [decodeGate, IdtEntry.bytes, word_bytes, base_words]

end FreeMicroNix
