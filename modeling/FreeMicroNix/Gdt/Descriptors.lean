/-
  Both descriptor tables, over every sequence of calls that fill them.

  `Add_GDT_Descriptor` and `Create_IDT_Entry` scatter their arguments over the eight bytes of one
  slot, and `Add_GDT_Descriptor` writes one byte in two steps.  The plan:

  1. one call: whatever the slot held, the processor reads the arguments back (`decodedAs_addGdtRow`,
     `decodedAs_createIdtEntry`);
  2. one call: every slot it does not name keeps its bytes (`DescriptorCall.run_gdt`,
     `DescriptorCall.run_idt`);
  3. a run: the frame rules of the library put the two together (`descriptors_round_trip`).
-/
import FreeMicroNix.Gdt.Table
import FreeMicroNix.Isa.Idt

namespace FreeMicroNix

open LastWrite

/-! ## One global descriptor -/

/-- `Add_GDT_Descriptor`, assignment by assignment on the entry that is there. -/
def GdtEntry.assign (e : GdtEntry) (base limit : Uint32) (access granularity : Uint8) : GdtEntry :=
  let e := { e with base0_15 := (base &&& 0xFFFF#32).setWidth 16 }
  let e := { e with base16_23 := ((base >>> 16) &&& 0xFF#32).setWidth 8 }
  let e := { e with base24_31 := ((base >>> 24) &&& 0xFF#32).setWidth 8 }
  let e := { e with limit0_15 := (limit &&& 0xFFFF#32).setWidth 16 }
  let e := { e with access := access }
  let e := { e with granularity := ((limit >>> 16) &&& 0x0F#32).setWidth 8 }
  { e with granularity := e.granularity ||| granularity &&& 0xF0#8 }

/-- The model's one store is these seven: the first of the two on the shared byte is an `=`, which
    lets nothing of the old byte through. -/
theorem addGdtDescriptor_assigns (g : Gdt) (num base limit : Uint32) (access granularity : Uint8) :
    addGdtDescriptor g num base limit access granularity =
      { g with
        entries := Function.update g.entries num
          ((g.entries num).assign base limit access granularity) } := rfl

/-- A descriptor is the one a call meant. -/
structure GdtRow.DecodedAs (row : GdtRow) (d : Descriptor) : Prop where
  base : d.base = row.base
  limit : d.limit.toNat = row.limit.toNat % 2 ^ 20
  access : d.access = row.access
  flags : d.flags = row.granularity.extractLsb' 4 4

/-- **One entry**: whatever the slot held, its eight bytes decode to the arguments. -/
theorem decodedAs_addGdtRow (g : Gdt) (row : GdtRow) :
    row.DecodedAs (decodeDescriptor ((addGdtRow g row).entries row.num).bytes) := by
  show row.DecodedAs ((addGdtRow g row).slot row.num)
  rw [addGdtRow, slot_addGdtDescriptor]
  exact ⟨rfl, BitVec.toNat_setWidth 20 row.limit, rfl, rfl⟩

/-! ## One gate -/

/-- One call of `Create_IDT_Entry`. -/
structure GateRow where
  num : Uint8
  base : Uint32
  sel : Uint16
  flags : Uint8

/-- Eight bytes are the gate a call meant: the flags are one byte, and the byte between selector and
    flags is zero. -/
structure GateRow.DecodedAs (row : GateRow) (b : Fin 8 → Uint8) : Prop where
  offset : (decodeGate b).offset = row.base
  selector : (decodeGate b).selector = row.sel
  reserved : b 4 = 0
  flags : b 5 = row.flags

/-- **One gate**: whatever the slot held, its eight bytes are the arguments and a zero. -/
theorem decodedAs_createIdtEntry (i : Idt) (row : GateRow) :
    row.DecodedAs
      ((createIdtEntry i row.num row.base row.sel row.flags).entries row.num).bytes := by
  have hgate := decode_createIdtEntry i row.num row.base row.sel row.flags
  have hentry : (createIdtEntry i row.num row.base row.sel row.flags).entries row.num
      = { baseHi := ((row.base >>> 16) &&& 0xFFFF#32).setWidth 16
          baseLo := (row.base &&& 0xFFFF#32).setWidth 16
          sel := row.sel
          always0 := 0
          flags := row.flags } := Function.update_self _ _ _
  refine ⟨congrArg Gate.offset hgate, congrArg Gate.selector hgate, ?_, ?_⟩
  · rw [hentry]
    rfl
  · rw [hentry]
    rfl

/-! ## Calls on both tables -/

/-- The two tables. -/
structure Tables where
  gdt : Gdt
  idt : Idt

/-- A call that fills a slot.  One of `Add_GDT_Descriptor` carries that its slot is in the table. -/
inductive DescriptorCall where
  | addGdtDescriptor (row : GdtRow) (inTable : row.num.toNat < gdtSize)
  | createIdtEntry (row : GateRow)

namespace DescriptorCall

/-- One call. -/
def run (s : Tables) : DescriptorCall → Tables
  | addGdtDescriptor row _ => { s with gdt := addGdtRow s.gdt row }
  | createIdtEntry row =>
      { s with idt := FreeMicroNix.createIdtEntry s.idt row.num row.base row.sel row.flags }

/-- The call is on this slot of the global table. -/
def NamesGdt (slot : Uint32) : DescriptorCall → Prop
  | addGdtDescriptor row _ => row.num = slot
  | createIdtEntry _ => False

/-- The call is on this slot of the interrupt table. -/
def NamesIdt (slot : Uint8) : DescriptorCall → Prop
  | addGdtDescriptor _ _ => False
  | createIdtEntry row => row.num = slot

/-- A slot of the global table that is not named keeps its entry. -/
theorem run_gdt {slot : Uint32} (s : Tables) (call : DescriptorCall)
    (hother : ¬ call.NamesGdt slot) : (call.run s).gdt.entries slot = s.gdt.entries slot := by
  cases call with
  | addGdtDescriptor row inTable => exact Function.update_of_ne (Ne.symm hother) _ _
  | createIdtEntry row => rfl

/-- So does a slot of the interrupt table. -/
theorem run_idt {slot : Uint8} (s : Tables) (call : DescriptorCall)
    (hother : ¬ call.NamesIdt slot) : (call.run s).idt.entries slot = s.idt.entries slot := by
  cases call with
  | addGdtDescriptor row inTable => rfl
  | createIdtEntry row => exact Function.update_of_ne (Ne.symm hother) _ _

end DescriptorCall

/-- **The round trip over runs.**  After any sequence of calls, on any tables, the eight bytes of a
    slot decode to the arguments of the last call on it: for a global descriptor base, limit modulo
    2^20, access byte and upper half of the granularity byte; for a gate offset, selector and
    flags, with a zero byte between.  A slot no call names keeps its bytes. -/
theorem descriptors_round_trip (s : Tables) (calls : List DescriptorCall) :
    (∀ pre row inTable post, calls = pre ++ .addGdtDescriptor row inTable :: post →
      (∀ call ∈ post, ¬ call.NamesGdt row.num) →
      row.DecodedAs
        (decodeDescriptor ((calls.foldl DescriptorCall.run s).gdt.entries row.num).bytes)) ∧
    (∀ slot, (∀ call ∈ calls, ¬ call.NamesGdt slot) →
      ((calls.foldl DescriptorCall.run s).gdt.entries slot).bytes
        = (s.gdt.entries slot).bytes) ∧
    (∀ pre row post, calls = pre ++ .createIdtEntry row :: post →
      (∀ call ∈ post, ¬ call.NamesIdt row.num) →
      row.DecodedAs ((calls.foldl DescriptorCall.run s).idt.entries row.num).bytes) ∧
    ∀ slot, (∀ call ∈ calls, ¬ call.NamesIdt slot) →
      ((calls.foldl DescriptorCall.run s).idt.entries slot).bytes
        = (s.idt.entries slot).bytes := by
  refine ⟨?_, ?_, ?_, ?_⟩
  · rintro pre row inTable post rfl hlater
    have hlast := read_foldl_last (fun s => s.gdt.entries row.num) DescriptorCall.run_gdt s pre
      (.addGdtDescriptor row inTable) hlater
    rw [hlast]
    exact decodedAs_addGdtRow _ row
  · intro slot hnone
    have hsame := read_foldl_untouched (fun s => s.gdt.entries slot) DescriptorCall.run_gdt s calls
      hnone
    exact congrArg GdtEntry.bytes hsame
  · rintro pre row post rfl hlater
    have hlast := read_foldl_last (fun s => s.idt.entries row.num) DescriptorCall.run_idt s pre
      (.createIdtEntry row) hlater
    rw [hlast]
    exact decodedAs_createIdtEntry _ row
  · intro slot hnone
    have hsame := read_foldl_untouched (fun s => s.idt.entries slot) DescriptorCall.run_idt s calls
      hnone
    exact congrArg IdtEntry.bytes hsame

end FreeMicroNix
