/-
  The 8254 timer chip, and the two drivers that program it: `PIT_8254_Phase` of
  `kernel/x86/isa/8254.c` and `Speaker_Beep` of `kernel/x86/sound/speaker.c`.

  A channel in access mode 3 takes its count as two bytes through one port, low byte first, and
  loads it with the second.  `PIT_8254_Phase` sends both.  `Speaker_Beep` sends the low byte of its
  divisor and goes on to the speaker's gate, so channel 2 is left waiting for a byte:
  `two_byte_loads_iff`.
-/
import FreeMicroNix.Lib.LastWrite
import FreeMicroNix.Types

namespace FreeMicroNix

open LastWrite

/-! ## The chip -/

/-- One of the three counters, as its ports see it. -/
structure Channel where
  /-- The access mode of the last control word: 1 low byte, 2 high byte, 3 low byte then high. -/
  access : BitVec 2
  /-- The flip-flop of access mode 3: the next byte is the high one. -/
  high : Bool
  /-- The low byte that waits for its high byte. -/
  low : Uint8
  /-- The bytes received since the last control word. -/
  received : Nat
  /-- The count loaded. -/
  count : Uint16
  deriving DecidableEq

namespace Channel

/-- A control word for this channel; access mode 0 latches the count for reading. -/
def control (ch : Channel) (access : BitVec 2) : Channel :=
  if access = 0 then ch else { ch with access := access, high := false, received := 0 }

/-- A byte for this channel. -/
def data (ch : Channel) (value : Uint8) : Channel :=
  let ch := { ch with received := ch.received + 1 }
  if ch.access = 1 then { ch with count := word 0 value }
  else if ch.access = 2 then { ch with count := word value 0 }
  else if ch.access = 3 then
    if ch.high then { ch with count := word value ch.low, high := false }
    else { ch with low := value, high := true }
  else ch

/-- The channel has both bytes of its last control word, and counts from `n`. -/
structure Loaded (ch : Channel) (n : Nat) : Prop where
  access : ch.access = 3
  both : ch.received = 2 ∧ ch.high = false
  count : ch.count.toNat = n

end Channel

/-- The chip, and port 0x61 with the gate of the speaker. -/
structure TimerBoard where
  channel : Fin 3 → Channel
  port61 : Uint8

namespace TimerBoard

/-- What a port write does to one channel. -/
def toChannel (b : TimerBoard) (i : Fin 3) (f : Channel → Channel) : TimerBoard :=
  { b with channel := Function.update b.channel i (f (b.channel i)) }

/-- A port write. -/
def outb (b : TimerBoard) (port : Uint16) (value : Uint8) : TimerBoard :=
  if port = 0x40#16 then b.toChannel 0 (·.data value)
  else if port = 0x41#16 then b.toChannel 1 (·.data value)
  else if port = 0x42#16 then b.toChannel 2 (·.data value)
  else if port = 0x43#16 then
    let access := value.extractLsb' 4 2
    match value.extractLsb' 6 2 with
    | 0#2 => b.toChannel 0 (·.control access)
    | 1#2 => b.toChannel 1 (·.control access)
    | 2#2 => b.toChannel 2 (·.control access)
    | _ => b -- the read-back command
  else if port = 0x61#16 then { b with port61 := value }
  else b

@[simp] theorem toChannel_self (b : TimerBoard) (i : Fin 3) (f : Channel → Channel) :
    (b.toChannel i f).channel i = f (b.channel i) := Function.update_self _ _ _

end TimerBoard

/-! ## The drivers -/

/-- `PIT_COMMAND_REGISTER` -/
def pitCommandRegister : Uint16 := 0x43

/-- `PIT_CHANNEL_0` -/
def pitChannel0 : Uint16 := 0x40

/-- `PIT_8254_Phase`; `none` for the divide error, which comes before any port is written. -/
def pit8254Phase (b : TimerBoard) (hz : Uint32) : Option TimerBoard :=
  if hz = 0 then none
  else
    let divisor : Uint32 := 1193182 / hz
    let b := b.outb pitCommandRegister 0x36
    let b := b.outb pitChannel0 ((divisor &&& 0xFF#32).setWidth 8)
    some (b.outb pitChannel0 ((divisor >>> 8).setWidth 8))

/-- `Speaker_Beep`: the wait in the middle touches no port. -/
def speakerBeep (b : TimerBoard) : TimerBoard :=
  let b := b.outb 0x43 0xB6
  let b := b.outb 0x42 0xEE
  let b := b.outb 0x61 (b.port61 ||| 0x03)
  -- `PIT_8254_Wait(2000)`
  b.outb 0x61 (b.port61 &&& 0xFC)

/-- A count is its two bytes. -/
theorem divisor_bytes (divisor : Uint32) :
    word ((divisor >>> 8).setWidth 8) ((divisor &&& 0xFF#32).setWidth 8)
      = divisor.setWidth 16 := by
  have hhigh : (divisor >>> 8).setWidth 8 = divisor.extractLsb' 8 8 := by
    apply BitVec.eq_of_getLsbD_eq
    intro i hi
    simp only [BitVec.getLsbD_setWidth, BitVec.getLsbD_ushiftRight, BitVec.getLsbD_extractLsb', hi]
  have hlow : (divisor &&& 0xFF#32).setWidth 8 = divisor.extractLsb' 0 8 :=
    masked_low divisor 8 (by decide)
  have hbytes := word_bytes (divisor.setWidth 16)
  rw [extractLsb'_setWidth divisor 8 8 (by decide), extractLsb'_setWidth divisor 0 8 (by decide)]
    at hbytes
  rw [hhigh, hlow, hbytes]

/-- **What `PIT_8254_Phase` leaves**: channel 0 has both bytes of the divisor, whatever its state
    before. -/
theorem pit8254Phase_channel (b : TimerBoard) {hz : Uint32} (hz0 : hz ≠ 0) :
    ∃ b', pit8254Phase b hz = some b' ∧ b'.channel 0 =
      { access := 3
        high := false
        low := ((1193182 / hz) &&& 0xFF#32).setWidth 8
        received := 2
        count := (1193182 / hz : Uint32).setWidth 16 } := by
  let b' := ((b.toChannel 0 (·.control 3)).toChannel 0
      (·.data (((1193182 / hz : Uint32) &&& 0xFF#32).setWidth 8))).toChannel 0
    (·.data (((1193182 / hz : Uint32) >>> 8).setWidth 8))
  have hrun : pit8254Phase b hz = some b' := if_neg hz0
  refine ⟨b', hrun, ?_⟩
  rw [← divisor_bytes]
  simp only [b', TimerBoard.toChannel_self]
  rfl

/-- **What `Speaker_Beep` leaves**: channel 2 has one byte, and waits for the other. -/
theorem speakerBeep_channel (b : TimerBoard) :
    (speakerBeep b).channel 2 =
      { access := 3
        high := true
        low := 0xEE
        received := 1
        count := (b.channel 2).count } := by
  have hrun : (speakerBeep b).channel =
      ((b.toChannel 2 (·.control 3)).toChannel 2 (·.data 0xEE)).channel := rfl
  rw [hrun]
  simp only [TimerBoard.toChannel_self]
  rfl

/-! ## Every sequence of calls -/

/-- The calls that program the chip. -/
inductive TimerCall where
  | phase (hz : Uint32)
  | beep
  deriving DecidableEq

namespace TimerCall

/-- The chip after one call: a divide error leaves it as it was. -/
def run (b : TimerBoard) : TimerCall → TimerBoard
  | phase hz => (pit8254Phase b hz).getD b
  | beep => speakerBeep b

/-- The rates whose divisor fits 16 bits. -/
def InRange : TimerCall → Prop
  | phase hz => 19 ≤ hz.toNat ∧ hz.toNat ≤ 1193182
  | beep => True

/-- The divisor a call means for a channel. -/
def programs : TimerCall → Fin 3 → Option Nat
  | phase hz, i => if i = 0 then some (1193182 / hz.toNat) else none
  | beep, i => if i = 2 then some 0x00EE else none

end TimerCall

/-- The divisor is the quotient of the numbers. -/
theorem divisor_toNat (hz : Uint32) : (1193182 / hz : Uint32).toNat = 1193182 / hz.toNat := by
  rw [BitVec.toNat_udiv]
  rfl

/-- A rate in range is loaded as its divisor. -/
theorem pit8254Phase_loaded (b : TimerBoard) {hz : Uint32} (h : 19 ≤ hz.toNat) :
    ∃ b', pit8254Phase b hz = some b' ∧ (b'.channel 0).Loaded (1193182 / hz.toNat) := by
  have hz0 : hz ≠ 0 := by
    rintro rfl
    exact absurd h (by decide)
  obtain ⟨b', hrun, hchannel⟩ := pit8254Phase_channel b hz0
  refine ⟨b', hrun, ?_⟩
  rw [hchannel]
  refine ⟨rfl, ⟨rfl, rfl⟩, ?_⟩
  have hfits : 1193182 / hz.toNat ≤ 1193182 / 19 := Nat.div_le_div_left h (by decide)
  rw [BitVec.toNat_setWidth, divisor_toNat]
  exact Nat.mod_eq_of_lt (by omega)

/-- **Two-byte loads, exactly.**  From any state of the chip, after every call of a sequence each
    channel programmed so far has both bytes of its last control word and counts from the divisor
    of the last call that programmed it, if and only if no call is `Speaker_Beep`. -/
theorem two_byte_loads_iff (b : TimerBoard) (calls : List TimerCall)
    (hrange : ∀ call ∈ calls, call.InRange) :
    (∀ pre call post, calls = pre ++ call :: post →
        ∀ i n, lastWrite TimerCall.programs (pre ++ [call]) i = some n →
          ((call.run (pre.foldl TimerCall.run b)).channel i).Loaded n) ↔
      TimerCall.beep ∉ calls := by
  constructor
  · intro hloaded hbeep
    obtain ⟨pre, post, hsplit⟩ := List.append_of_mem hbeep
    have hlast : lastWrite TimerCall.programs (pre ++ [.beep]) 2 = some 0x00EE :=
      lastWrite_concat _ _ rfl
    have hboth := (hloaded pre .beep post hsplit 2 _ hlast).both
    rw [TimerCall.run, speakerBeep_channel] at hboth
    exact absurd (show 1 = 2 from hboth.1) (by decide)
  · rintro hnone pre call post rfl i n hlast
    obtain ⟨call', hcall', hprograms⟩ := of_lastWrite _ hlast
    have hi : i = 0 := by
      cases call' with
      | beep =>
        rw [List.append_cons] at hnone
        exact absurd (List.mem_append_left post hcall') hnone
      | phase hz =>
        by_contra hi
        exact absurd ((if_neg hi).symm.trans hprograms) nofun
    subst hi
    cases call with
    | beep => exact absurd (List.mem_append_right pre List.mem_cons_self) hnone
    | phase hz =>
      rw [lastWrite_concat _ _ (b := 1193182 / hz.toNat) rfl] at hlast
      obtain rfl := Option.some.inj hlast
      obtain ⟨b', hrun, hloaded⟩ :=
        pit8254Phase_loaded (pre.foldl TimerCall.run b) (hrange (.phase hz) (by simp)).1
      rw [TimerCall.run, hrun]
      exact hloaded

/-- The kernel's own rate. -/
theorem two_byte_loads_iff_kernel :
    (∀ pre call post, [TimerCall.phase 1000] = pre ++ call :: post →
        ∀ i n, lastWrite TimerCall.programs (pre ++ [call]) i = some n →
          ((call.run (pre.foldl TimerCall.run ⟨fun _ => ⟨0, false, 0, 0, 0⟩, 0⟩)).channel
            i).Loaded n) ↔
      TimerCall.beep ∉ [TimerCall.phase 1000] :=
  two_byte_loads_iff ⟨fun _ => ⟨0, false, 0, 0, 0⟩, 0⟩ [.phase 1000] (by
    intro call hcall
    rw [List.mem_singleton.mp hcall]
    exact ⟨by decide, by decide⟩)

/-- One beep: channel 2 has received 0xEE and nothing else. -/
theorem two_byte_loads_half_beep :
    ¬ ∀ pre call post, [TimerCall.beep] = pre ++ call :: post →
        ∀ i n, lastWrite TimerCall.programs (pre ++ [call]) i = some n →
          ((call.run (pre.foldl TimerCall.run ⟨fun _ => ⟨0, false, 0, 0, 0⟩, 0⟩)).channel
            i).Loaded n := by
  intro hloaded
  have hboth := (hloaded [] .beep [] rfl 2 0x00EE rfl).both
  rw [List.foldl_nil, TimerCall.run, speakerBeep_channel] at hboth
  exact absurd hboth.1 (by decide)

end FreeMicroNix
