/-
  A stack of words in byte memory.

  Memory is a byte at every 32-bit address; a word is four bytes, little-endian, at any address.
  `Holds m a ws` is the abstraction: the words `ws` lie at `a` upwards, so that a stack growing
  down is a list with its top first.  A push puts a word in front (`Holds.push`), a pop takes it
  off (`Holds.pop`), and a write elsewhere changes nothing (`Holds.write_of_sep`).
  Addresses wrap: "elsewhere" is a distance modulo 2^32, and no list holds more than 2^30 words.
-/
import Mathlib.Algebra.Group.Nat.Defs
import Mathlib.Data.List.Basic
import Mathlib.Tactic.Common

namespace WordStack

/-- A byte at every address. -/
abbrev Memory := BitVec 32 → BitVec 8

/-- The word at an address. -/
def read32 (m : Memory) (a : BitVec 32) : BitVec 32 := m (a + 3) ++ m (a + 2) ++ m (a + 1) ++ m a

/-- The memory with a word written. -/
def write32 (m : Memory) (a v : BitVec 32) : Memory := fun x =>
  if (x - a).toNat < 4 then v.extractLsb' (8 * (x - a).toNat) 8 else m x

/-- The word `k` words above an address. -/
def wordAt (m : Memory) (a : BitVec 32) (k : Nat) : BitVec 32 :=
  read32 m (a + BitVec.ofNat 32 (4 * k))

/-- **The words at an address**, upwards. -/
def Holds (m : Memory) (a : BitVec 32) (ws : List (BitVec 32)) : Prop :=
  ∀ (k : Nat) (w : BitVec 32), ws[k]? = some w → wordAt m a k = w

/-! ## One word -/

/-- Four bytes, low byte last, are the word they come from. -/
theorem bytes_append (v : BitVec 32) :
    v.extractLsb' 24 8 ++ v.extractLsb' 16 8 ++ v.extractLsb' 8 8 ++ v.extractLsb' 0 8 = v := by
  apply BitVec.eq_of_getLsbD_eq
  intro i hi
  simp only [BitVec.getLsbD_append, BitVec.getLsbD_extractLsb']
  have hcases : i < 8 ∨ 8 ≤ i ∧ i < 16 ∨ 16 ≤ i ∧ i < 24 ∨ 24 ≤ i := by omega
  rcases hcases with h | ⟨h, h'⟩ | ⟨h, h'⟩ | h
  · simp [h]
  · have hsum : 8 + (i - 8) = i := by omega
    have hlt : i - 8 < 8 := by omega
    simp [Nat.not_lt.mpr h, hlt, hsum]
  · have hsum : 16 + (i - 8 - 8) = i := by omega
    have hge : ¬ i < 8 := by omega
    have hge' : ¬ i - 8 < 8 := by omega
    have hlt : i - 8 - 8 < 8 := by omega
    simp [hge, hge', hlt, hsum]
  · have hsum : 24 + (i - 8 - 8 - 8) = i := by omega
    have hge : ¬ i < 8 := by omega
    have hge' : ¬ i - 8 < 8 := by omega
    have hge'' : ¬ i - 8 - 8 < 8 := by omega
    have hlt : i - 8 - 8 - 8 < 8 := by omega
    simp [hge, hge', hge'', hlt, hsum]

/-- A small offset back. -/
theorem add_sub_toNat (a : BitVec 32) (i : BitVec 32) : (a + i - a).toNat = i.toNat := by
  rw [BitVec.add_comm, BitVec.add_sub_cancel]

theorem add_sub_right_comm (a i b : BitVec 32) : a + i - b = a - b + i := by bv_omega

theorem read32_write32 (m : Memory) (a v : BitVec 32) : read32 (write32 m a v) a = v := by
  have hbyte : ∀ i : BitVec 32, i.toNat < 4 →
      write32 m a v (a + i) = v.extractLsb' (8 * i.toNat) 8 := by
    intro i hi
    show (if (a + i - a).toNat < 4 then v.extractLsb' (8 * (a + i - a).toNat) 8 else _) = _
    rw [add_sub_toNat, if_pos hi]
  have hzero := hbyte 0#32 (by decide)
  rw [BitVec.add_zero] at hzero
  unfold read32
  rw [hbyte 3 (by decide), hbyte 2 (by decide), hbyte 1 (by decide), hzero]
  exact bytes_append v

/-- A word four bytes or more from the one written, on both sides. -/
theorem read32_write32_of_sep (m : Memory) (a b v : BitVec 32) (h4 : 4 ≤ (a - b).toNat)
    (htop : (a - b).toNat + 4 ≤ 2 ^ 32) : read32 (write32 m b v) a = read32 m a := by
  have hbyte : ∀ i : BitVec 32, i.toNat < 4 → write32 m b v (a + i) = m (a + i) := by
    intro i hi
    have hdist : (a + i - b).toNat = (a - b).toNat + i.toNat := by
      rw [add_sub_right_comm, BitVec.toNat_add]
      omega
    exact if_neg (by rw [hdist]; omega)
  have hzero := hbyte 0#32 (by decide)
  rw [BitVec.add_zero] at hzero
  unfold read32
  rw [hbyte 3 (by decide), hbyte 2 (by decide), hbyte 1 (by decide), hzero]

/-! ## The stack -/

@[simp] theorem holds_nil (m : Memory) (a : BitVec 32) : Holds m a [] := by
  intro k w hk
  exact absurd hk (by simp)

/-- The words above a higher address. -/
theorem wordAt_add (m : Memory) (a : BitVec 32) (j k : Nat) :
    wordAt m (a + BitVec.ofNat 32 (4 * j)) k = wordAt m a (j + k) := by
  have haddr : a + BitVec.ofNat 32 (4 * j) + BitVec.ofNat 32 (4 * k)
      = a + BitVec.ofNat 32 (4 * (j + k)) := by
    rw [BitVec.add_assoc, Nat.mul_add, BitVec.ofNat_add]
  exact congrArg (read32 m) haddr

/-- One word up. -/
theorem wordAt_succ (m : Memory) (a : BitVec 32) (k : Nat) :
    wordAt m (a + 4) k = wordAt m a (k + 1) := by
  rw [Nat.add_comm k]
  exact wordAt_add m a 1 k

theorem wordAt_zero (m : Memory) (a : BitVec 32) : wordAt m a 0 = read32 m a :=
  congrArg (read32 m) (BitVec.add_zero a)

theorem holds_cons_iff {m : Memory} {a w : BitVec 32} {ws : List (BitVec 32)} :
    Holds m a (w :: ws) ↔ read32 m a = w ∧ Holds m (a + 4) ws := by
  constructor
  · intro h
    refine ⟨?_, fun k v hk => ?_⟩
    · rw [← wordAt_zero]
      exact h 0 w rfl
    · rw [wordAt_succ]
      exact h (k + 1) v hk
  · rintro ⟨htop, hrest⟩ k v hk
    cases k with
    | zero =>
      rw [wordAt_zero, htop]
      exact Option.some.inj hk
    | succ k =>
      rw [← wordAt_succ]
      exact hrest k v hk

theorem Holds.pop {m : Memory} {a w : BitVec 32} {ws : List (BitVec 32)} (h : Holds m a (w :: ws)) :
    Holds m (a + 4) ws := (holds_cons_iff.mp h).2

/-- The words stay when one below them, or past them, is written. -/
theorem Holds.write_of_sep {m : Memory} {a b : BitVec 32} {ws : List (BitVec 32)}
    (h : Holds m a ws) (v : BitVec 32) (h4 : 4 ≤ (a - b).toNat)
    (htop : (a - b).toNat + 4 * ws.length ≤ 2 ^ 32) : Holds (write32 m b v) a ws := by
  intro k w hk
  have hlen : k < ws.length := (List.getElem?_eq_some_iff.mp hk).1
  have hdist : (a + BitVec.ofNat 32 (4 * k) - b).toNat = (a - b).toNat + 4 * k := by
    rw [add_sub_right_comm, BitVec.toNat_add, BitVec.toNat_ofNat]
    omega
  rw [← h k w hk]
  apply read32_write32_of_sep
  · omega
  · omega

/-- **A push**: the word in front, the rest where it was. -/
theorem Holds.push {m : Memory} {a : BitVec 32} {ws : List (BitVec 32)} (h : Holds m a ws)
    (v : BitVec 32) (hlen : 4 * ws.length + 4 ≤ 2 ^ 32) :
    Holds (write32 m (a - 4) v) (a - 4) (v :: ws) := by
  have hdist : (a - (a - 4)).toNat = 4 := by bv_omega
  refine holds_cons_iff.mpr ⟨read32_write32 m (a - 4) v, ?_⟩
  rw [BitVec.sub_add_cancel]
  apply h.write_of_sep
  · omega
  · omega

/-! ## Words laid out -/

/-- The memory that holds the words `ws` at `a`, and zeros elsewhere. -/
def layout (a : BitVec 32) (ws : List (BitVec 32)) : Memory := fun x =>
  (ws.getD ((x - a).toNat / 4) 0).extractLsb' (8 * ((x - a).toNat % 4)) 8

theorem holds_layout (a : BitVec 32) {ws : List (BitVec 32)} (hlen : 4 * ws.length ≤ 2 ^ 32) :
    Holds (layout a ws) a ws := by
  intro k w hk
  have hin : k < ws.length := (List.getElem?_eq_some_iff.mp hk).1
  have hword : ws.getD k 0 = w := by rw [List.getD_eq_getElem?_getD, hk, Option.getD_some]
  have hbyte : ∀ i : BitVec 32, i.toNat < 4 →
      layout a ws (a + BitVec.ofNat 32 (4 * k) + i) = w.extractLsb' (8 * i.toNat) 8 := by
    intro i hi
    have hdist : (a + BitVec.ofNat 32 (4 * k) + i - a).toNat = 4 * k + i.toNat := by
      rw [BitVec.add_assoc, add_sub_toNat, BitVec.toNat_add, BitVec.toNat_ofNat]
      omega
    have hdiv : (4 * k + i.toNat) / 4 = k := by omega
    have hmod : (4 * k + i.toNat) % 4 = i.toNat := by omega
    rw [layout, hdist, hdiv, hmod, hword]
  have hzero := hbyte 0#32 (by decide)
  rw [BitVec.add_zero] at hzero
  unfold wordAt read32
  rw [hbyte 3 (by decide), hbyte 2 (by decide), hbyte 1 (by decide), hzero]
  exact bytes_append w

/-- The bytes of a word read. -/
theorem read32_bytes (m : Memory) (a : BitVec 32) :
    (read32 m a).extractLsb' 0 8 = m a ∧ (read32 m a).extractLsb' 8 8 = m (a + 1) ∧
      (read32 m a).extractLsb' 16 8 = m (a + 2) ∧ (read32 m a).extractLsb' 24 8 = m (a + 3) := by
  refine ⟨?_, ?_, ?_, ?_⟩ <;> apply BitVec.eq_of_getLsbD_eq <;> intro i hi <;>
    simp only [read32, BitVec.getLsbD_extractLsb', BitVec.getLsbD_append, hi, decide_true,
      Bool.true_and]
  · simp [hi]
  · have hge : ¬ 8 + i < 8 := by omega
    have hsub : 8 + i - 8 = i := by omega
    simp [hge, hsub, hi]
  · have hge : ¬ 16 + i < 8 := by omega
    have hge' : ¬ 16 + i - 8 < 8 := by omega
    have hsub : 16 + i - 8 - 8 = i := by omega
    simp [hge, hge', hsub, hi]
  · have hge : ¬ 24 + i < 8 := by omega
    have hge' : ¬ 24 + i - 8 < 8 := by omega
    have hge'' : ¬ 24 + i - 8 - 8 < 8 := by omega
    have hsub : 24 + i - 8 - 8 - 8 = i := by omega
    simp [hge, hge', hge'', hsub]

end WordStack
