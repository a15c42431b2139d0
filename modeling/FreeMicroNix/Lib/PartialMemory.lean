/-
  Memory some of whose addresses are mapped.

  A heap gives the contents of every mapped address; an access to any other address has no result.
  So a program that has a result on a heap touches nothing but what that heap maps: a theorem that
  assumes a few stretches to be mapped, and nothing of the rest, is a theorem about a footprint.

  `Cells h p xs` says that the list `xs` lies at `p` upwards, and `Within p n` is the stretch of
  `n` addresses from `p` on.  Addresses wrap, and a stretch is a distance modulo `2 ^ w`.  A write
  sets one element of a list it falls into (`Cells.write`) and leaves all others alone
  (`Cells.congr` with `write_of_ne`); `readWord` and `writeWord` are the four-byte accesses.

  `lay h p xs` is the heap with `xs` written at `p`, all at once.  A loop that writes element after
  element lays the list, from the front (`lay_cons`, `lay_append`) or from the back (`lay_concat`).

  `Object h p n` is a stretch to write to, and `Terminated z h p xs` a list without `z`, ended by
  one; neither lies at address 0 or past the last address.
-/
import FreeMicroNix.Lib.WordStack
import Mathlib.Data.List.TakeWhile
import Mathlib.Logic.Function.Basic

namespace PartialMemory

open WordStack

variable {α : Type*}

/-- What is mapped, and what it holds. -/
abbrev Heap (α : Type*) := BitVec 32 → Option α

/-! ## Single accesses -/

/-- A write, if the address is mapped. -/
def write (h : Heap α) (a : BitVec 32) (x : α) : Option (Heap α) :=
  if (h a).isSome then some (Function.update h a (some x)) else none

theorem write_of_mapped {h : Heap α} {a : BitVec 32} {y : α} (hy : h a = some y) (x : α) :
    write h a x = some (Function.update h a (some x)) := by
  rw [write, hy]
  rfl

/-- A program goes on with what an access gives. -/
theorem bind_of_eq_some {β γ : Type} {x : Option β} {b : β} (hx : x = some b)
    (f : β → Option γ) : (x >>= f) = f b := by
  rw [hx]
  rfl

/-! ## Stretches of addresses -/

/-- The `n` addresses from `p` on. -/
def Within (p : BitVec 32) (n : Nat) (a : BitVec 32) : Prop := (a - p).toNat < n

instance (p : BitVec 32) (n : Nat) (a : BitVec 32) : Decidable (Within p n a) :=
  inferInstanceAs (Decidable (_ < _))

/-- Two stretches without a common address. -/
def Apart (p : BitVec 32) (n : Nat) (q : BitVec 32) (m : Nat) : Prop :=
  ∀ a, Within p n a → ¬ Within q m a

theorem Apart.symm {p q : BitVec 32} {n m : Nat} (h : Apart p n q m) : Apart q m p n :=
  fun a hq hp => h a hp hq

/-- All addresses of a stretch are mapped. -/
def Mapped (h : Heap α) (p : BitVec 32) (n : Nat) : Prop := ∀ a, Within p n a → (h a).isSome

/-- A write into a stretch that is mapped. -/
theorem write_within {h : Heap α} {p a : BitVec 32} {n : Nat} (hmapped : Mapped h p n)
    (ha : Within p n a) (x : α) : write h a x = some (Function.update h a (some x)) := by
  obtain ⟨y, hy⟩ := Option.isSome_iff_exists.mp (hmapped a ha)
  exact write_of_mapped hy x

/-- What was mapped still is. -/
theorem Mapped.update {h : Heap α} {p : BitVec 32} {n : Nat} (hmapped : Mapped h p n)
    (a : BitVec 32) (x : α) : Mapped (Function.update h a (some x)) p n := by
  intro b hb
  by_cases heq : b = a
  · rw [heq, Function.update_self]
    rfl
  · rw [Function.update_of_ne heq]
    exact hmapped b hb

/-- The distance of an element. -/
theorem add_ofNat_sub (p : BitVec 32) {i : Nat} (hi : i < 2 ^ 32) :
    (p + BitVec.ofNat 32 i - p).toNat = i := by
  rw [add_sub_toNat, BitVec.toNat_ofNat, Nat.mod_eq_of_lt hi]

theorem within_add {p : BitVec 32} {n i : Nat} (hn : n ≤ 2 ^ 32) (hi : i < n) :
    Within p n (p + BitVec.ofNat 32 i) := by
  unfold Within
  rw [add_ofNat_sub p (by omega)]
  exact hi

theorem within_self (p : BitVec 32) {n : Nat} (hn : 0 < n) : Within p n p := by
  rw [Within, BitVec.sub_self]
  exact hn

/-- The addresses of a stretch are its elements. -/
theorem Within.exists_eq {p : BitVec 32} {n : Nat} {a : BitVec 32} (h : Within p n a) :
    ∃ i < n, a = p + BitVec.ofNat 32 i := by
  refine ⟨(a - p).toNat, h, ?_⟩
  rw [BitVec.ofNat_toNat, BitVec.setWidth_eq, BitVec.add_comm, BitVec.sub_add_cancel]

theorem add_ofNat_inj {p : BitVec 32} {i j : Nat} (hi : i < 2 ^ 32) (hj : j < 2 ^ 32)
    (h : p + BitVec.ofNat 32 i = p + BitVec.ofNat 32 j) : i = j := by
  rw [← add_ofNat_sub p hi, h, add_ofNat_sub p hj]

theorem ofNat_add_one (i : Nat) : BitVec.ofNat 32 i + 1 = BitVec.ofNat 32 (i + 1) :=
  (BitVec.ofNat_add i 1).symm

/-- A counter that is not yet zero, and its next value. -/
theorem ofNat_succ_ne_zero {n : Nat} (hn : n + 1 < 2 ^ 32) : BitVec.ofNat 32 (n + 1) ≠ 0 := by
  bv_omega

theorem ofNat_succ_sub_one (n : Nat) : BitVec.ofNat 32 (n + 1) - 1 = BitVec.ofNat 32 n := by
  rw [← ofNat_add_one, BitVec.add_sub_cancel]

theorem add_ofNat_add_one (p : BitVec 32) (i : Nat) :
    p + BitVec.ofNat 32 i + 1 = p + BitVec.ofNat 32 (i + 1) := by
  rw [BitVec.add_assoc, ofNat_add_one]

theorem add_one_add_ofNat (p : BitVec 32) (i : Nat) :
    p + 1 + BitVec.ofNat 32 i = p + BitVec.ofNat 32 (i + 1) := by
  rw [BitVec.add_assoc, Nat.add_comm i, BitVec.ofNat_add]
  rfl

theorem add_ofNat_add_ofNat (p : BitVec 32) (i j : Nat) :
    p + BitVec.ofNat 32 i + BitVec.ofNat 32 j = p + BitVec.ofNat 32 (i + j) := by
  rw [BitVec.add_assoc, BitVec.ofNat_add]

/-! ## Lists -/

/-- **The elements at an address**, upwards. -/
def Cells (h : Heap α) (p : BitVec 32) (xs : List α) : Prop :=
  ∀ (i : Nat) (x : α), xs[i]? = some x → h (p + BitVec.ofNat 32 i) = some x

theorem cells_nil (h : Heap α) (p : BitVec 32) : Cells h p [] := by
  intro i x hx
  exact absurd hx (by simp)

theorem cells_cons_iff {h : Heap α} {p : BitVec 32} {x : α} {xs : List α} :
    Cells h p (x :: xs) ↔ h p = some x ∧ Cells h (p + 1) xs := by
  constructor
  · intro hcells
    refine ⟨?_, fun i y hy => ?_⟩
    · have hfirst := hcells 0 x rfl
      rw [BitVec.add_zero] at hfirst
      exact hfirst
    · rw [add_one_add_ofNat]
      exact hcells (i + 1) y hy
  · rintro ⟨hfirst, hrest⟩ i y hy
    cases i with
    | zero =>
      rw [BitVec.add_zero, hfirst]
      exact hy
    | succ i =>
      rw [← add_one_add_ofNat]
      exact hrest i y hy

theorem cells_append_iff {h : Heap α} {p : BitVec 32} {xs ys : List α} :
    Cells h p (xs ++ ys) ↔ Cells h p xs ∧ Cells h (p + BitVec.ofNat 32 xs.length) ys := by
  induction xs generalizing p with
  | nil =>
    rw [List.nil_append, List.length_nil, BitVec.add_zero]
    exact (and_iff_right (cells_nil h p)).symm
  | cons x xs ih =>
    rw [List.cons_append, cells_cons_iff, cells_cons_iff, ih, List.length_cons,
      add_one_add_ofNat, and_assoc]

theorem cells_singleton_iff {h : Heap α} {p : BitVec 32} {x : α} :
    Cells h p [x] ↔ h p = some x := by
  rw [cells_cons_iff]
  exact and_iff_left (cells_nil h _)

/-- The elements from one on. -/
theorem Cells.drop {h : Heap α} {p : BitVec 32} {xs : List α} (hcells : Cells h p xs) (k : Nat) :
    Cells h (p + BitVec.ofNat 32 k) (xs.drop k) := by
  intro i x hx
  rw [List.getElem?_drop] at hx
  rw [add_ofNat_add_ofNat]
  exact hcells (k + i) x hx

/-- The elements up to one. -/
theorem Cells.start {h : Heap α} {p : BitVec 32} {xs ys : List α} (hcells : Cells h p ys)
    (hstarts : xs <+: ys) : Cells h p xs := by
  obtain ⟨zs, rfl⟩ := hstarts
  exact (cells_append_iff.mp hcells).1

/-- A list is the same on heaps that agree where it lies. -/
theorem Cells.congr_elements {h h' : Heap α} {p : BitVec 32} {xs : List α} (hcells : Cells h p xs)
    (hsame : ∀ i < xs.length, h' (p + BitVec.ofNat 32 i) = h (p + BitVec.ofNat 32 i)) :
    Cells h' p xs := by
  intro i x hx
  rw [hsame i (List.getElem?_eq_some_iff.mp hx).1]
  exact hcells i x hx

theorem Cells.congr {h h' : Heap α} {p : BitVec 32} {xs : List α} {n : Nat}
    (hcells : Cells h p xs) (hlen : xs.length ≤ n) (hn : n ≤ 2 ^ 32)
    (hsame : ∀ a, Within p n a → h' a = h a) : Cells h' p xs :=
  hcells.congr_elements fun _ hi => hsame _ (within_add hn (Nat.lt_of_lt_of_le hi hlen))

theorem Cells.mapped {h : Heap α} {p : BitVec 32} {xs : List α} (hcells : Cells h p xs) :
    Mapped h p xs.length := by
  intro a ha
  obtain ⟨i, hi, rfl⟩ := ha.exists_eq
  rw [hcells i xs[i] (List.getElem?_eq_getElem hi)]
  rfl

/-- What a mapped stretch holds. -/
theorem Mapped.exists_cells {h : Heap α} {p : BitVec 32} {n : Nat} (hmapped : Mapped h p n)
    (hn : n ≤ 2 ^ 32) : ∃ xs, Cells h p xs ∧ xs.length = n := by
  induction n with
  | zero => exact ⟨[], cells_nil h p, rfl⟩
  | succ n ih =>
    obtain ⟨xs, hcells, rfl⟩ :=
      ih (fun a ha => hmapped a (Nat.lt_succ_of_lt ha)) (Nat.le_of_succ_le hn)
    obtain ⟨x, hx⟩ :=
      Option.isSome_iff_exists.mp (hmapped _ (within_add hn (Nat.lt_succ_self _)))
    refine ⟨xs ++ [x], cells_append_iff.mpr ⟨hcells, cells_singleton_iff.mpr hx⟩, ?_⟩
    rw [List.length_append, List.length_singleton]

/-- **A write into a list** sets the element. -/
theorem Cells.write {h : Heap α} {p : BitVec 32} {xs : List α} (hcells : Cells h p xs)
    (hlen : xs.length ≤ 2 ^ 32) {k : Nat} (hk : k < xs.length) (x : α) :
    Cells (Function.update h (p + BitVec.ofNat 32 k) (some x)) p (xs.set k x) := by
  intro i y hy
  have hi : i < xs.length := by
    have := (List.getElem?_eq_some_iff.mp hy).1
    rwa [List.length_set] at this
  by_cases heq : k = i
  · subst heq
    rw [List.getElem?_set_self hk] at hy
    rw [Function.update_self]
    exact hy
  · have hne : p + BitVec.ofNat 32 i ≠ p + BitVec.ofNat 32 k := fun h =>
      heq (add_ofNat_inj (by omega) (by omega) h).symm
    rw [List.getElem?_set_ne heq] at hy
    rw [Function.update_of_ne hne]
    exact hcells i y hy

instance decidableCells [DecidableEq α] (h : Heap α) : (p : BitVec 32) → (xs : List α) →
    Decidable (Cells h p xs)
  | p, [] => isTrue (cells_nil h p)
  | p, _ :: xs => haveI := decidableCells h (p + 1) xs; decidable_of_iff' _ cells_cons_iff

/-- A stretch is mapped if its elements are. -/
theorem mapped_iff {h : Heap α} {p : BitVec 32} {n : Nat} (hn : n ≤ 2 ^ 32) :
    Mapped h p n ↔ ∀ i < n, (h (p + BitVec.ofNat 32 i)).isSome := by
  constructor
  · intro hmapped i hi
    exact hmapped _ (within_add hn hi)
  · intro hall a ha
    obtain ⟨i, hi, rfl⟩ := ha.exists_eq
    exact hall i hi

theorem Mapped.head {h : Heap α} {p : BitVec 32} {n : Nat} (hmapped : Mapped h p n) (hn : 0 < n) :
    (h p).isSome := hmapped p (within_self p hn)

/-- A stretch without its first addresses. -/
theorem Mapped.drop {h : Heap α} {p : BitVec 32} {k n : Nat} (hmapped : Mapped h p (k + n))
    (hn : k + n ≤ 2 ^ 32) : Mapped h (p + BitVec.ofNat 32 k) n := by
  intro a ha
  apply hmapped
  unfold Within at ha ⊢
  bv_omega

theorem Mapped.tail {h : Heap α} {p : BitVec 32} {n : Nat} (hmapped : Mapped h p (n + 1))
    (hn : n + 1 ≤ 2 ^ 32) : Mapped h (p + 1) n := by
  rw [Nat.add_comm] at hmapped hn
  exact hmapped.drop hn

theorem Mapped.mono {h : Heap α} {p : BitVec 32} {m n : Nat} (hmapped : Mapped h p n)
    (hm : m ≤ n) : Mapped h p m := fun a ha => hmapped a (Nat.lt_of_lt_of_le ha hm)

/-- Two stretches from their next elements on. -/
theorem Apart.tail {p q : BitVec 32} {n m : Nat} (hapart : Apart p (n + 1) q (m + 1))
    (hn : n + 1 ≤ 2 ^ 32) (hm : m + 1 ≤ 2 ^ 32) : Apart (p + 1) n (q + 1) m := by
  intro a hp hq
  apply hapart a
  · unfold Within at hp ⊢
    bv_omega
  · unfold Within at hq ⊢
    bv_omega

/-- Stretches are apart if each ends before the other starts. -/
theorem apart_of_le {p q : BitVec 32} {n m : Nat} (hn : n ≤ (q - p).toNat)
    (hm : m ≤ (p - q).toNat) : Apart p n q m := by
  intro a hp hq
  unfold Within at hp hq
  bv_omega

/-! ## Laying a list -/

/-- The heap with a list laid at an address. -/
def lay (h : Heap α) (p : BitVec 32) (xs : List α) : Heap α :=
  fun a => if Within p xs.length a then xs[(a - p).toNat]? else h a

theorem lay_nil (h : Heap α) (p : BitVec 32) : lay h p [] = h := by
  funext a
  exact if_neg (Nat.not_lt_zero _)

theorem lay_inside (h : Heap α) (p : BitVec 32) {xs : List α} {i : Nat} (hi : i < 2 ^ 32)
    (hin : i < xs.length) : lay h p xs (p + BitVec.ofNat 32 i) = xs[i]? := by
  have hdistance := add_ofNat_sub p hi
  have hwithin : Within p xs.length (p + BitVec.ofNat 32 i) := by
    rw [Within, hdistance]
    exact hin
  rw [lay, if_pos hwithin, hdistance]

/-- Outside the list nothing changes. -/
theorem lay_outside (h : Heap α) {p a : BitVec 32} {xs : List α} (ha : ¬ Within p xs.length a) :
    lay h p xs a = h a := if_neg ha

theorem cells_lay (h : Heap α) (p : BitVec 32) {xs : List α} (hlen : xs.length ≤ 2 ^ 32) :
    Cells (lay h p xs) p xs := by
  intro i x hx
  have hin : i < xs.length := (List.getElem?_eq_some_iff.mp hx).1
  rw [lay_inside h p (by omega) hin, hx]

/-- The first element, then the rest behind it. -/
theorem lay_cons (h : Heap α) (p : BitVec 32) (x : α) {xs : List α} (hlen : xs.length < 2 ^ 32) :
    lay h p (x :: xs) = lay (Function.update h p (some x)) (p + 1) xs := by
  funext a
  by_cases ha : Within p (x :: xs).length a
  · obtain ⟨i, hi, rfl⟩ := ha.exists_eq
    rw [List.length_cons] at hi
    rw [lay_inside h p (by omega) hi]
    cases i with
    | zero =>
      -- the stretch behind `p` does not come round to it
      have hfirst : ¬ Within (p + 1) xs.length (p + BitVec.ofNat 32 0) := by
        unfold Within
        bv_omega
      rw [lay_outside _ hfirst, BitVec.add_zero, Function.update_self]
      rfl
    | succ i =>
      rw [← add_one_add_ofNat, lay_inside _ _ (by omega) (by omega)]
      rfl
  · have hne : a ≠ p := by
      rintro rfl
      exact ha (within_self a (Nat.succ_pos _))
    have hrest : ¬ Within (p + 1) xs.length a := by
      unfold Within at ha ⊢
      rw [List.length_cons] at ha
      bv_omega
    rw [lay_outside h ha, lay_outside _ hrest, Function.update_of_ne hne]

theorem lay_singleton (h : Heap α) (p : BitVec 32) (x : α) :
    lay h p [x] = Function.update h p (some x) := by
  have hlen : ([] : List α).length < 2 ^ 32 := Nat.two_pow_pos 32
  rw [lay_cons h p x hlen, lay_nil]

/-- One list, then another behind it. -/
theorem lay_append (h : Heap α) (p : BitVec 32) {xs ys : List α}
    (hlen : xs.length + ys.length ≤ 2 ^ 32) :
    lay h p (xs ++ ys) = lay (lay h p xs) (p + BitVec.ofNat 32 xs.length) ys := by
  induction xs generalizing h p with
  | nil => rw [lay_nil, List.length_nil, BitVec.add_zero, List.nil_append]
  | cons x xs ih =>
    rw [List.length_cons] at hlen
    rw [List.cons_append, lay_cons h p x (by rw [List.length_append]; omega),
      lay_cons h p x (by omega), ih _ _ (by omega), List.length_cons, add_one_add_ofNat]

/-- The last element, then the list before it. -/
theorem lay_concat (h : Heap α) (p : BitVec 32) {xs : List α} (x : α) (hlen : xs.length < 2 ^ 32) :
    lay h p (xs ++ [x])
      = lay (Function.update h (p + BitVec.ofNat 32 xs.length) (some x)) p xs := by
  rw [lay_append h p (by exact hlen), lay_singleton]
  funext a
  by_cases ha : Within p xs.length a
  · obtain ⟨i, hi, rfl⟩ := ha.exists_eq
    have hne : p + BitVec.ofNat 32 i ≠ p + BitVec.ofNat 32 xs.length := fun h =>
      Nat.ne_of_lt hi (add_ofNat_inj (by omega) hlen h)
    rw [Function.update_of_ne hne, lay_inside _ _ (by omega) hi, lay_inside _ _ (by omega) hi]
  · rw [lay_outside _ ha]
    by_cases heq : a = p + BitVec.ofNat 32 xs.length
    · rw [heq, Function.update_self, Function.update_self]
    · rw [Function.update_of_ne heq, Function.update_of_ne heq, lay_outside _ ha]

/-- A list over another of the same length. -/
theorem lay_lay (h : Heap α) (p : BitVec 32) {xs ys : List α} (hlen : xs.length = ys.length) :
    lay (lay h p xs) p ys = lay h p ys := by
  funext a
  unfold lay
  rw [hlen]
  split_ifs <;> rfl

/-- A list laid where it lies already. -/
theorem lay_of_cells {h : Heap α} {p : BitVec 32} {xs : List α} (hcells : Cells h p xs) :
    lay h p xs = h := by
  funext a
  by_cases ha : Within p xs.length a
  · have hin := List.getElem?_eq_getElem ha
    have hcell := hcells _ _ hin
    rw [BitVec.ofNat_toNat, BitVec.setWidth_eq, BitVec.add_comm, BitVec.sub_add_cancel] at hcell
    rw [hcell, ← hin]
    exact if_pos ha
  · exact lay_outside h ha

/-- What was mapped still is. -/
theorem Mapped.lay {h : Heap α} {p q : BitVec 32} {n : Nat} (hmapped : Mapped h p n)
    (xs : List α) : Mapped (lay h q xs) p n := by
  intro a ha
  unfold PartialMemory.lay
  split_ifs with hin
  · rw [List.getElem?_eq_getElem hin]
    rfl
  · exact hmapped a ha

/-- **A write behind a list** makes it longer. -/
theorem write_lay {h : Heap α} {p : BitVec 32} {xs : List α} (hmapped : Mapped h p (xs.length + 1))
    (x : α) (hlen : xs.length < 2 ^ 32) :
    write (lay h p xs) (p + BitVec.ofNat 32 xs.length) x = some (lay h p (xs ++ [x])) := by
  have hlonger : lay h p (xs ++ [x])
      = lay (lay h p xs) (p + BitVec.ofNat 32 xs.length) [x] := lay_append h p hlen
  rw [write_within (hmapped.lay xs) (within_add hlen (Nat.lt_succ_self _)), hlonger,
    lay_singleton]

/-! ## Objects -/

/-- An object of `n` bytes to write to: mapped, not at address 0, and not past the last address. -/
structure Object (h : Heap α) (p : BitVec 32) (n : Nat) : Prop where
  mapped : Mapped h p n
  nonnull : p ≠ 0
  fits : p.toNat + n ≤ 2 ^ 32

/-! ## Words -/

/-- The word at an address. -/
def readWord (h : Heap (BitVec 8)) (a : BitVec 32) : Option (BitVec 32) := do
  let b0 ← h a
  let b1 ← h (a + 1)
  let b2 ← h (a + 2)
  let b3 ← h (a + 3)
  some (b3 ++ b2 ++ b1 ++ b0)

/-- The heap with a word put at an address. -/
def putWord (h : Heap (BitVec 8)) (a v : BitVec 32) : Heap (BitVec 8) := fun x =>
  if (x - a).toNat < 4 then some (v.extractLsb' (8 * (x - a).toNat) 8) else h x

/-- A word written, if its four bytes are mapped. -/
def writeWord (h : Heap (BitVec 8)) (a v : BitVec 32) : Option (Heap (BitVec 8)) :=
  if (h a).isSome ∧ (h (a + 1)).isSome ∧ (h (a + 2)).isSome ∧ (h (a + 3)).isSome then
    some (putWord h a v)
  else none

/-- Reading a word reads its four bytes and no others. -/
theorem readWord_congr {h h' : Heap (BitVec 8)} {a : BitVec 32}
    (hsame : ∀ x, Within a 4 x → h' x = h x) : readWord h' a = readWord h a := by
  have hbyte : ∀ i : BitVec 32, i.toNat < 4 → h' (a + i) = h (a + i) := by
    intro i hi
    apply hsame
    unfold Within
    rw [add_sub_toNat]
    exact hi
  have hzero := hbyte 0#32 (by decide)
  rw [BitVec.add_zero] at hzero
  unfold readWord
  rw [hzero, hbyte 1 (by decide), hbyte 2 (by decide), hbyte 3 (by decide)]

theorem readWord_putWord (h : Heap (BitVec 8)) (a v : BitVec 32) :
    readWord (putWord h a v) a = some v := by
  have hbyte : ∀ i : BitVec 32, i.toNat < 4 →
      putWord h a v (a + i) = some (v.extractLsb' (8 * i.toNat) 8) := by
    intro i hi
    show (if (a + i - a).toNat < 4 then some (v.extractLsb' (8 * (a + i - a).toNat) 8) else _) = _
    rw [add_sub_toNat, if_pos hi]
  have hzero := hbyte 0#32 (by decide)
  rw [BitVec.add_zero] at hzero
  have hword := bytes_append v
  unfold readWord
  rw [hzero, hbyte 1 (by decide), hbyte 2 (by decide), hbyte 3 (by decide)]
  exact congrArg some hword

theorem putWord_outside (h : Heap (BitVec 8)) {a x : BitVec 32} (v : BitVec 32)
    (hx : ¬ Within a 4 x) : putWord h a v x = h x := if_neg hx

theorem Mapped.putWord {h : Heap (BitVec 8)} {p : BitVec 32} {n : Nat} (hmapped : Mapped h p n)
    (a v : BitVec 32) : Mapped (putWord h a v) p n := by
  intro b hb
  unfold PartialMemory.putWord
  split_ifs
  · rfl
  · exact hmapped b hb

theorem writeWord_of_mapped {h : Heap (BitVec 8)} {a : BitVec 32} (hmapped : Mapped h a 4)
    (v : BitVec 32) : writeWord h a v = some (putWord h a v) := by
  have hin : ∀ i : BitVec 32, i.toNat < 4 → (h (a + i)).isSome := by
    intro i hi
    apply hmapped
    unfold Within
    rw [add_sub_toNat]
    exact hi
  have hzero := hin 0#32 (by decide)
  rw [BitVec.add_zero] at hzero
  exact if_pos ⟨hzero, hin 1 (by decide), hin 2 (by decide), hin 3 (by decide)⟩

/-! ## Terminated lists -/

/-- A list without `z`, with `z` behind it, in an object: not at address 0, and not past the last
    address. -/
structure Terminated (z : α) (h : Heap α) (p : BitVec 32) (xs : List α) : Prop where
  ne : ∀ x ∈ xs, x ≠ z
  cells : Cells h p (xs ++ [z])
  nonnull : p ≠ 0
  object : p.toNat + xs.length < 2 ^ 32

instance [DecidableEq α] (z : α) (h : Heap α) (p : BitVec 32) (xs : List α) :
    Decidable (Terminated z h p xs) :=
  decidable_of_iff
    ((∀ x ∈ xs, x ≠ z) ∧ Cells h p (xs ++ [z]) ∧ p ≠ 0 ∧ p.toNat + xs.length < 2 ^ 32)
    ⟨fun h => ⟨h.1, h.2.1, h.2.2.1, h.2.2.2⟩, fun h => ⟨h.ne, h.cells, h.nonnull, h.object⟩⟩

namespace Terminated

variable {z : α} {h h' : Heap α} {p : BitVec 32} {x : α} {xs : List α}

theorem length_lt (hs : Terminated z h p xs) : xs.length < 2 ^ 32 := by
  have hobject := hs.object
  omega

theorem nil (hs : Terminated z h p []) : h p = some z := cells_singleton_iff.mp hs.cells

theorem head (hs : Terminated z h p (x :: xs)) : h p = some x := (cells_cons_iff.mp hs.cells).1

theorem head_ne (hs : Terminated z h p (x :: xs)) : x ≠ z := hs.ne x List.mem_cons_self

/-- The next element is a pointer into the same object. -/
theorem tail (hs : Terminated z h p (x :: xs)) : Terminated z h (p + 1) xs where
  ne y hy := hs.ne y (List.mem_cons_of_mem x hy)
  cells := (cells_cons_iff.mp hs.cells).2
  nonnull := by
    have hobject := hs.object
    rw [List.length_cons] at hobject
    bv_omega
  object := by
    have hobject := hs.object
    rw [List.length_cons] at hobject
    bv_omega

/-- So is every element, and the terminator. -/
theorem drop (hs : Terminated z h p xs) {k : Nat} (hk : k ≤ xs.length) :
    Terminated z h (p + BitVec.ofNat 32 k) (xs.drop k) := by
  have hobject := hs.object
  have hnonnull := hs.nonnull
  refine ⟨fun y hy => hs.ne y (List.mem_of_mem_drop hy), ?_, by bv_omega, ?_⟩
  · have hcells := hs.cells.drop k
    rw [List.drop_append_of_le_length hk] at hcells
    exact hcells
  · rw [List.length_drop]
    bv_omega

/-- Any list with `z` behind it, up to its first `z`. -/
theorem of_cells [DecidableEq α] (hcells : Cells h p (xs ++ [z])) (hnonnull : p ≠ 0)
    (hobject : p.toNat + xs.length < 2 ^ 32) : Terminated z h p (xs.takeWhile (· ≠ z)) where
  ne x hx := by simpa using List.mem_takeWhile_imp hx
  cells := by
    clear hnonnull hobject
    induction xs generalizing p with
    | nil => exact hcells
    | cons x xs ih =>
      rw [List.cons_append, cells_cons_iff] at hcells
      by_cases hx : x = z
      · rw [List.takeWhile_cons_of_neg (by simpa using hx), List.nil_append, cells_singleton_iff,
          ← hx]
        exact hcells.1
      · rw [List.takeWhile_cons_of_pos (by simpa using hx), List.cons_append, cells_cons_iff]
        exact ⟨hcells.1, ih hcells.2⟩
  nonnull := hnonnull
  object := by
    have hshort := (xs.takeWhile_sublist (· ≠ z)).length_le
    omega

theorem congr (hs : Terminated z h p xs) (hsame : ∀ a, Within p (xs.length + 1) a → h' a = h a) :
    Terminated z h' p xs where
  ne := hs.ne
  cells := by
    have hlen : (xs ++ [z]).length ≤ xs.length + 1 := by
      rw [List.length_append]
      exact Nat.le_refl _
    exact hs.cells.congr hlen hs.length_lt hsame
  nonnull := hs.nonnull
  object := hs.object

/-- At an address lies one terminated list. -/
theorem unique {ys : List α} (hx : Terminated z h p xs) (hy : Terminated z h p ys) : xs = ys := by
  induction xs generalizing p ys with
  | nil =>
    cases ys with
    | nil => rfl
    | cons y ys => exact absurd (Option.some_inj.mp (hy.head.symm.trans hx.nil)) hy.head_ne
  | cons x xs ih =>
    cases ys with
    | nil => exact absurd (Option.some_inj.mp (hx.head.symm.trans hy.nil)) hx.head_ne
    | cons y ys => rw [Option.some_inj.mp (hx.head.symm.trans hy.head), ih hx.tail hy.tail]

end Terminated

/-- A list laid with `z` behind it. -/
theorem terminated_lay {z : α} {xs : List α} (h : Heap α) {p : BitVec 32} (hne : ∀ x ∈ xs, x ≠ z)
    (hnonnull : p ≠ 0) (hobject : p.toNat + xs.length < 2 ^ 32) :
    Terminated z (lay h p (xs ++ [z])) p xs where
  ne := hne
  cells := cells_lay h p (by rw [List.length_append, List.length_singleton]; omega)
  nonnull := hnonnull
  object := hobject

end PartialMemory
