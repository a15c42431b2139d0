/-
  `libc/string/memcpy.c` and `memmove.c`: the same bytes, copied upwards or downwards.

  Both write a list of bytes at the destination, and the question is which: a byte may have been
  overwritten before it is read.  Each direction has one lemma about it:

  1. **Upwards** (`memcpyLoop_eq`) — the list `ys` is written if each of its bytes is found at the
     source when the bytes before it have been written.  For a destination below the source, or
     behind its end, these are the original bytes.  For one inside the source the bytes before it
     come round again and again.

  2. **Downwards** (`memmoveDown_eq`) — the original bytes are written if no byte of the source is
     one of those written before it, which lie above the corresponding place of the destination.

  `memmove` goes upwards below the source and downwards above it.  Only the order of the two
  pointers decides, so it goes downwards also where the stretches do not meet, and there the two
  directions write the same.

  `libc/string/memset.c` is the last part: the loop of `memcpy` with one byte for all.
-/
import FreeMicroNix.Types
import FreeMicroNix.Lib.PartialMemory
import Mathlib.Data.List.Induction

namespace FreeMicroNix.Libc

open PartialMemory

/-! ## The functions -/

/-- `while (n--) *dp++ = *sp++;` -/
def memcpyLoop (h : Heap CChar) (dp sp n : Uint32) : Option (Heap CChar) :=
  if _hn : n = 0 then some h
  else do
    let c ← h sp
    let h ← write h dp c
    memcpyLoop h (dp + 1) (sp + 1) (n - 1)
termination_by n.toNat
decreasing_by bv_omega

def memcpy (h : Heap CChar) (dest src n : Uint32) : Option (Heap CChar × Uint32) := do
  let h ← memcpyLoop h dest src n
  some (h, dest)

/-- `for ( i = 0; i < size; i++ ) dst[i] = src[i];` -/
def memmoveUp (h : Heap CChar) (dst src size i : Uint32) : Option (Heap CChar) :=
  if _hi : i < size then do
    let c ← h (src + i)
    let h ← write h (dst + i) c
    memmoveUp h dst src size (i + 1)
  else some h
termination_by size.toNat - i.toNat
decreasing_by bv_omega

/-- `for ( i = size; i != 0; i-- ) dst[i-1] = src[i-1];` -/
def memmoveDown (h : Heap CChar) (dst src i : Uint32) : Option (Heap CChar) :=
  if _hi : i = 0 then some h
  else do
    let c ← h (src + (i - 1))
    let h ← write h (dst + (i - 1)) c
    memmoveDown h dst src (i - 1)
termination_by i.toNat
decreasing_by bv_omega

def memmove (h : Heap CChar) (dstptr srcptr size : Uint32) : Option (Heap CChar × Uint32) := do
  let h ←
    (if dstptr < srcptr then memmoveUp h dstptr srcptr size 0
    else memmoveDown h dstptr srcptr size)
  some (h, dstptr)

/-! ## The two directions -/

section Results

variable {h : Heap CChar} {dst src : Uint32} {xs ys : List CChar} {n : Nat}

/-- Nothing is left to copy. -/
theorem memcpyLoop_zero (h : Heap CChar) (dst src : Uint32) :
    memcpyLoop h dst src (BitVec.ofNat 32 0) = some h := by
  rw [memcpyLoop]
  exact dif_pos rfl

/-- **Upwards**: `ys` is written if each byte is found when those before it have been written. -/
theorem memcpyLoop_eq (hmapped : Mapped h dst ys.length) (hlen : ys.length < 2 ^ 32)
    (hread : ∀ i (hi : i < ys.length),
      lay h dst (ys.take i) (src + BitVec.ofNat 32 i) = some ys[i]) :
    memcpyLoop h dst src (BitVec.ofNat 32 ys.length) = some (lay h dst ys) := by
  induction ys generalizing h dst src with
  | nil =>
    rw [lay_nil]
    exact memcpyLoop_zero h dst src
  | cons y ys ih =>
    rw [List.length_cons] at hlen hmapped
    have hfirst := hread 0 (Nat.succ_pos _)
    rw [List.take_zero, lay_nil, BitVec.add_zero] at hfirst
    rw [List.length_cons, memcpyLoop, dif_neg (ofNat_succ_ne_zero hlen), bind_of_eq_some hfirst,
      bind_of_eq_some (write_within hmapped (within_self dst (Nat.succ_pos _)) _),
      ofNat_succ_sub_one, lay_cons h dst y (by omega)]
    refine ih ((hmapped.tail (by omega)).update dst y) (by omega) fun i hi => ?_
    have hnext := hread (i + 1) (Nat.succ_lt_succ hi)
    rw [List.take_succ_cons, lay_cons h dst y (by rw [List.length_take]; omega),
      ← add_one_add_ofNat] at hnext
    exact hnext

/-- **Downwards**: `xs` is written if no byte of it is overwritten by one behind it. -/
theorem memmoveDown_eq (hmapped : Mapped h dst xs.length) (hlen : xs.length < 2 ^ 32)
    (hcells : Cells h src xs)
    (hsafe : ∀ i j, i < j → j < xs.length → src + BitVec.ofNat 32 i ≠ dst + BitVec.ofNat 32 j) :
    memmoveDown h dst src (BitVec.ofNat 32 xs.length) = some (lay h dst xs) := by
  induction xs using List.reverseRecOn generalizing h with
  | nil =>
    rw [memmoveDown, lay_nil]
    exact dif_pos rfl
  | append_singleton xs x ih =>
    rw [List.length_append, List.length_singleton] at hlen hmapped hsafe ⊢
    obtain ⟨hinit, hlast⟩ := cells_append_iff.mp hcells
    have hend : Within dst (xs.length + 1) (dst + BitVec.ofNat 32 xs.length) :=
      within_add (by omega) (Nat.lt_succ_self _)
    rw [memmoveDown, dif_neg (ofNat_succ_ne_zero hlen), ofNat_succ_sub_one,
      bind_of_eq_some (cells_singleton_iff.mp hlast),
      bind_of_eq_some (write_within hmapped hend _), lay_concat h dst x (by omega)]
    refine ih ((hmapped.mono (Nat.le_succ _)).update _ _) (by omega) ?_ fun i j hij hj =>
      hsafe i j hij (Nat.lt_succ_of_lt hj)
    -- the byte just written is none of those still to be read
    intro i z hz
    have hi := (List.getElem?_eq_some_iff.mp hz).1
    rw [Function.update_of_ne (hsafe i xs.length hi (Nat.lt_succ_self _))]
    exact hinit i z hz

/-- The upward loop of `memmove` is that of `memcpy`. -/
theorem memmoveUp_eq (h : Heap CChar) (dst src : Uint32) {k : Nat} (hn : k + n < 2 ^ 32) :
    memmoveUp h dst src (BitVec.ofNat 32 (k + n)) (BitVec.ofNat 32 k)
      = memcpyLoop h (dst + BitVec.ofNat 32 k) (src + BitVec.ofNat 32 k) (BitVec.ofNat 32 n) := by
  induction n generalizing h k with
  | zero =>
    rw [memcpyLoop_zero, memmoveUp, Nat.add_zero, dif_neg (BitVec.lt_irrefl _)]
  | succ n ih =>
    have hin : BitVec.ofNat 32 k < BitVec.ofNat 32 (k + (n + 1)) := by bv_omega
    have hsum : k + (n + 1) = k + 1 + n := by omega
    rw [memmoveUp, memcpyLoop, dif_pos hin, dif_neg (ofNat_succ_ne_zero (by omega)),
      ofNat_succ_sub_one, add_ofNat_add_one, add_ofNat_add_one]
    -- the same byte is read and written, and the rest is the same by induction
    refine bind_congr fun c => bind_congr fun h => ?_
    rw [ofNat_add_one, hsum]
    exact ih h (by omega)

/-! ## Which bytes are written -/

/-- The destination is below the source, or behind its end: the original bytes, upwards. -/
theorem memcpyLoop_original (hmapped : Mapped h dst xs.length) (hcells : Cells h src xs)
    (hlen : xs.length < 2 ^ 32) (hfits : dst.toNat + xs.length ≤ 2 ^ 32)
    (hfits' : src.toNat + xs.length ≤ 2 ^ 32)
    (hapart : dst ≤ src ∨ src.toNat + xs.length ≤ dst.toNat) :
    memcpyLoop h dst src (BitVec.ofNat 32 xs.length) = some (lay h dst xs) := by
  refine memcpyLoop_eq hmapped hlen fun i hi => ?_
  have houtside : ¬ Within dst (xs.take i).length (src + BitVec.ofNat 32 i) := by
    unfold Within
    rw [List.length_take]
    bv_omega
  rw [lay_outside h houtside]
  exact hcells i _ (List.getElem?_eq_getElem hi)

/-- The bytes of the source before the destination, over and over. -/
def replicated (xs : List CChar) (d : Nat) : List CChar :=
  (List.range xs.length).map fun i => xs.getD (i % d) 0

theorem length_replicated (xs : List CChar) (d : Nat) : (replicated xs d).length = xs.length := by
  rw [replicated, List.length_map, List.length_range]

theorem getElem?_replicated {d i : Nat} (hi : i < xs.length) :
    (replicated xs d)[i]? = xs[i % d]? := by
  have hin : i % d < xs.length := Nat.lt_of_le_of_lt (Nat.mod_le i d) hi
  rw [replicated, List.getElem?_map, List.getElem?_range hi, Option.map_some,
    List.getD_eq_getElem?_getD, List.getElem?_eq_getElem hin]
  rfl

/-- The destination is `d` bytes inside the source: what is read from there on has been written. -/
theorem memcpyLoop_replicated (hmapped : Mapped h dst xs.length) (hcells : Cells h src xs)
    (hlen : xs.length < 2 ^ 32) {d : Nat} (hd : 0 < d) (hdst : dst = src + BitVec.ofNat 32 d)
    (hfits : src.toNat + d + xs.length ≤ 2 ^ 32) :
    memcpyLoop h dst src (BitVec.ofNat 32 xs.length) = some (lay h dst (replicated xs d)) := by
  have hlength := length_replicated xs d
  rw [← hlength]
  refine memcpyLoop_eq (by rw [hlength]; exact hmapped) (by omega) fun i hi => ?_
  rw [hlength] at hi
  rw [← List.getElem?_eq_getElem, getElem?_replicated hi]
  rcases Nat.lt_or_ge i d with hless | hge
  · -- the byte is still the original one
    have houtside : ¬ Within dst ((replicated xs d).take i).length (src + BitVec.ofNat 32 i) := by
      unfold Within
      rw [List.length_take, hdst]
      bv_omega
    rw [lay_outside h houtside, Nat.mod_eq_of_lt hless, List.getElem?_eq_getElem hi]
    exact hcells i _ (List.getElem?_eq_getElem hi)
  · obtain ⟨j, rfl⟩ := Nat.exists_eq_add_of_le hge
    have hin : j < ((replicated xs d).take (d + j)).length := by
      rw [List.length_take]
      omega
    rw [← add_ofNat_add_ofNat, ← hdst, lay_inside h dst (by omega) hin,
      List.getElem?_take_of_lt (by omega), getElem?_replicated (by omega), Nat.add_mod_left]

/-- **`memmove`** writes the original bytes. -/
theorem memmove_eq (hmapped : Mapped h dst xs.length) (hcells : Cells h src xs)
    (hlen : xs.length < 2 ^ 32) (hfits : dst.toNat + xs.length ≤ 2 ^ 32)
    (hfits' : src.toNat + xs.length ≤ 2 ^ 32) :
    memmove h dst src (BitVec.ofNat 32 xs.length) = some (lay h dst xs, dst) := by
  rw [memmove]
  by_cases hless : dst < src
  · have hup := memmoveUp_eq h dst src (k := 0) (n := xs.length) (by omega)
    rw [Nat.zero_add, BitVec.add_zero, BitVec.add_zero] at hup
    have hrun := memcpyLoop_original hmapped hcells hlen hfits hfits'
      (Or.inl (BitVec.le_of_lt hless))
    rw [if_pos hless]
    exact bind_of_eq_some (hup.trans hrun) _
  · have hrun := memmoveDown_eq hmapped hlen hcells fun i j hij hj => by bv_omega
    rw [if_neg hless]
    exact bind_of_eq_some hrun _

/-- What lies at a byte of the destination, and outside it. -/
theorem lay_bytes (h : Heap CChar) (dst : Uint32) (ys : List CChar) (hlen : ys.length < 2 ^ 32) :
    (∀ i < ys.length, lay h dst ys (dst + BitVec.ofNat 32 i) = ys[i]?) ∧
      ∀ a, ¬ Within dst ys.length a → lay h dst ys a = h a :=
  ⟨fun _ hi => lay_inside h dst (by omega) hi, fun _ ha => lay_outside h ha⟩

/-- The bytes that are to be copied. -/
theorem exists_bytes {size : Uint32} (hsrc : Mapped h src size.toNat) :
    ∃ xs, Cells h src xs ∧ xs.length = size.toNat ∧ BitVec.ofNat 32 xs.length = size := by
  obtain ⟨xs, hcells, hlen⟩ := hsrc.exists_cells (Nat.le_of_lt size.isLt)
  refine ⟨xs, hcells, hlen, ?_⟩
  rw [hlen, BitVec.ofNat_toNat, BitVec.setWidth_eq]

/-- **Overlap-safe copy**, for stretches that meet in any way. -/
theorem memmove_overlap {size : Uint32} (hdst : Mapped h dst size.toNat)
    (hsrc : Mapped h src size.toNat) (hfits : dst.toNat + size.toNat ≤ 2 ^ 32)
    (hfits' : src.toNat + size.toNat ≤ 2 ^ 32) :
    ∃ h', memmove h dst src size = some (h', dst) ∧
      (∀ i < size.toNat, h' (dst + BitVec.ofNat 32 i) = h (src + BitVec.ofNat 32 i)) ∧
      ∀ a, ¬ Within dst size.toNat a → h' a = h a := by
  obtain ⟨xs, hcells, hlen, hsize⟩ := exists_bytes hsrc
  have hshort : xs.length < 2 ^ 32 := hlen ▸ size.isLt
  rw [← hlen] at hdst hfits hfits' ⊢
  obtain ⟨hinside, houtside⟩ := lay_bytes h dst xs hshort
  refine ⟨lay h dst xs, ?_, fun i hi => ?_, houtside⟩
  · rw [← hsize]
    exact memmove_eq hdst hcells hshort hfits hfits'
  · rw [hinside i hi, List.getElem?_eq_getElem hi]
    exact (hcells i _ (List.getElem?_eq_getElem hi)).symm

/-- **Plain copy** is the same unless the destination starts inside the source, and then it
    replicates the bytes before it. -/
theorem memcpy_memmove {n : Uint32} (hdst : Mapped h dst n.toNat) (hsrc : Mapped h src n.toNat)
    (hfits : dst.toNat + n.toNat ≤ 2 ^ 32) (hfits' : src.toNat + n.toNat ≤ 2 ^ 32) :
    (dst ≤ src ∨ src.toNat + n.toNat ≤ dst.toNat →
      ∃ h', memcpy h dst src n = some (h', dst) ∧ memmove h dst src n = some (h', dst)) ∧
    (src < dst ∧ dst.toNat < src.toNat + n.toNat →
      ∃ h', memcpy h dst src n = some (h', dst) ∧
        (∀ i < n.toNat, h' (dst + BitVec.ofNat 32 i)
          = h (src + BitVec.ofNat 32 (i % (dst.toNat - src.toNat)))) ∧
        ∀ a, ¬ Within dst n.toNat a → h' a = h a) := by
  obtain ⟨xs, hcells, hlen, hsize⟩ := exists_bytes hsrc
  have hshort : xs.length < 2 ^ 32 := hlen ▸ n.isLt
  rw [← hlen] at hdst hfits hfits' ⊢
  constructor
  · intro hapart
    have hrun := memcpyLoop_original hdst hcells hshort hfits hfits' hapart
    rw [hsize] at hrun
    refine ⟨lay h dst xs, bind_of_eq_some hrun _, ?_⟩
    rw [← hsize]
    exact memmove_eq hdst hcells hshort hfits hfits'
  · rintro ⟨hbelow, hinside⟩
    have hdistance : dst = src + BitVec.ofNat 32 (dst.toNat - src.toNat) := by bv_omega
    have hrun := memcpyLoop_replicated hdst hcells hshort (d := dst.toNat - src.toNat)
      (by bv_omega) hdistance (by bv_omega)
    have hlength := length_replicated xs (dst.toNat - src.toNat)
    obtain ⟨hbytes, houtside⟩ := lay_bytes h dst _ (hlength.symm ▸ hshort)
    rw [hlength] at hbytes houtside
    rw [hsize] at hrun
    refine ⟨_, bind_of_eq_some hrun _, fun i hi => ?_, houtside⟩
    have hin : i % (dst.toNat - src.toNat) < xs.length :=
      Nat.lt_of_le_of_lt (Nat.mod_le _ _) hi
    rw [hbytes i hi, getElem?_replicated hi, List.getElem?_eq_getElem hin]
    exact (hcells _ _ (List.getElem?_eq_getElem hin)).symm

end Results

/-- Six bytes. -/
def sixBytes : Heap CChar := lay (fun _ => none) 0x1000 (str "abcdef")

theorem sixBytes_mapped : Mapped sixBytes 0x1000 4 ∧ Mapped sixBytes 0x1002 4 := by
  have hcells : Cells sixBytes 0x1000 (str "abcdef") := cells_lay _ _ (by decide)
  exact ⟨hcells.mapped.mono (by decide), (hcells.drop 2).mapped⟩

/-- Two bytes up, over the source. -/
theorem memmove_overlap_six :
    ∃ h', memmove sixBytes 0x1002 0x1000 4 = some (h', 0x1002) ∧
      (∀ i < (4 : Uint32).toNat,
        h' (0x1002 + BitVec.ofNat 32 i) = sixBytes (0x1000 + BitVec.ofNat 32 i)) ∧
      ∀ a, ¬ Within 0x1002 (4 : Uint32).toNat a → h' a = sixBytes a :=
  memmove_overlap sixBytes_mapped.2 sixBytes_mapped.1 (by decide) (by decide)

theorem memcpy_memmove_six :
    ((0x1002 : Uint32) ≤ 0x1000 ∨
      (0x1000 : Uint32).toNat + (4 : Uint32).toNat ≤ (0x1002 : Uint32).toNat →
      ∃ h', memcpy sixBytes 0x1002 0x1000 4 = some (h', 0x1002) ∧
        memmove sixBytes 0x1002 0x1000 4 = some (h', 0x1002)) ∧
    ((0x1000 : Uint32) < 0x1002 ∧
      (0x1002 : Uint32).toNat < (0x1000 : Uint32).toNat + (4 : Uint32).toNat →
      ∃ h', memcpy sixBytes 0x1002 0x1000 4 = some (h', 0x1002) ∧
        (∀ i < (4 : Uint32).toNat, h' (0x1002 + BitVec.ofNat 32 i)
          = sixBytes (0x1000 + BitVec.ofNat 32 (i % ((0x1002 : Uint32).toNat
            - (0x1000 : Uint32).toNat)))) ∧
        ∀ a, ¬ Within 0x1002 (4 : Uint32).toNat a → h' a = sixBytes a) :=
  memcpy_memmove sixBytes_mapped.2 sixBytes_mapped.1 (by decide) (by decide)

/-! ## One byte for all -/

/-- `while (n--) *p++ = (unsigned char)c;` -/
def memsetLoop (h : Heap CChar) (p n : Uint32) (c : CChar) : Option (Heap CChar) :=
  if _hn : n = 0 then some h
  else do
    let h ← write h p c
    memsetLoop h (p + 1) (n - 1) c
termination_by n.toNat
decreasing_by bv_omega

def memset (h : Heap CChar) (s c n : Uint32) : Option (Heap CChar × Uint32) := do
  let h ← memsetLoop h s n (c.setWidth 8)
  some (h, s)

theorem memsetLoop_eq {h : Heap CChar} {p : Uint32} {n : Nat} (hmapped : Mapped h p n)
    (hn : n < 2 ^ 32) (c : CChar) :
    memsetLoop h p (BitVec.ofNat 32 n) c = some (lay h p (List.replicate n c)) := by
  induction n generalizing h p with
  | zero =>
    rw [memsetLoop, List.replicate_zero, lay_nil]
    exact dif_pos rfl
  | succ n ih =>
    rw [memsetLoop, dif_neg (ofNat_succ_ne_zero hn),
      bind_of_eq_some (write_within hmapped (within_self p (Nat.succ_pos n)) c),
      ofNat_succ_sub_one, List.replicate_succ,
      lay_cons h p c (by rw [List.length_replicate]; omega)]
    exact ih ((hmapped.tail (by omega)).update p c) (by omega)

/-- **`memset`**: the low byte of `c`, everywhere in the stretch. -/
theorem memset_eq {h : Heap CChar} {s n : Uint32} (hmapped : Mapped h s n.toNat) (c : Uint32) :
    memset h s c n = some (lay h s (List.replicate n.toNat (c.setWidth 8)), s) := by
  have hloop := memsetLoop_eq hmapped n.isLt (c.setWidth 8)
  rw [BitVec.ofNat_toNat, BitVec.setWidth_eq] at hloop
  exact bind_of_eq_some hloop _

end FreeMicroNix.Libc
