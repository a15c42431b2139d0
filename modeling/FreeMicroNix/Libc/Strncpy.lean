/-
  `libc/string/strncpy.c`: exactly `n` bytes, whatever the length of the source.

  Two loops count the same `n` down.  The first is left at its top when `n` bytes are copied, or at
  its bottom through the terminator, which is copied too; the second writes zeroes for what is left
  of `n`.  So the bytes written are those before the terminator, `n` of them at most, and zeroes up
  to `n` (`strncpyLoop_eq`): the copied terminator is one of the zeroes.

  What is read is a `Source`: the bytes before the terminator, and the terminator if it is among the
  first `n`.
-/
import FreeMicroNix.Types
import FreeMicroNix.Lib.PartialMemory

namespace FreeMicroNix.Libc

open PartialMemory

/-! ## The function -/

/-- `while (n--) *dest++ = 0;` -/
def padLoop (h : Heap CChar) (dest n : Uint32) : Option (Heap CChar) :=
  if _hn : n = 0 then some h
  else do
    let h ← write h dest 0
    padLoop h (dest + 1) (n - 1)
termination_by n.toNat
decreasing_by bv_omega

/-- `do { if (!n--) return ret; } while ((*dest++ = *src++));` and the loop behind it. -/
def strncpyLoop (h : Heap CChar) (dest src n : Uint32) : Option (Heap CChar) :=
  if _hn : n = 0 then some h
  else do
    let c ← h src
    let h ← write h dest c
    if c ≠ 0 then strncpyLoop h (dest + 1) (src + 1) (n - 1)
    else padLoop h (dest + 1) (n - 1)
termination_by n.toNat
decreasing_by bv_omega

def strncpy (h : Heap CChar) (dest src n : Uint32) : Option (Heap CChar × Uint32) := do
  let h ← strncpyLoop h dest src n
  some (h, dest)

/-! ## What is read -/

/-- The bytes `t` at `src`, none of them zero and `n` at most; if fewer, a terminator behind
    them. -/
structure Source (h : Heap CChar) (src : Uint32) (t : CString) (n : Nat) : Prop where
  ne : ∀ c ∈ t, c ≠ 0
  short : t.length ≤ n
  cells : Cells h src ((t ++ [0]).take n)

section Results

variable {h g : Heap CChar} {dest src : Uint32} {c : CChar} {t : CString} {n : Nat}

/-- **Every readable source is one**: a terminator is within reach, or `n` bytes are. -/
theorem exists_source (hn : n < 2 ^ 32)
    (hreadable : (∃ k < n, Mapped h src k ∧ h (src + BitVec.ofNat 32 k) = some 0) ∨
      Mapped h src n) : ∃ t, Source h src t n := by
  induction n generalizing src with
  | zero =>
    refine ⟨[], fun c hc => absurd hc List.not_mem_nil, Nat.le_refl 0, ?_⟩
    exact cells_nil h src
  | succ n ih =>
    -- the first byte can be read in either case
    have hfirst : ∃ c, h src = some c := by
      rcases hreadable with ⟨k, hk, hmapped, hzero⟩ | hmapped
      · cases k with
        | zero =>
          rw [BitVec.add_zero] at hzero
          exact ⟨0, hzero⟩
        | succ k => exact Option.isSome_iff_exists.mp (hmapped.head (Nat.succ_pos k))
      · exact Option.isSome_iff_exists.mp (hmapped.head (Nat.succ_pos n))
    obtain ⟨c, hc⟩ := hfirst
    by_cases hend : c = 0
    · refine ⟨[], fun c hc => absurd hc List.not_mem_nil, Nat.zero_le _, ?_⟩
      rw [List.nil_append, List.take_succ_cons, List.take_nil, cells_singleton_iff, hc, hend]
    · have hrest : (∃ k < n, Mapped h (src + 1) k ∧ h (src + 1 + BitVec.ofNat 32 k) = some 0) ∨
          Mapped h (src + 1) n := by
        rcases hreadable with ⟨k, hk, hmapped, hzero⟩ | hmapped
        · cases k with
          | zero =>
            rw [BitVec.add_zero, hc, Option.some_inj] at hzero
            exact absurd hzero hend
          | succ k =>
            refine Or.inl ⟨k, Nat.lt_of_succ_lt_succ hk, hmapped.tail (by omega), ?_⟩
            rw [add_one_add_ofNat]
            exact hzero
        · exact Or.inr (hmapped.tail (by omega))
      obtain ⟨t, ht⟩ := ih (Nat.lt_of_succ_lt hn) hrest
      refine ⟨c :: t, List.forall_mem_cons.mpr ⟨hend, ht.ne⟩, Nat.succ_le_succ ht.short, ?_⟩
      rw [List.cons_append, List.take_succ_cons, cells_cons_iff]
      exact ⟨hc, ht.cells⟩

/-- It is seen from the bytes that are read. -/
theorem Source.congr (hs : Source h src t n) (hn : n < 2 ^ 32)
    (hsame : ∀ a, Within src (min n (t.length + 1)) a → g a = h a) : Source g src t n where
  ne := hs.ne
  short := hs.short
  cells := by
    refine hs.cells.congr ?_ (by omega) hsame
    rw [List.length_take, List.length_append, List.length_singleton]

/-- The source from the next byte on. -/
theorem Source.tail (hs : Source h src (c :: t) (n + 1)) : Source h (src + 1) t n where
  ne := (List.forall_mem_cons.mp hs.ne).2
  short := Nat.le_of_succ_le_succ hs.short
  cells := by
    have hcells := hs.cells
    rw [List.cons_append, List.take_succ_cons, cells_cons_iff] at hcells
    exact hcells.2

/-! ## What is written -/

/-- **The padding** writes zeroes. -/
theorem padLoop_eq (hmapped : Mapped h dest n) (hn : n < 2 ^ 32) :
    padLoop h dest (BitVec.ofNat 32 n) = some (lay h dest (List.replicate n 0)) := by
  induction n generalizing h dest with
  | zero =>
    rw [padLoop, List.replicate_zero, lay_nil]
    exact dif_pos rfl
  | succ n ih =>
    rw [padLoop, dif_neg (ofNat_succ_ne_zero hn),
      bind_of_eq_some (write_within hmapped (within_self dest (Nat.succ_pos n)) _),
      ofNat_succ_sub_one, ih ((hmapped.tail (by omega)).update dest 0) (by omega),
      List.replicate_succ, lay_cons h dest 0 (by rw [List.length_replicate]; omega)]

/-- **The loops** write the bytes before the terminator, and zeroes up to `n`. -/
theorem strncpyLoop_eq (hs : Source h src t n) (hmapped : Mapped h dest n) (hn : n < 2 ^ 32)
    (hapart : Apart dest n src (min n (t.length + 1))) :
    strncpyLoop h dest src (BitVec.ofNat 32 n)
      = some (lay h dest (t ++ List.replicate (n - t.length) 0)) := by
  induction t generalizing h dest src n with
  | nil =>
    cases n with
    | zero =>
      rw [strncpyLoop, List.nil_append, List.length_nil, List.replicate_zero, lay_nil]
      exact dif_pos rfl
    | succ n =>
      have hzero : h src = some 0 := (cells_cons_iff.mp hs.cells).1
      -- the terminator is copied, and is the first of the zeroes
      rw [strncpyLoop, dif_neg (ofNat_succ_ne_zero hn), bind_of_eq_some hzero,
        bind_of_eq_some (write_within hmapped (within_self dest (Nat.succ_pos n)) _),
        if_neg (not_not_intro rfl), ofNat_succ_sub_one,
        padLoop_eq ((hmapped.tail (by omega)).update dest 0) (by omega), List.nil_append,
        List.length_nil, Nat.sub_zero, List.replicate_succ,
        lay_cons h dest 0 (by rw [List.length_replicate]; omega)]
  | cons c t ih =>
    cases n with
    | zero => exact absurd hs.short (Nat.not_succ_le_zero _)
    | succ n =>
      have hfirst : h src = some c := (cells_cons_iff.mp hs.cells).1
      have hshort := hs.short
      rw [List.length_cons] at hshort
      have hmin : min (n + 1) ((c :: t).length + 1) = min n (t.length + 1) + 1 := by
        rw [List.length_cons]
        omega
      rw [hmin] at hapart
      have hrest := hapart.tail (by omega) (by omega)
      -- the byte written is not in the source
      have hsource : Source (Function.update h dest (some c)) (src + 1) t n := by
        refine hs.tail.congr (by omega) fun a ha => Function.update_of_ne ?_ _ _
        rintro rfl
        refine hapart a (within_self a (Nat.succ_pos n)) ?_
        unfold Within at ha ⊢
        bv_omega
      rw [strncpyLoop, dif_neg (ofNat_succ_ne_zero hn), bind_of_eq_some hfirst,
        bind_of_eq_some (write_within hmapped (within_self dest (Nat.succ_pos n)) _),
        if_pos (hs.ne c List.mem_cons_self), ofNat_succ_sub_one,
        ih hsource ((hmapped.tail (by omega)).update dest c) (by omega) hrest, List.cons_append,
        lay_cons h dest c (by rw [List.length_append, List.length_replicate]; omega),
        List.length_cons, Nat.add_sub_add_right]

/-- **The footprint of `strncpy`.**  The memory it runs on is that of the source where the source
    is read, and any other elsewhere. -/
theorem strncpy_footprint {n : Uint32}
    (hreadable : (∃ k < n.toNat, Mapped h src k ∧ h (src + BitVec.ofNat 32 k) = some 0) ∨
      Mapped h src n.toNat) :
    ∃ t, Source h src t n.toNat ∧ ∀ (g : Heap CChar) (dest : Uint32),
      (∀ a, Within src (min n.toNat (t.length + 1)) a → g a = h a) →
      Mapped g dest n.toNat → Apart dest n.toNat src (min n.toNat (t.length + 1)) →
      ∃ g', strncpy g dest src n = some (g', dest) ∧
        (∀ i < n.toNat, g' (dest + BitVec.ofNat 32 i)
          = if i < t.length then h (src + BitVec.ofNat 32 i) else some 0) ∧
        ∀ a, ¬ Within dest n.toNat a → g' a = g a := by
  obtain ⟨t, hs⟩ := exists_source n.isLt hreadable
  refine ⟨t, hs, fun g dest hsame hmapped hapart => ?_⟩
  have hrun := strncpyLoop_eq (hs.congr n.isLt hsame) hmapped n.isLt hapart
  have hshort := hs.short
  have hlen : (t ++ List.replicate (n.toNat - t.length) (0 : CChar)).length = n.toNat := by
    rw [List.length_append, List.length_replicate]
    omega
  rw [BitVec.ofNat_toNat, BitVec.setWidth_eq] at hrun
  refine ⟨_, bind_of_eq_some hrun _, fun i hi => ?_, fun a ha => ?_⟩
  · rw [lay_inside g dest (by omega) (by omega)]
    by_cases hless : i < t.length
    · have hbyte := hs.cells i t[i] (by
        rw [List.getElem?_take_of_lt hi, List.getElem?_append_left hless,
          List.getElem?_eq_getElem hless])
      rw [if_pos hless, hbyte, List.getElem?_append_left hless, List.getElem?_eq_getElem hless]
    · rw [if_neg hless, List.getElem?_append_right (Nat.le_of_not_lt hless),
        List.getElem?_replicate, if_pos (by omega)]
  · apply lay_outside
    rw [hlen]
    exact ha

end Results

/-- `ab` and its terminator, and nothing else. -/
def shortSource : Heap CChar := lay (fun _ => none) 0x1000 (str "ab" ++ [0])

theorem shortSource_cells : Cells shortSource 0x1000 (str "ab" ++ [0]) :=
  cells_lay _ _ (by decide)

/-- The same, with five bytes to copy to. -/
def shortCopy : Heap CChar := lay shortSource 0x2000 (List.replicate 5 (ch 'x'))

/-- Five bytes of a source of two. -/
theorem strncpy_footprint_ab :
    ∃ t g', Source shortSource 0x1000 t (5 : Uint32).toNat ∧
      strncpy shortCopy 0x2000 0x1000 5 = some (g', 0x2000) ∧
      (∀ i < (5 : Uint32).toNat, g' (0x2000 + BitVec.ofNat 32 i)
        = if i < t.length then shortSource (0x1000 + BitVec.ofNat 32 i) else some 0) ∧
      ∀ a, ¬ Within 0x2000 (5 : Uint32).toNat a → g' a = shortCopy a := by
  obtain ⟨t, hsource, hcopy⟩ := strncpy_footprint (n := 5)
    (Or.inl ⟨2, by decide, shortSource_cells.mapped.mono (by decide), by decide⟩)
  have hnear : ∀ a, Within 0x1000 (min (5 : Uint32).toNat (t.length + 1)) a →
      ¬ Within 0x2000 5 a := by
    intro a ha
    have hfive : min (5 : Uint32).toNat (t.length + 1) ≤ 5 := Nat.min_le_left _ _
    unfold Within at ha ⊢
    bv_omega
  obtain ⟨g', hrun, hbytes, hframe⟩ := hcopy shortCopy 0x2000
    (fun a ha => lay_outside _ (hnear a ha)) (cells_lay _ _ (by decide)).mapped
    (fun a ha hsrc => hnear a hsrc ha)
  exact ⟨t, g', hsource, hrun, hbytes, hframe⟩

end FreeMicroNix.Libc
