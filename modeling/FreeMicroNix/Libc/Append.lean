/-
  `libc/string/strcpy.c` and `strcat.c`: a string copied, and a string appended.

  The loop of `strcpy` is left through the terminator of the source alone, and it may have written
  over that terminator before it comes to it.  Writes follow reads at the fixed distance
  `dest - src`, so there are two cases and no third:

  1. **`dest` is one of the addresses behind `src`, up to the terminator.**  What the loop reads
     from there on is what it has written, and it has written no zero (`strcpyLoop_chases`): it
     goes on until it faults, or forever.

  2. **`dest` is any other address.**  Every byte is read before it is written over, and the source
     arrives whole (`strcpyLoop_eq`).

  `strcat` runs the same loop behind its first string.  Its destination is then a zero byte, and
  the only zero byte of the source is the terminator: the call returns unless the two strings end
  at the same address.
-/
import FreeMicroNix.Libc.Strings

namespace FreeMicroNix.Libc

open PartialMemory

/-! ## The functions -/

/-- `while ((*dest++ = *src++)) ;` -/
def strcpyLoop : Nat → Heap CChar → Uint32 → Uint32 → Option (Heap CChar)
  | 0, _, _, _ => none
  | turns + 1, h, dest, src => do
    let c ← h src
    let h ← write h dest c
    if c ≠ 0 then strcpyLoop turns h (dest + 1) (src + 1) else some h

/-- The heap afterwards, and `ret`. -/
def strcpy (h : Heap CChar) (dest src : Uint32) : Option (Heap CChar × Uint32) := do
  let h' ← strcpyLoop addressSpace h dest src
  some (h', dest)

/-- `while (*dest) dest++;` -/
def strcatScan (h : Heap CChar) : Nat → Uint32 → Option Uint32
  | 0, _ => none
  | turns + 1, dest => do
    let c ← h dest
    if c ≠ 0 then strcatScan h turns (dest + 1) else some dest

/-- The heap afterwards, and `ret`. -/
def strcat (h : Heap CChar) (dest src : Uint32) : Option (Heap CChar × Uint32) := do
  let fin ← strcatScan h addressSpace dest
  let h' ← strcpyLoop addressSpace h fin src
  some (h', dest)

section Results

variable {h : Heap CChar} {dest src : Uint32} {d t : CString} {c : CChar} {turns : Nat}

/-! ## The loop -/

/-- One turn that copies a character. -/
theorem strcpyLoop_char (hsrc : h src = some c) (hc : c ≠ 0) {y : CChar}
    (hdest : h dest = some y) :
    strcpyLoop (turns + 1) h dest src
      = strcpyLoop turns (Function.update h dest (some c)) (dest + 1) (src + 1) := by
  rw [strcpyLoop, bind_of_eq_some hsrc, bind_of_eq_some (write_of_mapped hdest c), if_pos hc]

/-- A write to none of the addresses of a list. -/
theorem update_cells {s : CString} (hcells : Cells h src s) (hlen : s.length < 2 ^ 32)
    (hapart : ¬ Within src s.length dest) (x : CChar) :
    Cells (Function.update h dest (some x)) src s := by
  refine hcells.congr (Nat.le_refl _) (Nat.le_of_lt hlen) fun a ha => Function.update_of_ne ?_ _ _
  rintro rfl
  exact hapart ha

/-- **The source arrives whole** if no address behind its first byte is the destination. -/
theorem strcpyLoop_eq (hne : ∀ c ∈ t, c ≠ 0) (hcells : Cells h src (t ++ [0]))
    (hmapped : Mapped h dest (t.length + 1)) (hlen : t.length + 1 < 2 ^ 32)
    (hapart : ¬ Within (src + 1) t.length dest) (hturns : t.length < turns) :
    strcpyLoop turns h dest src = some (lay h dest (t ++ [0])) := by
  induction t generalizing h dest src turns with
  | nil =>
    obtain ⟨k, rfl⟩ := Nat.exists_eq_add_of_lt hturns
    have hzero : h src = some 0 := cells_singleton_iff.mp hcells
    rw [strcpyLoop, bind_of_eq_some hzero,
      bind_of_eq_some (write_within hmapped (within_self dest (Nat.succ_pos 0)) _),
      if_neg (not_not_intro rfl), List.nil_append, lay_singleton]
  | cons c t ih =>
    obtain ⟨k, rfl⟩ := Nat.exists_eq_add_of_lt hturns
    rw [List.length_cons] at hmapped hlen hapart
    have hlength : (t ++ [(0 : CChar)]).length = t.length + 1 := List.length_append
    have hfirst : h src = some c := (cells_cons_iff.mp hcells).1
    have hrest : Cells h (src + 1) (t ++ [0]) := (cells_cons_iff.mp hcells).2
    obtain ⟨y, hy⟩ := Option.isSome_iff_exists.mp (hmapped.head (Nat.succ_pos _))
    -- the byte is written to no address that is still to be read
    have hnext : Cells (Function.update h dest (some c)) (src + 1) (t ++ [0]) :=
      update_cells hrest (by omega) (by rw [hlength]; exact hapart) c
    have hshift : ¬ Within (src + 1 + 1) t.length (dest + 1) := by
      unfold Within at hapart ⊢
      bv_omega
    rw [strcpyLoop_char hfirst (hne c List.mem_cons_self) hy,
      ih (fun x hx => hne x (List.mem_cons_of_mem c hx)) hnext
        ((hmapped.tail (by omega)).update dest c) (by omega) hshift
        (by rw [List.length_cons]; omega),
      List.cons_append, lay_cons h dest c (by rw [hlength]; omega)]

/-- **The loop chases its own bytes**: none of those between the two pointers is zero, and so it
    stays. -/
theorem strcpyLoop_chases (hbehind : src ≠ dest)
    (hbetween : ∀ a, Within src (dest - src).toNat a → h a ≠ some 0) :
    strcpyLoop turns h dest src = none := by
  induction turns generalizing h dest src with
  | zero => rfl
  | succ turns ih =>
    have hsrc : Within src (dest - src).toNat src := within_self src (by bv_omega)
    cases hread : h src with
    | none =>
      rw [strcpyLoop, hread]
      rfl
    | some c =>
      have hc : c ≠ 0 := fun hzero => hbetween src hsrc (by rw [hread, hzero])
      cases hold : h dest with
      | none =>
        rw [strcpyLoop, bind_of_eq_some hread, write, hold]
        rfl
      | some y =>
        rw [strcpyLoop_char hread hc hold]
        refine ih (by bv_omega) fun a ha => ?_
        -- the window has lost the byte just read and gained the one just written
        by_cases heq : a = dest
        · rw [heq, Function.update_self]
          exact fun hzero => hc (Option.some_inj.mp hzero)
        · rw [Function.update_of_ne heq]
          apply hbetween
          unfold Within at ha ⊢
          bv_omega

/-- No byte before the terminator is zero. -/
theorem IsString.between (hs : IsString h src t) {n : Nat} (hn : n ≤ t.length) {a : Uint32}
    (ha : Within src n a) : h a ≠ some 0 := by
  obtain ⟨i, hi, rfl⟩ := ha.exists_eq
  obtain ⟨c, hc, hzero⟩ := hs.read (k := i) (by omega)
  rw [hc]
  exact fun h => absurd (hzero.mp (Option.some_inj.mp h)) (by omega)

/-- The terminator is written over before it is read. -/
theorem strcpyLoop_inside (hs : IsString h src t) (hinside : Within (src + 1) t.length dest) :
    strcpyLoop turns h dest src = none := by
  have hturns := hs.turns
  have haddresses : addressSpace = 2 ^ 32 := rfl
  have hdistance : (dest - src).toNat ≤ t.length ∧ src ≠ dest := by
    unfold Within at hinside
    constructor
    · bv_omega
    · rintro rfl
      bv_omega
  exact strcpyLoop_chases hdistance.2 fun a ha => hs.between hdistance.1 ha

theorem IsString.short (hs : IsString h src t) : t.length + 1 < 2 ^ 32 := by
  have hobject := hs.object
  have hnonnull := hs.nonnull
  bv_omega

/-! ## `strcpy` -/

/-- **`strcpy`** returns exactly if the destination is none of the addresses behind the first byte
    of the source, up to its terminator: it has then copied the string and touched nothing else, and
    otherwise no number of turns is enough. -/
theorem strcpy_returns_iff (hs : IsString h src t) (hdest : Object h dest (t.length + 1)) :
    (¬ Within (src + 1) t.length dest → ∃ g, strcpy h dest src = some (g, dest) ∧
      IsString g dest t ∧ ∀ a, ¬ Within dest (t.length + 1) a → g a = h a) ∧
    (Within (src + 1) t.length dest →
      strcpy h dest src = none ∧ ∀ turns, strcpyLoop turns h dest src = none) := by
  have hfits := hdest.fits
  constructor
  · intro hapart
    have hrun := strcpyLoop_eq hs.ne hs.cells hdest.mapped hs.short hapart hs.turns
    refine ⟨_, bind_of_eq_some hrun _,
      terminated_lay h hs.ne hdest.nonnull (by omega), fun a ha => lay_outside h ?_⟩
    rw [List.length_append]
    exact ha
  · intro hinside
    refine ⟨?_, fun turns => strcpyLoop_inside hs hinside⟩
    rw [strcpy, strcpyLoop_inside hs hinside]
    rfl

/-! ## `strcat` -/

/-- The scan stops at the terminator. -/
theorem strcatScan_eq (hs : IsString h dest d) (hturns : d.length < turns) :
    strcatScan h turns dest = some (dest + BitVec.ofNat 32 d.length) := by
  induction d generalizing dest turns with
  | nil =>
    obtain ⟨k, rfl⟩ := Nat.exists_eq_add_of_lt hturns
    rw [strcatScan, bind_of_eq_some hs.nil, if_neg (not_not_intro rfl), List.length_nil,
      BitVec.add_zero]
  | cons c d ih =>
    obtain ⟨k, rfl⟩ := Nat.exists_eq_add_of_lt hturns
    rw [strcatScan, bind_of_eq_some hs.head, if_pos hs.head_ne,
      ih hs.tail (Nat.lt_of_succ_lt_succ hturns), List.length_cons, add_one_add_ofNat]

/-- A zero byte behind the first byte of a string is its terminator. -/
theorem IsString.zero_within_iff (hs : IsString h src t) {a : Uint32} (ha : h a = some 0) :
    Within (src + 1) t.length a ↔ t ≠ [] ∧ a = src + BitVec.ofNat 32 t.length := by
  have hshort := hs.short
  constructor
  · intro hin
    obtain ⟨i, hi, rfl⟩ := hin.exists_eq
    rw [add_one_add_ofNat] at ha ⊢
    obtain ⟨c, hc, hzero⟩ := hs.read (k := i + 1) hi
    have hend : i + 1 = t.length := hzero.mp (Option.some_inj.mp (hc.symm.trans ha))
    refine ⟨?_, by rw [hend]⟩
    rintro rfl
    exact absurd hi (Nat.not_lt_zero i)
  · rintro ⟨hne, rfl⟩
    obtain ⟨n, hn⟩ := Nat.exists_eq_succ_of_ne_zero (List.length_pos_iff.mpr hne).ne'
    rw [hn, ← add_one_add_ofNat]
    exact within_add (by omega) (Nat.lt_succ_self n)

/-- **`strcat`** returns exactly if the two strings do not end at the same address, or the second
    is empty: the first has then the second behind it, and nothing else has changed. -/
theorem strcat_returns_iff (hd : IsString h dest d) (hs : IsString h src t)
    (hroom : Object h dest (d.length + (t.length + 1))) :
    ((dest + BitVec.ofNat 32 d.length = src + BitVec.ofNat 32 t.length → t = []) →
      ∃ g, strcat h dest src = some (g, dest) ∧ IsString g dest (d ++ t) ∧
        ∀ a, ¬ Within (dest + BitVec.ofNat 32 d.length) (t.length + 1) a → g a = h a) ∧
    (dest + BitVec.ofNat 32 d.length = src + BitVec.ofNat 32 t.length → t ≠ [] →
      strcat h dest src = none ∧
        ∀ turns, strcpyLoop turns h (dest + BitVec.ofNat 32 d.length) src = none) := by
  have hfits := hroom.fits
  have hend : h (dest + BitVec.ofNat 32 d.length) = some 0 :=
    cells_singleton_iff.mp (cells_append_iff.mp hd.cells).2
  have hscan := strcatScan_eq hd hd.turns
  constructor
  · intro hends
    have hapart : ¬ Within (src + 1) t.length (dest + BitVec.ofNat 32 d.length) := by
      intro hin
      obtain ⟨hne, heq⟩ := (hs.zero_within_iff hend).mp hin
      exact hne (hends heq)
    have hrun := strcpyLoop_eq hs.ne hs.cells (hroom.mapped.drop (by omega)) hs.short hapart
      hs.turns
    -- the first string, laid where it is, and the second behind it
    have hboth : lay h (dest + BitVec.ofNat 32 d.length) (t ++ [0])
        = lay h dest (d ++ t ++ [0]) := by
      have hfirst : lay h dest d = h := lay_of_cells (cells_append_iff.mp hd.cells).1
      have hlen : d.length + (t ++ [(0 : CChar)]).length ≤ 2 ^ 32 := by
        rw [List.length_append, List.length_singleton]
        omega
      rw [List.append_assoc, lay_append h dest hlen, hfirst]
    have hne : ∀ c ∈ d ++ t, c ≠ 0 := fun c hc =>
      (List.mem_append.mp hc).elim (hd.ne c) (hs.ne c)
    refine ⟨lay h (dest + BitVec.ofNat 32 d.length) (t ++ [0]), ?_, ?_,
      fun a ha => lay_outside h ?_⟩
    · rw [strcat, bind_of_eq_some hscan]
      exact bind_of_eq_some hrun _
    · rw [hboth]
      refine terminated_lay h hne hroom.nonnull ?_
      rw [List.length_append]
      omega
    · rw [List.length_append]
      exact ha
  · intro heq hne
    have hinside := (hs.zero_within_iff hend).mpr ⟨hne, heq⟩
    refine ⟨?_, fun turns => strcpyLoop_inside hs hinside⟩
    rw [strcat, bind_of_eq_some hscan, strcpyLoop_inside hs hinside]
    rfl

end Results

/-! ## Two strings in a memory that is mapped throughout -/

/-- `kernel` at 0x1000 and `free` at 0x2000, zeroes around them. -/
def freeKernel : Heap CChar :=
  lay (lay (fun _ => some 0) 0x1000 (str "kernel" ++ [0])) 0x2000 (str "free" ++ [0])

theorem freeKernel_object (p : Uint32) {n : Nat} (hp : p ≠ 0) (hn : p.toNat + n ≤ 2 ^ 32) :
    Object freeKernel p n where
  mapped := Mapped.lay (Mapped.lay (fun _ _ => rfl) _) _
  nonnull := hp
  fits := hn

theorem freeKernel_free : IsString freeKernel 0x2000 (str "free") :=
  terminated_lay _ (by decide) (by decide) (by decide)

theorem freeKernel_kernel : IsString freeKernel 0x1000 (str "kernel") := by
  refine Terminated.congr (terminated_lay (fun _ => some 0) (by decide) (by decide)
    (by decide)) fun a ha => ?_
  exact lay_outside _ (apart_of_le (by decide) (by decide) a ha)

/-- `free` over `kernel`. -/
theorem strcpy_returns_free :
    (¬ Within (0x2000 + 1) (str "free").length 0x1000 → ∃ g,
      strcpy freeKernel 0x1000 0x2000 = some (g, 0x1000) ∧ IsString g 0x1000 (str "free") ∧
      ∀ a, ¬ Within 0x1000 ((str "free").length + 1) a → g a = freeKernel a) ∧
    (Within (0x2000 + 1) (str "free").length 0x1000 →
      strcpy freeKernel 0x1000 0x2000 = none ∧
        ∀ turns, strcpyLoop turns freeKernel 0x1000 0x2000 = none) :=
  strcpy_returns_iff freeKernel_free (freeKernel_object 0x1000 (by decide) (by decide))

/-- `kernel` behind `free`. -/
theorem strcat_returns_kernel :
    ∃ g, strcat freeKernel 0x2000 0x1000 = some (g, 0x2000) ∧
      IsString g 0x2000 (str "free" ++ str "kernel") ∧
      ∀ a, ¬ Within (0x2000 + BitVec.ofNat 32 (str "free").length)
        ((str "kernel").length + 1) a → g a = freeKernel a :=
  (strcat_returns_iff freeKernel_free freeKernel_kernel
    (freeKernel_object 0x2000 (by decide) (by decide))).1 fun h => absurd h (by decide)

end FreeMicroNix.Libc
