/-
  `libc/string`: the functions that scan a string and write nothing.

  Memory is a heap: an access to an address it does not map has no result.  A pointer is an
  address, NULL is address 0.  Each loop of the source is a recursion on the number of turns left,
  `addressSpace` at most: its only state is a pointer that moves one byte a turn, so that a loop
  which has run once around the addresses runs forever.  No result is therefore a fault or a loop
  without end, and the lemmas below, which give every function its result, say that there is
  neither.

  `IsString h p s` is what C calls a string: the bytes `s`, none of them zero, at `p`, a zero byte
  behind them.  The functions read the two strings they are given, terminators included, and no
  other byte: the rest of the heap need not be mapped.
-/
import FreeMicroNix.Types
import FreeMicroNix.Lib.PartialMemory

namespace FreeMicroNix.Libc

open PartialMemory

/-- The number of addresses. -/
def addressSpace : Nat := 2 ^ 32

/-- The bytes `s` at `p`, and the terminator. -/
abbrev IsString (h : Heap CChar) (p : Uint32) (s : CString) : Prop := Terminated 0 h p s

theorem IsString.turns {h : Heap CChar} {p : Uint32} {s : CString} (hs : IsString h p s) :
    s.length < addressSpace := hs.length_lt

/-- Every byte of a string can be read, and its terminator, which is the one zero. -/
theorem IsString.read {h : Heap CChar} {p : Uint32} {s : CString} (hs : IsString h p s) {k : Nat}
    (hk : k ≤ s.length) : ∃ c, h (p + BitVec.ofNat 32 k) = some c ∧ (c = 0 ↔ k = s.length) := by
  have hdrop := hs.drop hk
  cases hrest : s.drop k with
  | nil =>
    rw [hrest] at hdrop
    exact ⟨0, hdrop.nil, iff_of_true rfl (Nat.le_antisymm hk (List.drop_eq_nil_iff.mp hrest))⟩
  | cons c rest =>
    rw [hrest] at hdrop
    have hless : k < s.length := by
      by_contra hge
      rw [List.drop_eq_nil_of_le (Nat.le_of_not_lt hge)] at hrest
      exact absurd hrest (List.cons_ne_nil c rest).symm
    exact ⟨c, hdrop.head, iff_of_false hdrop.head_ne (Nat.ne_of_lt hless)⟩

/-- A character as the `int` it is promoted to. -/
def promote (c : CChar) : Uint32 := c.signExtend 32

/-- Converting it back to `char` gives the character again. -/
theorem setWidth_promote (c : CChar) : (promote c).setWidth 8 = c := by
  apply BitVec.eq_of_getLsbD_eq
  intro i hi
  have hwide : i < 32 := by omega
  rw [promote, BitVec.getLsbD_setWidth, BitVec.getLsbD_signExtend]
  simp only [hi, hwide, decide_true, Bool.true_and, if_true]

/-- How many bytes at the start of `s` are in the set. -/
def spanIn (set s : CString) : Nat := (s.takeWhile (· ∈ set)).length

/-- How many are not. -/
def spanOut (set s : CString) : Nat := (s.takeWhile (· ∉ set)).length

/-! ## The functions -/

/-- `for (i = 0; s[i] != '\0'; i++) ;` -/
def strlenLoop (h : Heap CChar) (s : Uint32) : Nat → Uint32 → Option Uint32
  | 0, _ => none
  | turns + 1, i => do
    let c ← h (s + i)
    if c ≠ 0 then strlenLoop h s turns (i + 1) else some i

def strlen (h : Heap CChar) (s : Uint32) : Option Uint32 := strlenLoop h s addressSpace 0

/-- `while (*s != (char)c) if (!*s++) return 0;` -/
def strchrLoop (h : Heap CChar) (c : CChar) : Nat → Uint32 → Option Uint32
  | 0, _ => none
  | turns + 1, s => do
    let x ← h s
    if x ≠ c then
      if x = 0 then some 0 else strchrLoop h c turns (s + 1)
    else some s

def strchr (h : Heap CChar) (s c : Uint32) : Option Uint32 :=
  strchrLoop h (c.setWidth 8) addressSpace s

/-- `while (*s1 && strchr(s2,*s1++)) ret++;` -/
def strspnLoop (h : Heap CChar) (s2 : Uint32) : Nat → Uint32 → Uint32 → Option Uint32
  | 0, _, _ => none
  | turns + 1, s1, ret => do
    let c ← h s1
    if c ≠ 0 then
      let found ← strchr h s2 (promote c)
      if found ≠ 0 then strspnLoop h s2 turns (s1 + 1) (ret + 1) else some ret
    else some ret

def strspn (h : Heap CChar) (s1 s2 : Uint32) : Option Uint32 :=
  strspnLoop h s2 addressSpace s1 0

/-- `while (*s1) if (strchr(s2,*s1)) return ret; else s1++,ret++;` -/
def strcspnLoop (h : Heap CChar) (s2 : Uint32) : Nat → Uint32 → Uint32 → Option Uint32
  | 0, _, _ => none
  | turns + 1, s1, ret => do
    let c ← h s1
    if c ≠ 0 then
      let found ← strchr h s2 (promote c)
      if found ≠ 0 then some ret else strcspnLoop h s2 turns (s1 + 1) (ret + 1)
    else some ret

def strcspn (h : Heap CChar) (s1 s2 : Uint32) : Option Uint32 :=
  strcspnLoop h s2 addressSpace s1 0

/-- The inner loop of `strpbrk`: `acc` stops at the character, or at the terminator. -/
def strpbrkScan (h : Heap CChar) (c : CChar) : Nat → Uint32 → Option Uint32
  | 0, _ => none
  | turns + 1, acc => do
    let a ← h acc
    if a ≠ 0 then
      if c = a then some acc else strpbrkScan h c turns (acc + 1)
    else some acc

/-- The outer loop: `str` and `acc` when it is left. -/
def strpbrkLoop (h : Heap CChar) (accept : Uint32) :
    Nat → Uint32 → Uint32 → Option (Uint32 × Uint32)
  | 0, _, _ => none
  | turns + 1, str, acc => do
    let c ← h str
    if c ≠ 0 then
      let acc ← strpbrkScan h c addressSpace accept
      let a ← h acc
      if a ≠ 0 then some (str, acc) else strpbrkLoop h accept turns (str + 1) acc
    else some (str, acc)

def strpbrk (h : Heap CChar) (str accept : Uint32) : Option Uint32 := do
  let c ← h str
  if c = 0 then some 0
  else
    let (str, acc) ← strpbrkLoop h accept addressSpace str accept
    let a ← h acc
    if a = 0 then some 0 else some str

/-- `while (str[i] != accept) i++;` -/
def lfindLoop (h : Heap CChar) (str : Uint32) (accept : CChar) : Nat → Uint32 → Option Uint32
  | 0, _ => none
  | turns + 1, i => do
    let c ← h (str + i)
    if c ≠ accept then lfindLoop h str accept turns (i + 1) else some i

/-- The address, as a `size_t`. -/
def lfind (h : Heap CChar) (str : Uint32) (accept : CChar) : Option Uint32 := do
  let i ← lfindLoop h str accept addressSpace 0
  some (str + i)

/-! ## What they return -/

section Results

variable {h : Heap CChar} {p q : Uint32} {s set : CString} {c : CChar}

/-- `strlen` needs nothing but the bytes and the terminator: no object they lie in. -/
theorem strlen_cells (hne : ∀ c ∈ s, c ≠ 0) (hcells : Cells h p (s ++ [0]))
    (hlen : s.length < addressSpace) : strlen h p = some (BitVec.ofNat 32 s.length) := by
  have hloop : ∀ (t : CString) (i turns : Nat), (∀ c ∈ t, c ≠ 0) →
      Cells h (p + BitVec.ofNat 32 i) (t ++ [0]) → t.length < turns →
      strlenLoop h p turns (BitVec.ofNat 32 i) = some (BitVec.ofNat 32 (i + t.length)) := by
    intro t
    induction t with
    | nil =>
      intro i turns _ ht hturns
      obtain ⟨k, rfl⟩ := Nat.exists_eq_add_of_lt hturns
      rw [strlenLoop, cells_singleton_iff.mp ht]
      rfl
    | cons x t ih =>
      intro i turns hx ht hturns
      obtain ⟨k, rfl⟩ := Nat.exists_eq_add_of_lt hturns
      obtain ⟨hfirst, hrest⟩ := cells_cons_iff.mp ht
      rw [add_ofNat_add_one] at hrest
      rw [strlenLoop, bind_of_eq_some hfirst, if_pos (hx x List.mem_cons_self), ofNat_add_one,
        ih (i + 1) _ (fun c hc => hx c (List.mem_cons_of_mem x hc)) hrest
          (Nat.lt_of_succ_lt_succ hturns), List.length_cons]
      exact congrArg (fun n => some (BitVec.ofNat 32 n)) (by omega)
  have hstart : Cells h (p + BitVec.ofNat 32 0) (s ++ [0]) := by
    rw [BitVec.add_zero]
    exact hcells
  have hrun := hloop s 0 addressSpace hne hstart hlen
  rw [Nat.zero_add] at hrun
  exact hrun

/-- **`strlen`** counts the bytes before the terminator. -/
theorem strlen_eq (hs : IsString h p s) : strlen h p = some (BitVec.ofNat 32 s.length) :=
  strlen_cells hs.ne hs.cells hs.turns

/-- **`strchr`** returns the first occurrence of the character, the terminator counting as one. -/
theorem strchrLoop_eq (hs : IsString h p s) {turns : Nat} (hturns : s.length < turns) :
    strchrLoop h c turns p
      = some (if c ∈ s ++ [0] then p + BitVec.ofNat 32 ((s ++ [0]).idxOf c) else 0) := by
  induction s generalizing p turns with
  | nil =>
    obtain ⟨k, rfl⟩ := Nat.exists_eq_add_of_lt hturns
    rw [strchrLoop, bind_of_eq_some hs.nil]
    by_cases hc : (0 : CChar) = c
    · subst hc
      rw [if_neg (not_not_intro rfl), List.nil_append, if_pos (List.mem_singleton_self _),
        List.idxOf_cons_self, BitVec.add_zero]
    · have hnot : c ∉ ([] ++ [0] : CString) := fun h => hc (List.mem_singleton.mp h).symm
      rw [if_pos hc, if_pos rfl, if_neg hnot]
  | cons x s ih =>
    obtain ⟨k, rfl⟩ := Nat.exists_eq_add_of_lt hturns
    rw [strchrLoop, bind_of_eq_some hs.head]
    -- the test for the character comes before that for the terminator
    by_cases hc : x = c
    · subst hc
      rw [if_neg (not_not_intro rfl), List.cons_append, if_pos List.mem_cons_self,
        List.idxOf_cons_self, BitVec.add_zero]
    · have hrest := ih hs.tail (Nat.lt_of_succ_lt_succ hturns)
      have hmem : c ∈ x :: (s ++ [0]) ↔ c ∈ s ++ [0] := by
        rw [List.mem_cons]
        exact or_iff_right (Ne.symm hc)
      rw [if_pos hc, if_neg hs.head_ne, hrest, List.cons_append, List.idxOf_cons_ne _ hc,
        add_one_add_ofNat]
      simp only [hmem]

/-- A character of a string is found, at an address that is not NULL. -/
theorem strchr_promote (hs : IsString h p s) (hc : c ≠ 0) :
    ∃ r, strchr h p (promote c) = some r ∧ (r ≠ 0 ↔ c ∈ s) := by
  rw [strchr, setWidth_promote, strchrLoop_eq hs hs.turns]
  refine ⟨_, rfl, ?_⟩
  by_cases hmem : c ∈ s
  · have hfirst : (s ++ [0]).idxOf c ≤ s.length := by
      rw [List.idxOf_append_of_mem hmem]
      exact List.idxOf_le_length
    rw [if_pos (List.mem_append_left _ hmem)]
    exact iff_of_true (hs.drop hfirst).nonnull hmem
  · have hnot : c ∉ s ++ [0] := by
      rw [List.mem_append, List.mem_singleton]
      exact not_or.mpr ⟨hmem, hc⟩
    rw [if_neg hnot]
    exact iff_of_false (fun h => h rfl) hmem

/-! ### Spans -/

theorem spanIn_le (set s : CString) : spanIn set s ≤ s.length := (s.takeWhile_sublist _).length_le

theorem spanOut_le (set s : CString) : spanOut set s ≤ s.length := (s.takeWhile_sublist _).length_le

theorem spanIn_cons_of_mem (h : c ∈ set) (s : CString) :
    spanIn set (c :: s) = spanIn set s + 1 := by
  rw [spanIn, List.takeWhile_cons_of_pos (by simpa using h), List.length_cons, spanIn]

theorem spanIn_cons_of_not_mem (h : c ∉ set) (s : CString) : spanIn set (c :: s) = 0 := by
  rw [spanIn, List.takeWhile_cons_of_neg (by simpa using h), List.length_nil]

theorem spanOut_cons_of_mem (h : c ∈ set) (s : CString) : spanOut set (c :: s) = 0 := by
  rw [spanOut, List.takeWhile_cons_of_neg (by simpa using h), List.length_nil]

theorem spanOut_cons_of_not_mem (h : c ∉ set) (s : CString) :
    spanOut set (c :: s) = spanOut set s + 1 := by
  rw [spanOut, List.takeWhile_cons_of_pos (by simpa using h), List.length_cons, spanOut]

/-- Behind the bytes in the set stands one that is not, or nothing. -/
theorem spanOut_drop_eq_zero_iff (set s : CString) :
    spanOut set (s.drop (spanIn set s)) = 0 ↔ spanIn set s = s.length := by
  induction s with
  | nil => exact iff_of_true rfl rfl
  | cons x s ih =>
    by_cases hx : x ∈ set
    · rw [spanIn_cons_of_mem hx, List.drop_succ_cons, List.length_cons, Nat.add_right_cancel_iff]
      exact ih
    · rw [spanIn_cons_of_not_mem hx, List.drop_zero, spanOut_cons_of_not_mem hx, List.length_cons]
      exact iff_of_false (Nat.succ_ne_zero _) (Nat.succ_ne_zero _).symm

/-- A loop that counts the bytes at the start of a string up to the first that fails a test. -/
theorem countLoop_eq (loop : Nat → Uint32 → Uint32 → Option Uint32) {P : CChar → Prop}
    [DecidablePred P] (hend : ∀ turns p i, h p = some 0 → loop (turns + 1) p i = some i)
    (hturn : ∀ turns p i c, h p = some c → c ≠ 0 →
      loop (turns + 1) p i = if P c then loop turns (p + 1) (i + 1) else some i)
    (hs : IsString h p s) {turns : Nat} (hturns : s.length < turns) (i : Nat) :
    loop turns p (BitVec.ofNat 32 i) = some (BitVec.ofNat 32 (i + (s.takeWhile P).length)) := by
  induction s generalizing p turns i with
  | nil =>
    obtain ⟨k, rfl⟩ := Nat.exists_eq_add_of_lt hturns
    exact hend _ p _ hs.nil
  | cons x s ih =>
    obtain ⟨k, rfl⟩ := Nat.exists_eq_add_of_lt hturns
    rw [hturn _ p _ x hs.head hs.head_ne]
    by_cases hx : P x
    · have hsum : i + 1 + (s.takeWhile P).length = i + ((s.takeWhile P).length + 1) := by omega
      rw [if_pos hx, ofNat_add_one, ih hs.tail (Nat.lt_of_succ_lt_succ hturns), hsum,
        List.takeWhile_cons_of_pos (by simpa using hx), List.length_cons]
    · rw [if_neg hx, List.takeWhile_cons_of_neg (by simpa using hx), List.length_nil, Nat.add_zero]

/-- **`strspn`** counts the bytes at the start that are in the set. -/
theorem strspn_eq (hs : IsString h p s) (hset : IsString h q set) :
    strspn h p q = some (BitVec.ofNat 32 (spanIn set s)) := by
  have hrun := countLoop_eq (strspnLoop h q) (P := (· ∈ set)) ?_ ?_ hs hs.turns 0
  · rw [Nat.zero_add] at hrun
    exact hrun
  · intro turns p i hp
    rw [strspnLoop, hp]
    rfl
  · intro turns p i c hp hc
    obtain ⟨r, hr, hfound⟩ := strchr_promote hset hc
    rw [strspnLoop, bind_of_eq_some hp, if_pos hc, bind_of_eq_some hr]
    simp only [hfound]

/-- **`strcspn`** counts those that are not. -/
theorem strcspn_eq (hs : IsString h p s) (hset : IsString h q set) :
    strcspn h p q = some (BitVec.ofNat 32 (spanOut set s)) := by
  have hrun := countLoop_eq (strcspnLoop h q) (P := (· ∉ set)) ?_ ?_ hs hs.turns 0
  · rw [Nat.zero_add] at hrun
    exact hrun
  · intro turns p i hp
    rw [strcspnLoop, hp]
    rfl
  · intro turns p i c hp hc
    obtain ⟨r, hr, hfound⟩ := strchr_promote hset hc
    rw [strcspnLoop, bind_of_eq_some hp, if_pos hc, bind_of_eq_some hr]
    simp only [hfound, ite_not]

/-- The inner loop of `strpbrk` stops at the character if the set has it, else at the end. -/
theorem strpbrkScan_eq (hset : IsString h q set) {turns : Nat} (hturns : set.length < turns) :
    ∃ acc a, strpbrkScan h c turns q = some acc ∧ h acc = some a ∧ (a ≠ 0 ↔ c ∈ set) := by
  induction set generalizing q turns with
  | nil =>
    obtain ⟨k, rfl⟩ := Nat.exists_eq_add_of_lt hturns
    refine ⟨q, 0, ?_, hset.nil, iff_of_false (fun h => h rfl) List.not_mem_nil⟩
    rw [strpbrkScan, hset.nil]
    rfl
  | cons x set ih =>
    obtain ⟨k, rfl⟩ := Nat.exists_eq_add_of_lt hturns
    rw [strpbrkScan, bind_of_eq_some hset.head, if_pos hset.head_ne]
    by_cases hx : c = x
    · subst hx
      rw [if_pos rfl]
      exact ⟨q, c, rfl, hset.head, iff_of_true hset.head_ne List.mem_cons_self⟩
    · rw [if_neg hx, List.mem_cons, or_iff_right hx]
      exact ih hset.tail (Nat.lt_of_succ_lt_succ hturns)

/-- The outer loop.  What `acc` leads to when it is left says why; on the terminator at once it is
    what the caller put there. -/
theorem strpbrkLoop_eq (hs : IsString h p s) (hset : IsString h q set) {turns : Nat}
    (hturns : s.length < turns) {acc : Uint32} (hacc : s = [] → h acc = some 0) :
    ∃ acc' a, strpbrkLoop h q turns p acc = some (p + BitVec.ofNat 32 (spanOut set s), acc') ∧
      h acc' = some a ∧ (a = 0 ↔ spanOut set s = s.length) := by
  induction s generalizing p turns acc with
  | nil =>
    obtain ⟨k, rfl⟩ := Nat.exists_eq_add_of_lt hturns
    refine ⟨acc, 0, ?_, hacc rfl, iff_of_true rfl rfl⟩
    rw [strpbrkLoop, hs.nil]
    exact congrArg (fun a => some (a, acc)) (BitVec.add_zero p).symm
  | cons x s ih =>
    obtain ⟨k, rfl⟩ := Nat.exists_eq_add_of_lt hturns
    obtain ⟨acc', a, hscan, ha, hfound⟩ := strpbrkScan_eq (c := x) hset hset.turns
    rw [strpbrkLoop, bind_of_eq_some hs.head, if_pos hs.head_ne, bind_of_eq_some hscan,
      bind_of_eq_some ha]
    by_cases hx : x ∈ set
    · rw [if_pos (hfound.mpr hx), spanOut_cons_of_mem hx, BitVec.add_zero]
      exact ⟨acc', a, rfl, ha, iff_of_false (hfound.mpr hx) (by rw [List.length_cons]; omega)⟩
    · have hzero : a = 0 := not_not.mp (mt hfound.mp hx)
      subst hzero
      rw [if_neg (not_not_intro rfl), spanOut_cons_of_not_mem hx, List.length_cons,
        ← add_one_add_ofNat, Nat.add_right_cancel_iff]
      exact ih hs.tail (Nat.lt_of_succ_lt_succ hturns) fun _ => ha

/-- **`strpbrk`** returns the first byte that is in the set, or NULL. -/
theorem strpbrk_eq (hs : IsString h p s) (hset : IsString h q set) :
    strpbrk h p q
      = some (if spanOut set s = s.length then 0 else p + BitVec.ofNat 32 (spanOut set s)) := by
  cases s with
  | nil =>
    rw [strpbrk, hs.nil]
    rfl
  | cons x s =>
    have hbyte : x :: s = [] → h q = some 0 := fun hnil => absurd hnil (List.cons_ne_nil x s)
    obtain ⟨acc, a, hloop, ha, hend⟩ := strpbrkLoop_eq hs hset hs.turns hbyte
    rw [strpbrk, bind_of_eq_some hs.head, if_neg hs.head_ne, bind_of_eq_some hloop]
    simp only [bind_of_eq_some ha]
    by_cases hzero : a = 0
    · rw [if_pos hzero, if_pos (hend.mp hzero)]
    · rw [if_neg hzero, if_neg (mt hend.mpr hzero)]

/-- **`lfind`** for the terminator is the address of the terminator. -/
theorem lfind_eq (hs : IsString h p s) : lfind h p 0 = some (p + BitVec.ofNat 32 s.length) := by
  have hsame : ∀ (turns : Nat) (i : Uint32), lfindLoop h p 0 turns i = strlenLoop h p turns i := by
    intro turns
    induction turns with
    | zero => intro i; rfl
    | succ turns ih =>
      intro i
      rw [lfindLoop, strlenLoop, ih]
  have hlen := strlen_eq hs
  rw [strlen] at hlen
  rw [lfind, hsame, hlen]
  rfl

end Results

end FreeMicroNix.Libc
