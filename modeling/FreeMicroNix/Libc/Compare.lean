/-
  `libc/string/strcmp.c` and `memcmp.c`: one order, read off memory in two ways.

  `strcmp` compares as plain `char`, which is signed, and returns a difference of unsigned bytes;
  `memcmp` is unsigned throughout and counts.  Both look for where two stretches of bytes part:

  1. **`Parting h p q w c d`** — the bytes `w` lie at `p` and at `q`, and behind them `c` and `d`,
     which differ or are both the terminator.  Two strings part at their first difference
     (`exists_parting`), and each function returns its `c - d` from the bytes up to it alone.

  2. **`difference a b`** — that `c - d` without a program, a recursion on the two lists.  What
     makes it an order is proved here: zero means equal, negative means before, and exchanging the
     strings changes the sign.  "Before" is Lean's order on lists of bytes, a proper prefix first,
     and transitivity is that order's.
-/
import FreeMicroNix.Libc.Strings

namespace FreeMicroNix.Libc

open PartialMemory

/-- A byte as an `unsigned char`, promoted to `int`. -/
def unsigned (c : CChar) : Uint32 := c.setWidth 32

/-! ## The functions -/

/-- `while(n--) if( *p1 != *p2 ) return *p1 - *p2; else p1++,p2++;` -/
def memcmp (h : Heap CChar) (p1 p2 n : Uint32) : Option Uint32 :=
  if _hn : n = 0 then some 0
  else do
    let c ← h p1
    let d ← h p2
    if unsigned c ≠ unsigned d then some (unsigned c - unsigned d)
    else memcmp h (p1 + 1) (p2 + 1) (n - 1)
termination_by n.toNat
decreasing_by bv_omega

/-- `while(*s1 && (*s1==*s2)) s1++,s2++;`: the pointers when it is left. -/
def strcmpLoop (h : Heap CChar) : Nat → Uint32 → Uint32 → Option (Uint32 × Uint32)
  | 0, _, _ => none
  | turns + 1, s1, s2 => do
    let c ← h s1
    if promote c ≠ 0 then
      let d ← h s2
      if promote c = promote d then strcmpLoop h turns (s1 + 1) (s2 + 1) else some (s1, s2)
    else some (s1, s2)

def strcmp (h : Heap CChar) (s1 s2 : Uint32) : Option Uint32 := do
  let (s1, s2) ← strcmpLoop h addressSpace s1 s2
  let c ← h s1
  let d ← h s2
  some (unsigned c - unsigned d)

/-! ## Bytes -/

theorem unsigned_inj {c d : CChar} : unsigned c = unsigned d ↔ c = d := by
  unfold unsigned
  constructor
  · intro heq
    bv_omega
  · rintro rfl
    rfl

theorem promote_inj {c d : CChar} : promote c = promote d ↔ c = d := by
  constructor
  · intro heq
    rw [← setWidth_promote c, heq, setWidth_promote]
  · rintro rfl
    rfl

theorem promote_eq_zero {c : CChar} : promote c = 0 ↔ c = 0 :=
  promote_inj (d := 0)

/-- The `int` that is returned is the difference of two numbers below 256. -/
theorem toInt_unsigned_sub (c d : CChar) :
    (unsigned c - unsigned d).toInt = (c.toNat : Int) - d.toNat := by
  have hc := c.isLt
  have hd := d.isLt
  rw [BitVec.toInt_sub, unsigned, unsigned, BitVec.toInt_setWidth, BitVec.toInt_setWidth,
    Int.bmod_def, Int.bmod_def, Int.bmod_def]
  omega

theorem unsigned_sub_eq_zero {c d : CChar} : unsigned c - unsigned d = 0 ↔ c = d := by
  rw [← unsigned_inj]
  constructor
  · intro hzero
    bv_omega
  · intro heq
    rw [heq]
    exact BitVec.sub_self _

/-! ## The order -/

/-- How many bytes at the start the two have in common: the place where they first differ, the
    terminators counting as bytes. -/
def firstDifference : CString → CString → Nat
  | c :: a, d :: b => if c = d then firstDifference a b + 1 else 0
  | _, _ => 0

/-- The difference of the bytes there. -/
def difference : CString → CString → Int
  | [], [] => 0
  | c :: _, [] => c.toNat
  | [], d :: _ => -d.toNat
  | c :: a, d :: b => if c = d then difference a b else (c.toNat : Int) - d.toNat

theorem firstDifference_le : ∀ a b : CString, firstDifference a b ≤ min a.length b.length
  | [], _ => Nat.zero_le _
  | _ :: _, [] => Nat.zero_le _
  | c :: a, d :: b => by
      have hrest := firstDifference_le a b
      rw [firstDifference, List.length_cons, List.length_cons]
      split <;> omega

theorem firstDifference_self : ∀ a : CString, firstDifference a a = a.length
  | [] => rfl
  | c :: a => by rw [firstDifference, if_pos rfl, firstDifference_self a, List.length_cons]

/-- **Exchanging the strings** changes the sign. -/
theorem difference_swap : ∀ a b : CString, difference a b = -difference b a
  | [], [] => rfl
  | _ :: _, [] => (Int.neg_neg _).symm
  | [], _ :: _ => rfl
  | c :: a, d :: b => by
      rw [difference, difference, difference_swap a b]
      by_cases heq : c = d
      · rw [if_pos heq, if_pos heq.symm]
      · rw [if_neg heq, if_neg (Ne.symm heq), Int.neg_sub]

/-- A byte of a string is positive. -/
theorem toNat_pos {c : CChar} (hc : c ≠ 0) : 0 < c.toNat := by
  bv_omega

/-- **A negative difference** means that the first string comes before the second. -/
theorem difference_neg_iff {a b : CString} (ha : ∀ c ∈ a, c ≠ 0) (hb : ∀ c ∈ b, c ≠ 0) :
    difference a b < 0 ↔ a < b := by
  induction a generalizing b with
  | nil =>
    cases b with
    | nil => exact iff_of_false (Int.lt_irrefl 0) (List.lt_irrefl [])
    | cons d b =>
      have hd := toNat_pos (hb d List.mem_cons_self)
      refine iff_of_true ?_ (List.nil_lt_cons d b)
      show -(d.toNat : Int) < 0
      omega
  | cons c a ih =>
    cases b with
    | nil =>
      refine iff_of_false ?_ (List.not_lt_nil _)
      show ¬ (c.toNat : Int) < 0
      omega
    | cons d b =>
      rw [List.cons_lt_cons_iff, difference]
      by_cases heq : c = d
      · subst heq
        rw [if_pos rfl, ih (fun x hx => ha x (List.mem_cons_of_mem c hx))
          (fun x hx => hb x (List.mem_cons_of_mem c hx))]
        constructor
        · intro hlt
          exact Or.inr ⟨rfl, hlt⟩
        · rintro (hlt | ⟨-, hlt⟩)
          · exact absurd hlt (BitVec.lt_irrefl c)
          · exact hlt
      · rw [if_neg heq]
        constructor
        · intro hlt
          exact Or.inl (by bv_omega)
        · rintro (hlt | ⟨hsame, -⟩)
          · bv_omega
          · exact absurd hsame heq

/-- **No difference** means that they are equal. -/
theorem difference_eq_zero_iff {a b : CString} (ha : ∀ c ∈ a, c ≠ 0) (hb : ∀ c ∈ b, c ≠ 0) :
    difference a b = 0 ↔ a = b := by
  have hneg := difference_neg_iff ha hb
  have hpos := difference_neg_iff hb ha
  rw [difference_swap b a] at hpos
  constructor
  · intro hzero
    refine List.le_antisymm ?_ ?_
    · intro hlt
      have := hpos.mpr hlt
      omega
    · intro hlt
      have := hneg.mpr hlt
      omega
  · rintro rfl
    have hswap := difference_swap a a
    omega

/-- Not being positive is transitive. -/
theorem difference_nonpos_trans {a b c : CString} (ha : ∀ x ∈ a, x ≠ 0) (hb : ∀ x ∈ b, x ≠ 0)
    (hc : ∀ x ∈ c, x ≠ 0) (hab : difference a b ≤ 0) (hbc : difference b c ≤ 0) :
    difference a c ≤ 0 := by
  have hle : ∀ {x y : CString}, (∀ c ∈ x, c ≠ 0) → (∀ c ∈ y, c ≠ 0) →
      (difference x y ≤ 0 ↔ x ≤ y) := by
    intro x y hx hy
    rw [← List.not_lt, ← difference_neg_iff hy hx, difference_swap y x]
    omega
  exact (hle ha hc).mpr (List.le_trans ((hle ha hb).mp hab) ((hle hb hc).mp hbc))

/-! ## Where two stretches part -/

/-- The bytes `w` at both addresses, then `c` and `d`, unlike or both the terminator. -/
structure Parting (h : Heap CChar) (p q : Uint32) (w : CString) (c d : CChar) : Prop where
  left : Cells h p (w ++ [c])
  right : Cells h q (w ++ [d])
  ne : ∀ x ∈ w, x ≠ 0
  ends : c = d → c = 0

section Results

variable {h h' : Heap CChar} {p q r : Uint32} {a b w : CString} {c d : CChar}

/-- **Two strings part** at their first difference. -/
theorem exists_parting (ha : IsString h p a) (hb : IsString h q b) :
    ∃ w c d, Parting h p q w c d ∧ w.length = firstDifference a b ∧
      (c.toNat : Int) - d.toNat = difference a b := by
  induction a generalizing p q b with
  | nil =>
    cases b with
    | nil =>
      exact ⟨[], 0, 0, ⟨ha.cells, hb.cells, fun x hx => absurd hx List.not_mem_nil, fun _ => rfl⟩,
        rfl, rfl⟩
    | cons d b =>
      refine ⟨[], 0, d, ⟨ha.cells, cells_singleton_iff.mpr hb.head,
        fun x hx => absurd hx List.not_mem_nil, fun _ => rfl⟩, rfl, ?_⟩
      exact Int.zero_sub _
  | cons c a ih =>
    cases b with
    | nil =>
      refine ⟨[], c, 0, ⟨cells_singleton_iff.mpr ha.head, hb.cells,
        fun x hx => absurd hx List.not_mem_nil, fun heq => absurd heq ha.head_ne⟩, rfl, ?_⟩
      exact Int.sub_zero _
    | cons d b =>
      by_cases heq : c = d
      · subst heq
        obtain ⟨w, x, y, hparting, hlen, hdiff⟩ := ih ha.tail hb.tail
        refine ⟨c :: w, x, y, ⟨?_, ?_, ?_, hparting.ends⟩, ?_, ?_⟩
        · exact cells_cons_iff.mpr ⟨ha.head, hparting.left⟩
        · exact cells_cons_iff.mpr ⟨hb.head, hparting.right⟩
        · exact List.forall_mem_cons.mpr ⟨ha.head_ne, hparting.ne⟩
        · rw [firstDifference, if_pos rfl, List.length_cons, hlen]
        · rw [difference, if_pos rfl, hdiff]
      · refine ⟨[], c, d, ⟨cells_singleton_iff.mpr ha.head, cells_singleton_iff.mpr hb.head,
          fun x hx => absurd hx List.not_mem_nil, fun h => absurd h heq⟩, ?_, ?_⟩
        · rw [firstDifference, if_neg heq]
          rfl
        · rw [difference, if_neg heq]

/-- A parting is seen from its own bytes. -/
theorem Parting.congr (hparting : Parting h p q w c d)
    (hp : ∀ i ≤ w.length, h' (p + BitVec.ofNat 32 i) = h (p + BitVec.ofNat 32 i))
    (hq : ∀ i ≤ w.length, h' (q + BitVec.ofNat 32 i) = h (q + BitVec.ofNat 32 i)) :
    Parting h' p q w c d where
  left := by
    refine hparting.left.congr_elements fun i hi => hp i ?_
    rw [List.length_append] at hi
    exact Nat.le_of_lt_succ hi
  right := by
    refine hparting.right.congr_elements fun i hi => hq i ?_
    rw [List.length_append] at hi
    exact Nat.le_of_lt_succ hi
  ne := hparting.ne
  ends := hparting.ends

/-- **`strcmp`** returns the difference where the two part. -/
theorem strcmp_eq (hparting : Parting h p q w c d) (hlen : w.length < addressSpace) :
    strcmp h p q = some (unsigned c - unsigned d) := by
  have hloop : ∀ (w : CString) (p q : Uint32) (turns : Nat), Parting h p q w c d →
      w.length < turns →
      strcmpLoop h turns p q
        = some (p + BitVec.ofNat 32 w.length, q + BitVec.ofNat 32 w.length) := by
    intro w
    induction w with
    | nil =>
      intro p q turns hparting hturns
      obtain ⟨k, rfl⟩ := Nat.exists_eq_add_of_lt hturns
      have hc := cells_singleton_iff.mp hparting.left
      have hd := cells_singleton_iff.mp hparting.right
      have hstay : some (p, q) = some (p + BitVec.ofNat 32 0, q + BitVec.ofNat 32 0) := by
        rw [BitVec.add_zero, BitVec.add_zero]
      rw [strcmpLoop, bind_of_eq_some hc, List.length_nil, ← hstay]
      by_cases hzero : c = 0
      · rw [if_neg (not_not_intro (promote_eq_zero.mpr hzero))]
      · rw [if_pos (mt promote_eq_zero.mp hzero), bind_of_eq_some hd,
          if_neg (fun heq => hzero (hparting.ends (promote_inj.mp heq)))]
    | cons x w ih =>
      intro p q turns hparting hturns
      obtain ⟨k, rfl⟩ := Nat.exists_eq_add_of_lt hturns
      obtain ⟨hx, hleft⟩ := cells_cons_iff.mp hparting.left
      obtain ⟨hy, hright⟩ := cells_cons_iff.mp hparting.right
      obtain ⟨hne, hrest⟩ := List.forall_mem_cons.mp hparting.ne
      rw [strcmpLoop, bind_of_eq_some hx, if_pos (mt promote_eq_zero.mp hne),
        bind_of_eq_some hy, if_pos rfl,
        ih _ _ _ ⟨hleft, hright, hrest, hparting.ends⟩ (Nat.lt_of_succ_lt_succ hturns),
        add_one_add_ofNat, add_one_add_ofNat, List.length_cons]
  have hc := cells_singleton_iff.mp (cells_append_iff.mp hparting.left).2
  have hd := cells_singleton_iff.mp (cells_append_iff.mp hparting.right).2
  rw [strcmp, hloop w p q addressSpace hparting hlen]
  show (h _ >>= _) = _
  rw [bind_of_eq_some hc, bind_of_eq_some hd]

/-- **Equal bytes** are passed over. -/
theorem memcmp_skip (hp : Cells h p w) (hq : Cells h q w) {n : Nat}
    (hlen : w.length + n < 2 ^ 32) :
    memcmp h p q (BitVec.ofNat 32 (w.length + n))
      = memcmp h (p + BitVec.ofNat 32 w.length) (q + BitVec.ofNat 32 w.length)
          (BitVec.ofNat 32 n) := by
  induction w generalizing p q with
  | nil => rw [List.length_nil, BitVec.add_zero, BitVec.add_zero, Nat.zero_add]
  | cons x w ih =>
    obtain ⟨hx, hleft⟩ := cells_cons_iff.mp hp
    obtain ⟨hy, hright⟩ := cells_cons_iff.mp hq
    rw [List.length_cons] at hlen
    rw [List.length_cons, Nat.add_right_comm, memcmp, dif_neg (ofNat_succ_ne_zero (by omega)),
      bind_of_eq_some hx, bind_of_eq_some hy, if_neg (not_not_intro rfl), ofNat_succ_sub_one,
      ih hleft hright (by omega), add_one_add_ofNat, add_one_add_ofNat]

/-- Nothing is left to compare. -/
theorem memcmp_zero (h : Heap CChar) (p q : Uint32) :
    memcmp h p q (BitVec.ofNat 32 0) = some 0 := by
  rw [memcmp]
  exact dif_pos rfl

/-- `memcmp` finds no difference in equal bytes. -/
theorem memcmp_same (hp : Cells h p w) (hq : Cells h q w) (hlen : w.length < 2 ^ 32) :
    memcmp h p q (BitVec.ofNat 32 w.length) = some 0 := by
  have hskip := memcmp_skip hp hq (n := 0) hlen
  rw [memcmp_zero] at hskip
  exact hskip

/-- **`memcmp`** returns the difference behind equal bytes, if it counts beyond it. -/
theorem memcmp_differ (hp : Cells h p (w ++ [c])) (hq : Cells h q (w ++ [d])) (hne : c ≠ d)
    {n : Nat} (hlen : w.length < n) (hn : n < 2 ^ 32) :
    memcmp h p q (BitVec.ofNat 32 n) = some (unsigned c - unsigned d) := by
  obtain ⟨k, rfl⟩ := Nat.exists_eq_add_of_lt hlen
  obtain ⟨hleft, hc⟩ := cells_append_iff.mp hp
  obtain ⟨hright, hd⟩ := cells_append_iff.mp hq
  rw [Nat.add_assoc, memcmp_skip hleft hright (by omega), memcmp,
    dif_neg (ofNat_succ_ne_zero (by omega)),
    bind_of_eq_some (cells_singleton_iff.mp hc), bind_of_eq_some (cells_singleton_iff.mp hd),
    if_pos (mt unsigned_inj.mp hne)]

/-- At a parting it returns what `strcmp` does, if it counts no terminator but the last byte. -/
theorem memcmp_eq (hparting : Parting h p q w c d) {m : Nat} (hlen : w.length ≤ m)
    (hm : m + 1 < 2 ^ 32) (hlast : c = d → w.length = m) :
    memcmp h p q (BitVec.ofNat 32 (m + 1)) = some (unsigned c - unsigned d) := by
  by_cases heq : c = d
  · have hsame := hparting.right
    rw [← heq] at hsame
    have hrun := memcmp_same hparting.left hsame (by
      rw [List.length_append, List.length_singleton]
      omega)
    rw [List.length_append, List.length_singleton, hlast heq] at hrun
    rw [hrun, heq, BitVec.sub_self]
    rfl
  · exact memcmp_differ hparting.left hparting.right heq (Nat.lt_succ_of_le hlen) hm

/-- **What both return for two strings**, and what they return it from: heaps that agree up to the
    first difference, whatever they map behind it. -/
theorem compare_eq (ha : IsString h p a) (hb : IsString h q b)
    (hsame : ∀ i ≤ firstDifference a b, h' (p + BitVec.ofNat 32 i) = h (p + BitVec.ofNat 32 i) ∧
      h' (q + BitVec.ofNat 32 i) = h (q + BitVec.ofNat 32 i)) :
    ∃ v : Uint32, v.toInt = difference a b ∧ strcmp h p q = some v ∧ strcmp h' p q = some v ∧
      memcmp h' p q (BitVec.ofNat 32 (min a.length b.length + 1)) = some v := by
  obtain ⟨w, c, d, hparting, hlen, hdiff⟩ := exists_parting ha hb
  have hlocal : Parting h' p q w c d := by
    apply hparting.congr
    · exact fun i hi => (hsame i (hlen ▸ hi)).1
    · exact fun i hi => (hsame i (hlen ▸ hi)).2
  have hshort := firstDifference_le a b
  have hobject := ha.object
  have hpos : 0 < p.toNat := by
    have hnonnull := ha.nonnull
    bv_omega
  have hturns : w.length < addressSpace := by
    unfold addressSpace
    omega
  refine ⟨unsigned c - unsigned d, by rw [toInt_unsigned_sub, hdiff], strcmp_eq hparting hturns,
    strcmp_eq hlocal hturns, memcmp_eq hlocal (by omega) (by omega) ?_⟩
  -- the strings are equal, and `w` is all of both
  intro heq
  have hzero : difference a b = 0 := by
    rw [← hdiff, heq]
    omega
  obtain rfl := (difference_eq_zero_iff ha.ne hb.ne).mp hzero
  rw [hlen, firstDifference_self, Nat.min_self]

/-- **String comparison is a total order**, and agrees with memory comparison. -/
theorem strcmp_order (ha : IsString h p a) (hb : IsString h q b) {e : CString}
    (he : IsString h r e) :
    ∃ ab ba be ae : Uint32,
      strcmp h p q = some ab ∧ strcmp h q p = some ba ∧ strcmp h q r = some be ∧
      strcmp h p r = some ae ∧
      (ab = 0 ↔ a = b) ∧ (ab.toInt < 0 ↔ a < b) ∧ (0 < ab.toInt ↔ b < a) ∧
      ab.toInt.sign = -ba.toInt.sign ∧ (ab.toInt ≤ 0 → be.toInt ≤ 0 → ae.toInt ≤ 0) ∧
      memcmp h p q (BitVec.ofNat 32 (min a.length b.length + 1)) = some ab ∧
      ∀ h' : Heap CChar,
        (∀ i ≤ firstDifference a b, h' (p + BitVec.ofNat 32 i) = h (p + BitVec.ofNat 32 i) ∧
          h' (q + BitVec.ofNat 32 i) = h (q + BitVec.ofNat 32 i)) →
        strcmp h' p q = some ab ∧
        memcmp h' p q (BitVec.ofNat 32 (min a.length b.length + 1)) = some ab := by
  have hself : ∀ (p q : Uint32) (n : Nat), ∀ i ≤ n,
      h (p + BitVec.ofNat 32 i) = h (p + BitVec.ofNat 32 i) ∧
        h (q + BitVec.ofNat 32 i) = h (q + BitVec.ofNat 32 i) := fun _ _ _ _ _ => ⟨rfl, rfl⟩
  obtain ⟨ab, hab, hstrcmp, -, hmemcmp⟩ := compare_eq ha hb (hself p q _)
  obtain ⟨ba, hba, hstrcmp', -⟩ := compare_eq hb ha (hself q p _)
  obtain ⟨be, hbe, hright, -⟩ := compare_eq hb he (hself q r _)
  obtain ⟨ae, hae, houter, -⟩ := compare_eq ha he (hself p r _)
  refine ⟨ab, ba, be, ae, hstrcmp, hstrcmp', hright, houter, ?_, ?_, ?_, ?_, ?_, hmemcmp, ?_⟩
  · rw [← difference_eq_zero_iff ha.ne hb.ne, ← hab, ← BitVec.toInt_inj]
    exact Iff.rfl
  · rw [hab]
    exact difference_neg_iff ha.ne hb.ne
  · rw [hab, difference_swap, ← difference_neg_iff hb.ne ha.ne]
    exact Int.neg_pos
  · rw [hab, hba, difference_swap a b, Int.sign_neg]
  · rw [hab, hbe, hae]
    exact difference_nonpos_trans ha.ne hb.ne he.ne
  · intro h' hsame
    obtain ⟨v, -, hv, hlocal⟩ := compare_eq ha hb hsame
    rw [hstrcmp, Option.some_inj] at hv
    rw [hv]
    exact hlocal

end Results

/-- `ab` at 0x1000, `a` and 0x80 at 0x1100, `ab` and `c` at 0x1200. -/
def threeStrings : Heap CChar :=
  lay (lay (lay (fun _ => none) 0x1000 (str "ab" ++ [0])) 0x1100 ([ch 'a', 0x80] ++ [0]))
    0x1200 (str "abc" ++ [0])

theorem strcmp_order_ab :
    ∃ ab ba be ae : Uint32,
      strcmp threeStrings 0x1000 0x1100 = some ab ∧ strcmp threeStrings 0x1100 0x1000 = some ba ∧
      strcmp threeStrings 0x1100 0x1200 = some be ∧ strcmp threeStrings 0x1000 0x1200 = some ae ∧
      (ab = 0 ↔ str "ab" = [ch 'a', 0x80]) ∧ (ab.toInt < 0 ↔ str "ab" < [ch 'a', 0x80]) ∧
      (0 < ab.toInt ↔ [ch 'a', 0x80] < str "ab") ∧
      ab.toInt.sign = -ba.toInt.sign ∧ (ab.toInt ≤ 0 → be.toInt ≤ 0 → ae.toInt ≤ 0) ∧
      memcmp threeStrings 0x1000 0x1100 (BitVec.ofNat 32 3) = some ab ∧
      ∀ h' : Heap CChar,
        (∀ i ≤ firstDifference (str "ab") [ch 'a', 0x80],
          h' (0x1000 + BitVec.ofNat 32 i) = threeStrings (0x1000 + BitVec.ofNat 32 i) ∧
          h' (0x1100 + BitVec.ofNat 32 i) = threeStrings (0x1100 + BitVec.ofNat 32 i)) →
        strcmp h' 0x1000 0x1100 = some ab ∧
        memcmp h' 0x1000 0x1100 (BitVec.ofNat 32 3) = some ab :=
  strcmp_order (a := str "ab") (b := [ch 'a', 0x80]) (e := str "abc") (by decide) (by decide)
    (by decide)

end FreeMicroNix.Libc
