/-
  Records, and tables of records, in memory.

  A program fills a record field by field.  On the list of its elements a store is a `splice`, and
  as long as the record is mapped the order of the stores is all that counts: the memory is always
  one `lay` of the record as it is by now (`store_field`).  A table is records of one size, one
  behind the other, and as a list their `flatten`; a record replaced is again a splice
  (`flatten_set`).

  An image is several such objects, no two with a common address.  What is laid at one of them
  leaves the others alone (`cells_lay_object`).
-/
import FreeMicroNix.Lib.PartialMemory

namespace PartialMemory

variable {α : Type*}

/-! ## Several elements in one access -/

/-- The elements of a list, written upwards. -/
def store : Heap α → BitVec 32 → List α → Option (Heap α)
  | h, _, [] => some h
  | h, a, x :: xs => do
      let h ← write h a x
      store h (a + 1) xs

/-- `n` elements, read upwards. -/
def load (h : Heap α) : BitVec 32 → Nat → Option (List α)
  | _, 0 => some []
  | a, n + 1 => do
      let x ← h a
      let xs ← load h (a + 1) n
      some (x :: xs)

theorem store_of_mapped {h : Heap α} {a : BitVec 32} {xs : List α} (hmapped : Mapped h a xs.length)
    (hlen : xs.length ≤ 2 ^ 32) : store h a xs = some (lay h a xs) := by
  induction xs generalizing h a with
  | nil =>
    rw [lay_nil]
    rfl
  | cons x xs ih =>
    rw [List.length_cons] at hlen hmapped
    rw [store, write_within hmapped (within_self a (Nat.succ_pos _)), lay_cons h a x (by omega)]
    exact ih ((hmapped.tail (by omega)).update a x) (by omega)

theorem load_of_cells {h : Heap α} {a : BitVec 32} {xs : List α} (hcells : Cells h a xs) :
    load h a xs.length = some xs := by
  induction xs generalizing a with
  | nil => rfl
  | cons x xs ih =>
    rcases cells_cons_iff.mp hcells with ⟨hfirst, hrest⟩
    rw [List.length_cons, load, hfirst]
    show (load h (a + 1) xs.length).bind (fun ys => some (x :: ys)) = some (x :: xs)
    rw [ih hrest]
    rfl

/-! ## Fields -/

/-- A list with the elements from `k` on replaced. -/
def splice (xs : List α) (k : Nat) (ys : List α) : List α :=
  xs.take k ++ (ys ++ xs.drop (k + ys.length))

theorem length_splice {xs ys : List α} {k : Nat} (hk : k + ys.length ≤ xs.length) :
    (splice xs k ys).length = xs.length := by
  simp only [splice, List.length_append, List.length_take, List.length_drop]
  omega

theorem getElem?_splice {xs ys : List α} {k i : Nat} (hk : k + ys.length ≤ xs.length) :
    (splice xs k ys)[i]? =
      if k ≤ i ∧ i < k + ys.length then ys[i - k]? else xs[i]? := by
  have htake : (xs.take k).length = k := by
    rw [List.length_take]
    omega
  unfold splice
  rw [List.getElem?_append, htake]
  by_cases hbefore : i < k
  · rw [if_pos hbefore, if_neg (by omega), List.getElem?_take_of_lt hbefore]
  · rw [if_neg hbefore, List.getElem?_append]
    by_cases hin : i - k < ys.length
    · rw [if_pos hin, if_pos (by omega)]
    · rw [if_neg hin, if_neg (by omega), List.getElem?_drop]
      congr 1
      omega

/-- A part replaced by one of its length. -/
theorem splice_append {xs ys ys' : List α} (hys : ys'.length = ys.length) (zs : List α) :
    splice (xs ++ (ys ++ zs)) xs.length ys' = xs ++ (ys' ++ zs) := by
  have hdrop : (xs ++ (ys ++ zs)).drop (xs.length + ys'.length) = zs := by
    rw [hys, List.drop_length_add_append, List.drop_left]
  rw [splice, List.take_left, hdrop]

/-- **A list laid into another** that is laid already. -/
theorem lay_splice (h : Heap α) (p : BitVec 32) {xs ys : List α} {k : Nat}
    (hk : k + ys.length ≤ xs.length) (hlen : xs.length ≤ 2 ^ 32) :
    lay (lay h p xs) (p + BitVec.ofNat 32 k) ys = lay h p (splice xs k ys) := by
  funext a
  by_cases ha : Within p xs.length a
  · obtain ⟨i, hi, rfl⟩ := ha.exists_eq
    have hsplice : i < (splice xs k ys).length := by
      rw [length_splice hk]
      exact hi
    rw [lay_inside h p (by omega) hsplice, getElem?_splice hk]
    by_cases hin : k ≤ i ∧ i < k + ys.length
    · obtain ⟨j, rfl⟩ := Nat.exists_eq_add_of_le hin.1
      rw [if_pos hin, ← add_ofNat_add_ofNat, lay_inside _ _ (by omega) (by omega),
        Nat.add_sub_cancel_left]
    · have hout : ¬ Within (p + BitVec.ofNat 32 k) ys.length (p + BitVec.ofNat 32 i) := by
        unfold Within
        bv_omega
      rw [if_neg hin, lay_outside _ hout, lay_inside _ _ (by omega) hi]
  · have hout : ¬ Within (p + BitVec.ofNat 32 k) ys.length a := by
      unfold Within at ha ⊢
      bv_omega
    rw [lay_outside _ hout, lay_outside _ ha, lay_outside]
    rw [length_splice hk]
    exact ha

/-- **A store into a record**: the record is mapped, whatever was laid there so far. -/
theorem store_field {h : Heap α} {p : BitVec 32} {n : Nat} (hmapped : Mapped h p n)
    (hn : n ≤ 2 ^ 32) {xs ys : List α} {k : Nat} (hxs : xs.length = n) (hk : k + ys.length ≤ n) :
    store (lay h p xs) (p + BitVec.ofNat 32 k) ys = some (lay h p (splice xs k ys)) := by
  have hfield : Mapped (lay h p xs) (p + BitVec.ofNat 32 k) ys.length :=
    ((hmapped.lay xs).mono hk).drop (by omega)
  rw [store_of_mapped hfield (by omega), lay_splice h p (by omega) (by omega)]

/-- Fields one behind the other from `k` on, by their offsets. -/
def Consecutive : Nat → List (Nat × List α) → Prop
  | _, [] => True
  | k, f :: fields => f.1 = k ∧ Consecutive (k + f.2.length) fields

instance decidableConsecutive : (k : Nat) → (fields : List (Nat × List α)) →
    Decidable (Consecutive k fields)
  | _, [] => isTrue trivial
  | k, f :: fields =>
      haveI := decidableConsecutive (k + f.2.length) fields
      inferInstanceAs (Decidable (_ ∧ _))

/-- **A record filled from its first field to its last** is laid, whatever was there. -/
theorem stores_consecutive {h : Heap α} {p : BitVec 32} {n : Nat} (hmapped : Mapped h p n)
    (hn : n ≤ 2 ^ 32) {xs : List α} {fields : List (Nat × List α)}
    (hfields : Consecutive xs.length fields)
    (hfits : xs.length + (fields.flatMap Prod.snd).length ≤ n) :
    fields.foldlM (fun h f => store h (p + BitVec.ofNat 32 f.1) f.2) (lay h p xs)
      = some (lay h p (xs ++ fields.flatMap Prod.snd)) := by
  induction fields generalizing xs with
  | nil =>
    rw [List.flatMap_nil, List.append_nil]
    rfl
  | cons f fields ih =>
    rcases hfields with ⟨hoffset, hrest⟩
    rw [List.flatMap_cons, List.length_append] at hfits
    have hfield : Mapped (lay h p xs) (p + BitVec.ofNat 32 f.1) f.2.length :=
      ((hmapped.lay xs).mono (by omega)).drop (by omega)
    have hlay := lay_append h p (show xs.length + f.2.length ≤ 2 ^ 32 by omega)
    rw [List.foldlM_cons, store_of_mapped hfield (by omega), hoffset, ← hlay, List.flatMap_cons,
      ← List.append_assoc]
    rw [← List.length_append] at hrest
    exact ih hrest (by rw [List.length_append]; omega)

/-! ## Tables -/

/-- Records of one size have that size together. -/
theorem length_flatten_records {size : Nat} {records : List (List α)}
    (hsize : ∀ r ∈ records, r.length = size) : records.flatten.length = size * records.length := by
  rw [List.length_flatten, List.map_congr_left hsize, List.map_const', List.sum_replicate_nat,
    Nat.mul_comm]

/-- **A record replaced** is a stretch of the table. -/
theorem flatten_set {size : Nat} {records : List (List α)}
    (hsize : ∀ r ∈ records, r.length = size) {n : Nat} (hn : n < records.length) {r : List α}
    (hr : r.length = size) :
    (records.set n r).flatten = splice records.flatten (size * n) r := by
  induction records generalizing n with
  | nil => exact absurd hn (Nat.not_lt_zero n)
  | cons r' records ih =>
    have hr' : r'.length = size := hsize r' List.mem_cons_self
    cases n with
    | zero =>
      rw [List.set_cons_zero, List.flatten_cons, List.flatten_cons, splice, Nat.mul_zero,
        List.take_zero, List.nil_append, Nat.zero_add, hr, List.drop_left' hr']
    | succ n =>
      have hrest := ih (fun r hmem => hsize r (List.mem_cons_of_mem r' hmem))
        (Nat.lt_of_succ_lt_succ hn)
      have hstart : size * (n + 1) = r'.length + size * n := by
        rw [hr', Nat.mul_succ, Nat.add_comm]
      rw [List.set_cons_succ, List.flatten_cons, List.flatten_cons, hrest, splice, splice, hstart,
        Nat.add_assoc, List.take_length_add_append, List.drop_length_add_append, List.append_assoc]

/-- A record of a list of records, by itself. -/
theorem Cells.record {h : Heap α} {p : BitVec 32} {size : Nat} {records : List (List α)}
    (hcells : Cells h p records.flatten) (hsize : ∀ r ∈ records, r.length = size) {n : Nat}
    {r : List α} (hr : records[n]? = some r) : Cells h (p + BitVec.ofNat 32 (size * n)) r := by
  induction records generalizing p n with
  | nil => exact absurd hr (by simp)
  | cons r' records ih =>
    rw [List.flatten_cons, cells_append_iff, hsize r' List.mem_cons_self] at hcells
    cases n with
    | zero =>
      obtain rfl : r' = r := Option.some.inj hr
      rw [Nat.mul_zero, BitVec.add_zero]
      exact hcells.1
    | succ n =>
      have hrest := ih hcells.2 (fun r hmem => hsize r (List.mem_cons_of_mem r' hmem)) hr
      rw [add_ofNat_add_ofNat, Nat.add_comm, ← Nat.mul_succ] at hrest
      exact hrest

section Table

variable {β : Type*} {w size count : Nat} {record : β → List α} {entries : BitVec w → β}
  {h : Heap α} {p : BitVec 32} {k : BitVec w}

/-- The records of the entries in the first `count` slots. -/
def records (count : Nat) (record : β → List α) (entries : BitVec w → β) : List (List α) :=
  (List.range count).map fun n => record (entries (BitVec.ofNat w n))

/-- **A table**: its records, one behind the other. -/
def table (count : Nat) (record : β → List α) (entries : BitVec w → β) : List α :=
  (records count record entries).flatten

theorem records_length (hsize : ∀ e, (record e).length = size) :
    ∀ r ∈ records count record entries, r.length = size := by
  intro r hr
  rcases List.mem_map.mp hr with ⟨n, -, rfl⟩
  exact hsize _

theorem length_table (hsize : ∀ e, (record e).length = size) :
    (table count record entries).length = size * count := by
  rw [table, length_flatten_records (records_length hsize), records, List.length_map,
    List.length_range]

theorem records_getElem? (hk : k.toNat < count) :
    (records count record entries)[k.toNat]? = some (record (entries k)) := by
  rw [records, List.getElem?_map, List.getElem?_range hk, Option.map_some, BitVec.ofNat_toNat,
    BitVec.setWidth_eq]

/-- One entry updated is one record set. -/
theorem records_update (hcount : count ≤ 2 ^ w) (e : β) :
    records count record (Function.update entries k e)
      = (records count record entries).set k.toNat (record e) := by
  refine List.ext_getElem (by simp [records]) fun n hn _ => ?_
  rw [records, List.length_map, List.length_range] at hn
  simp only [records, List.getElem_set, List.getElem_map, List.getElem_range]
  by_cases heq : k.toNat = n
  · rw [if_pos heq, ← heq, BitVec.ofNat_toNat, BitVec.setWidth_eq, Function.update_self]
  · have hne : BitVec.ofNat w n ≠ k := by
      rintro rfl
      rw [BitVec.toNat_ofNat, Nat.mod_eq_of_lt (by omega)] at heq
      exact heq rfl
    rw [if_neg heq, Function.update_of_ne hne]

/-- **An entry of a table in memory.** -/
theorem Cells.entry (hcells : Cells h p (table count record entries))
    (hsize : ∀ e, (record e).length = size) (hk : k.toNat < count) :
    Cells h (p + BitVec.ofNat 32 (size * k.toNat)) (record (entries k)) :=
  hcells.record (records_length hsize) (records_getElem? hk)

/-- **A record laid in its slot** is the table laid with the entry updated. -/
theorem lay_record (hcells : Cells h p (table count record entries))
    (hsize : ∀ e, (record e).length = size) (hcount : count ≤ 2 ^ w)
    (hfits : size * count ≤ 2 ^ 32) (hk : k.toNat < count) (e : β) :
    lay h (p + BitVec.ofNat 32 (size * k.toNat)) (record e)
      = lay h p (table count record (Function.update entries k e)) := by
  have hlength : (records count record entries).length = count := by simp [records]
  have hall : ∀ r ∈ records count record entries, r.length = size := records_length hsize
  have hset := flatten_set hall (hlength.symm ▸ hk) (hsize e)
  have hroom : size * k.toNat + (record e).length ≤ (table count record entries).length := by
    rw [hsize e, length_table hsize, ← Nat.mul_succ]
    exact Nat.mul_le_mul_left size hk
  have hwhole : (table count record entries).length ≤ 2 ^ 32 := by
    rw [length_table hsize]
    exact hfits
  rw [table, records_update hcount, hset]
  conv_lhs => rw [← lay_of_cells hcells]
  exact lay_splice h p hroom hwhole

end Table

/-! ## Objects of an image -/

section Objects

variable {ι : Type*} {h : Heap α} {address : ι → BitVec 32} {size : ι → Nat}
  {content content' : ι → List α}

/-- **One object written, the others unchanged.** -/
theorem cells_lay_object (hcells : ∀ o, Cells h (address o) (content o))
    (hapart : ∀ o o', o ≠ o' → Apart (address o) (size o) (address o') (size o'))
    (hsize : ∀ o, (content o).length = size o) (hsize' : ∀ o, (content' o).length = size o)
    (hfits : ∀ o, size o ≤ 2 ^ 32) (o : ι) (hothers : ∀ o', o' ≠ o → content' o' = content o')
    (o' : ι) : Cells (lay h (address o) (content' o)) (address o') (content' o') := by
  by_cases heq : o' = o
  · subst heq
    exact cells_lay h _ ((hsize' o').trans_le (hfits o'))
  · rw [hothers o' heq]
    refine (hcells o').congr (hsize o').le (hfits o') fun a ha => lay_outside h ?_
    rw [hsize' o]
    exact hapart o' o heq a ha

end Objects

end PartialMemory
