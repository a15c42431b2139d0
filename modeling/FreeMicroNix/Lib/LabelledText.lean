/-
  Fields between labels.

  A text is made of fields, each behind its label.  Where no character of a field is one that a
  label may begin with, a field ends where the next label begins, so the text determines its
  fields (`weave_inj`).  The first label stands before any field, and may begin with anything.
-/
import Mathlib.Data.List.Basic
import Mathlib.Tactic.Common

namespace LabelledText

variable {α : Type*}

/-! ## Weaving -/

/-- Each field behind its label. -/
def weave : List (List α) → List (List α) → List α
  | label :: labels, field :: fields => label ++ (field ++ weave labels fields)
  | _, _ => []

theorem weave_cons (label : List α) (labels : List (List α)) (field : List α)
    (fields : List (List α)) :
    weave (label :: labels) (field :: fields) = label ++ (field ++ weave labels fields) := rfl

theorem weave_nil_left (fields : List (List α)) : weave [] fields = [] := by
  unfold weave
  rfl

/-! ## Reading back -/

variable (P : α → Prop)

/-- A text that does not go on with a character of a field. -/
def Stops : List α → Prop
  | [] => True
  | c :: _ => ¬ P c

/-- A label that marks the end of the field before it. -/
def Delimits : List α → Prop
  | [] => False
  | c :: _ => ¬ P c

variable {P}

theorem Delimits.stops_append {label : List α} (h : Delimits P label) (rest : List α) :
    Stops P (label ++ rest) := by
  cases label with
  | nil => exact absurd h id
  | cons c label => exact h

theorem stops_weave {labels : List (List α)} (hlabels : ∀ label ∈ labels, Delimits P label)
    (fields : List (List α)) : Stops P (weave labels fields) := by
  cases labels with
  | nil =>
    rw [weave_nil_left]
    trivial
  | cons label labels =>
    cases fields with
    | nil => trivial
    | cons field fields => exact (hlabels label List.mem_cons_self).stops_append _

/-- **One field** is what comes before the text stops. -/
theorem field_split {field field' rest rest' : List α} (hfield : ∀ c ∈ field, P c)
    (hfield' : ∀ c ∈ field', P c) (hrest : Stops P rest) (hrest' : Stops P rest')
    (h : field ++ rest = field' ++ rest') : field = field' ∧ rest = rest' := by
  induction field generalizing field' with
  | nil =>
    cases field' with
    | nil => exact ⟨rfl, h⟩
    | cons c field' =>
      rw [List.nil_append, List.cons_append] at h
      subst h
      exact absurd (hfield' c List.mem_cons_self) hrest
  | cons c field ih =>
    cases field' with
    | nil =>
      rw [List.nil_append, List.cons_append] at h
      subst h
      exact absurd (hfield c List.mem_cons_self) hrest'
    | cons c' field' =>
      rw [List.cons_append, List.cons_append, List.cons.injEq] at h
      obtain ⟨rfl, htail⟩ := h
      obtain ⟨rfl, hsame⟩ := ih (fun e he => hfield e (List.mem_cons_of_mem c he))
        (fun e he => hfield' e (List.mem_cons_of_mem c he)) htail
      exact ⟨rfl, hsame⟩

/-- **The text determines its fields.**  The induction splits off a label and its field. -/
theorem weave_inj {labels fields fields' : List (List α)}
    (hlabels : ∀ label ∈ labels.tail, Delimits P label)
    (hfields : ∀ field ∈ fields, ∀ c ∈ field, P c)
    (hfields' : ∀ field ∈ fields', ∀ c ∈ field, P c)
    (hlen : fields.length = labels.length) (hlen' : fields'.length = labels.length)
    (h : weave labels fields = weave labels fields') : fields = fields' := by
  induction labels generalizing fields fields' with
  | nil => rw [List.eq_nil_of_length_eq_zero hlen, List.eq_nil_of_length_eq_zero hlen']
  | cons label labels ih =>
    obtain ⟨field, fields, rfl⟩ := List.exists_cons_of_length_eq_add_one hlen
    obtain ⟨field', fields', rfl⟩ := List.exists_cons_of_length_eq_add_one hlen'
    rw [weave_cons, weave_cons] at h
    have htail : ∀ label ∈ labels, Delimits P label := hlabels
    obtain ⟨rfl, hrest⟩ := field_split (hfields field List.mem_cons_self)
      (hfields' field' List.mem_cons_self) (stops_weave htail fields) (stops_weave htail fields')
      (List.append_cancel_left h)
    rw [ih (fun l hl => htail l (List.mem_of_mem_tail hl))
      (fun f hf => hfields f (List.mem_cons_of_mem field hf))
      (fun f hf => hfields' f (List.mem_cons_of_mem field hf)) (Nat.succ.inj hlen)
      (Nat.succ.inj hlen') hrest]

end LabelledText
