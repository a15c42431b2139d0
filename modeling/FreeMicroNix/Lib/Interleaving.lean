/-
  A sequential program, interrupted.

  A program is a list of statements: commands, which are one step each, and loops that halt the
  processor until their condition holds.  Between any two steps of the program an interrupt may come;
  if the state accepts it, it changes the state, and a halted loop looks at its condition again.  A
  run is any list of steps of the program and of interrupts, so a theorem about all runs is one about
  all interleavings.

  1. `run_induction` — what the steps and the accepted interrupts keep holds after every run.
  2. `view_eq_commands` — **transparency**: what no interrupt changes is, after every run, what the
     commands done so far make of it, one after the other.
  3. `elapsed` — **time**, from below: where the loops wait for a clock that the interrupts drive,
     the clock has advanced by the durations of all loops the program is past.
  4. `finished_iff` — time, exactly: if the interrupts find the program halted, it is at its end
     precisely when the clock has advanced by all its durations; `exists_finished` is a run to there.
-/
import Mathlib.Algebra.Order.Group.Nat
import Mathlib.Data.List.Induction
import Mathlib.Tactic.Common

namespace Interleaving

/-! ## Programs and their runs -/

/-- A statement: a command, or a loop that halts. -/
inductive Stmt (κ δ : Type*) where
  | act (c : κ)
  | wait (d : δ)
  deriving DecidableEq

/-- What statements and interrupts do to the state. -/
structure System (σ ι κ δ β : Type*) where
  exec : κ → σ → σ
  /-- What a loop remembers of the state it is entered in. -/
  enter : δ → σ → β
  /-- The loop is left. -/
  done : β → σ → Bool
  /-- An interrupt, if the state accepts it. -/
  take : σ → ι → Option σ

/-- Where a loop stands. -/
inductive Position where
  /-- About to look at its condition. -/
  | check
  /-- It did not hold; about to halt. -/
  | hlt
  | halted
  deriving DecidableEq

namespace Position

/-- The next position in the loop. -/
def next : Position → Position
  | check => hlt
  | hlt => halted
  | halted => halted

/-- An interrupt ends a halt. -/
def wake : Position → Position
  | check => check
  | hlt => hlt
  | halted => check

end Position

/-- A program under way: the state, the statements to come, and the loop it is in. -/
structure Thread (σ κ δ β : Type*) where
  state : σ
  rest : List (Stmt κ δ)
  loop : Option (β × Position)

/-- What happens next: the program goes on, or an interrupt. -/
inductive Event (ι : Type*) where
  | proceed
  | interrupt (i : ι)
  deriving DecidableEq

variable {σ ι κ δ β τ : Type*}

/-- A program at its start. -/
def Thread.start (s : σ) (program : List (Stmt κ δ)) : Thread σ κ δ β := ⟨s, program, none⟩

/-- The program after an interrupt that leaves `s`. -/
def Thread.interrupted (t : Thread σ κ δ β) (s : σ) : Thread σ κ δ β :=
  { t with state := s, loop := t.loop.map fun l => (l.1, l.2.wake) }

namespace System

variable (S : System σ ι κ δ β)

/-- A step of the program. -/
def proceed (t : Thread σ κ δ β) : Thread σ κ δ β :=
  match t.rest with
  | [] => t
  | .act c :: rest => ⟨S.exec c t.state, rest, none⟩
  | .wait d :: rest =>
      match t.loop with
      | none => { t with loop := some (S.enter d t.state, .check) }
      | some (b, p) =>
          if p = .check ∧ S.done b t.state = true then ⟨t.state, rest, none⟩
          else { t with loop := some (b, p.next) }

/-- One event. -/
def step (t : Thread σ κ δ β) : Event ι → Thread σ κ δ β
  | .proceed => S.proceed t
  | .interrupt i =>
      match S.take t.state i with
      | none => t
      | some s => t.interrupted s

/-- A run. -/
def run (t : Thread σ κ δ β) (events : List (Event ι)) : Thread σ κ δ β := events.foldl S.step t

@[simp] theorem run_nil (t : Thread σ κ δ β) : S.run t [] = t := rfl

theorem run_concat (t : Thread σ κ δ β) (events : List (Event ι)) (e : Event ι) :
    S.run t (events ++ [e]) = S.step (S.run t events) e := by
  rw [run, List.foldl_append]
  rfl

theorem run_append (t : Thread σ κ δ β) (events events' : List (Event ι)) :
    S.run t (events ++ events') = S.run (S.run t events) events' := List.foldl_append

/-- An interrupt comes back to where the program was. -/
theorem rest_interrupt (t : Thread σ κ δ β) (i : ι) : (S.step t (.interrupt i)).rest = t.rest := by
  unfold step
  dsimp only
  cases S.take t.state i with
  | none => rfl
  | some s => rfl

/-- **What a step can be**: nothing at the end of the program; a command; a loop entered, left or
    gone on with. -/
theorem proceed_cases (t : Thread σ κ δ β) :
    (t.rest = [] ∧ S.proceed t = t) ∨
    (∃ c rest, t.rest = .act c :: rest ∧ S.proceed t = ⟨S.exec c t.state, rest, none⟩) ∨
    (∃ d rest, t.rest = .wait d :: rest ∧ t.loop = none ∧
      S.proceed t = { t with loop := some (S.enter d t.state, .check) }) ∨
    (∃ d rest b, t.rest = .wait d :: rest ∧ t.loop = some (b, .check) ∧
      S.done b t.state = true ∧ S.proceed t = ⟨t.state, rest, none⟩) ∨
    (∃ d rest b p, t.rest = .wait d :: rest ∧ t.loop = some (b, p) ∧
      (p = .check → S.done b t.state = false) ∧
      S.proceed t = { t with loop := some (b, p.next) }) := by
  obtain ⟨s, program, loop⟩ := t
  cases program with
  | nil => exact Or.inl ⟨rfl, rfl⟩
  | cons stmt rest =>
    refine Or.inr ?_
    cases stmt with
    | act c => exact Or.inl ⟨c, rest, rfl, rfl⟩
    | wait d =>
      refine Or.inr ?_
      rcases loop with _ | ⟨b, p⟩
      · exact Or.inl ⟨d, rest, rfl, rfl, rfl⟩
      · refine Or.inr ?_
        by_cases hleave : p = .check ∧ S.done b s = true
        · obtain ⟨rfl, hdone⟩ := hleave
          exact Or.inl ⟨d, rest, b, rfl, rfl, hdone, if_pos ⟨rfl, hdone⟩⟩
        · refine Or.inr ⟨d, rest, b, p, rfl, rfl, fun hp => ?_, if_neg hleave⟩
          exact Bool.eq_false_of_not_eq_true fun hdone => hleave ⟨hp, hdone⟩

/-- **The induction over runs.** -/
theorem run_induction {P : List (Event ι) → Thread σ κ δ β → Prop} {t₀ : Thread σ κ δ β}
    (hstart : P [] t₀)
    (hproceed : ∀ events, P events (S.run t₀ events) →
      P (events ++ [.proceed]) (S.proceed (S.run t₀ events)))
    (hrefused : ∀ events i, P events (S.run t₀ events) →
      S.take (S.run t₀ events).state i = none → P (events ++ [.interrupt i]) (S.run t₀ events))
    (htaken : ∀ events i s, P events (S.run t₀ events) →
      S.take (S.run t₀ events).state i = some s →
      P (events ++ [.interrupt i]) ((S.run t₀ events).interrupted s))
    (events : List (Event ι)) : P events (S.run t₀ events) := by
  induction events using List.reverseRecOn with
  | nil => exact hstart
  | append_singleton events e ih =>
    rw [S.run_concat]
    cases e with
    | proceed => exact hproceed events ih
    | interrupt i =>
      unfold step
      dsimp only
      cases htake : S.take (S.run t₀ events).state i with
      | none => exact hrefused events i ih htake
      | some s => exact htaken events i s ih htake

/-- What a step does to the state: a command, or nothing. -/
theorem proceed_state (t : Thread σ κ δ β) :
    (S.proceed t).state = t.state ∨ ∃ c, (S.proceed t).state = S.exec c t.state := by
  rcases S.proceed_cases t with ⟨-, hstep⟩ | ⟨c, rest, -, hstep⟩ | ⟨d, rest, -, -, hstep⟩ |
    ⟨d, rest, b, -, -, -, hstep⟩ | ⟨d, rest, b, p, -, -, -, hstep⟩ <;> rw [hstep]
  · exact Or.inl rfl
  · exact Or.inr ⟨c, rfl⟩
  · exact Or.inl rfl
  · exact Or.inl rfl
  · exact Or.inl rfl

/-- **Invariants of the state**: kept by the commands and the interrupts, in the states that meet
    `J`. -/
theorem invariant {J P : σ → Prop} {t₀ : Thread σ κ δ β}
    (hJ : ∀ events : List (Event ι), J (S.run t₀ events).state) (hstart : P t₀.state)
    (hexec : ∀ c s, J s → P s → P (S.exec c s))
    (htake : ∀ i s s', J s → P s → S.take s i = some s' → P s') (events : List (Event ι)) :
    P (S.run t₀ events).state := by
  refine S.run_induction (P := fun _ t => P t.state) hstart ?_ (fun _ _ h _ => h) ?_ events
  · intro events h
    rcases S.proceed_state (S.run t₀ events) with hsame | ⟨c, hcommand⟩
    · rw [hsame]
      exact h
    · rw [hcommand]
      exact hexec c _ (hJ events) h
  · intro events i s h htaken
    exact htake i _ s (hJ events) h htaken

/-- A program that is in a loop has it in front of it. -/
theorem wait_of_loop (s : σ) (program : List (Stmt κ δ)) (events : List (Event ι)) {b : β}
    {p : Position} (h : (S.run (.start s program) events).loop = some (b, p)) :
    ∃ d rest, (S.run (.start s program) events).rest = .wait d :: rest := by
  have hhead : ∀ l, (S.run (.start s program) events).loop = some l →
      ∃ d rest, (S.run (.start s program) events).rest = .wait d :: rest := by
    refine S.run_induction (P := fun _ t => ∀ l, t.loop = some l →
      ∃ d rest, t.rest = .wait d :: rest)
      (fun l hl => absurd (show none = some l from hl) nofun) ?_ (fun _ _ h _ => h) ?_ events
    · intro events ih
      rcases S.proceed_cases (S.run (.start s program) events) with ⟨-, hstep⟩ |
        ⟨c, rest, -, hstep⟩ | ⟨d, rest, hrest, -, hstep⟩ | ⟨d, rest, b, -, -, -, hstep⟩ |
        ⟨d, rest, b, p, hrest, -, -, hstep⟩ <;> rw [hstep]
      · exact ih
      · exact fun l hl => absurd (show none = some l from hl) nofun
      · exact fun _ _ => ⟨d, rest, hrest⟩
      · exact fun l hl => absurd (show none = some l from hl) nofun
      · exact fun _ _ => ⟨d, rest, hrest⟩
    · intro events i s' ih _ l hl
      obtain ⟨l', hl', -⟩ := Option.map_eq_some_iff.mp hl
      exact ih l' hl'
  exact hhead (b, p) h

/-- **A loop that is never over**: if no state of a run ends the loop of a statement, whichever state
    of a run it was entered in, no run comes past the statement. -/
theorem wait_stays {s₀ : σ} {program : List (Stmt κ δ)} {d : δ} (hmem : .wait d ∈ program)
    (hnever : ∀ events events' : List (Event ι),
      S.done (S.enter d (S.run (.start s₀ program) events).state)
        (S.run (.start s₀ program) events').state = false)
    (events : List (Event ι)) : .wait d ∈ (S.run (.start s₀ program) events).rest := by
  have hinside : .wait d ∈ (S.run (.start s₀ program) events).rest ∧
      ∀ rest b p, (S.run (.start s₀ program) events).rest = .wait d :: rest →
        (S.run (.start s₀ program) events).loop = some (b, p) →
        ∃ events' : List (Event ι), b = S.enter d (S.run (.start s₀ program) events').state := by
    refine S.run_induction (P := fun _ t => .wait d ∈ t.rest ∧
      ∀ rest b p, t.rest = .wait d :: rest → t.loop = some (b, p) →
        ∃ events' : List (Event ι), b = S.enter d (S.run (.start s₀ program) events').state)
      ⟨hmem, fun _ b p _ h => absurd (show none = some (b, p) from h) nofun⟩ ?_ (fun _ _ h _ => h) ?_
      events
    · rintro events ⟨hin, hentered⟩
      rcases S.proceed_cases (S.run (.start s₀ program) events) with ⟨-, hstep⟩ |
        ⟨c, rest, hrest, hstep⟩ | ⟨d', rest, hrest, -, hstep⟩ |
        ⟨d', rest, b, hrest, hb, hdone, hstep⟩ | ⟨d', rest, b, p, -, hb, -, hstep⟩ <;> rw [hstep]
      · exact ⟨hin, hentered⟩
      · rw [hrest] at hin
        exact ⟨(List.mem_cons.mp hin).resolve_left nofun,
          fun _ b p _ h => absurd (show none = some (b, p) from h) nofun⟩
      · refine ⟨hin, fun rest' b p hrest' hb => ⟨events, ?_⟩⟩
        obtain rfl : d' = d := Stmt.wait.inj (List.cons.inj (hrest.symm.trans hrest')).1
        exact (congrArg Prod.fst (Option.some.inj hb)).symm
      · -- the loop that is left is another one
        rw [hrest] at hin
        refine ⟨(List.mem_cons.mp hin).resolve_left ?_,
          fun _ b p _ h => absurd (show none = some (b, p) from h) nofun⟩
        intro hsame
        obtain rfl : d = d' := Stmt.wait.inj hsame
        obtain ⟨events', hb'⟩ := hentered rest b .check hrest hb
        rw [hb', hnever] at hdone
        exact Bool.false_ne_true hdone
      · refine ⟨hin, fun rest' b' p' hrest' hb' => ?_⟩
        obtain rfl : b = b' := congrArg Prod.fst (Option.some.inj hb')
        exact hentered rest' b p hrest' hb
    · rintro events i s ⟨hin, hentered⟩ -
      refine ⟨hin, fun rest b p hrest hb => ?_⟩
      obtain ⟨⟨b', p'⟩, hb', hwake⟩ := Option.map_eq_some_iff.mp hb
      obtain rfl : b' = b := congrArg Prod.fst hwake
      exact hentered rest b' p' hrest hb'
  exact hinside.1

end System

/-- Without interrupts the commands run one after the other. -/
theorem System.run_acts (S : System σ ι κ δ β) (s : σ) (cs : List κ) (rest : List (Stmt κ δ)) :
    S.run (.start s (cs.map .act ++ rest)) (List.replicate cs.length .proceed)
      = .start (cs.foldl (fun s c => S.exec c s) s) rest := by
  induction cs generalizing s with
  | nil => rfl
  | cons c cs ih => exact ih (S.exec c s)

/-! ## Transparency -/

/-- The commands of a program. -/
def commands : List (Stmt κ δ) → List κ
  | [] => []
  | .act c :: rest => c :: commands rest
  | .wait _ :: rest => commands rest

theorem commands_append (pre post : List (Stmt κ δ)) :
    commands (pre ++ post) = commands pre ++ commands post := by
  induction pre with
  | nil => rfl
  | cons stmt pre ih =>
    cases stmt with
    | act c => exact congrArg (c :: ·) ih
    | wait d => exact ih

theorem mem_commands {c : κ} {program : List (Stmt κ δ)} :
    c ∈ commands program ↔ .act c ∈ program := by
  induction program with
  | nil => exact iff_of_false List.not_mem_nil List.not_mem_nil
  | cons stmt program ih =>
    cases stmt with
    | act c' => rw [commands, List.mem_cons, List.mem_cons, ih, Stmt.act.injEq]
    | wait d => rw [commands, List.mem_cons, ih, or_iff_right nofun]

/-- **Transparency.**  Let the commands act on what `view` shows of the state, and no interrupt change
    it where it is what the commands done so far have made of it.  Then after every run it is what
    they have made of it — as long as the state is `live`, which nothing restores. -/
theorem System.view_eq_commands (S : System σ ι κ δ β) (view : σ → τ) (act : κ → τ → τ)
    (live : σ → Prop) (hexec : ∀ c s, view (S.exec c s) = act c (view s))
    (hdead : ∀ c s, live (S.exec c s) → live s) (s₀ : σ) (program : List (Stmt κ δ))
    (htake : ∀ pre rest s i s', program = pre ++ rest →
      (live s → view s = (commands pre).foldl (fun v c => act c v) (view s₀)) →
      S.take s i = some s' → live s' → live s ∧ view s' = view s)
    (events : List (Event ι)) :
    ∃ pre, program = pre ++ (S.run (.start s₀ program) events).rest ∧
      (live (S.run (.start s₀ program) events).state →
        view (S.run (.start s₀ program) events).state
          = (commands pre).foldl (fun v c => act c v) (view s₀)) := by
  refine S.run_induction
    (P := fun _ t => ∃ pre, program = pre ++ t.rest ∧
      (live t.state → view t.state = (commands pre).foldl (fun v c => act c v) (view s₀)))
    ⟨[], rfl, fun _ => rfl⟩ ?_ (fun _ _ h _ => h) ?_ events
  · intro events
    generalize S.run (.start s₀ program) events = t
    rintro ⟨pre, hsplit, hview⟩
    rcases S.proceed_cases t with ⟨-, hstep⟩ | ⟨c, rest, hrest, hstep⟩ |
      ⟨d, rest, -, -, hstep⟩ | ⟨d, rest, b, hrest, -, -, hstep⟩ | ⟨d, rest, b, p, -, -, -, hstep⟩
    · rw [hstep]
      exact ⟨pre, hsplit, hview⟩
    · refine ⟨pre ++ [.act c], ?_, ?_⟩
      · rw [hsplit, hrest, hstep, List.append_assoc]
        rfl
      · rw [hstep, commands_append, List.foldl_append]
        intro hlive
        rw [← hview (hdead c t.state hlive)]
        exact hexec c t.state
    · rw [hstep]
      exact ⟨pre, hsplit, hview⟩
    · refine ⟨pre ++ [.wait d], ?_, ?_⟩
      · rw [hsplit, hrest, hstep, List.append_assoc]
        rfl
      · rw [hstep, commands_append, List.foldl_append]
        exact hview
    · rw [hstep]
      exact ⟨pre, hsplit, hview⟩
  · rintro events i s ⟨pre, hsplit, hview⟩ htaken
    refine ⟨pre, hsplit, fun hlive => ?_⟩
    obtain ⟨hbefore, hsame⟩ := htake pre _ _ i s hsplit hview htaken hlive
    exact hsame.trans (hview hbefore)

/-! ## Time -/

/-- The durations of the loops of a program, together. -/
def delay (duration : δ → Nat) : List (Stmt κ δ) → Nat
  | [] => 0
  | .act _ :: rest => delay duration rest
  | .wait d :: rest => duration d + delay duration rest

theorem delay_append (duration : δ → Nat) (pre post : List (Stmt κ δ)) :
    delay duration (pre ++ post) = delay duration pre + delay duration post := by
  induction pre with
  | nil => exact (Nat.zero_add _).symm
  | cons stmt pre ih =>
    cases stmt with
    | act c => exact ih
    | wait d =>
      show duration d + delay duration (pre ++ post) = duration d + delay duration pre + _
      rw [ih, Nat.add_assoc]

/-- The number of interrupts in a run, accepted or not. -/
def interrupts : List (Event ι) → Nat
  | [] => 0
  | .proceed :: events => interrupts events
  | .interrupt _ :: events => interrupts events + 1

theorem interrupts_append (events events' : List (Event ι)) :
    interrupts (events ++ events') = interrupts events + interrupts events' := by
  induction events with
  | nil => exact (Nat.zero_add _).symm
  | cons e events ih =>
    cases e with
    | proceed => exact ih
    | interrupt i =>
      show interrupts (events ++ events') + 1 = interrupts events + 1 + _
      rw [ih, Nat.add_right_comm]

/-- **A clock** that the interrupts drive and the loops wait for, in the states that meet `J`: the
    commands leave it alone, an interrupt advances it by at most one, and a loop is left when it has
    advanced by the loop's duration.  All of this below `bound`, where it may wrap. -/
structure Clock (S : System σ ι κ δ β) (J : σ → Prop) (ticks : σ → Nat) (duration : δ → Nat)
    (bound : Nat) : Prop where
  exec : ∀ c s, J s → ticks (S.exec c s) = ticks s
  take : ∀ s i s', J s → S.take s i = some s' → ticks s + 1 < bound →
    ticks s ≤ ticks s' ∧ ticks s' ≤ ticks s + 1
  done_iff : ∀ d s₀ s, J s₀ → J s → ticks s₀ + duration d < bound → ticks s < bound →
    (S.done (S.enter d s₀) s = true ↔ ticks s₀ + duration d ≤ ticks s)

section Time

variable {S : System σ ι κ δ β} {J : σ → Prop} {ticks : σ → Nat} {duration : δ → Nat} {bound : Nat}
  {s₀ : σ} {program : List (Stmt κ δ)}

/-- `b` is what the loop at the head of `stmts` remembers, entered when the clock stood between `low`
    and `high`. -/
def Entered (S : System σ ι κ δ β) (J : σ → Prop) (ticks : σ → Nat) (low high : Nat) (b : β)
    (stmts : List (Stmt κ δ)) : Prop :=
  ∃ d rest s₁, stmts = .wait d :: rest ∧ b = S.enter d s₁ ∧ J s₁ ∧ low ≤ ticks s₁ ∧
    ticks s₁ ≤ high

/-- What the clock owes a thread after `n` interrupts: it has advanced by the durations of the loops
    passed, and by no more than `n`. -/
structure Elapsed (S : System σ ι κ δ β) (J : σ → Prop) (ticks : σ → Nat) (duration : δ → Nat)
    (s₀ : σ) (program : List (Stmt κ δ)) (n : Nat) (t : Thread σ κ δ β) : Prop where
  most : ticks t.state ≤ ticks s₀ + n
  passed : ∃ pre, program = pre ++ t.rest ∧ ticks s₀ + delay duration pre ≤ ticks t.state ∧
    ∀ b p, t.loop = some (b, p) →
      Entered S J ticks (ticks s₀ + delay duration pre) (ticks s₀ + n) b t.rest

/-- One more statement is behind. -/
theorem split_concat {pre rest rest' : List (Stmt κ δ)} {stmt : Stmt κ δ}
    (hsplit : program = pre ++ rest) (hrest : rest = stmt :: rest') :
    program = (pre ++ [stmt]) ++ rest' := by
  rw [hsplit, hrest, List.append_assoc]
  rfl

theorem delay_concat_act (pre : List (Stmt κ δ)) (c : κ) :
    delay duration (pre ++ [.act c]) = delay duration pre := delay_append _ _ _

theorem delay_concat_wait (pre : List (Stmt κ δ)) (d : δ) :
    delay duration (pre ++ [.wait d]) = delay duration pre + duration d := delay_append _ _ _

/-- A loop of the program does not last longer than the program. -/
theorem delay_head_le (duration : δ → Nat) {pre rest rest' : List (Stmt κ δ)} {d : δ}
    (hsplit : program = pre ++ rest) (hrest : rest = .wait d :: rest') :
    delay duration pre + duration d ≤ delay duration program := by
  rw [split_concat hsplit hrest, delay_append, delay_concat_wait]
  exact Nat.le_add_right _ _

theorem Elapsed.proceed {n : Nat} {t : Thread σ κ δ β}
    (h : Elapsed S J ticks duration s₀ program n t) (hclock : Clock S J ticks duration bound)
    (hj : J t.state) (hbound : ticks s₀ + delay duration program + n < bound) :
    Elapsed S J ticks duration s₀ program n (S.proceed t) := by
  obtain ⟨hmost, pre, hsplit, hpassed, hloop⟩ := h
  rcases S.proceed_cases t with ⟨-, hstep⟩ | ⟨c, rest, hrest, hstep⟩ |
    ⟨d, rest, hrest, -, hstep⟩ | ⟨d, rest, b, hrest, hb, hdone, hstep⟩ |
    ⟨d, rest, b, p, hrest, hb, -, hstep⟩
  · rw [hstep]
    exact ⟨hmost, pre, hsplit, hpassed, hloop⟩
  · have hticks := hclock.exec c t.state hj
    rw [hstep]
    refine ⟨hticks.trans_le hmost, _, split_concat hsplit hrest, ?_, nofun⟩
    rw [delay_concat_act, hticks]
    exact hpassed
  · rw [hstep]
    refine ⟨hmost, pre, hsplit, hpassed, ?_⟩
    rintro b p ⟨⟩
    exact ⟨d, rest, t.state, hrest, rfl, hj, hpassed, hmost⟩
  · obtain ⟨d', rest', s₁, hrest', rfl, hj₁, hlow, hhigh⟩ := hloop b _ hb
    obtain ⟨⟨⟩, rfl⟩ := List.cons.inj (hrest.symm.trans hrest')
    have hfits := delay_head_le duration hsplit hrest
    have hleft := (hclock.done_iff d s₁ t.state hj₁ hj (by omega) (by omega)).mp hdone
    rw [hstep]
    refine ⟨hmost, _, split_concat hsplit hrest, ?_, nofun⟩
    rw [delay_concat_wait]
    show _ ≤ ticks t.state
    omega
  · rw [hstep]
    refine ⟨hmost, pre, hsplit, hpassed, ?_⟩
    rintro b' p' ⟨⟩
    exact hloop b p hb

theorem Elapsed.mono {n n' : Nat} {t : Thread σ κ δ β}
    (h : Elapsed S J ticks duration s₀ program n t) (hle : n ≤ n') :
    Elapsed S J ticks duration s₀ program n' t := by
  obtain ⟨hmost, pre, hsplit, hpassed, hloop⟩ := h
  refine ⟨by omega, pre, hsplit, hpassed, fun b p hb => ?_⟩
  obtain ⟨d, rest, s₁, hrest, hentered, hj, hlow, hhigh⟩ := hloop b p hb
  exact ⟨d, rest, s₁, hrest, hentered, hj, hlow, by omega⟩

theorem Elapsed.interrupted {n : Nat} {t : Thread σ κ δ β}
    (h : Elapsed S J ticks duration s₀ program n t) {s : σ} (hlow : ticks t.state ≤ ticks s)
    (hhigh : ticks s ≤ ticks t.state + 1) :
    Elapsed S J ticks duration s₀ program (n + 1) (t.interrupted s) := by
  have hmost := h.most
  obtain ⟨-, pre, hsplit, hpassed, hloop⟩ := h.mono (Nat.le_succ n)
  refine ⟨?_, pre, hsplit, Nat.le_trans hpassed hlow, ?_⟩
  · show ticks s ≤ _
    omega
  · intro b p hb
    obtain ⟨⟨b', p'⟩, hb', hwake⟩ := Option.map_eq_some_iff.mp hb
    obtain rfl : b' = b := congrArg Prod.fst hwake
    exact hloop b' p' hb'

/-- **Time, from below.**  After every run with few enough interrupts for the clock not to wrap, it
    has advanced by at least the durations of the loops the program is past, and by at most the
    number of interrupts. -/
theorem elapsed (hclock : Clock S J ticks duration bound)
    (hJ : ∀ events, J (S.run (.start s₀ program) events).state) (events : List (Event ι))
    (hbound : ticks s₀ + delay duration program + interrupts events < bound) :
    Elapsed S J ticks duration s₀ program (interrupts events)
      (S.run (.start s₀ program) events) := by
  revert hbound
  refine S.run_induction (P := fun events t =>
    ticks s₀ + delay duration program + interrupts events < bound →
      Elapsed S J ticks duration s₀ program (interrupts events) t) ?_ ?_ ?_ ?_ events
  · exact fun _ => ⟨Nat.le_refl _, [], rfl, Nat.le_refl _, nofun⟩
  · intro events ih hbound
    rw [interrupts_append] at hbound ⊢
    exact (ih hbound).proceed hclock (hJ events) hbound
  · intro events i ih _ hbound
    rw [interrupts_append] at hbound ⊢
    exact (ih (Nat.lt_of_succ_lt hbound)).mono (Nat.le_succ _)
  · intro events i s ih htake hbound
    rw [interrupts_append] at hbound ⊢
    have helapsed := ih (Nat.lt_of_succ_lt hbound)
    have hmost := helapsed.most
    have hnext : interrupts [Event.interrupt i] = 1 := rfl
    obtain ⟨hlow, hhigh⟩ := hclock.take _ i s (hJ events) htake (by omega)
    exact helapsed.interrupted hlow hhigh

/-! ### Interrupts that find the program halted -/

/-- The program does nothing before the next interrupt: it is at its end, or halted. -/
def Thread.Settled (t : Thread σ κ δ β) : Prop := t.rest = [] ∨ ∃ b, t.loop = some (b, .halted)

/-- Every interrupt of the run finds the program settled: it is faster than they are. -/
def System.Prompt (S : System σ ι κ δ β) (t : Thread σ κ δ β) (events : List (Event ι)) : Prop :=
  ∀ pre i post, events = pre ++ .interrupt i :: post → (S.run t pre).Settled

theorem System.prompt_concat {t : Thread σ κ δ β} {events : List (Event ι)} {e : Event ι} :
    S.Prompt t (events ++ [e]) ↔
      S.Prompt t events ∧ ∀ i, e = .interrupt i → (S.run t events).Settled := by
  constructor
  · intro h
    refine ⟨fun pre i post hsplit => ?_, fun i he => h events i [] (by rw [he])⟩
    exact h pre i (post ++ [e]) (by rw [hsplit, List.append_assoc, List.cons_append])
  · rintro ⟨h, hlast⟩ pre i post hsplit
    rcases List.eq_nil_or_concat post with rfl | ⟨post, e', rfl⟩
    · obtain ⟨rfl, he⟩ := List.append_inj' hsplit rfl
      exact hlast i (List.singleton_inj.mp he)
    · rw [List.concat_eq_append, ← List.cons_append, ← List.append_assoc] at hsplit
      exact h pre i post (List.append_inj_left' hsplit rfl)

/-- Where the clock stands in a thread that no interrupt has found under way. -/
inductive OnTime (S : System σ ι κ δ β) (J : σ → Prop) (ticks : σ → Nat) (duration : δ → Nat)
    (s₀ : σ) (program : List (Stmt κ δ)) (t : Thread σ κ δ β) : Prop where
  /-- Outside the loops: at the durations of the loops passed. -/
  | running (pre : List (Stmt κ δ)) (split : program = pre ++ t.rest) (loop : t.loop = none)
      (ticks_eq : ticks t.state = ticks s₀ + delay duration pre)
  /-- In a loop: before its end, and past that only in front of the check. -/
  | waiting (pre : List (Stmt κ δ)) (d : δ) (rest : List (Stmt κ δ)) (s₁ : σ) (p : Position)
      (split : program = pre ++ t.rest) (rest_eq : t.rest = .wait d :: rest)
      (loop : t.loop = some (S.enter d s₁, p)) (met : J s₁)
      (entered : ticks s₁ = ticks s₀ + delay duration pre)
      (most : ticks t.state ≤ ticks s₁ + duration d)
      (less : p ≠ .check → ticks t.state < ticks s₁ + duration d)
  | finished (rest : t.rest = [])
      (passed : ticks s₀ + delay duration program ≤ ticks t.state)

theorem OnTime.proceed {t : Thread σ κ δ β} (h : OnTime S J ticks duration s₀ program t)
    (hclock : Clock S J ticks duration bound) (hj : J t.state)
    (hfits : ticks s₀ + delay duration program < bound) (hbelow : ticks t.state < bound) :
    OnTime S J ticks duration s₀ program (S.proceed t) := by
  rcases S.proceed_cases t with ⟨hend, hstep⟩ | ⟨c, rest, hrest, hstep⟩ |
    ⟨d, rest, hrest, hnone, hstep⟩ | ⟨d, rest, b, hrest, hb, hdone, hstep⟩ |
    ⟨d, rest, b, p, hrest, hb, hmore, hstep⟩
  · rw [hstep]
    exact h
  · rw [hstep]
    cases h with
    | running pre hsplit hloop hticks =>
      refine .running _ (split_concat hsplit hrest) rfl ?_
      rw [delay_concat_act]
      exact (hclock.exec c t.state hj).trans hticks
    | waiting pre d rest' s₁ p hsplit hrest' =>
      exact absurd (List.cons.inj (hrest.symm.trans hrest')).1 nofun
    | finished hend => exact absurd (hrest.symm.trans hend) nofun
  · rw [hstep]
    cases h with
    | running pre hsplit hloop hticks =>
      exact .waiting pre d rest t.state .check hsplit hrest rfl hj hticks
        (Nat.le_add_right _ _) fun hcheck => absurd rfl hcheck
    | waiting pre d rest' s₁ p hsplit hrest' hloop => exact absurd (hnone.symm.trans hloop) nofun
    | finished hend => exact absurd (hrest.symm.trans hend) nofun
  · rw [hstep]
    cases h with
    | running pre hsplit hloop hticks => exact absurd (hb.symm.trans hloop) nofun
    | waiting pre d' rest' s₁ p hsplit hrest' hloop hj₁ hentered hmost =>
      obtain ⟨⟨⟩, rfl⟩ := List.cons.inj (hrest.symm.trans hrest')
      obtain ⟨rfl, -⟩ := Prod.mk.inj (Option.some.inj (hb.symm.trans hloop))
      have hlast := delay_head_le duration hsplit hrest
      have hleft := (hclock.done_iff d s₁ t.state hj₁ hj (by omega) hbelow).mp hdone
      refine .running _ (split_concat hsplit hrest) rfl ?_
      rw [delay_concat_wait]
      show ticks t.state = _
      omega
    | finished hend => exact absurd (hrest.symm.trans hend) nofun
  · rw [hstep]
    cases h with
    | running pre hsplit hloop hticks => exact absurd (hb.symm.trans hloop) nofun
    | waiting pre d' rest' s₁ p' hsplit hrest' hloop hj₁ hentered hmost hless =>
      obtain ⟨⟨⟩, rfl⟩ := List.cons.inj (hrest.symm.trans hrest')
      obtain ⟨rfl, rfl⟩ := Prod.mk.inj (Option.some.inj (hb.symm.trans hloop))
      have hlast := delay_head_le duration hsplit hrest
      refine .waiting pre d rest s₁ p.next hsplit hrest rfl hj₁ hentered hmost fun _ => ?_
      show ticks t.state < _
      by_cases hp : p = .check
      · -- the condition has just failed
        have hnot := mt (hclock.done_iff d s₁ t.state hj₁ hj (by omega) hbelow).mpr
        rw [hmore hp] at hnot
        exact Nat.not_le.mp (hnot Bool.false_ne_true)
      · exact hless hp
    | finished hend => exact absurd (hrest.symm.trans hend) nofun

/-- An interrupt of a settled thread. -/
theorem OnTime.interrupted {t : Thread σ κ δ β} (h : OnTime S J ticks duration s₀ program t)
    (hsettled : t.Settled) {s : σ} (hlow : ticks t.state ≤ ticks s)
    (hhigh : ticks s ≤ ticks t.state + 1) :
    OnTime S J ticks duration s₀ program (t.interrupted s) := by
  cases h with
  | running pre hsplit hloop hticks =>
    have hend : t.rest = [] := by
      rcases hsettled with hend | ⟨b, hb⟩
      · exact hend
      · exact absurd (hb.symm.trans hloop) nofun
    refine .finished hend (Nat.le_trans (Nat.le_of_eq ?_) hlow)
    rw [hsplit, hend, List.append_nil, hticks]
  | waiting pre d rest s₁ p hsplit hrest hloop hj₁ hentered hmost hless =>
    have hhalted : p = .halted := by
      rcases hsettled with hend | ⟨b, hb⟩
      · exact absurd (hrest.symm.trans hend) nofun
      · exact (Prod.mk.inj (Option.some.inj (hloop.symm.trans hb))).2
    subst hhalted
    have hbefore := hless nofun
    refine .waiting pre d rest s₁ .check hsplit hrest ?_ hj₁ hentered (show ticks s ≤ _ by omega)
      fun hcheck => absurd rfl hcheck
    show t.loop.map _ = _
    rw [hloop]
    rfl
  | finished hend hpassed => exact .finished hend (Nat.le_trans hpassed hlow)

/-- **Time, exactly**: along a run whose interrupts find the program settled. -/
theorem onTime (hclock : Clock S J ticks duration bound)
    (hJ : ∀ events, J (S.run (.start s₀ program) events).state) (events : List (Event ι))
    (hprompt : S.Prompt (.start s₀ program) events)
    (hbound : ticks s₀ + delay duration program + interrupts events < bound) :
    OnTime S J ticks duration s₀ program (S.run (.start s₀ program) events) := by
  revert hprompt hbound
  refine S.run_induction (P := fun events t => S.Prompt (.start s₀ program) events →
    ticks s₀ + delay duration program + interrupts events < bound →
      OnTime S J ticks duration s₀ program t) ?_ ?_ ?_ ?_ events
  · exact fun _ _ => .running [] rfl rfl rfl
  · intro events ih hprompt hbound
    rw [interrupts_append] at hbound
    have hmost := (elapsed hclock hJ events hbound).most
    have hsame : interrupts [(.proceed : Event ι)] = 0 := rfl
    exact (ih (System.prompt_concat.mp hprompt).1 hbound).proceed hclock (hJ events) (by omega)
      (by omega)
  · intro events i ih _ hprompt hbound
    rw [interrupts_append] at hbound
    exact ih (System.prompt_concat.mp hprompt).1 (Nat.lt_of_succ_lt hbound)
  · intro events i s ih htake hprompt hbound
    rw [interrupts_append] at hbound
    have hmost := (elapsed hclock hJ events (Nat.lt_of_succ_lt hbound)).most
    have hnext : interrupts [Event.interrupt i] = 1 := rfl
    obtain ⟨hlow, hhigh⟩ := hclock.take _ i s (hJ events) htake (by omega)
    obtain ⟨hbefore, hsettled⟩ := System.prompt_concat.mp hprompt
    exact (ih hbefore (Nat.lt_of_succ_lt hbound)).interrupted (hsettled i rfl) hlow hhigh

/-- A settled thread on time is at its end precisely when all durations are over. -/
theorem OnTime.finished_iff {t : Thread σ κ δ β} (h : OnTime S J ticks duration s₀ program t)
    (hsettled : t.Settled) :
    t.rest = [] ↔ ticks s₀ + delay duration program ≤ ticks t.state := by
  cases h with
  | running pre hsplit hloop hticks =>
    have hend : t.rest = [] := by
      rcases hsettled with hend | ⟨b, hb⟩
      · exact hend
      · exact absurd (hb.symm.trans hloop) nofun
    refine iff_of_true hend (Nat.le_of_eq ?_)
    rw [hsplit, hend, List.append_nil, hticks]
  | waiting pre d rest s₁ p hsplit hrest hloop hj₁ hentered hmost hless =>
    have hnot : t.rest ≠ [] := by
      rw [hrest]
      exact List.cons_ne_nil _ _
    obtain ⟨b, hb⟩ := hsettled.resolve_left hnot
    obtain ⟨-, rfl⟩ := Prod.mk.inj (Option.some.inj (hloop.symm.trans hb))
    have hlast := delay_head_le duration hsplit hrest
    have hbefore := hless nofun
    exact iff_of_false hnot (by omega)
  | finished hend hpassed => exact iff_of_true hend hpassed

/-- **The end, exactly.**  After a run whose interrupts find the program settled, and at whose end
    it is settled, the program is finished precisely when the clock has advanced by the durations of
    all its loops. -/
theorem finished_iff (hclock : Clock S J ticks duration bound)
    (hJ : ∀ events, J (S.run (.start s₀ program) events).state) (events : List (Event ι))
    (hprompt : S.Prompt (.start s₀ program) events)
    (hbound : ticks s₀ + delay duration program + interrupts events < bound)
    (hsettled : (S.run (.start s₀ program) events).Settled) :
    (S.run (.start s₀ program) events).rest = [] ↔
      ticks s₀ + delay duration program ≤ ticks (S.run (.start s₀ program) events).state :=
  (onTime hclock hJ events hprompt hbound).finished_iff hsettled

/-! ### A run to the end -/

/-- A program that is not interrupted settles. -/
theorem exists_settled (S : System σ ι κ δ β) (s : σ) (program : List (Stmt κ δ))
    (loop : Option (β × Position)) :
    ∃ n, (S.run ⟨s, program, loop⟩ (List.replicate n .proceed)).Settled := by
  have hnext : ∀ {t t' : Thread σ κ δ β}, S.proceed t = t' →
      (∃ n, (S.run t' (List.replicate n .proceed)).Settled) →
      ∃ n, (S.run t (List.replicate n .proceed)).Settled := by
    rintro t t' rfl ⟨n, hn⟩
    exact ⟨n + 1, hn⟩
  induction program generalizing s loop with
  | nil => exact ⟨0, Or.inl rfl⟩
  | cons stmt rest ih =>
    cases stmt with
    | act c => exact hnext rfl (ih _ _)
    | wait d =>
      have hhalted : ∀ b, ∃ n, (S.run ⟨s, .wait d :: rest, some (b, .halted)⟩
          (List.replicate n .proceed)).Settled := fun b => ⟨0, Or.inr ⟨b, rfl⟩⟩
      have hhlt : ∀ b, S.proceed ⟨s, .wait d :: rest, some (b, .hlt)⟩
          = ⟨s, .wait d :: rest, some (b, .halted)⟩ := fun _ => rfl
      have hcheck : ∀ b, ∃ n, (S.run ⟨s, .wait d :: rest, some (b, .check)⟩
          (List.replicate n .proceed)).Settled := by
        intro b
        by_cases hdone : S.done b s = true
        · exact hnext (if_pos ⟨rfl, hdone⟩) (ih s none)
        · have hmore : S.proceed ⟨s, .wait d :: rest, some (b, .check)⟩
              = ⟨s, .wait d :: rest, some (b, .hlt)⟩ := if_neg fun h => hdone h.2
          exact hnext hmore (hnext (hhlt b) (hhalted b))
      rcases loop with _ | ⟨b, _ | _ | _⟩
      · exact hnext rfl (hcheck _)
      · exact hcheck b
      · exact hnext (hhlt b) (hhalted b)
      · exact hhalted b

/-- Steps of the program leave the clock alone. -/
theorem ticks_proceed (hclock : Clock S J ticks duration bound) {t : Thread σ κ δ β}
    (hj : J t.state) : ticks (S.proceed t).state = ticks t.state := by
  rcases S.proceed_state t with hsame | ⟨c, hcommand⟩
  · rw [hsame]
  · rw [hcommand]
    exact hclock.exec c t.state hj

/-- From the end of a run, on to a thread that is settled. -/
theorem exists_settled_run (hclock : Clock S J ticks duration bound)
    (hJ : ∀ events, J (S.run (.start s₀ program) events).state) (events : List (Event ι))
    (hprompt : S.Prompt (.start s₀ program) events) :
    ∃ events', S.Prompt (.start s₀ program) events' ∧ interrupts events' = interrupts events ∧
      (S.run (.start s₀ program) events').Settled ∧
      ticks (S.run (.start s₀ program) events').state
        = ticks (S.run (.start s₀ program) events).state := by
  have hsteps : ∀ n, S.Prompt (.start s₀ program) (events ++ List.replicate n .proceed) ∧
      interrupts (events ++ List.replicate n .proceed) = interrupts events ∧
      ticks (S.run (.start s₀ program) (events ++ List.replicate n .proceed)).state
        = ticks (S.run (.start s₀ program) events).state := by
    intro n
    induction n with
    | zero =>
      rw [List.replicate_zero, List.append_nil]
      exact ⟨hprompt, rfl, rfl⟩
    | succ n ih =>
      obtain ⟨hbefore, hcount, hticks⟩ := ih
      rw [List.replicate_succ', ← List.append_assoc]
      refine ⟨System.prompt_concat.mpr ⟨hbefore, nofun⟩, ?_, ?_⟩
      · rw [interrupts_append, hcount]
        rfl
      · rw [S.run_concat, ← hticks]
        exact ticks_proceed hclock (hJ _)
  obtain ⟨n, hn⟩ := exists_settled S _ _ (S.run (.start s₀ program) events).loop
  obtain ⟨hbefore, hcount, hticks⟩ := hsteps n
  refine ⟨events ++ List.replicate n .proceed, hbefore, hcount, ?_, hticks⟩
  rw [S.run_append]
  exact hn

/-- **A run to the end**: if in every state where the program has halted too early some interrupt
    advances the clock, there is a run that finishes the program, with no more interrupts than the
    durations ask for. -/
theorem exists_finished (hclock : Clock S J ticks duration bound)
    (hJ : ∀ events, J (S.run (.start s₀ program) events).state)
    (htick : ∀ events, (S.run (.start s₀ program) events).Settled →
      (S.run (.start s₀ program) events).rest ≠ [] →
      ticks (S.run (.start s₀ program) events).state < ticks s₀ + delay duration program →
      ∃ i s, S.take (S.run (.start s₀ program) events).state i = some s ∧
        ticks s = ticks (S.run (.start s₀ program) events).state + 1)
    (hbound : ticks s₀ + 2 * delay duration program < bound) :
    ∃ events, S.Prompt (.start s₀ program) events ∧
      interrupts events ≤ delay duration program ∧
      (S.run (.start s₀ program) events).rest = [] := by
  -- one interrupt after the other, each followed by steps up to the next halt
  have hmany : ∀ n ≤ delay duration program, ∃ events, S.Prompt (.start s₀ program) events ∧
      interrupts events ≤ n ∧ (S.run (.start s₀ program) events).Settled ∧
      ((S.run (.start s₀ program) events).rest = [] ∨
        ticks (S.run (.start s₀ program) events).state = ticks s₀ + n) := by
    intro n
    induction n with
    | zero =>
      intro _
      obtain ⟨events, hprompt, hcount, hsettled, hticks⟩ :=
        exists_settled_run hclock hJ [] fun pre i post hsplit =>
          absurd hsplit.symm (List.append_ne_nil_of_right_ne_nil _ (List.cons_ne_nil _ _))
      exact ⟨events, hprompt, Nat.le_of_eq hcount, hsettled, Or.inr hticks⟩
    | succ n ih =>
      intro hle
      obtain ⟨events, hprompt, hcount, hsettled, hend⟩ := ih (Nat.le_of_succ_le hle)
      by_cases hfinished : (S.run (.start s₀ program) events).rest = []
      · exact ⟨events, hprompt, Nat.le_succ_of_le hcount, hsettled, Or.inl hfinished⟩
      · have hnow := hend.resolve_left hfinished
        obtain ⟨i, s, htake, hnext⟩ := htick events hsettled hfinished (by omega)
        have hrun : S.run (.start s₀ program) (events ++ [.interrupt i])
            = (S.run (.start s₀ program) events).interrupted s := by
          rw [S.run_concat, System.step, htake]
        obtain ⟨events', hprompt', hcount', hsettled', hticks'⟩ :=
          exists_settled_run hclock hJ (events ++ [.interrupt i])
            (System.prompt_concat.mpr ⟨hprompt, fun _ _ => hsettled⟩)
        refine ⟨events', hprompt', ?_, hsettled', Or.inr ?_⟩
        · rw [hcount', interrupts_append]
          exact Nat.succ_le_succ hcount
        · rw [hticks', hrun]
          show ticks s = _
          rw [hnext, hnow]
          exact Nat.add_assoc _ _ _
  obtain ⟨events, hprompt, hcount, hsettled, hend⟩ := hmany _ (Nat.le_refl _)
  refine ⟨events, hprompt, hcount, hend.elim id fun hticks => ?_⟩
  exact (finished_iff hclock hJ events hprompt (by omega) hsettled).mpr (Nat.le_of_eq hticks.symm)

end Time

end Interleaving
