/-
  The two mode switches of `kernel/x86/isa/interrupt/interrupt.c`: `STU_Handler`, `STK_Handler`.

  Each is guarded by the level of `int_no`, where the level of the context is that of `cs`, and
  `STK_Handler` leaves the I/O privilege bits that `STU_Handler` sets.  So the two undo each other
  only for some vectors and some flags: `mode_switch_iff` says for which, over every sequence of
  the two from a kernel context.

  What `STU_Handler` leaves is returned to by `iret`.  `USER_CS` names the user code segment, but
  `USER_DS` is built on the kernel data segment, whose privilege level is 0: no context that
  `STU_Handler` switches can be returned to (`switched_never_accepted`).
-/
import FreeMicroNix.Gdt.KernelStack
import FreeMicroNix.Isa.Cpu
import FreeMicroNix.Isa.Interrupt
import FreeMicroNix.Lib.Run

namespace FreeMicroNix

open Run

/-! ## The contexts the handlers leave -/

/-- The selectors and the I/O privilege level of user mode. -/
def InterruptContext.toUser (ctx : InterruptContext) : InterruptContext :=
  { ctx with
    gs := userDs, es := userDs, fs := userDs, ds := userDs, ss := userDs
    cs := userCs
    eflags := ctx.eflags ||| 0x00003000 }

/-- The selectors of the kernel. -/
def InterruptContext.toKernel (ctx : InterruptContext) : InterruptContext :=
  { ctx with
    gs := kernelDs, es := kernelDs, fs := kernelDs, ds := kernelDs, ss := kernelDs
    cs := kernelCs }

/-- A context of kernel code. -/
structure KernelContext (ctx : InterruptContext) : Prop where
  cs : ctx.cs = kernelCs
  ds : ctx.ds = kernelDs
  es : ctx.es = kernelDs
  fs : ctx.fs = kernelDs
  gs : ctx.gs = kernelDs
  ss : ctx.ss = kernelDs

section Handlers

variable (ctx : InterruptContext) (t : Terminal)

theorem stuHandler_ctx :
    (stuHandler ctx t).1 = if ctx.intNo &&& 0x03 ≠ 3 then ctx.toUser else ctx := by
  unfold stuHandler
  dsimp only
  split_ifs <;> rfl

theorem stkHandler_ctx :
    (stkHandler ctx t).1 = if ctx.intNo &&& 0x03 ≠ 0 then ctx.toKernel else ctx := by
  unfold stkHandler
  dsimp only
  split_ifs <;> rfl

end Handlers

/-- A kernel context has the selectors of the kernel already. -/
theorem KernelContext.toKernel {ctx : InterruptContext} (h : KernelContext ctx) :
    ctx.toKernel = ctx := by
  obtain ⟨hcs, hds, hes, hfs, hgs, hss⟩ := h
  cases ctx
  simp only at hcs hds hes hfs hgs hss
  simp only [InterruptContext.toKernel, hcs, hds, hes, hfs, hgs, hss]

theorem toUser_toUser (ctx : InterruptContext) : ctx.toUser.toUser = ctx.toUser := by
  have hflags : ctx.eflags ||| 0x00003000 ||| 0x00003000 = ctx.eflags ||| 0x00003000 := by
    rw [BitVec.or_assoc, BitVec.or_self]
  simp only [InterruptContext.toUser, hflags]

/-- Back from user mode the context is as it was, but for the I/O privilege level. -/
theorem KernelContext.toUser_toKernel {ctx : InterruptContext} (h : KernelContext ctx) :
    ctx.toUser.toKernel = { ctx with eflags := ctx.eflags ||| 0x00003000 } := by
  have hfields : ctx.toUser.toKernel
      = { ctx.toKernel with eflags := ctx.eflags ||| 0x00003000 } := rfl
  rw [hfields, h.toKernel]

/-- Setting bits changes nothing where they were set already. -/
theorem or_eq_left_iff {w : Nat} (x y : BitVec w) : x ||| y = x ↔ x &&& y = y := by
  rw [BitVec.eq_of_getLsbD_eq_iff, BitVec.eq_of_getLsbD_eq_iff]
  refine forall_congr' fun i => imp_congr Iff.rfl ?_
  rw [BitVec.getLsbD_or, BitVec.getLsbD_and]
  cases x.getLsbD i <;> cases y.getLsbD i <;> decide

/-! ## Sequences of the two handlers -/

inductive ModeHandler where
  | stu
  | stk
  deriving DecidableEq

namespace ModeHandler

/-- The level a handler is for. -/
def level : ModeHandler → Uint32
  | stu => 3
  | stk => 0

/-- One application. -/
def run (s : InterruptContext × Terminal) : ModeHandler → InterruptContext × Terminal
  | stu => stuHandler s.1 s.2
  | stk => stkHandler s.1 s.2

end ModeHandler

/-- What is asked of an application of `h` to `s`, in a sequence that began with `ctx` and in which
    `STU_Handler` was applied before or not. -/
structure Switches (ctx : InterruptContext) (s : InterruptContext × Terminal) (entered : Prop)
    (h : ModeHandler) : Prop where
  level : (h.run s).1.cs &&& 3 = h.level
  idempotent : s.1.cs &&& 3 = h.level → (h.run s).1 = s.1
  restored : h = .stk → entered → (h.run s).1 = ctx

/-- What an application needs, of the vector and of the flags. -/
def Reversible (ctx : InterruptContext) (entered : Bool) : ModeHandler → Prop
  | .stu => ctx.intNo &&& 3 ≠ 3
  | .stk => entered → ctx.intNo &&& 3 ≠ 0 ∧ ctx.eflags &&& 0x00003000 = 0x00003000

/-- Where a sequence stands: at the original context — and if `STU_Handler` was applied before, the
    way back was reversible — or in user mode. -/
def Between (ctx : InterruptContext) (s : (InterruptContext × Terminal) × Bool) (entered : Bool) :
    Prop :=
  s.2 = entered ∧
    (s.1.1 = ctx ∧ Reversible ctx entered .stk ∨
      s.1.1 = ctx.toUser ∧ entered = true ∧ Reversible ctx entered .stu)

/-- One application, with a record of whether `STU_Handler` was among those so far. -/
def ModeHandler.step (s : (InterruptContext × Terminal) × Bool) (h : ModeHandler) :
    (InterruptContext × Terminal) × Bool := (h.run s.1, s.2 || h = .stu)

theorem kernelCs_level : kernelCs &&& 3 = 0 := by decide

theorem userCs_level : userCs &&& 3 = 3 := by decide

/-! ### The four cases -/

section Cases

variable {ctx : InterruptContext} {s : InterruptContext × Terminal}

theorem stu_at_kernel (hs : s.1 = ctx) :
    (ModeHandler.stu.run s).1 = if ctx.intNo &&& 3 ≠ 3 then ctx.toUser else ctx := by
  rw [← hs]
  exact stuHandler_ctx s.1 s.2

theorem stu_at_user (hs : s.1 = ctx.toUser) : (ModeHandler.stu.run s).1 = ctx.toUser := by
  have hrun : (ModeHandler.stu.run s).1 = _ := stuHandler_ctx s.1 s.2
  rw [hrun, hs, toUser_toUser, ite_self]

theorem stk_at_kernel (hkernel : KernelContext ctx) (hs : s.1 = ctx) :
    (ModeHandler.stk.run s).1 = ctx := by
  have hrun : (ModeHandler.stk.run s).1 = _ := stkHandler_ctx s.1 s.2
  rw [hrun, hs, hkernel.toKernel, ite_self]

theorem stk_at_user (hkernel : KernelContext ctx) (hs : s.1 = ctx.toUser) :
    (ModeHandler.stk.run s).1 =
      if ctx.intNo &&& 3 ≠ 0 then { ctx with eflags := ctx.eflags ||| 0x00003000 }
      else ctx.toUser := by
  have hrun : (ModeHandler.stk.run s).1
      = if s.1.intNo &&& 3 ≠ 0 then s.1.toKernel else s.1 := stkHandler_ctx s.1 s.2
  rw [hrun, hs, hkernel.toUser_toKernel]
  rfl

end Cases

section Step

variable {ctx : InterruptContext} {s : (InterruptContext × Terminal) × Bool} {entered : Bool}

/-- `STU_Handler` does what is asked precisely when its guard lets it switch. -/
theorem switches_stu_iff (hkernel : KernelContext ctx) (hs : Between ctx s entered) :
    Switches ctx s.1 (s.2 = true) .stu ↔ ctx.intNo &&& 3 ≠ 3 := by
  obtain ⟨rfl, hcontext⟩ := hs
  rcases hcontext with ⟨hctx, -⟩ | ⟨hctx, -, hvector⟩
  · have hrun := stu_at_kernel hctx
    constructor
    · intro hswitches hvector
      have hlevel := hswitches.level
      rw [hrun, if_neg (not_not_intro hvector), hkernel.cs, kernelCs_level] at hlevel
      exact absurd hlevel (by decide)
    · intro hvector
      rw [if_pos hvector] at hrun
      refine ⟨by rw [hrun]; exact userCs_level, fun hlevel => ?_, fun h => absurd h nofun⟩
      rw [hctx, hkernel.cs, kernelCs_level] at hlevel
      exact absurd hlevel (by decide)
  · have hrun := stu_at_user hctx
    refine iff_of_true ⟨?_, fun _ => hrun.trans hctx.symm, fun h => absurd h nofun⟩ hvector
    rw [hrun]
    exact userCs_level

/-- `STK_Handler` does what is asked precisely when the way back, if there is one, is reversible. -/
theorem switches_stk_iff (hkernel : KernelContext ctx) (hs : Between ctx s entered) :
    Switches ctx s.1 (s.2 = true) .stk ↔ Reversible ctx entered .stk := by
  obtain ⟨rfl, hcontext⟩ := hs
  rcases hcontext with ⟨hctx, hback⟩ | ⟨hctx, hentered, -⟩
  · have hrun := stk_at_kernel hkernel hctx
    refine iff_of_true ⟨?_, fun _ => hrun.trans hctx.symm, fun _ _ => hrun⟩ hback
    rw [hrun, hkernel.cs]
    exact kernelCs_level
  · have hrun := stk_at_user hkernel hctx
    constructor
    · intro hswitches _
      have hlevel := hswitches.level
      have hrestored := hswitches.restored rfl hentered
      by_cases hvector : ctx.intNo &&& 3 = 0
      · rw [hrun, if_neg (not_not_intro hvector)] at hlevel
        exact absurd (hlevel.symm.trans userCs_level) (by decide)
      · refine ⟨hvector, (or_eq_left_iff _ _).mp ?_⟩
        rw [hrun, if_pos hvector] at hrestored
        exact congrArg InterruptContext.eflags hrestored
    · intro hback
      obtain ⟨hvector, hflags⟩ := hback hentered
      rw [if_pos hvector, (or_eq_left_iff _ _).mpr hflags] at hrun
      refine ⟨by rw [hrun, hkernel.cs]; exact kernelCs_level, fun hlevel => ?_, fun _ _ => hrun⟩
      rw [hctx] at hlevel
      exact absurd (hlevel.symm.trans userCs_level) (by decide)

/-- **One application** does what is asked precisely when it is reversible. -/
theorem switches_iff (hkernel : KernelContext ctx) (hs : Between ctx s entered) (h : ModeHandler) :
    Switches ctx s.1 (s.2 = true) h ↔ Reversible ctx entered h := by
  cases h with
  | stu => exact switches_stu_iff hkernel hs
  | stk => exact switches_stk_iff hkernel hs

/-- A reversible application leads from one of the two places to one of them. -/
theorem between_step (hkernel : KernelContext ctx) (hs : Between ctx s entered) {h : ModeHandler}
    (hback : Reversible ctx entered h) :
    Between ctx (ModeHandler.step s h) (entered || h = .stu) := by
  obtain ⟨rfl, hcontext⟩ := hs
  refine ⟨rfl, ?_⟩
  cases h with
  | stu =>
    refine Or.inr ⟨?_, by simp, hback⟩
    rcases hcontext with ⟨hctx, -⟩ | ⟨hctx, -⟩
    · exact (stu_at_kernel hctx).trans (if_pos hback)
    · exact stu_at_user hctx
  | stk =>
    refine Or.inl ⟨?_, by simpa using hback⟩
    rcases hcontext with ⟨hctx, -⟩ | ⟨hctx, hentered, -⟩
    · exact stk_at_kernel hkernel hctx
    · obtain ⟨hvector, hflags⟩ := hback hentered
      refine (stk_at_user hkernel hctx).trans ?_
      rw [if_pos hvector, (or_eq_left_iff _ _).mpr hflags]

end Step

/-- The record of a sequence: its applications, and whether `STU_Handler` was one of them. -/
theorem foldl_step (s : InterruptContext × Terminal) (seen : Bool) (handlers : List ModeHandler) :
    handlers.foldl ModeHandler.step (s, seen)
      = (handlers.foldl ModeHandler.run s, seen || decide (.stu ∈ handlers)) := by
  induction handlers generalizing s seen with
  | nil => simp
  | cons h handlers ih =>
    rw [List.foldl_cons, ModeHandler.step, ih, List.foldl_cons]
    cases h <;> simp

theorem foldl_entered (seen : Bool) (handlers : List ModeHandler) :
    handlers.foldl (fun entered h => entered || decide (h = .stu)) seen
      = (seen || decide (.stu ∈ handlers)) := by
  induction handlers generalizing seen with
  | nil => simp
  | cons h handlers ih =>
    rw [List.foldl_cons, ih]
    cases h <;> simp

/-- **Mode switches, exactly.**  From a kernel context, every application in a sequence reaches the
    level of its handler, leaves a context at that level alone, and restores the original context
    after a switch, if and only if the vector is not one of level 3 where `STU_Handler` is applied,
    and where `STK_Handler` follows it the vector is not one of level 0 and the code had I/O
    privilege from the start. -/
theorem mode_switch_iff (ctx : InterruptContext) (t : Terminal) (hkernel : KernelContext ctx)
    (handlers : List ModeHandler) :
    (∀ pre h post, handlers = pre ++ h :: post →
        Switches ctx (pre.foldl ModeHandler.run (ctx, t)) (.stu ∈ pre) h) ↔
      (.stu ∈ handlers → ctx.intNo &&& 3 ≠ 3) ∧
        (∀ pre post, handlers = pre ++ .stk :: post → .stu ∈ pre →
          ctx.intNo &&& 3 ≠ 0 ∧ ctx.eflags &&& 0x00003000 = 0x00003000) := by
  have hstart : Between ctx ((ctx, t), false) false :=
    ⟨rfl, Or.inl ⟨rfl, fun h => absurd h nofun⟩⟩
  have hruns := guarded_iff_of_related (f := ModeHandler.step) (R := Between ctx)
    (A := fun _ => True) (C := fun s h => Switches ctx s.1 (s.2 = true) h) (D := Reversible ctx)
    (fun _ _ h _ hs => switches_iff hkernel hs h)
    (fun _ _ _ _ hs hback => between_step hkernel hs hback) handlers (fun _ _ => trivial) hstart
  rw [guarded_iff_split, guarded_iff_split] at hruns
  simp only [foldl_step, foldl_entered, Bool.false_or, decide_eq_true_eq] at hruns
  rw [hruns]
  constructor
  · intro h
    constructor
    · intro hmem
      obtain ⟨pre, post, hsplit⟩ := List.append_of_mem hmem
      exact h pre .stu post hsplit
    · intro pre post hsplit hmem
      exact h pre .stk post hsplit (by simpa using hmem)
  · rintro ⟨hstu, hstk⟩ pre h post rfl
    cases h with
    | stu => exact hstu (by simp)
    | stk => exact fun hmem => hstk pre post rfl (by simpa using hmem)

/-- A context of kernel code, interrupted by `vector` with these flags. -/
def kernelContext (vector flags : Uint32) : InterruptContext where
  gs := kernelDs
  fs := kernelDs
  es := kernelDs
  ds := kernelDs
  edi := 0
  esi := 0
  ebp := 0
  esp := 0
  ebx := 0
  edx := 0
  ecx := 0
  eax := 0
  intNo := vector
  errCode := 0
  eip := 0xC0103000
  cs := kernelCs
  eflags := flags
  useresp := 0
  ss := kernelDs

theorem kernelContext_kernel (vector flags : Uint32) :
    KernelContext (kernelContext vector flags) := ⟨rfl, rfl, rfl, rfl, rfl, rfl⟩

/-- Vector 121 with I/O privilege 3, switched back and forth. -/
theorem mode_switch_iff_121 :
    (∀ pre h post, [.stu, .stk] = pre ++ h :: post →
        Switches (kernelContext 121 0x3202)
          (pre.foldl ModeHandler.run (kernelContext 121 0x3202, coldTerminal)) (.stu ∈ pre) h) ↔
      (ModeHandler.stu ∈ [ModeHandler.stu, .stk] → (kernelContext 121 0x3202).intNo &&& 3 ≠ 3) ∧
        (∀ pre post, [ModeHandler.stu, .stk] = pre ++ .stk :: post → ModeHandler.stu ∈ pre →
          (kernelContext 121 0x3202).intNo &&& 3 ≠ 0 ∧
            (kernelContext 121 0x3202).eflags &&& 0x00003000 = 0x00003000) :=
  mode_switch_iff (kernelContext 121 0x3202) coldTerminal (kernelContext_kernel _ _) [.stu, .stk]

/-- With the usual flags the way back leaves user code its I/O privilege. -/
theorem mode_switch_keeps_iopl :
    ¬ ∀ pre h post, [ModeHandler.stu, .stk] = pre ++ h :: post →
        Switches (kernelContext 121 0x202)
          (pre.foldl ModeHandler.run (kernelContext 121 0x202, coldTerminal)) (.stu ∈ pre) h := by
  intro hall
  have hrestored := (hall [.stu] .stk [] rfl).restored rfl (by decide)
  have huser : (ModeHandler.stu.run (kernelContext 121 0x202, coldTerminal)).1
      = (kernelContext 121 0x202).toUser := (stu_at_kernel rfl).trans (if_pos (by decide))
  have hkernel := (stk_at_user (kernelContext_kernel 121 0x202) huser).trans (if_pos (by decide))
  have hflags := congrArg InterruptContext.eflags (hkernel.symm.trans hrestored)
  exact absurd hflags (by decide)

/-! ## Returning to user mode -/

/-- A context that `iret` may return to in ring 3: the code and the stack segment, and the data
    segments, as the processor checks them. -/
structure UserReturn (g : Gdt) (ctx : InterruptContext) : Prop where
  cs : rpl (selector ctx.cs) = 3 ∧
    ∃ d, g.descriptor (selector ctx.cs) = some d ∧ d.present ∧ d.isCode ∧ d.dpl = 3
  ss : rpl (selector ctx.ss) = 3 ∧
    ∃ d, g.descriptor (selector ctx.ss) = some d ∧ d.present ∧ d.isData ∧ d.writable ∧ d.dpl = 3
  data : ∀ sel ∈ [ctx.ds, ctx.es, ctx.fs, ctx.gs],
    ∃ d, g.descriptor (selector sel) = some d ∧ d.present ∧ d.isData ∧ 3 ≤ d.dpl

/-- What the selectors of user mode name: the user code segment, and the data segment of the
    kernel. -/
theorem Installed.user_selectors {g : Gdt} (h : Installed g) :
    g.descriptor (selector userCs) = some ⟨0, 0xFFFFF, 0xFA, 0xC⟩ ∧
      g.descriptor (selector userDs) = some ⟨0, 0xFFFFF, 0x93, 0xC⟩ :=
  ⟨h.descriptor (by decide), h.descriptor (by decide)⟩

/-- `GD_UDATA | DPL_USER`: the selector of the user data segment. -/
def userDataSelector : Uint32 := 4 <<< 3 ||| 3

/-- With the user data segment in the data and stack selectors the same context can be returned
    to. -/
theorem Installed.userReturn_userData {g : Gdt} (h : Installed g) (ctx : InterruptContext) :
    UserReturn g { ctx.toUser with
      gs := userDataSelector, es := userDataSelector, fs := userDataSelector
      ds := userDataSelector, ss := userDataSelector } := by
  have hdata : g.descriptor (selector userDataSelector) = some ⟨0, 0xFFFFF, 0xF2, 0xC⟩ :=
    h.descriptor (by decide)
  have hcs : rpl (selector userCs) = 3 := by decide
  have hss : rpl (selector userDataSelector) = 3 := by decide
  refine ⟨⟨hcs, _, h.user_selectors.1, by decide, by decide, by decide⟩,
    ⟨hss, _, hdata, by decide, by decide, by decide, by decide⟩, fun sel hsel => ?_⟩
  have hsame : sel = userDataSelector := by simpa using hsel
  rw [hsame]
  exact ⟨_, hdata, by decide, by decide, by decide⟩

/-- With the selectors of `STU_Handler` it cannot: the stack segment is the kernel's. -/
theorem Installed.toUser_rejected {g : Gdt} (h : Installed g) (ctx : InterruptContext) :
    ¬ UserReturn g ctx.toUser := by
  intro hreturn
  obtain ⟨-, d, hd, -, -, -, hdpl⟩ := hreturn.ss
  have hsame : d = ⟨0, 0xFFFFF, 0x93, 0xC⟩ := Option.some.inj (hd.symm.trans h.user_selectors.2)
  rw [hsame] at hdpl
  exact absurd hdpl (by decide)

/-- **No switched context can be returned to**, whatever else it holds. -/
theorem switched_never_accepted (g : Gdt) (t t' : Terminal) (ctx : InterruptContext)
    (hswitch : ctx.intNo &&& 3 ≠ 3) :
    ∃ g' u, initializeGdt g t = some (g', u) ∧ ¬ UserReturn g' (stuHandler ctx t').1 := by
  obtain ⟨g', u, hrun, hinstalled⟩ := initializeGdt_installed g t
  refine ⟨g', u, hrun, fun hreturn => ?_⟩
  rw [stuHandler_ctx, if_pos hswitch] at hreturn
  exact hinstalled.toUser_rejected ctx hreturn

/-- The system call of vector 120. -/
theorem switched_never_accepted_120 :
    ∃ g' u, initializeGdt coldGdt coldTerminal = some (g', u) ∧
      ¬ UserReturn g' (stuHandler (kernelContext 120 0x202) coldTerminal).1 :=
  switched_never_accepted coldGdt coldTerminal coldTerminal (kernelContext 120 0x202) (by decide)

/-- The same, against the expectation. -/
theorem switched_accepted_fails :
    ¬ ∀ g' u, initializeGdt coldGdt coldTerminal = some (g', u) →
      UserReturn g' (stuHandler (kernelContext 120 0x202) coldTerminal).1 := by
  intro hall
  obtain ⟨g', u, hrun, hinstalled⟩ := initializeGdt_installed coldGdt coldTerminal
  have hreturn := hall g' u hrun
  rw [stuHandler_ctx, if_pos (by decide)] at hreturn
  exact hinstalled.toUser_rejected _ hreturn

end FreeMicroNix
