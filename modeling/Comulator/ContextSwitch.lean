import Comulator.Fallible
import Comulator.HostSwitch
import Mathlib.Logic.Relation

namespace Comulator.ContextSwitch

open AlignDown Fallible GuestRt Cpu HostSwitch

structure Activation where
  number : Nat
  trapSp : UInt64
  trapPc : UInt64
  deriving DecidableEq

structure Frame where
  activation : Activation
  sp : UInt64
  deriving DecidableEq

structure Callback where
  addr : UInt64
  activation : Activation
  spBefore : UInt64
  pcBefore : UInt64
  entrySp : UInt64
  deriving DecidableEq

inductive Control
  | emulating
  | loopTop
  | host (a : Activation)
  deriving DecidableEq

/-- One guest thread. `loopSaved` tells whether `gyh_cpu_loop_ctx` is set,
`callCtx` is the static `ctx` of `gyh_call` and `gyh_call_grt`, and `frames` are
the contexts on the guest's stack. -/
structure State where
  env : Env
  mem : Memory
  ctxTo : Option CtxTo
  loopSaved : Bool
  callCtx : Bool → Option Activation
  frames : UInt64 → Option Frame
  control : Control
  calls : Nat
  suspended : List Callback

def State.init (env : Env) (mem : Memory) : State :=
  ⟨env, mem, none, false, fun _ => none, fun _ => none, .emulating, 0, []⟩

inductive Act
  | trapCall (grt : Bool) (env : Env) (mem : Memory)
  | trapCallbackReturn (env : Env) (mem : Memory)
  | loopTop
  | callback (base : UInt64) (args : CallbackArgs)
  | hostReturn

variable (ucontextSize : Nat) (arch : Arch) (cbFunc : UInt64)

def saveFrame (addr : UInt64) (frame : Frame) (frames : UInt64 → Option Frame) : UInt64 → Option Frame :=
  fun a =>
    if a = addr then some frame
    else if a.toNat < addr.toNat + ucontextSize ∧ addr.toNat < a.toNat + ucontextSize then none
    else frames a

def trapCall (grt : Bool) (env : Env) (mem : Memory) (s : State) : Except Failure State := do
  let _ ← gyhCall arch grt env s.ctxTo
  let a : Activation := ⟨s.calls, sp arch env, env.pc⟩
  return { s with
    env, mem, ctxTo := some (.call grt), callCtx := Function.update s.callCtx grt (some a)
    control := .loopTop, calls := s.calls + 1 }

def trapCallbackReturn (env : Env) (mem : Memory) (s : State) : Except Failure State := do
  let (env, addr) ← gyhCallbackReturn arch env mem s.ctxTo
  return { s with env, mem, ctxTo := some (.saved addr), control := .loopTop }

/-- The top of `gyh_cpu_loop`, and what runs first in the context switched to:
`gyh_do_call` or the rest of `__gyh_callback__`. -/
def loopTop (s : State) : Except Failure State :=
  match s.ctxTo with
  | none => .ok { s with control := .emulating }
  | some (.call grt) =>
      match s.callCtx grt with
      | some a => .ok { s with ctxTo := none, loopSaved := true, control := .host a }
      | none => .error .noContext
  | some (.saved addr) =>
      match s.frames addr with
      | some frame => .ok { s with
          env := gyhCallbackResume arch frame.sp s.env, ctxTo := none, loopSaved := true
          control := .host frame.activation, suspended := s.suspended.tail }
      | none => .error .noContext

def callback (a : Activation) (base : UInt64) (args : CallbackArgs) (s : State) : Except Failure State := do
  let (env, mem, ctx) ← gyhCallback arch cbFunc base args s.env s.mem s.ctxTo
  if s.loopSaved then
    return { s with
      env, mem, frames := saveFrame ucontextSize ctx ⟨a, sp arch s.env⟩ s.frames, control := .emulating
      suspended := ⟨ctx, a, sp arch s.env, s.env.pc, sp arch env⟩ :: s.suspended }
  else throw .noContext

def hostReturn (s : State) : Except Failure State :=
  if s.loopSaved then .ok { s with control := .emulating } else .error .noContext

def step (act : Act) (s : State) : Except Failure State :=
  match act, s.control with
  | .trapCall grt env mem, .emulating => trapCall arch grt env mem s
  | .trapCallbackReturn env mem, .emulating => trapCallbackReturn arch env mem s
  | .loopTop, .loopTop => loopTop arch s
  | .callback base args, .host a => callback ucontextSize arch cbFunc a base args s
  | .hostReturn, .host _ => hostReturn s
  | _, _ => .error .disabled

def allocaSize : Nat :=
  match arch with
  | .x86_64 => 16 + ucontextSize + 8
  | .aarch64 | .riscv64 => 16 + ucontextSize

def Below (a : Activation) : List Callback → Prop
  | [] => True
  | c :: _ => a.trapSp.toNat ≤ c.entrySp.toNat

/-- What is assumed of guest and host code: a call is trapped on the stack of the
running callback, a callback returns with the stack pointer and return address
it was entered with, and the host function's stack is the one it was given. -/
def Abides (act : Act) (s : State) : Prop :=
  match act with
  | .trapCall _ env _ => Below ⟨s.calls, sp arch env, env.pc⟩ s.suspended
  | .trapCallbackReturn env mem =>
      ∃ c rest, s.suspended = c :: rest ∧ sp arch env = c.entrySp ∧ returnAddress arch env mem = c.pcBefore
  | .callback base _ => ∀ a, s.control = .host a → base.toNat + allocaSize ucontextSize arch ≤ a.trapSp.toNat
  | .loopTop | .hostReturn => True

def Step (s t : State) : Prop :=
  ∃ act, Abides ucontextSize arch act s ∧ step ucontextSize arch cbFunc act s = .ok t

variable {ucontextSize arch cbFunc}

theorem allocaSize_eq : allocaSize ucontextSize arch = (ctxOffset arch).toNat + ucontextSize := by
  cases arch with
  | x86_64 =>
      change 16 + ucontextSize + 8 = 24 + ucontextSize
      omega
  | aarch64 | riscv64 => rfl

/-- The suspended callbacks, innermost first: each has its context inside the
stack of its host function, which lies below the stack of the next one. -/
def Nested (ucontextSize : Nat) : List Callback → Prop
  | [] => True
  | c :: rest => c.addr.toNat + ucontextSize ≤ c.activation.trapSp.toNat ∧ c.entrySp.toNat ≤ c.addr.toNat ∧
      Below c.activation rest ∧ Nested ucontextSize rest

theorem Nested.trapSp_le {l : List Callback} (hl : Nested ucontextSize l) :
    ∀ {a : Activation}, Below a l → ∀ c ∈ l, a.trapSp.toNat ≤ c.addr.toNat := by
  induction l with
  | nil =>
      intro a _ c hc
      cases hc
  | cons d rest ih =>
      obtain ⟨hfit, hentry, hbelow, hrest⟩ := hl
      intro a ha c hc
      change a.trapSp.toNat ≤ d.entrySp.toNat at ha
      rcases List.mem_cons.mp hc with rfl | hc
      · omega
      · have hd := ih hrest hbelow c hc
        omega

structure Inv (ucontextSize : Nat) (arch : Arch) (s : State) : Prop where
  nested : Nested ucontextSize s.suspended
  saved : ∀ c ∈ s.suspended, s.frames c.addr = some ⟨c.activation, c.spBefore⟩
  context : ∀ c ∈ s.suspended, contextAt arch c.entrySp = c.addr
  before : ∀ c ∈ s.suspended, c.spBefore = c.activation.trapSp ∧ c.pcBefore = c.activation.trapPc
  idle : s.control ≠ .loopTop → s.ctxTo = none
  call : ∀ grt, s.ctxTo = some (.call grt) → ∃ a, s.callCtx grt = some a ∧ Below a s.suspended ∧
    sp arch s.env = a.trapSp ∧ s.env.pc = a.trapPc
  resume : ∀ addr, s.ctxTo = some (.saved addr) → ∃ c rest, s.suspended = c :: rest ∧ c.addr = addr ∧
    s.env.pc = c.pcBefore
  host : ∀ a, s.control = .host a → s.loopSaved ∧ Below a s.suspended ∧
    sp arch s.env = a.trapSp ∧ s.env.pc = a.trapPc

theorem init_inv (env : Env) (mem : Memory) : Inv ucontextSize arch (.init env mem) where
  nested := trivial
  saved := by simp [State.init]
  context := by simp [State.init]
  before := by simp [State.init]
  idle := fun _ => rfl
  call := by simp [State.init]
  resume := by simp [State.init]
  host := by simp [State.init]

variable {s t : State}

theorem trapCall_inv {grt : Bool} {env : Env} {mem : Memory} (hs : Inv ucontextSize arch s)
    (hbelow : Below ⟨s.calls, sp arch env, env.pc⟩ s.suspended)
    (h : trapCall arch grt env mem s = .ok t) : Inv ucontextSize arch t := by
  obtain ⟨_, _, h⟩ := bind_eq_ok.mp h
  cases h
  refine ⟨hs.nested, hs.saved, hs.context, hs.before, fun hne => absurd rfl hne, ?_, ?_, ?_⟩
  · intro grt' hgrt
    cases hgrt
    exact ⟨_, Function.update_self _ _ _, hbelow, rfl, rfl⟩
  · intro addr haddr
    cases haddr
  · intro a ha
    cases ha

theorem trapCallbackReturn_inv {env : Env} {mem : Memory} {c : Callback} {rest : List Callback}
    (hs : Inv ucontextSize arch s) (hc : s.suspended = c :: rest) (hsp : sp arch env = c.entrySp)
    (hret : returnAddress arch env mem = c.pcBefore)
    (h : trapCallbackReturn arch env mem s = .ok t) : Inv ucontextSize arch t := by
  obtain ⟨p, hp, h⟩ := bind_eq_ok.mp h
  obtain ⟨_, _, rfl⟩ := gyhCallbackReturn_eq_ok.mp hp
  cases h
  refine ⟨hs.nested, hs.saved, hs.context, hs.before, fun hne => absurd rfl hne, ?_, ?_, ?_⟩
  · intro grt hgrt
    cases hgrt
  · intro addr haddr
    cases haddr
    refine ⟨c, rest, hc, ?_, ?_⟩
    · rw [hsp, hs.context c (by simp [hc])]
    · exact returned_pc.trans hret
  · intro a ha
    cases ha

/-- The switch to the innermost suspended callback. -/
theorem loopTop_saved {addr : UInt64} (hs : Inv ucontextSize arch s) (hctx : s.ctxTo = some (.saved addr)) :
    ∃ c rest, s.suspended = c :: rest ∧ c.addr = addr ∧ s.env.pc = c.pcBefore ∧
      loopTop arch s = .ok { s with
        env := gyhCallbackResume arch c.spBefore s.env, ctxTo := none, loopSaved := true
        control := .host c.activation, suspended := rest } := by
  obtain ⟨c, rest, hc, haddr, hpc⟩ := hs.resume addr hctx
  refine ⟨c, rest, hc, haddr, hpc, ?_⟩
  have hframe := hs.saved c (by simp [hc])
  rw [haddr] at hframe
  simp [loopTop, hctx, hframe, hc]

theorem gyhCallbackResume_sp (x : UInt64) (e : Env) : sp arch (gyhCallbackResume arch x e) = x :=
  Function.update_self _ _ _

theorem loopTop_inv (hs : Inv ucontextSize arch s) (h : loopTop arch s = .ok t) : Inv ucontextSize arch t := by
  cases hctx : s.ctxTo with
  | none =>
      simp only [loopTop, hctx] at h
      cases h
      exact ⟨hs.nested, hs.saved, hs.context, hs.before, fun _ => rfl, by simp, by simp, by simp⟩
  | some ctx =>
      cases ctx with
      | call grt =>
          obtain ⟨a, ha, hbelow, hsp, hpc⟩ := hs.call grt hctx
          simp only [loopTop, hctx, ha] at h
          cases h
          refine ⟨hs.nested, hs.saved, hs.context, hs.before, fun _ => rfl, by simp, by simp, ?_⟩
          intro a' ha'
          cases ha'
          exact ⟨rfl, hbelow, hsp, hpc⟩
      | saved addr =>
          obtain ⟨c, rest, hc, _, hpc, hstep⟩ := loopTop_saved hs hctx
          rw [hstep] at h
          cases h
          have hnested := hs.nested
          rw [hc] at hnested
          have hmem : ∀ d ∈ rest, d ∈ s.suspended := fun d hd => by simp [hc, hd]
          obtain ⟨hsp, hbefore⟩ := hs.before c (by simp [hc])
          refine ⟨hnested.2.2.2, fun d hd => hs.saved d (hmem d hd), fun d hd => hs.context d (hmem d hd),
            fun d hd => hs.before d (hmem d hd), fun _ => rfl, by simp, by simp, ?_⟩
          intro a ha
          cases ha
          exact ⟨rfl, hnested.2.2.1, (gyhCallbackResume_sp _ _).trans hsp, hpc.trans hbefore⟩

theorem callback_inv (hsize : 0 < ucontextSize) {a : Activation} {base : UInt64} {args : CallbackArgs}
    (hs : Inv ucontextSize arch s) (ha : s.control = .host a)
    (hbase : base.toNat + allocaSize ucontextSize arch ≤ a.trapSp.toNat)
    (h : callback ucontextSize arch cbFunc a base args s = .ok t) : Inv ucontextSize arch t := by
  obtain ⟨⟨e, mem, ctx⟩, hp, h⟩ := bind_eq_ok.mp h
  obtain ⟨hnone, hctx, hentry⟩ := gyhCallback_eq_ok hp
  obtain ⟨hsaved, hbelow, hsp, hpc⟩ := hs.host a ha
  simp only [hsaved, if_true] at h
  cases h
  rw [allocaSize_eq, ← Nat.add_assoc] at hbase
  obtain ⟨hfit, hle⟩ := context_fits (Nat.lt_of_le_of_lt hbase a.trapSp.toNat_lt)
  rw [← hctx] at hfit hle
  have hfit : ctx.toNat + ucontextSize ≤ a.trapSp.toNat := Nat.le_trans hfit hbase
  -- the contexts of the other callbacks lie above the stack of this one
  have hkeep : ∀ c ∈ s.suspended, saveFrame ucontextSize ctx ⟨a, sp arch s.env⟩ s.frames c.addr = s.frames c.addr := by
    intro c hc
    have habove := hs.nested.trapSp_le hbelow c hc
    have hne : c.addr ≠ ctx := by
      intro heq
      rw [heq] at habove
      omega
    have hapart : ¬ (c.addr.toNat < ctx.toNat + ucontextSize ∧ ctx.toNat < c.addr.toNat + ucontextSize) := by
      omega
    simp only [saveFrame, if_neg hne, if_neg hapart]
  refine ⟨⟨hfit, ?_, hbelow, hs.nested⟩, ?_, ?_, ?_, fun _ => hnone, ?_, ?_, by simp⟩
  · change (sp arch e).toNat ≤ ctx.toNat
    rw [hentry]
    exact hle
  · intro c hc
    rcases List.mem_cons.mp hc with rfl | hc
    · simp [saveFrame]
    · exact (hkeep c hc).trans (hs.saved c hc)
  · intro c hc
    rcases List.mem_cons.mp hc with rfl | hc
    · change contextAt arch (sp arch e) = ctx
      rw [hentry, contextAt_entrySp]
    · exact hs.context c hc
  · intro c hc
    rcases List.mem_cons.mp hc with rfl | hc
    · exact ⟨hsp, hpc⟩
    · exact hs.before c hc
  · intro grt hgrt
    rw [hnone] at hgrt
    cases hgrt
  · intro addr haddr
    rw [hnone] at haddr
    cases haddr

theorem hostReturn_inv {a : Activation} (hs : Inv ucontextSize arch s) (ha : s.control = .host a)
    (h : hostReturn s = .ok t) : Inv ucontextSize arch t := by
  unfold hostReturn at h
  split at h
  next =>
    cases h
    exact ⟨hs.nested, hs.saved, hs.context, hs.before, fun _ => hs.idle (by simp [ha]), hs.call, hs.resume, by simp⟩
  next => cases h

theorem step_inv (hsize : 0 < ucontextSize) {act : Act} (hs : Inv ucontextSize arch s)
    (habides : Abides ucontextSize arch act s) (h : step ucontextSize arch cbFunc act s = .ok t) :
    Inv ucontextSize arch t := by
  unfold step at h
  split at h
  next => exact trapCall_inv hs habides h
  next =>
    obtain ⟨c, rest, hc, hsp, hret⟩ := habides
    exact trapCallbackReturn_inv hs hc hsp hret h
  next => exact loopTop_inv hs h
  next a ha => exact callback_inv hsize hs ha (habides a ha) h
  next a ha => exact hostReturn_inv hs ha h
  next => cases h

theorem reached_inv (hsize : 0 < ucontextSize) {env : Env} {mem : Memory}
    (h : Relation.ReflTransGen (Step ucontextSize arch cbFunc) (.init env mem) s) : Inv ucontextSize arch s := by
  induction h with
  | refl => exact init_inv env mem
  | tail _ hstep ih =>
      obtain ⟨act, habides, hact⟩ := hstep
      exact step_inv hsize ih habides hact

theorem trapCall_error {grt : Bool} {env : Env} {mem : Memory} {f : Failure} (hnone : s.ctxTo = none)
    (h : trapCall arch grt env mem s = .error f) : f = .misaligned := by
  rcases bind_eq_error.mp h with h | ⟨_, _, h⟩
  · rw [hnone] at h
    exact gyhCall_error h
  · cases h

theorem trapCallbackReturn_error {env : Env} {mem : Memory} {f : Failure} (hnone : s.ctxTo = none)
    (h : trapCallbackReturn arch env mem s = .error f) : f = .misaligned := by
  rcases bind_eq_error.mp h with h | ⟨_, _, h⟩
  · rw [hnone] at h
    exact gyhCallbackReturn_error h
  · cases h

theorem loopTop_ne_error {f : Failure} (hs : Inv ucontextSize arch s) : loopTop arch s ≠ .error f := by
  intro h
  cases hctx : s.ctxTo with
  | none => simp [loopTop, hctx] at h
  | some ctx =>
      cases ctx with
      | call grt =>
          obtain ⟨a, ha, _⟩ := hs.call grt hctx
          simp [loopTop, hctx, ha] at h
      | saved addr =>
          obtain ⟨c, rest, _, _, _, hstep⟩ := loopTop_saved hs hctx
          rw [hstep] at h
          cases h

theorem callback_ne_error {a : Activation} {base : UInt64} {args : CallbackArgs} {f : Failure}
    (hs : Inv ucontextSize arch s) (ha : s.control = .host a) :
    callback ucontextSize arch cbFunc a base args s ≠ .error f := by
  intro h
  rcases bind_eq_error.mp h with h | ⟨p, _, h⟩
  · obtain ⟨p, hp⟩ : ∃ p, gyhCallback arch cbFunc base args s.env s.mem none = .ok p := gyhCallback_none _ _ _
    rw [hs.idle (by simp [ha]), hp] at h
    cases h
  · simp only [(hs.host a ha).1, if_true] at h
    cases h

theorem step_error {act : Act} {f : Failure} (hs : Inv ucontextSize arch s)
    (h : step ucontextSize arch cbFunc act s = .error f) : f = .misaligned ∨ f = .disabled := by
  unfold step at h
  split at h
  next hcontrol => exact .inl (trapCall_error (hs.idle (by simp [hcontrol])) h)
  next hcontrol => exact .inl (trapCallbackReturn_error (hs.idle (by simp [hcontrol])) h)
  next => exact absurd h (loopTop_ne_error hs)
  next a ha => exact absurd h (callback_ne_error hs ha)
  next a ha => simp [hostReturn, (hs.host a ha).1] at h
  next =>
    cases h
    exact .inr rfl

theorem trapCallbackReturn_ok {env : Env} {mem : Memory}
    (h : step ucontextSize arch cbFunc (.trapCallbackReturn env mem) s = .ok t) :
    t.suspended = s.suspended ∧ t.control = .loopTop ∧ ∃ addr, t.ctxTo = some (.saved addr) := by
  cases hcontrol : s.control with
  | emulating =>
      simp only [step, hcontrol] at h
      obtain ⟨p, _, h⟩ := bind_eq_ok.mp h
      cases h
      exact ⟨rfl, rfl, p.2, rfl⟩
  | loopTop | host =>
      simp only [step, hcontrol] at h
      cases h

structure WellNested (ucontextSize : Nat) (arch : Arch) (cbFunc : UInt64) (act : Act) (s : State) : Prop where
  asserts : ∀ f, step ucontextSize arch cbFunc act s = .error f → f = .misaligned ∨ f = .disabled
  resumes : ∀ env mem t, act = .trapCallbackReturn env mem → step ucontextSize arch cbFunc act s = .ok t →
    ∃ c rest u, s.suspended = c :: rest ∧ step ucontextSize arch cbFunc .loopTop t = .ok u ∧
      u.control = .host c.activation ∧ u.suspended = rest ∧ sp arch u.env = c.spBefore ∧ u.env.pc = c.pcBefore
  returns : ∀ a, s.control = .host a → ∃ t, step ucontextSize arch cbFunc .hostReturn s = .ok t ∧
    t.control = .emulating ∧ t.env.pc = a.trapPc ∧ sp arch t.env = a.trapSp

/-- Calls and callbacks are well nested, at any depth and in any order of the
steps: no assertion on `gyh_cpu_loop_ctx_to` fails and no context is missing,
each callback return resumes the innermost suspended callback with the stack
pointer and program counter from before it, and when a host function returns,
emulation goes on where its call was trapped. -/
theorem well_nested (hsize : 0 < ucontextSize) {env : Env} {mem : Memory}
    (h : Relation.ReflTransGen (Step ucontextSize arch cbFunc) (.init env mem) s) (act : Act)
    (habides : Abides ucontextSize arch act s) : WellNested ucontextSize arch cbFunc act s := by
  have hs := reached_inv hsize h
  refine ⟨fun f hf => step_error hs hf, ?_, ?_⟩
  · rintro env mem t rfl ht
    have htinv := step_inv hsize hs habides ht
    obtain ⟨hsuspended, hcontrol, addr, hctx⟩ := trapCallbackReturn_ok ht
    obtain ⟨c, rest, hc, _, hpc, hstep⟩ := loopTop_saved htinv hctx
    have hnext : step ucontextSize arch cbFunc .loopTop t = loopTop arch t := by
      simp only [step, hcontrol]
    exact ⟨c, rest, _, hsuspended ▸ hc, hnext.trans hstep, rfl, rfl, gyhCallbackResume_sp _ _, hpc⟩
  · intro a ha
    obtain ⟨hsaved, _, hsp, hpc⟩ := hs.host a ha
    exact ⟨{ s with control := .emulating }, by simp [step, ha, hostReturn, hsaved], rfl, hpc, hsp⟩

def callEnv : Env := setReg 4 8192 ⟨100, fun _ => 0, 0, 0, 0, 0, 0, 0, 0, false⟩

def calledState : State :=
  { State.init callEnv (fun _ => 0) with
    ctxTo := some (.call false), callCtx := Function.update (fun _ => none) false (some ⟨0, 8192, 100⟩)
    control := .loopTop, calls := 1 }

def hostState : State := { calledState with ctxTo := none, loopSaved := true, control := .host ⟨0, 8192, 100⟩ }

def callbackState : State :=
  { hostState with
    env := { setReg 4 4104 (setRegs [7, 6, 2, 1] [0, 0, 0, 0] callEnv) with pc := 300 }
    mem := Function.update (fun _ => 0) 4104 100
    frames := saveFrame 968 4112 ⟨⟨0, 8192, 100⟩, 8192⟩ (fun _ => none)
    control := .emulating
    suspended := [⟨4112, ⟨0, 8192, 100⟩, 8192, 100, 4104⟩] }

theorem well_nested_callback :
    WellNested 968 .x86_64 300 (.trapCallbackReturn callbackState.env callbackState.mem) callbackState := by
  have hcall : Step 968 .x86_64 300 (.init callEnv (fun _ => 0)) calledState :=
    ⟨.trapCall false callEnv (fun _ => 0), trivial, rfl⟩
  have hloop : Step 968 .x86_64 300 calledState hostState := ⟨.loopTop, trivial, rfl⟩
  have hcallback : Step 968 .x86_64 300 hostState callbackState := by
    refine ⟨.callback 4096 ⟨0, 0, 0, 0⟩, ?_, rfl⟩
    intro a ha
    cases ha
    decide
  exact well_nested (by decide) (((Relation.ReflTransGen.single hcall).tail hloop).tail hcallback) _
    ⟨_, [], rfl, rfl, rfl⟩

/-- The frame of a callback: `ctx` is where the stack pointer is aligned and the
context saved, in the block of `alloca` at `base`, and the return address of
x86-64 has its slot right below it. -/
structure FramePlaced (ucontextSize : Nat) (arch : Arch) (base ctx : UInt64) (e e' : Env) (mem mem' : Memory) : Prop where
  masked : ctx = alignDown 16 (base + ctxOffset arch)
  aligned : ctx.toNat % 16 = 0
  entered : sp arch e' = entrySp arch ctx
  context : base.toNat ≤ ctx.toNat ∧ ctx.toNat + ucontextSize ≤ base.toNat + allocaSize ucontextSize arch
  slot : arch = .x86_64 → base.toNat ≤ (sp arch e').toNat ∧ (sp arch e').toNat + 8 = ctx.toNat ∧
    mem' = Function.update mem (sp arch e') e.pc

/-- Wherever `alloca` puts the block, the frame is placed in it. -/
theorem callback_framePlaced (ucontextSize : Nat) (arch : Arch) (cbFunc base : UInt64) (args : CallbackArgs) (e : Env)
    (mem : Memory) (hroom : base.toNat + allocaSize ucontextSize arch < 2 ^ 64) :
    ∃ e' mem' ctx, gyhCallback arch cbFunc base args e mem none = .ok (e', mem', ctx) ∧
      FramePlaced ucontextSize arch base ctx e e' mem mem' := by
  have hnone : ∃ p, gyhCallback arch cbFunc base args e mem none = .ok p := gyhCallback_none cbFunc base args
  obtain ⟨⟨e', mem', ctx⟩, hrun⟩ := hnone
  obtain ⟨_, hctx, hsp⟩ := gyhCallback_eq_ok hrun
  have hsum : (base + ctxOffset arch).toNat = base.toNat + (ctxOffset arch).toNat := by
    rw [allocaSize_eq] at hroom
    rw [UInt64.toNat_add, Nat.mod_eq_of_lt (by omega)]
  have hnat : ctx.toNat = base.toNat + (ctxOffset arch).toNat - (base.toNat + (ctxOffset arch).toNat) % 16 := by
    rw [hctx, align16_toNat, hsum]
  have hoffset : 16 ≤ (ctxOffset arch).toNat := by
    cases arch <;> decide
  refine ⟨e', mem', ctx, hrun, ?_, ?_, hsp, ?_, ?_⟩
  · rw [hctx, align16_eq]
  · omega
  · rw [allocaSize_eq]
    omega
  · rintro rfl
    have hslot : (entrySp .x86_64 ctx).toNat = ctx.toNat - 8 := by
      have h24 : (ctxOffset .x86_64).toNat = 24 := rfl
      apply UInt64.toNat_sub_of_le
      rw [UInt64.le_iff_toNat_le]
      change 8 ≤ _
      omega
    have h24 : (ctxOffset .x86_64).toNat = 24 := rfl
    refine ⟨by rw [hsp, hslot]; omega, by rw [hsp, hslot]; omega, ?_⟩
    cases hrun
    rfl

/-- A block at an odd address. -/
theorem callback_framePlaced_odd : (4097 : UInt64).toNat + allocaSize 968 .x86_64 < 2 ^ 64 ∧
    ∃ e' mem' ctx, gyhCallback .x86_64 4000 4097 ⟨1, 2, 3, 4⟩ callEnv (fun _ => 0) none = .ok (e', mem', ctx) ∧
      FramePlaced 968 .x86_64 4097 ctx callEnv e' (fun _ => 0) mem' :=
  ⟨by decide, callback_framePlaced 968 .x86_64 4000 4097 ⟨1, 2, 3, 4⟩ callEnv (fun _ => 0) (by decide)⟩

end Comulator.ContextSwitch
