import Comulator.AlignDown
import Comulator.Cpu

namespace Comulator.HostSwitch

open AlignDown GuestRt Cpu

def spReg : Arch → Nat
  | .x86_64 => 4
  | .aarch64 => 31
  | .riscv64 => 2

def callArgRegs : Arch → List Nat
  | .x86_64 => [7, 6, 2, 1, 8, 9]
  | .aarch64 => [0, 1, 2, 3, 4, 5]
  | .riscv64 => [10, 11, 12, 13, 14, 15]

abbrev Memory := UInt64 → UInt64

def sp (arch : Arch) (e : Env) : UInt64 := e.regs (spReg arch)

def returnAddress (arch : Arch) (e : Env) (mem : Memory) : UInt64 :=
  match arch with
  | .x86_64 => mem (e.regs 4)
  | .aarch64 => e.regs 30
  | .riscv64 => e.regs 1

/-- What `gyh_call` or `gyh_call_grt` lays out in its static `ctx`: the stack and
the arguments of `gyh_do_call` or `gyh_do_call_grt`. -/
structure HostEntry where
  stackPointer : UInt64
  stackSize : UInt64
  args : List UInt64
  deriving DecidableEq

inductive CtxTo
  | call (grt : Bool)
  | saved (addr : UInt64)
  deriving DecidableEq

inductive Failure
  | ctxToSet | misaligned | noContext | disabled
  deriving DecidableEq

def cutFuncUid : List UInt64 → List UInt64
  | qlibUid :: funcUid :: pads => qlibUid :: funcUid.toUInt32.toUInt64 :: pads
  | args => args

def arity (grt : Bool) : Nat := if grt then 4 else 6

/-- The common body of `gyh_call` and `gyh_call_grt`. -/
def gyhCall (arch : Arch) (grt : Bool) (e : Env) (ctxTo : Option CtxTo) : Except Failure HostEntry :=
  if sp arch e % 16 ≠ 0 then .error .misaligned
  else if ctxTo ≠ none then .error .ctxToSet
  else .ok ⟨sp arch e - 64, 64, cutFuncUid (((callArgRegs arch).take (arity grt)).map e.regs)⟩

def returned (arch : Arch) (e : Env) (mem : Memory) : Env :=
  let e' := { e with pc := returnAddress arch e mem }
  match arch with
  | .x86_64 => setReg 4 (e.regs 4 + 8) e'
  | .aarch64 | .riscv64 => e'

def contextAt (arch : Arch) (sp : UInt64) : UInt64 :=
  match arch with
  | .x86_64 => sp + 8
  | .aarch64 | .riscv64 => sp

def gyhCallbackReturn (arch : Arch) (e : Env) (mem : Memory) (ctxTo : Option CtxTo) :
    Except Failure (Env × UInt64) :=
  if arch ≠ .x86_64 ∧ sp arch e % 16 ≠ 0 then .error .misaligned
  else if ctxTo ≠ none then .error .ctxToSet
  else .ok (returned arch e mem, contextAt arch (sp arch e))

def align16 (x : UInt64) : UInt64 := x - x % 16

/-- The room `__gyh_callback__` leaves below the context it saves: for alignment
and, on x86-64, for the return address. -/
def ctxOffset : Arch → UInt64
  | .x86_64 => 24
  | .aarch64 | .riscv64 => 16

structure CallbackArgs where
  retPad : UInt64
  argPad : UInt64
  func : UInt64
  cbStub : UInt64

def setRegs (rs : List Nat) (vs : List UInt64) (e : Env) : Env :=
  (rs.zip vs).foldl (fun e p => setReg p.1 p.2 e) e

/-- `__gyh_callback__` up to its `swapcontext`, where `alloca` returned `base`:
the guest registers and memory, and the address of the saved context. -/
def gyhCallback (arch : Arch) (cbFunc base : UInt64) (args : CallbackArgs) (e : Env) (mem : Memory)
    (ctxTo : Option CtxTo) : Except Failure (Env × Memory × UInt64) :=
  if ctxTo ≠ none then .error .ctxToSet
  else
    let e := setRegs ((callArgRegs arch).take 4) [args.retPad, args.argPad, args.func, args.cbStub] e
    let ctx := align16 (base + ctxOffset arch)
    match arch with
    | .x86_64 => .ok ({ setReg 4 (ctx - 8) e with pc := cbFunc }, Function.update mem (ctx - 8) e.pc, ctx)
    | .aarch64 => .ok ({ setReg 30 e.pc (setReg 31 ctx e) with pc := cbFunc }, mem, ctx)
    | .riscv64 => .ok ({ setReg 1 e.pc (setReg 2 ctx e) with pc := cbFunc }, mem, ctx)

def gyhCallbackResume (arch : Arch) (sp : UInt64) (e : Env) : Env := setReg (spReg arch) sp e

variable {arch : Arch} {e : Env} {mem : Memory} {ctxTo : Option CtxTo}

theorem gyhCall_eq_ok {grt : Bool} {entry : HostEntry} : gyhCall arch grt e ctxTo = .ok entry ↔
    ctxTo = none ∧ sp arch e % 16 = 0 ∧
      ⟨sp arch e - 64, 64, cutFuncUid (((callArgRegs arch).take (arity grt)).map e.regs)⟩ = entry := by
  unfold gyhCall
  by_cases hs : sp arch e % 16 = 0
  · by_cases hc : ctxTo = none
    · simp [hs, hc]
    · simp [hs, hc]
  · simp [hs]

theorem gyhCall_error {grt : Bool} {f : Failure} (h : gyhCall arch grt e none = .error f) : f = .misaligned := by
  by_cases hs : sp arch e % 16 = 0
  · rw [gyhCall_eq_ok.mpr ⟨rfl, hs, rfl⟩] at h
    cases h
  · simp only [gyhCall, if_pos hs] at h
    cases h
    rfl

theorem gyhCallbackReturn_eq_ok {p : Env × UInt64} : gyhCallbackReturn arch e mem ctxTo = .ok p ↔
    ctxTo = none ∧ (arch = .x86_64 ∨ sp arch e % 16 = 0) ∧ (returned arch e mem, contextAt arch (sp arch e)) = p := by
  unfold gyhCallbackReturn
  by_cases hs : arch = .x86_64 ∨ sp arch e % 16 = 0
  · have hn : ¬ (arch ≠ .x86_64 ∧ sp arch e % 16 ≠ 0) := by
      rintro ⟨ha, hm⟩
      exact hs.elim ha hm
    by_cases hc : ctxTo = none
    · simp [if_neg hn, hs, hc]
    · simp [if_neg hn, hc]
  · rw [not_or] at hs
    simp [hs]

theorem gyhCallbackReturn_error {f : Failure} (h : gyhCallbackReturn arch e mem none = .error f) :
    f = .misaligned := by
  unfold gyhCallbackReturn at h
  split at h
  next =>
    cases h
    rfl
  next => cases h

theorem returned_pc : (returned arch e mem).pc = returnAddress arch e mem := by
  cases arch <;> rfl

def entrySp (arch : Arch) (ctx : UInt64) : UInt64 :=
  match arch with
  | .x86_64 => ctx - 8
  | .aarch64 | .riscv64 => ctx

theorem contextAt_entrySp (ctx : UInt64) : contextAt arch (entrySp arch ctx) = ctx := by
  cases arch with
  | x86_64 => exact UInt64.sub_add_cancel ctx 8
  | aarch64 | riscv64 => rfl

theorem gyhCallback_eq_ok {cbFunc base ctx : UInt64} {args : CallbackArgs} {e' : Env} {mem' : Memory}
    (h : gyhCallback arch cbFunc base args e mem ctxTo = .ok (e', mem', ctx)) :
    ctxTo = none ∧ ctx = align16 (base + ctxOffset arch) ∧ sp arch e' = entrySp arch ctx := by
  unfold gyhCallback at h
  split at h
  next => cases h
  next hc =>
    refine ⟨not_ne_iff.mp hc, ?_⟩
    cases arch <;> cases h <;> exact ⟨rfl, rfl⟩

theorem gyhCallback_none (cbFunc base : UInt64) (args : CallbackArgs) :
    ∃ p, gyhCallback arch cbFunc base args e mem none = .ok p := by
  cases arch <;> exact ⟨_, rfl⟩

theorem align16_toNat (x : UInt64) : (align16 x).toNat = x.toNat - x.toNat % 16 := by
  have hle : x % 16 ≤ x := by
    rw [UInt64.le_iff_toNat_le, UInt64.toNat_mod]
    exact Nat.mod_le _ _
  rw [align16, UInt64.toNat_sub_of_le _ _ hle, UInt64.toNat_mod]
  rfl

theorem align16_eq (x : UInt64) : align16 x = alignDown 16 x := by
  apply UInt64.toNat_inj.mp
  have hmask : (alignDown 16 x).toNat = x.toNat / 2 ^ 4 * 2 ^ 4 := toNat_alignDown (by decide) rfl x
  rw [align16_toNat, hmask]
  omega

/-- The context and the stack below it fit into what `alloca` returned. -/
theorem context_fits {base : UInt64} {size : Nat}
    (h : base.toNat + (ctxOffset arch).toNat + size < 2 ^ 64) :
    (align16 (base + ctxOffset arch)).toNat + size ≤ base.toNat + (ctxOffset arch).toNat + size ∧
      (entrySp arch (align16 (base + ctxOffset arch))).toNat ≤ (align16 (base + ctxOffset arch)).toNat := by
  have hsum : (base + ctxOffset arch).toNat = base.toNat + (ctxOffset arch).toNat := by
    rw [UInt64.toNat_add, Nat.mod_eq_of_lt (by omega)]
  have hctx := align16_toNat (base + ctxOffset arch)
  refine ⟨by omega, ?_⟩
  cases arch with
  | x86_64 =>
      have h24 : (ctxOffset .x86_64).toNat = 24 := rfl
      have h8 : (8 : UInt64) ≤ align16 (base + ctxOffset .x86_64) := by
        rw [UInt64.le_iff_toNat_le, hctx, hsum, h24]
        change 8 ≤ _
        omega
      simp only [entrySp]
      rw [UInt64.toNat_sub_of_le _ _ h8]
      exact Nat.sub_le _ _
  | aarch64 | riscv64 => exact Nat.le_refl _

end Comulator.HostSwitch
