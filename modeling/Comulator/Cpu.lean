import Comulator.Fallible
import Comulator.GuestRt

namespace Comulator.Cpu

open GuestRt

/-- `CPUArchState`: the program counter, the general registers under the
numbers of each architecture, and what else the loops read or write. -/
structure Env where
  pc : UInt64
  regs : Nat → UInt64
  errorCode : UInt64 -- x86-64, with the faulting address in `cr2`
  cr2 : UInt64
  syndrome : Nat -- aarch64, up to `exclusiveAddr`
  vaddress : UInt64
  tfsr : UInt64
  exclusiveAddr : UInt64
  elfFlags : UInt64 -- riscv64
  singlestep : Bool

inductive Stop
  | abort | exitFailure | notReached | exited
  deriving DecidableEq

inductive Signal
  | bus | segv | fpe | trap | ill
  deriving DecidableEq

inductive SiCode
  | segvMaperr | segvAccerr | segvMteserr | segvMteaerr | busAdraln | fpeIntdiv | trapBrkpt | illIllopn | illIllopc
  deriving DecidableEq

abbrev CpuM (W : Type) := StateT (Env × W) (Except Stop)

/-- The parts of QEMU the loops call, over the rest `W` of the emulator. -/
structure Kernel (W : Type) where
  cpuExec : CpuM W Nat
  doSyscall : UInt32 → List UInt64 → CpuM W UInt64
  forceSig : Signal → CpuM W Unit
  forceSigFault : Signal → SiCode → UInt64 → CpuM W Unit
  stepAtomic : CpuM W Unit
  semihosting : CpuM W Unit
  clearSm : W → W
  setOrigAx : UInt64 → W → W
  accessOk : UInt64 → Nat → W → Bool
  getUser : UInt64 → W → Option UInt64
  atexit : W → W
  processPendingSignals : CpuM W Unit

def Kernel.calm (W : Type) : Kernel W where
  cpuExec := fun s => .ok (0x101, s)
  doSyscall := fun _ _ => pure 0
  forceSig := fun _ => pure ()
  forceSigFault := fun _ _ _ => pure ()
  stepAtomic := pure ()
  semihosting := pure ()
  clearSm := id
  setOrigAx := fun _ => id
  accessOk := fun _ _ _ => true
  getUser := fun _ _ => none
  atexit := id
  processPendingSignals := pure ()

/-- What a branch of `gyh_do_cpu` puts into `*gyh_syscall`: the number, cut to
an `int`, and the six arguments. -/
structure Recorded where
  num : UInt32
  args : List UInt64
  deriving DecidableEq

variable {W : Type}

def env : CpuM W Env := fun s => .ok (s.1, s)

def setEnv (f : Env → Env) : CpuM W Unit := fun s => .ok ((), (f s.1, s.2))

def world : CpuM W W := fun s => .ok (s.2, s)

def setWorld (f : W → W) : CpuM W Unit := fun s => .ok ((), (s.1, f s.2))

def stop {α : Type} (x : Stop) : CpuM W α := fun _ => .error x

def quiet (x : CpuM W Unit) : CpuM W (Option Recorded) := do
  x
  return none

def setReg (r : Nat) (v : UInt64) (e : Env) : Env := { e with regs := Function.update e.regs r v }

variable (K : Kernel W)

def finishSyscall (rewind : UInt64) (retReg : Nat) (ret : UInt64) : CpuM W Unit :=
  if ret = -512 then setEnv (fun e => { e with pc := e.pc - rewind })
  else if ret ≠ -513 then setEnv (setReg retReg ret)
  else pure ()

def ordinarySyscall (number : UInt64) (args : List Nat) (rewind : UInt64) (retReg : Nat) : CpuM W Unit := do
  let e ← env
  let ret ← K.doSyscall number.toUInt32 (args.map e.regs)
  finishSyscall rewind retReg ret

/-- The body shared by the system call branches of all loops. With `gyh` set it
is that of a `gyh_do_cpu`, which leaves numbers above `GYH_NR_start` to
`gyh_cpu_loop`; otherwise that of the `cpu_loop` it was copied from. -/
def syscallBranch (gyh exits : Bool) (number : UInt64) (args gyhArgs : List Nat) (rewind : UInt64) (retReg : Nat) :
    CpuM W (Option Recorded) := do
  if gyh && exits then setWorld K.atexit
  let e ← env
  if gyh && nrStart < number.toNat then return some ⟨number.toUInt32, gyhArgs.map e.regs⟩
  else quiet (ordinarySyscall K number args rewind retReg)

def writeOkOrSegv (addr : UInt64) (len : Nat) : CpuM W Bool := do
  if addr = 0 then return true
  if K.accessOk addr len (← world) then return true
  setEnv (fun e => { e with errorCode := 6 })
  K.forceSigFault .segv .segvMaperr addr
  return false

def vsyscallPointers : UInt32 → List (Nat × Nat)
  | 96 => [(7, 16), (6, 8)]
  | 201 => [(7, 8)]
  | _ => [(7, 4), (6, 4)]

def pointersOk (e : Env) : List (Nat × Nat) → CpuM W Bool
  | [] => pure true
  | (r, len) :: ps => do
      if ← writeOkOrSegv K (e.regs r) len then pointersOk e ps else return false

def emulateVsyscall : CpuM W Unit := do
  let e ← env
  let number? : Option UInt32 := match e.pc.toNat % 4096 with
    | 0x000 => some 96
    | 0x400 => some 201
    | 0x800 => some 309
    | _ => none
  match number? with
  | none => K.forceSig .segv
  | some number =>
      match K.getUser (e.regs 4) (← world) with
      | none => K.forceSig .segv
      | some caller =>
          if ← pointersOk K e (vsyscallPointers number) then
            setWorld (K.setOrigAx number.toUInt64)
            let e ← env
            let ret ← K.doSyscall number ([7, 6, 2, 10, 8, 9].map e.regs)
            if ret = -512 || ret = -513 then stop .notReached
            else if ret = -14 then K.forceSig .segv
            else
              setEnv (setReg 0 ret)
              setEnv (fun e => setReg 4 (e.regs 4 + 8) { e with pc := caller })

def x86Trap (gyh : Bool) : Nat → CpuM W (Option Recorded)
  | 0x80 => do
      let e ← env
      setWorld (K.setOrigAx (e.regs 0))
      syscallBranch K gyh (e.regs 8 = 252) (e.regs 0) [3, 1, 2, 6, 7, 5] [3, 1, 2, 6, 7, 5] 2 0
  | 0x101 => do
      let e ← env
      setWorld (K.setOrigAx (e.regs 0))
      syscallBranch K gyh (e.regs 0 = 231) (e.regs 0) [7, 6, 2, 10, 8, 9] [7, 6, 2, 1, 8, 9] 2 0
  | 0x102 => quiet (emulateVsyscall K)
  | 11 | 12 => quiet (K.forceSig .bus)
  | 13 | 4 | 5 => quiet (K.forceSig .segv)
  | 14 => quiet (do
      let e ← env
      K.forceSigFault .segv (if e.errorCode &&& 1 ≠ 0 then .segvAccerr else .segvMaperr) e.cr2)
  | 0 => quiet (do K.forceSigFault .fpe .fpeIntdiv (← env).pc)
  | 1 | 0x10002 => quiet (do K.forceSigFault .trap .trapBrkpt (← env).pc)
  | 3 => quiet (K.forceSig .trap)
  | 6 => quiet (do K.forceSigFault .ill .illIllopn (← env).pc)
  | 0x10000 => quiet (pure ())
  | 0x10005 => quiet K.stepAtomic
  | _ => stop .abort

def abortSignal (syndrome : Nat) : Option (Signal × SiCode) :=
  match syndrome / 2 ^ 26 % 64 with
  | 0x20 | 0x24 =>
      match syndrome % 64 with
      | 0x04 | 0x05 | 0x06 | 0x07 => some (.segv, .segvMaperr)
      | 0x09 | 0x0a | 0x0b | 0x0d | 0x0e | 0x0f => some (.segv, .segvAccerr)
      | 0x11 => some (.segv, .segvMteserr)
      | 0x21 => some (.bus, .busAdraln)
      | _ => none
  | 0x22 => some (.bus, .busAdraln)
  | _ => none

def aarch64Trap (gyh : Bool) : Nat → CpuM W (Option Recorded)
  | 2 => do
      setWorld K.clearSm
      let e ← env
      syscallBranch K gyh (e.regs 8 = 94) (e.regs 8) [0, 1, 2, 3, 4, 5] [0, 1, 2, 3, 4, 5] 4 0
  | 0x10000 | 0x10004 => quiet (pure ())
  | 1 => quiet (do K.forceSigFault .ill .illIllopn (← env).pc)
  | 3 | 4 => quiet (do
      let e ← env
      match abortSignal e.syndrome with
      | some (signal, code) => K.forceSigFault signal code e.vaddress
      | none => stop .notReached)
  | 0x10002 | 7 => quiet (do K.forceSigFault .trap .trapBrkpt (← env).pc)
  | 16 => quiet (do
      K.semihosting
      setEnv (fun e => { e with pc := e.pc + 4 }))
  | 0x10005 => quiet K.stepAtomic
  | _ => stop .abort

def riscv64Number (e : Env) : UInt64 := e.regs (if e.elfFlags &&& 8 ≠ 0 then 5 else 17)

def riscv64Ecall (gyh : Bool) : CpuM W (Option Recorded) := do
  let e ← env
  if e.regs 17 = 259 then quiet (finishSyscall 4 10 0)
  else
    syscallBranch K gyh (riscv64Number e = 94) (riscv64Number e) [10, 11, 12, 13, 14, 15] [10, 11, 12, 13, 14, 15]
      4 10

def gdbstep : CpuM W Unit := do
  K.forceSigFault .trap .trapBrkpt (← env).pc

def stepAfterEcall (recorded : Option Recorded) : CpuM W Unit := do
  if recorded.isNone && (← env).singlestep then gdbstep K

def riscv64Trap (gyh : Bool) : Nat → CpuM W (Option Recorded)
  | 8 => do
      setEnv (fun e => { e with pc := e.pc + 4 })
      let recorded ← riscv64Ecall K gyh
      stepAfterEcall K recorded
      return recorded
  | 0x10000 => quiet (pure ())
  | 0x10005 => quiet K.stepAtomic
  | 2 => quiet (do K.forceSigFault .ill .illIllopc (← env).pc)
  | 3 | 0x10002 => quiet (gdbstep K)
  | 0x3f => quiet (do
      K.semihosting
      setEnv (fun e => { e with pc := e.pc + 4 }))
  | _ => stop .exitFailure

def serveTrap (arch : Arch) (gyh : Bool) (trapnr : Nat) : CpuM W (Option Recorded) :=
  match arch with
  | .x86_64 => x86Trap K gyh trapnr
  | .aarch64 => aarch64Trap K gyh trapnr
  | .riscv64 => riscv64Trap K gyh trapnr

def beforeSignals : Arch → CpuM W Unit
  | .x86_64 | .riscv64 => pure ()
  | .aarch64 => do
      if (← env).tfsr ≠ 0 then
        setEnv (fun e => { e with tfsr := 0 })
        K.forceSigFault .segv .segvMteaerr 0

def afterSignals : Arch → CpuM W Unit
  | .x86_64 | .riscv64 => pure ()
  | .aarch64 => setEnv (fun e => { e with exclusiveAddr := -1 })

def afterTrap (arch : Arch) : CpuM W Unit := do
  beforeSignals K arch
  K.processPendingSignals
  afterSignals arch

def syscallNumber? (arch : Arch) (trapnr : Nat) (e : Env) : Option UInt64 :=
  match arch, trapnr with
  | .x86_64, 0x80 | .x86_64, 0x101 => some (e.regs 0)
  | .aarch64, 2 => some (e.regs 8)
  | .riscv64, 8 => some (riscv64Number e)
  | _, _ => none

def gyhArgRegs : Arch → Nat → List Nat
  | .x86_64, 0x80 => [3, 1, 2, 6, 7, 5]
  | .x86_64, _ => [7, 6, 2, 1, 8, 9]
  | .aarch64, _ => [0, 1, 2, 3, 4, 5]
  | .riscv64, _ => [10, 11, 12, 13, 14, 15]

def flushesIcache (arch : Arch) (e : Env) : Bool := arch = .riscv64 && e.regs 17 = 259

def recorded (arch : Arch) (trapnr : Nat) (e : Env) : Option Recorded :=
  match syscallNumber? arch trapnr e with
  | some number =>
      if nrStart < number.toNat && !flushesIcache arch e then
        some ⟨number.toUInt32, (gyhArgRegs arch trapnr).map e.regs⟩
      else none
  | none => none

def skipEcall (arch : Arch) (e : Env) : Env :=
  match arch with
  | .riscv64 => { e with pc := e.pc + 4 }
  | _ => e

variable {K} {arch : Arch} {e : Env} {w : W} {r : Option Recorded} {s : Env × W}

theorem quiet_none {x : CpuM W Unit} {s t : Env × W} (h : quiet x s = .ok (r, t)) : r = none := by
  obtain ⟨⟨_, u⟩, _, h⟩ := Fallible.bind_eq_ok.mp h
  cases h
  rfl

theorem stop_ne_ok {α : Type} {x : Stop} {s : Env × W} {p : α × (Env × W)} : stop x s ≠ .ok p := by
  intro h
  cases h

theorem syscallBranch_split (exits : Bool) (number : UInt64) (args gyhArgs : List Nat) (rewind : UInt64) (retReg : Nat) :
    ∃ w', syscallBranch K true exits number args gyhArgs rewind retReg (e, w) =
      (if nrStart < number.toNat then (pure (some ⟨number.toUInt32, gyhArgs.map e.regs⟩) : CpuM W (Option Recorded))
        else quiet (ordinarySyscall K number args rewind retReg)) (e, w') := by
  cases exits with
  | false => exact ⟨w, by simp [syscallBranch, env, bind, StateT.bind, Except.bind]⟩
  | true => exact ⟨K.atexit w, by simp [syscallBranch, env, setWorld, bind, StateT.bind, Except.bind]⟩

theorem syscallBranch_recorded {exits : Bool} {number : UInt64} {args gyhArgs : List Nat} {rewind : UInt64}
    {retReg : Nat} (h : syscallBranch K true exits number args gyhArgs rewind retReg (e, w) = .ok (r, s)) :
    (nrStart < number.toNat → r = some ⟨number.toUInt32, gyhArgs.map e.regs⟩ ∧ s.1 = e) ∧
      (¬ nrStart < number.toNat → r = none) := by
  obtain ⟨w', hsplit⟩ := syscallBranch_split (K := K) (e := e) (w := w) exits number args gyhArgs rewind retReg
  rw [hsplit] at h
  by_cases hn : nrStart < number.toNat
  · rw [if_pos hn] at h
    cases h
    exact ⟨fun _ => ⟨rfl, rfl⟩, fun hnot => absurd hn hnot⟩
  · rw [if_neg hn] at h
    exact ⟨fun hyes => absurd hyes hn, fun _ => quiet_none h⟩

theorem quiet_recorded {x : CpuM W Unit} {trapnr : Nat} (hn : recorded arch trapnr e = none)
    {t : Env × W} (h : quiet x t = .ok (r, s)) : r = recorded arch trapnr e ∧ (r ≠ none → s.1 = skipEcall arch e) := by
  have hr := quiet_none h
  exact ⟨hr.trans hn.symm, fun hne => absurd hr hne⟩

theorem syscall_recorded {exits : Bool} {number : UInt64} {trapnr : Nat} {args : List Nat} {rewind : UInt64}
    {retReg : Nat} (hnum : syscallNumber? arch trapnr e = some number) (hf : flushesIcache arch e = false)
    (h : syscallBranch K true exits number args (gyhArgRegs arch trapnr) rewind retReg (skipEcall arch e, w) =
      .ok (r, s)) : r = recorded arch trapnr e ∧ (r ≠ none → s.1 = skipEcall arch e) := by
  have hregs : (skipEcall arch e).regs = e.regs := by
    cases arch <;> rfl
  obtain ⟨habove, hbelow⟩ := syscallBranch_recorded h
  rw [hregs] at habove
  unfold recorded
  rw [hnum]
  by_cases hn : nrStart < number.toNat
  · obtain ⟨hr, hs⟩ := habove hn
    simp only [hn, hf, decide_true, Bool.not_false, Bool.and_self, if_true]
    exact ⟨hr, fun _ => hs⟩
  · have hr := hbelow hn
    simp only [hn, decide_false, Bool.false_and, Bool.false_eq_true, if_false]
    exact ⟨hr, fun hne => absurd hr hne⟩

theorem x86Trap_recorded {trapnr : Nat} (h : x86Trap K true trapnr (e, w) = .ok (r, s)) :
    r = recorded .x86_64 trapnr e ∧ (r ≠ none → s.1 = skipEcall .x86_64 e) := by
  unfold x86Trap at h
  split at h
  case h_1 | h_2 => exact syscall_recorded rfl rfl h
  all_goals first
    | exact quiet_recorded rfl h
    | exact absurd h stop_ne_ok

theorem aarch64Trap_recorded {trapnr : Nat} (h : aarch64Trap K true trapnr (e, w) = .ok (r, s)) :
    r = recorded .aarch64 trapnr e ∧ (r ≠ none → s.1 = skipEcall .aarch64 e) := by
  unfold aarch64Trap at h
  split at h
  case h_1 => exact syscall_recorded rfl rfl h
  all_goals first
    | exact quiet_recorded rfl h
    | exact absurd h stop_ne_ok

theorem riscv64Ecall_recorded (h : riscv64Ecall K true (skipEcall .riscv64 e, w) = .ok (r, s)) :
    r = recorded .riscv64 8 e ∧ (r ≠ none → s.1 = skipEcall .riscv64 e) := by
  have hif : (if e.regs 17 = 259 then quiet (finishSyscall 4 10 0)
      else syscallBranch K true (riscv64Number e = 94) (riscv64Number e) [10, 11, 12, 13, 14, 15]
        [10, 11, 12, 13, 14, 15] 4 10) (skipEcall .riscv64 e, w) = .ok (r, s) := h
  by_cases hf : e.regs 17 = 259
  · rw [if_pos hf] at hif
    refine quiet_recorded ?_ hif
    simp [recorded, syscallNumber?, flushesIcache, hf]
  · rw [if_neg hf] at hif
    have hnum : syscallNumber? .riscv64 8 e = some (riscv64Number e) := rfl
    exact syscall_recorded hnum (by simp [flushesIcache, hf]) hif

theorem riscv64Trap_recorded {trapnr : Nat} (h : riscv64Trap K true trapnr (e, w) = .ok (r, s)) :
    r = recorded .riscv64 trapnr e ∧ (r ≠ none → s.1 = skipEcall .riscv64 e) := by
  unfold riscv64Trap at h
  split at h
  case h_1 =>
    obtain ⟨⟨r', u⟩, hr, h⟩ := Fallible.bind_eq_ok.mp h
    obtain ⟨⟨_, v⟩, hv, h⟩ := Fallible.bind_eq_ok.mp h
    cases h
    obtain ⟨hrec, henv⟩ := riscv64Ecall_recorded hr
    refine ⟨hrec, ?_⟩
    intro hne
    obtain ⟨x, rfl⟩ := Option.ne_none_iff_exists'.mp hne
    cases hv
    exact henv hne
  all_goals first
    | exact quiet_recorded rfl h
    | exact absurd h stop_ne_ok

theorem serveTrap_recorded {trapnr : Nat} (h : serveTrap K arch true trapnr (e, w) = .ok (r, s)) :
    r = recorded arch trapnr e ∧ (r ≠ none → s.1 = skipEcall arch e) := by
  cases arch with
  | x86_64 => exact x86Trap_recorded h
  | aarch64 => exact aarch64Trap_recorded h
  | riscv64 => exact riscv64Trap_recorded h

end Comulator.Cpu
