import Comulator.CpuLoop
import Comulator.Lockstep

namespace Comulator.Transparent

open GuestRt Cpu CpuLoop Lockstep

variable {W : Type}

def cpuTurn (K : Kernel W) (arch : Arch) : CpuM W Unit := do
  let trapnr ← K.cpuExec
  let _ ← serveTrap K arch false trapnr
  afterTrap K arch

def runDispatch (handle : Nr → (Nat → UInt64) → CpuM W Unit) : Dispatch → CpuM W Unit
  | .skip => pure ()
  | .handler nr args => handle nr args
  | .invalid => stop .abort

def gyhCpuTurn (K : Kernel W) (arch : Arch) (handle : Nr → (Nat → UInt64) → CpuM W Unit) (stale : DoSyscall) :
    CpuM W Unit := do
  let d ← gyhTurn K arch stale
  runDispatch handle d

def SameUpTo (Q : W → W → Prop) (s t : Env × W) : Prop := s.1 = t.1 ∧ Q s.2 t.2

structure Unseen (K : Kernel W) (Q : W → W → Prop) : Prop where
  atexit : ∀ w w', Q w w' → Q (K.atexit w) w'
  cpuExec : Lockstep (SameUpTo Q) K.cpuExec K.cpuExec
  doSyscall : ∀ number args, Lockstep (SameUpTo Q) (K.doSyscall number args) (K.doSyscall number args)
  forceSig : ∀ signal, Lockstep (SameUpTo Q) (K.forceSig signal) (K.forceSig signal)
  forceSigFault : ∀ signal code addr,
    Lockstep (SameUpTo Q) (K.forceSigFault signal code addr) (K.forceSigFault signal code addr)
  stepAtomic : Lockstep (SameUpTo Q) K.stepAtomic K.stepAtomic
  semihosting : Lockstep (SameUpTo Q) K.semihosting K.semihosting
  clearSm : ∀ w w', Q w w' → Q (K.clearSm w) (K.clearSm w')
  setOrigAx : ∀ ax w w', Q w w' → Q (K.setOrigAx ax w) (K.setOrigAx ax w')
  accessOk : ∀ addr len w w', Q w w' → K.accessOk addr len w = K.accessOk addr len w'
  getUser : ∀ addr w w', Q w w' → K.getUser addr w = K.getUser addr w'
  processPendingSignals : Lockstep (SameUpTo Q) K.processPendingSignals K.processPendingSignals

variable {K : Kernel W} {Q : W → W → Prop} {arch : Arch} {s t : Env × W}

section State

theorem env_lockstep : Lockstep (SameUpTo Q) (env : CpuM W Env) env := by
  rintro ⟨e, w⟩ ⟨e', w'⟩ ⟨he, hw⟩
  cases he
  exact .ok e ⟨rfl, hw⟩

theorem setEnv_lockstep (f : Env → Env) : Lockstep (SameUpTo Q) (setEnv f : CpuM W Unit) (setEnv f) :=
  fun _ _ h => .ok () ⟨congrArg f h.1, h.2⟩

theorem setWorld_lockstep {f : W → W} (hf : ∀ w w', Q w w' → Q (f w) (f w')) :
    Lockstep (SameUpTo Q) (setWorld f) (setWorld f) := fun _ _ h => .ok () ⟨h.1, hf _ _ h.2⟩

theorem stop_lockstep {α : Type} (x : Stop) : Lockstep (SameUpTo Q) (stop x : CpuM W α) (stop x) :=
  fun _ _ _ => .error x

theorem world_lockstep {α : Type} {f : W → CpuM W α} (hf : ∀ w w', Q w w' → Lockstep (SameUpTo Q) (f w) (f w')) :
    Lockstep (SameUpTo Q) (world >>= f) (world >>= f) := fun s t h => hf s.2 t.2 h.2 s t h

theorem quiet_lockstep {x y : CpuM W Unit} (h : Lockstep (SameUpTo Q) x y) :
    Lockstep (SameUpTo Q) (quiet x) (quiet y) := h.bind (fun _ => .pure none)

theorem riscv64Ecall_eq (gyh : Bool) : riscv64Ecall K gyh s = (if s.1.regs 17 = 259 then quiet (finishSyscall 4 10 0)
    else syscallBranch K gyh (riscv64Number s.1 = 94) (riscv64Number s.1) [10, 11, 12, 13, 14, 15]
      [10, 11, 12, 13, 14, 15] 4 10) s :=
  rfl

end State

section Branches

variable (hK : Unseen K Q)

theorem finishSyscall_lockstep (rewind : UInt64) (retReg : Nat) (ret : UInt64) :
    Lockstep (SameUpTo Q) (finishSyscall rewind retReg ret : CpuM W Unit) (finishSyscall rewind retReg ret) :=
  .ite (setEnv_lockstep _) (.ite (setEnv_lockstep _) (.pure ()))

include hK

theorem ordinarySyscall_lockstep (number : UInt64) (args : List Nat) (rewind : UInt64) (retReg : Nat) :
    Lockstep (SameUpTo Q) (ordinarySyscall K number args rewind retReg) (ordinarySyscall K number args rewind retReg) :=
  env_lockstep.bind (fun _ => (hK.doSyscall _ _).bind (fun _ => finishSyscall_lockstep _ _ _))

/-- Below `GYH_NR_start` the two loops differ by the file with the statistics. -/
theorem syscallBranch_lockstep {number : UInt64} (hnumber : ¬ nrStart < number.toNat) (exits : Bool)
    (args gyhArgs : List Nat) (rewind : UInt64) (retReg : Nat) :
    Lockstep (SameUpTo Q) (syscallBranch K true exits number args gyhArgs rewind retReg)
      (syscallBranch K false exits number args gyhArgs rewind retReg) := by
  have hnot : decide (nrStart < number.toNat) = false := decide_eq_false hnumber
  have hquiet : Lockstep (SameUpTo Q) (env >>= fun _ => quiet (ordinarySyscall K number args rewind retReg))
      (env >>= fun _ => quiet (ordinarySyscall K number args rewind retReg)) :=
    env_lockstep.bind (fun _ => quiet_lockstep (ordinarySyscall_lockstep hK number args rewind retReg))
  intro s t h
  simp only [syscallBranch, hnot, Bool.and_false, Bool.false_eq_true, if_false]
  cases exits with
  | false => exact hquiet s t h
  | true => exact hquiet (s.1, K.atexit s.2) t ⟨h.1, hK.atexit _ _ h.2⟩

theorem writeOkOrSegv_lockstep (addr : UInt64) (len : Nat) :
    Lockstep (SameUpTo Q) (writeOkOrSegv K addr len) (writeOkOrSegv K addr len) := by
  refine .ite (.pure true) (world_lockstep (fun w w' hw => ?_))
  rw [hK.accessOk addr len w w' hw]
  refine .ite (.pure true) ((setEnv_lockstep _).bind (fun _ => ?_))
  exact (hK.forceSigFault _ _ _).bind (fun _ => .pure false)

theorem pointersOk_lockstep (e : Env) (ps : List (Nat × Nat)) :
    Lockstep (SameUpTo Q) (pointersOk K e ps) (pointersOk K e ps) := by
  induction ps with
  | nil => exact .pure true
  | cons p ps ih => exact (writeOkOrSegv_lockstep hK _ _).bind (fun ok => .ite ih (.pure false))

theorem emulateVsyscall_lockstep : Lockstep (SameUpTo Q) (emulateVsyscall K) (emulateVsyscall K) := by
  refine env_lockstep.bind (fun e => ?_)
  dsimp only
  split
  next => exact hK.forceSig _
  next number _ =>
    refine world_lockstep (fun w w' hw => ?_)
    rw [hK.getUser _ w w' hw]
    cases K.getUser (e.regs 4) w' with
    | none => exact hK.forceSig _
    | some caller =>
        refine (pointersOk_lockstep hK _ _).bind (fun ok => .ite ?_ (.pure ()))
        refine (setWorld_lockstep (hK.setOrigAx _)).bind (fun _ => env_lockstep.bind (fun e => ?_))
        refine (hK.doSyscall _ _).bind (fun ret => .ite (stop_lockstep _) (.ite (hK.forceSig _) ?_))
        exact (setEnv_lockstep _).bind (fun _ => setEnv_lockstep _)

/-- A fault is reported with a part of the registers. -/
theorem fault_lockstep (signal : Signal) (code : Env → SiCode) (addr : Env → UInt64) :
    Lockstep (SameUpTo Q) (env >>= fun e => K.forceSigFault signal (code e) (addr e))
      (env >>= fun e => K.forceSigFault signal (code e) (addr e)) :=
  env_lockstep.bind (fun _ => hK.forceSigFault _ _ _)

end Branches

section Traps

theorem number_le {trapnr : Nat} {e : Env} {number : UInt64} (hnumber : syscallNumber? arch trapnr e = some number)
    (hflush : flushesIcache arch e = false) (h : recorded arch trapnr e = none) : ¬ nrStart < number.toNat := by
  intro hlt
  simp [recorded, hnumber, hflush, hlt] at h

variable (hK : Unseen K Q)

include hK

theorem gdbstep_lockstep : Lockstep (SameUpTo Q) (gdbstep K) (gdbstep K) := fault_lockstep hK _ _ _

theorem x86Trap_outcome {trapnr : Nat} (hst : SameUpTo Q s t) (hordinary : recorded .x86_64 trapnr s.1 = none) :
    Outcome (SameUpTo Q) (x86Trap K true trapnr s) (x86Trap K false trapnr t) := by
  obtain ⟨e, w⟩ := s
  obtain ⟨e', w'⟩ := t
  obtain ⟨he, hw⟩ := hst
  cases he
  have hax : SameUpTo Q (e, K.setOrigAx (e.regs 0) w) (e, K.setOrigAx (e.regs 0) w') := ⟨rfl, hK.setOrigAx _ _ _ hw⟩
  have hst : SameUpTo Q (e, w) (e, w') := ⟨rfl, hw⟩
  unfold x86Trap
  split
  case h_1 | h_2 => exact syscallBranch_lockstep hK (number_le rfl rfl hordinary) _ _ _ _ _ _ _ hax
  case h_3 => exact quiet_lockstep (emulateVsyscall_lockstep hK) _ _ hst
  case h_4 | h_5 | h_6 | h_7 | h_8 | h_13 => exact quiet_lockstep (hK.forceSig _) _ _ hst
  case h_9 | h_10 | h_11 | h_12 | h_14 => exact quiet_lockstep (fault_lockstep hK _ _ _) _ _ hst
  case h_15 => exact quiet_lockstep (.pure ()) _ _ hst
  case h_16 => exact quiet_lockstep hK.stepAtomic _ _ hst
  case h_17 => exact .error _

theorem aarch64Trap_outcome {trapnr : Nat} (hst : SameUpTo Q s t) (hordinary : recorded .aarch64 trapnr s.1 = none) :
    Outcome (SameUpTo Q) (aarch64Trap K true trapnr s) (aarch64Trap K false trapnr t) := by
  obtain ⟨e, w⟩ := s
  obtain ⟨e', w'⟩ := t
  obtain ⟨he, hw⟩ := hst
  cases he
  have hsm : SameUpTo Q (e, K.clearSm w) (e, K.clearSm w') := ⟨rfl, hK.clearSm _ _ hw⟩
  have hst : SameUpTo Q (e, w) (e, w') := ⟨rfl, hw⟩
  unfold aarch64Trap
  split
  case h_1 => exact syscallBranch_lockstep hK (number_le rfl rfl hordinary) _ _ _ _ _ _ _ hsm
  case h_2 | h_3 => exact quiet_lockstep (.pure ()) _ _ hst
  case h_4 | h_7 | h_8 => exact quiet_lockstep (fault_lockstep hK _ _ _) _ _ hst
  case h_5 | h_6 =>
    refine quiet_lockstep (env_lockstep.bind (fun e => ?_)) _ _ hst
    cases abortSignal e.syndrome with
    | some p => exact hK.forceSigFault _ _ _
    | none => exact stop_lockstep _
  case h_9 => exact quiet_lockstep (hK.semihosting.bind (fun _ => setEnv_lockstep _)) _ _ hst
  case h_10 => exact quiet_lockstep hK.stepAtomic _ _ hst
  case h_11 => exact .error _

theorem riscv64Ecall_outcome (hst : SameUpTo Q s t)
    (hordinary : s.1.regs 17 = 259 ∨ ¬ nrStart < (riscv64Number s.1).toNat) :
    Outcome (SameUpTo Q) (riscv64Ecall K true s) (riscv64Ecall K false t) := by
  obtain ⟨e, w⟩ := s
  obtain ⟨e', w'⟩ := t
  obtain ⟨he, hw⟩ := hst
  cases he
  rw [riscv64Ecall_eq, riscv64Ecall_eq]
  by_cases hflush : e.regs 17 = 259
  · rw [if_pos hflush, if_pos hflush]
    exact quiet_lockstep (finishSyscall_lockstep _ _ _) _ _ ⟨rfl, hw⟩
  · rw [if_neg hflush, if_neg hflush]
    exact syscallBranch_lockstep hK (hordinary.resolve_left hflush) _ _ _ _ _ _ _ ⟨rfl, hw⟩

theorem stepAfterEcall_lockstep (r : Option Recorded) :
    Lockstep (SameUpTo Q) (stepAfterEcall K r) (stepAfterEcall K r) :=
  env_lockstep.bind (fun _ => .ite (gdbstep_lockstep hK) (.pure ()))

theorem riscv64Trap_outcome {trapnr : Nat} (hst : SameUpTo Q s t) (hordinary : recorded .riscv64 trapnr s.1 = none) :
    Outcome (SameUpTo Q) (riscv64Trap K true trapnr s) (riscv64Trap K false trapnr t) := by
  unfold riscv64Trap
  split
  case h_1 =>
    have hskip : SameUpTo Q ({ s.1 with pc := s.1.pc + 4 }, s.2) ({ t.1 with pc := t.1.pc + 4 }, t.2) :=
      ⟨by rw [hst.1], hst.2⟩
    have hecall := riscv64Ecall_outcome hK hskip (by
      by_cases hflush : s.1.regs 17 = 259
      · exact .inl hflush
      · exact .inr (number_le rfl (by simp [flushesIcache, hflush]) hordinary))
    exact hecall.bind (fun r s' t' _ h => (stepAfterEcall_lockstep hK r).bind (fun _ => .pure r) s' t' h)
  case h_2 => exact quiet_lockstep (.pure ()) _ _ hst
  case h_3 => exact quiet_lockstep hK.stepAtomic _ _ hst
  case h_4 => exact quiet_lockstep (fault_lockstep hK _ _ _) _ _ hst
  case h_5 | h_6 => exact quiet_lockstep (gdbstep_lockstep hK) _ _ hst
  case h_7 => exact quiet_lockstep (hK.semihosting.bind (fun _ => setEnv_lockstep _)) _ _ hst
  case h_8 => exact .error _

theorem serveTrap_outcome {trapnr : Nat} (hst : SameUpTo Q s t) (hordinary : recorded arch trapnr s.1 = none) :
    Outcome (SameUpTo Q) (serveTrap K arch true trapnr s) (serveTrap K arch false trapnr t) := by
  cases arch with
  | x86_64 => exact x86Trap_outcome hK hst hordinary
  | aarch64 => exact aarch64Trap_outcome hK hst hordinary
  | riscv64 => exact riscv64Trap_outcome hK hst hordinary

theorem afterTrap_lockstep : Lockstep (SameUpTo Q) (afterTrap K arch) (afterTrap K arch) := by
  have hbefore : Lockstep (SameUpTo Q) (beforeSignals K arch) (beforeSignals K arch) := by
    cases arch with
    | x86_64 | riscv64 => exact .pure ()
    | aarch64 =>
        refine env_lockstep.bind (fun e => .ite ?_ (.pure ()))
        exact (setEnv_lockstep _).bind (fun _ => hK.forceSigFault _ _ _)
  have hafter : Lockstep (SameUpTo Q) (afterSignals arch : CpuM W Unit) (afterSignals arch) := by
    cases arch with
    | x86_64 | riscv64 => exact .pure ()
    | aarch64 => exact setEnv_lockstep (fun e => { e with exclusiveAddr := -1 })
  exact hbefore.bind (fun _ => hK.processPendingSignals.bind (fun _ => hafter))

end Traps

section Turns

def unhandled (arch : Arch) (trapnr : Nat) (e : Env) : Bool :=
  match arch with
  | .x86_64 => trapnr ∉ [0x80, 0x101, 0x102, 11, 12, 13, 4, 5, 14, 0, 1, 0x10002, 3, 6, 0x10000, 0x10005]
  | .aarch64 =>
      if trapnr = 3 ∨ trapnr = 4 then abortSignal e.syndrome = none
      else trapnr ∉ [2, 0x10000, 0x10004, 1, 0x10002, 7, 16, 0x10005]
  | .riscv64 => trapnr ∉ [8, 0x10000, 0x10005, 2, 3, 0x10002, 0x3f]

variable {trapnr : Nat} {e : Env} {stale : DoSyscall}

theorem serveTrap_unhandled (h : unhandled arch trapnr e = true) :
    ∃ x, ∀ {W : Type} (K : Kernel W) (gyh : Bool) (w : W), serveTrap K arch gyh trapnr (e, w) = .error x := by
  cases arch with
  | x86_64 =>
      refine ⟨.abort, fun K gyh w => ?_⟩
      simp only [serveTrap]
      unfold x86Trap
      split
      case h_17 => rfl
      all_goals simp [unhandled] at h
  | aarch64 =>
      simp only [serveTrap]
      by_cases habort : trapnr = 3 ∨ trapnr = 4
      · refine ⟨.notReached, fun K gyh w => ?_⟩
        simp only [unhandled, habort, if_true, decide_eq_true_eq] at h
        rcases habort with rfl | rfl
        · simp [aarch64Trap, quiet, env, h, stop, bind, StateT.bind, Except.bind]
        · simp [aarch64Trap, quiet, env, h, stop, bind, StateT.bind, Except.bind]
      · refine ⟨.abort, fun K gyh w => ?_⟩
        unfold aarch64Trap
        split
        case h_11 => rfl
        all_goals simp [unhandled] at h habort
  | riscv64 =>
      refine ⟨.exitFailure, fun K gyh w => ?_⟩
      simp only [serveTrap]
      unfold riscv64Trap
      split
      case h_8 => rfl
      all_goals simp [unhandled] at h

theorem dispatch_zero (hstale : stale.num = 0) : dispatch stale = .skip := by
  rw [dispatch, if_pos hstale]

theorem gyhCpuTurn_eq (handle : Nr → (Nat → UInt64) → CpuM W Unit) (stale : DoSyscall) :
    gyhCpuTurn K arch handle stale = (do
      let trapnr ← K.cpuExec
      let r ← serveTrap K arch true trapnr
      afterTrap K arch
      runDispatch handle (dispatch (stale.record r))) := by
  simp only [gyhCpuTurn, gyhTurn, gyhDoCpu, bind_assoc, pure_bind]

/-- From the return of `cpu_exec` with the trap on, `gyh_cpu_loop` does what
`cpu_loop` does but for the file with the statistics, whatever the emulator and
the handlers are. -/
def TransparentTurn (arch : Arch) (trapnr : Nat) (e : Env) (stale : DoSyscall) : Prop :=
  ∀ (W : Type) (K : Kernel W) (Q : W → W → Prop), Unseen K Q → ∀ (handle : Nr → (Nat → UInt64) → CpuM W Unit)
    (s t : Env × W) (w : W), SameUpTo Q s t → K.cpuExec s = .ok (trapnr, (e, w)) →
      Outcome (SameUpTo Q) (gyhCpuTurn K arch handle stale s) (cpuTurn K arch t)

theorem transparent_of_ordinary (hnone : recorded arch trapnr e = none) (hstale : stale.num = 0) :
    TransparentTurn arch trapnr e stale := by
  intro W K Q hK handle s t w hst hexec
  rw [gyhCpuTurn_eq]
  refine (hK.cpuExec s t hst).bind (fun trapnr' s' t' hexec' hst' => ?_)
  rw [hexec] at hexec'
  cases hexec'
  refine (serveTrap_outcome hK hst' hnone).bind (fun r s'' t'' hserve hst'' => ?_)
  obtain ⟨hr, _⟩ := serveTrap_recorded hserve
  rw [hr, hnone, DoSyscall.record, dispatch_zero hstale]
  have hskip : (afterTrap K arch >>= fun _ => runDispatch handle .skip) = afterTrap K arch := bind_pure_unit
  rw [hskip]
  exact afterTrap_lockstep hK s'' t'' hst''

theorem transparent_of_unhandled (h : unhandled arch trapnr e = true) : TransparentTurn arch trapnr e stale := by
  intro W K Q hK handle s t w hst hexec
  obtain ⟨x, hx⟩ := serveTrap_unhandled h
  rw [gyhCpuTurn_eq]
  refine (hK.cpuExec s t hst).bind (fun trapnr' s' t' hexec' hst' => ?_)
  rw [hexec] at hexec'
  cases hexec'
  obtain ⟨e', w'⟩ := t'
  obtain ⟨he, _⟩ := hst'
  cases he
  have hgyh : (serveTrap K arch true trapnr >>= fun r =>
      afterTrap K arch >>= fun _ => runDispatch handle (dispatch (stale.record r))) (e, w) = .error x := by
    simp [bind, StateT.bind, Except.bind, hx]
  have hstock : (serveTrap K arch false trapnr >>= fun _ => afterTrap K arch) (e, w') = .error x := by
    simp [bind, StateT.bind, Except.bind, hx]
  rw [hgyh, hstock]
  exact .error x

def trapping (trapnr : Nat) (e : Env) (ret : CpuM Unit UInt64) : Kernel Unit :=
  { Kernel.calm Unit with cpuExec := fun _ => .ok (trapnr, (e, ())), doSyscall := fun _ _ => ret }

variable (trapnr e) in
theorem trapping_unseen {ret : CpuM Unit UInt64} (hret : Lockstep (SameUpTo fun _ _ => True) ret ret) :
    Unseen (trapping trapnr e ret) (fun _ _ => True) where
  atexit := fun _ _ _ => trivial
  cpuExec := fun _ _ _ => .ok _ ⟨rfl, trivial⟩
  doSyscall := fun _ _ => hret
  forceSig := fun _ => .pure _
  forceSigFault := fun _ _ _ => .pure _
  stepAtomic := .pure _
  semihosting := .pure _
  clearSm := fun _ _ _ => trivial
  setOrigAx := fun _ _ _ _ => trivial
  accessOk := fun _ _ _ _ _ => rfl
  getUser := fun _ _ _ _ => rfl
  processPendingSignals := .pure _

/-- The four system call traps. -/
theorem recorded_cases {r : Recorded} (h : recorded arch trapnr e = some r) :
    (arch = .x86_64 ∧ (trapnr = 0x80 ∨ trapnr = 0x101) ∧ nrStart < (e.regs 0).toNat) ∨
      (arch = .aarch64 ∧ trapnr = 2 ∧ nrStart < (e.regs 8).toNat) ∨
      (arch = .riscv64 ∧ trapnr = 8 ∧ nrStart < (riscv64Number e).toNat ∧ e.regs 17 ≠ 259) := by
  unfold recorded at h
  cases hnumber : syscallNumber? arch trapnr e with
  | none => simp [hnumber] at h
  | some number =>
      obtain ⟨hlt, hflush⟩ : nrStart < number.toNat ∧ flushesIcache arch e = false := by
        by_contra hnot
        simp_all
      unfold syscallNumber? at hnumber
      split at hnumber
      case h_1 | h_2 =>
        cases hnumber
        simp [hlt]
      case h_3 =>
        cases hnumber
        simp [hlt]
      case h_4 =>
        cases hnumber
        simp only [flushesIcache, decide_true, Bool.true_and, decide_eq_false_iff_not] at hflush
        simp [hlt, hflush]
      case h_5 => cases hnumber

theorem syscallBranch_diverted {number : UInt64} (hlt : nrStart < number.toNat) (exits : Bool) (args gyhArgs : List Nat)
    (rewind : UInt64) (retReg : Nat) (s : Env × W) :
    ∃ s', syscallBranch K true exits number args gyhArgs rewind retReg s = .ok s' := by
  obtain ⟨w', hsplit⟩ := syscallBranch_split (K := K) (e := s.1) (w := s.2) exits number args gyhArgs rewind retReg
  rw [if_pos hlt] at hsplit
  exact ⟨_, hsplit⟩

theorem stepAfterEcall_trapping (ret : CpuM Unit UInt64) (r : Option Recorded) (s : Env × Unit) :
    stepAfterEcall (trapping trapnr e ret) r s = .ok ((), s) := by
  have hstep : stepAfterEcall (trapping trapnr e ret) r s =
      (if r.isNone && s.1.singlestep then gdbstep (trapping trapnr e ret) else pure ()) s := rfl
  rw [hstep]
  split
  next => rfl
  next => rfl

/-- `cpu_loop` hands the system call to the kernel, `gyh_do_cpu` does not. -/
theorem serveTrap_diverted {r : Recorded} (h : recorded arch trapnr e = some r) :
    serveTrap (trapping trapnr e (stop .exited)) arch false trapnr (e, ()) = .error .exited ∧
      ∃ s, serveTrap (trapping trapnr e (stop .exited)) arch true trapnr (e, ()) = .ok s := by
  rcases recorded_cases h with ⟨rfl, rfl | rfl, hlt⟩ | ⟨rfl, rfl, hlt⟩ | ⟨rfl, rfl, hlt, hflush⟩
  · exact ⟨rfl, syscallBranch_diverted hlt _ _ _ _ _ _⟩
  · exact ⟨rfl, syscallBranch_diverted hlt _ _ _ _ _ _⟩
  · exact ⟨rfl, syscallBranch_diverted hlt _ _ _ _ _ _⟩
  · have hecall := fun gyh => (riscv64Ecall_eq (K := trapping 8 e (stop .exited)) (s := (skipEcall .riscv64 e, ()))
      gyh).trans (congrFun (if_neg hflush) _)
    constructor
    · exact Fallible.bind_eq_error.mpr (.inl (hecall false))
    · obtain ⟨s, hs⟩ := syscallBranch_diverted (K := trapping 8 e (stop .exited)) hlt
        (riscv64Number e = 94) [10, 11, 12, 13, 14, 15] [10, 11, 12, 13, 14, 15] 4 10 (skipEcall .riscv64 e, ())
      refine ⟨s, Fallible.bind_eq_ok.mpr ⟨s, (hecall true).trans hs, ?_⟩⟩
      exact Fallible.bind_eq_ok.mpr ⟨_, stepAfterEcall_trapping _ _ _, rfl⟩

theorem bind_eq_of_ok {α β : Type} {x : CpuM W α} {f : α → CpuM W β} {p : α × (Env × W)} (h : x s = .ok p) :
    (x >>= f) s = f p.1 p.2 := by
  simp [bind, StateT.bind, Except.bind, h]

variable (arch trapnr e) in
theorem afterTrap_trapping (ret : CpuM Unit UInt64) (s : Env × Unit) :
    ∃ s', afterTrap (trapping trapnr e ret) arch s = .ok ((), s') := by
  cases arch with
  | x86_64 | riscv64 => exact ⟨_, rfl⟩
  | aarch64 =>
      have hbefore : ∃ t, beforeSignals (trapping trapnr e ret) .aarch64 s = .ok ((), t) := by
        have henv : env s = .ok (s.1, s) := rfl
        rw [beforeSignals, bind_eq_of_ok henv]
        by_cases htfsr : s.1.tfsr ≠ 0
        · rw [if_pos htfsr]
          exact ⟨_, rfl⟩
        · rw [if_neg htfsr]
          exact ⟨_, rfl⟩
      obtain ⟨t, ht⟩ := hbefore
      exact ⟨_, Fallible.bind_eq_ok.mpr ⟨_, ht, rfl⟩⟩

theorem quiet_ok {x : CpuM W Unit} (h : ∃ s', x s = .ok ((), s')) : ∃ s', quiet x s = .ok s' := by
  obtain ⟨s', hs'⟩ := h
  exact ⟨_, Fallible.bind_eq_ok.mpr ⟨_, hs', rfl⟩⟩

theorem emulateVsyscall_trapping (ret : CpuM Unit UInt64) (s : Env × Unit) :
    ∃ s', emulateVsyscall (trapping trapnr e ret) s = .ok ((), s') := by
  simp only [emulateVsyscall, env, bind, StateT.bind, Except.bind]
  split
  all_goals exact ⟨s, rfl⟩

variable (trapnr e) in
theorem riscv64Ecall_trapping (s : Env × Unit) :
    ∃ s', riscv64Ecall (trapping trapnr e (pure 0)) false s = .ok s' := by
  by_cases hflush : s.1.regs 17 = 259
  · rw [riscv64Ecall_eq, if_pos hflush]
    exact ⟨_, rfl⟩
  · rw [riscv64Ecall_eq, if_neg hflush]
    exact ⟨_, rfl⟩

/-- Nothing goes wrong in the kernel. -/
theorem serveTrap_calm (h : unhandled arch trapnr e = false) :
    ∃ s, serveTrap (trapping trapnr e (pure 0)) arch false trapnr (e, ()) = .ok s := by
  cases arch with
  | x86_64 =>
      simp only [serveTrap]
      unfold x86Trap
      split
      case h_3 => exact quiet_ok (emulateVsyscall_trapping _ _)
      case h_17 => simp_all [unhandled]
      all_goals exact ⟨_, rfl⟩
  | aarch64 =>
      simp only [serveTrap]
      unfold aarch64Trap
      split
      case h_5 | h_6 =>
        cases hsignal : abortSignal e.syndrome with
        | none => simp [unhandled, hsignal] at h
        | some signal =>
            refine quiet_ok ⟨(e, ()), ?_⟩
            simp only [env, bind, StateT.bind, Except.bind, hsignal]
            rfl
      case h_11 => simp_all [unhandled]
      all_goals exact ⟨_, rfl⟩
  | riscv64 =>
      simp only [serveTrap]
      unfold riscv64Trap
      split
      case h_1 =>
        obtain ⟨s, hs⟩ := riscv64Ecall_trapping 8 e (skipEcall .riscv64 e, ())
        refine ⟨s, Fallible.bind_eq_ok.mpr ⟨s, hs, ?_⟩⟩
        exact Fallible.bind_eq_ok.mpr ⟨_, stepAfterEcall_trapping _ _ _, rfl⟩
      case h_8 => simp_all [unhandled]
      all_goals exact ⟨_, rfl⟩

theorem runDispatch_stops {g : DoSyscall} (hg : g.num ≠ 0) :
    ∃ x, runDispatch (fun _ _ => stop .exited) (dispatch g) s = .error x := by
  unfold dispatch
  rw [if_neg hg]
  cases nr? g.num.toNat with
  | none => exact ⟨.abort, rfl⟩
  | some nr => exact ⟨.exited, rfl⟩

theorem runDispatch_goes_on (d : Dispatch) : runDispatch (fun _ _ => pure ()) d s ≠ .error .exited := by
  intro h
  cases d with
  | skip => cases h
  | handler nr args => cases h
  | invalid => cases h

variable (stale) in
theorem gyhCpuTurn_trapping {ret : CpuM Unit UInt64} {p : Option Recorded × (Env × Unit)}
    (handle : Nr → (Nat → UInt64) → CpuM Unit Unit)
    (hserve : serveTrap (trapping trapnr e ret) arch true trapnr (e, ()) = .ok p) :
    ∃ s', gyhCpuTurn (trapping trapnr e ret) arch handle stale (e, ()) =
      runDispatch handle (dispatch (stale.record p.1)) s' := by
  obtain ⟨s', hafter⟩ := afterTrap_trapping arch trapnr e ret p.2
  have hexec : (trapping trapnr e ret).cpuExec (e, ()) = .ok (trapnr, (e, ())) := rfl
  refine ⟨s', ?_⟩
  rw [gyhCpuTurn_eq, bind_eq_of_ok hexec, bind_eq_of_ok hserve, bind_eq_of_ok hafter]

/-- `gyh_cpu_loop` never asks the kernel, which would have ended the guest. -/
theorem not_transparent_of_recorded {r : Recorded} (h : recorded arch trapnr e = some r) :
    ¬ TransparentTurn arch trapnr e stale := by
  intro htransparent
  obtain ⟨hstock, s, hgyh⟩ := serveTrap_diverted h
  have hsame := htransparent Unit (trapping trapnr e (stop .exited)) (fun _ _ => True)
    (trapping_unseen trapnr e (stop_lockstep _)) (fun _ _ => pure ()) (e, ()) (e, ()) () ⟨rfl, trivial⟩ rfl
  have hexited : cpuTurn (trapping trapnr e (stop .exited)) arch (e, ()) = .error .exited :=
    Fallible.bind_eq_error.mpr (.inl hstock)
  obtain ⟨s', hturn⟩ := gyhCpuTurn_trapping stale (fun _ _ => pure ()) hgyh
  rw [hexited, hturn] at hsame
  generalize hx : runDispatch (fun _ _ => pure ()) (dispatch (stale.record s.1)) s' = x at hsame
  cases hsame
  exact runDispatch_goes_on _ hx

theorem not_transparent_of_stale (h : unhandled arch trapnr e = false) (hnone : recorded arch trapnr e = none)
    (hstale : stale.num ≠ 0) : ¬ TransparentTurn arch trapnr e stale := by
  intro htransparent
  have hunseen := trapping_unseen trapnr e (.pure (0 : UInt64))
  obtain ⟨⟨r, s⟩, hstock⟩ := serveTrap_calm h
  obtain ⟨t, hgyh⟩ : ∃ t, serveTrap (trapping trapnr e (pure 0)) arch true trapnr (e, ()) = .ok (r, t) := by
    have hserve := serveTrap_outcome hunseen (s := (e, ())) (t := (e, ())) ⟨rfl, trivial⟩ hnone
    rw [hstock] at hserve
    generalize hx : serveTrap (trapping trapnr e (pure 0)) arch true trapnr (e, ()) = x at hserve
    cases hserve
    exact ⟨_, rfl⟩
  obtain ⟨hr, _⟩ := serveTrap_recorded hgyh
  obtain ⟨t', hturn⟩ := gyhCpuTurn_trapping stale (fun _ _ => stop .exited) hgyh
  obtain ⟨x, hx⟩ := runDispatch_stops (s := t') hstale
  obtain ⟨s', hafter⟩ := afterTrap_trapping arch trapnr e (pure 0) s
  have hok : cpuTurn (trapping trapnr e (pure 0)) arch (e, ()) = .ok ((), s') :=
    Fallible.bind_eq_ok.mpr ⟨_, hstock, hafter⟩
  have hsame := htransparent Unit (trapping trapnr e (pure 0)) (fun _ _ => True) hunseen (fun _ _ => stop .exited)
    (e, ()) (e, ()) () ⟨rfl, trivial⟩ rfl
  rw [hok, hturn, hr, hnone, DoSyscall.record, hx] at hsame
  cases hsame

/-- The turn is transparent exactly if both loops give up on the trap, or the
local starts with zero and the guest makes no system call above `GYH_NR_start`. -/
theorem transparent_iff (arch : Arch) (trapnr : Nat) (e : Env) (stale : DoSyscall) :
    TransparentTurn arch trapnr e stale ↔
      unhandled arch trapnr e = true ∨ (recorded arch trapnr e = none ∧ stale.num = 0) := by
  constructor
  · intro htransparent
    cases hunhandled : unhandled arch trapnr e with
    | true => exact .inl rfl
    | false =>
        refine .inr ?_
        cases hrecorded : recorded arch trapnr e with
        | some r => exact absurd htransparent (not_transparent_of_recorded hrecorded)
        | none =>
            by_contra hnot
            exact not_transparent_of_stale hunhandled hrecorded (fun h0 => hnot ⟨rfl, h0⟩) htransparent
  · rintro (hunhandled | ⟨hnone, hstale⟩)
    · exact transparent_of_unhandled hunhandled
    · exact transparent_of_ordinary hnone hstale

/-- A system call that neither emulator knows aborts the modified one; and bytes
left in the local make an ordinary system call end in a handler. -/
theorem unknown_call_aborts : nr? 50001 = none ∧
    ¬ TransparentTurn .x86_64 0x101 (setReg 0 50001 zeroEnv) ⟨0, fun _ => 0⟩ ∧
    gyhCpuTurn (Kernel.calm Unit) .x86_64 (fun _ _ => pure ()) ⟨0, fun _ => 0⟩ (setReg 0 50001 zeroEnv, ()) =
      .error .abort ∧
    cpuTurn (Kernel.calm Unit) .x86_64 (setReg 0 50001 zeroEnv, ()) =
      .ok ((), (setReg 0 0 (setReg 0 50001 zeroEnv), ())) ∧
    gyhCpuTurn (Kernel.calm Unit) .x86_64 (fun _ _ => stop .exited) ⟨50406, fun _ => 0⟩ (zeroEnv, ()) =
      .error .exited ∧
    cpuTurn (Kernel.calm Unit) .x86_64 (zeroEnv, ()) = .ok ((), (setReg 0 0 zeroEnv, ())) :=
  ⟨rfl, not_transparent_of_recorded (r := ⟨50001, [0, 0, 0, 0, 0, 0]⟩) rfl, rfl, rfl, rfl, rfl⟩

end Turns

end Comulator.Transparent
