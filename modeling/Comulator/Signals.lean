import Comulator.CpuLoop
import Comulator.HostSwitch

namespace Comulator.Signals

open Fallible GuestRt Cpu CpuLoop HostSwitch

variable {W : Type}

/-- What is known of QEMU's signal handling: raising a fault only queues it, and
processing the pending signals leaves the registers alone or enters a guest
handler, on a frame below the interrupted stack pointer. -/
structure SignalsOk (K : Kernel W) (arch : Arch) : Prop where
  fault : ∀ signal code addr s t, K.forceSigFault signal code addr s = .ok ((), t) → t.1 = s.1
  pending : ∀ s t, K.processPendingSignals s = .ok ((), t) → t.1 = s.1 ∨ sp arch t.1 < sp arch s.1

structure SignalTurn (K : Kernel W) (arch : Arch) extends Turn K arch where
  call : Recorded
  served : Env × W
  raised : Env × W
  signalled : Env × W
  switch : serveTrap K arch true trapnr atTrap = .ok (some call, served)
  before : beforeSignals K arch served = .ok ((), raised)
  signals : K.processPendingSignals raised = .ok ((), signalled)

variable {K : Kernel W} {arch : Arch}

def entryAtTrap (arch : Arch) (grt : Bool) (trapnr : Nat) (e : Env) : HostEntry :=
  ⟨sp arch e - 64, 64, cutFuncUid (((gyhArgRegs arch trapnr).take (arity grt)).map e.regs)⟩

def SignalTurn.Unaffected (t : SignalTurn K arch) (mem : Memory) : Nr → Prop
  | .call => gyhCall arch false t.after.1 none = .ok (entryAtTrap arch false t.trapnr t.atTrap.1)
  | .callGrt => gyhCall arch true t.after.1 none = .ok (entryAtTrap arch true t.trapnr t.atTrap.1)
  | .callbackReturn => ∃ e, gyhCallbackReturn arch t.after.1 mem none = .ok (e, contextAt arch (sp arch t.atTrap.1))
  | _ => True

/-- The arguments of the trap stand where a procedure call passes them; only an
`int $0x80` has its own registers. -/
def PassesArgs (arch : Arch) (grt : Bool) (trapnr : Nat) (e : Env) : Prop :=
  cutFuncUid (((callArgRegs arch).take (arity grt)).map e.regs) =
    cutFuncUid (((gyhArgRegs arch trapnr).take (arity grt)).map e.regs)

def SignalTurn.Undisturbed (t : SignalTurn K arch) : Nr → Prop
  | .call => t.signalled.1 = t.raised.1 ∧ sp arch t.atTrap.1 % 16 = 0 ∧ PassesArgs arch false t.trapnr t.atTrap.1
  | .callGrt => t.signalled.1 = t.raised.1 ∧ sp arch t.atTrap.1 % 16 = 0 ∧ PassesArgs arch true t.trapnr t.atTrap.1
  | .callbackReturn => t.signalled.1 = t.raised.1 ∧ (arch = .x86_64 ∨ sp arch t.atTrap.1 % 16 = 0)
  | _ => True

theorem SignalTurn.finish (t : SignalTurn K arch) : afterSignals arch t.signalled = .ok ((), t.after) := by
  obtain ⟨⟨g, u⟩, hg, h⟩ := bind_eq_ok.mp t.turn
  obtain ⟨⟨trapnr, v⟩, hexec, hg⟩ := bind_eq_ok.mp hg
  rw [t.exec] at hexec
  cases hexec
  obtain ⟨⟨r, v⟩, hr, hg⟩ := bind_eq_ok.mp hg
  rw [t.switch] at hr
  cases hr
  obtain ⟨⟨_, v⟩, hafter, hg⟩ := bind_eq_ok.mp hg
  obtain ⟨⟨_, w⟩, hw, hafter⟩ := bind_eq_ok.mp hafter
  rw [t.before] at hw
  cases hw
  obtain ⟨⟨_, w⟩, hw, hafter⟩ := bind_eq_ok.mp hafter
  rw [t.signals] at hw
  cases hw
  cases hg
  have hu : u = t.after := congrArg Prod.snd (Except.ok.inj h)
  rw [← hu]
  exact hafter

theorem afterSignals_regs {s t : Env × W} (h : afterSignals arch s = .ok ((), t)) : t.1.regs = s.1.regs := by
  cases arch <;> cases h <;> rfl

theorem beforeSignals_regs (hK : SignalsOk K arch) {s t : Env × W} (h : beforeSignals K arch s = .ok ((), t)) :
    t.1.regs = s.1.regs := by
  cases arch with
  | x86_64 | riscv64 =>
      cases h
      rfl
  | aarch64 =>
      change (if s.1.tfsr ≠ 0 then _ else _ : CpuM W Unit) s = _ at h
      split at h
      next => rw [hK.fault _ _ _ _ _ h]
      next =>
        cases h
        rfl

theorem SignalTurn.served_regs (t : SignalTurn K arch) : t.served.1.regs = t.atTrap.1.regs := by
  obtain ⟨_, h⟩ := serveTrap_recorded t.switch
  rw [h (Option.some_ne_none _)]
  cases arch <;> rfl

theorem SignalTurn.raised_regs (hK : SignalsOk K arch) (t : SignalTurn K arch) :
    t.raised.1.regs = t.atTrap.1.regs :=
  (beforeSignals_regs hK t.before).trans t.served_regs

theorem SignalTurn.after_regs (hK : SignalsOk K arch) (t : SignalTurn K arch)
    (h : t.signalled.1 = t.raised.1) : t.after.1.regs = t.atTrap.1.regs := by
  rw [afterSignals_regs t.finish, h, t.raised_regs hK]

theorem SignalTurn.after_sp_ne (hK : SignalsOk K arch) (t : SignalTurn K arch)
    (h : t.signalled.1 ≠ t.raised.1) : sp arch t.after.1 ≠ sp arch t.atTrap.1 := by
  rcases hK.pending _ _ t.signals with heq | hlt
  · exact absurd heq h
  · have hne := UInt64.ne_of_lt hlt
    simp only [sp] at hne ⊢
    rwa [afterSignals_regs t.finish, ← t.raised_regs hK]

theorem SignalTurn.call_iff (hK : SignalsOk K arch) (t : SignalTurn K arch) (grt : Bool) :
    gyhCall arch grt t.after.1 none = .ok (entryAtTrap arch grt t.trapnr t.atTrap.1) ↔
      t.signalled.1 = t.raised.1 ∧ sp arch t.atTrap.1 % 16 = 0 ∧ PassesArgs arch grt t.trapnr t.atTrap.1 := by
  rw [gyhCall_eq_ok]
  by_cases h : t.signalled.1 = t.raised.1
  · simp [sp, t.after_regs hK h, h, PassesArgs, entryAtTrap]
  · refine iff_of_false ?_ (fun hc => h hc.1)
    rintro ⟨_, _, he⟩
    refine t.after_sp_ne hK h ?_
    simpa [entryAtTrap] using congrArg HostEntry.stackPointer he

theorem contextAt_inj {x y : UInt64} : contextAt arch x = contextAt arch y ↔ x = y := by
  cases arch with
  | x86_64 => exact UInt64.add_left_inj 8
  | aarch64 | riscv64 => exact Iff.rfl

theorem SignalTurn.callbackReturn_iff (hK : SignalsOk K arch) (t : SignalTurn K arch) (mem : Memory) :
    (∃ e, gyhCallbackReturn arch t.after.1 mem none = .ok (e, contextAt arch (sp arch t.atTrap.1))) ↔
      t.signalled.1 = t.raised.1 ∧ (arch = .x86_64 ∨ sp arch t.atTrap.1 % 16 = 0) := by
  simp only [gyhCallbackReturn_eq_ok, Prod.mk.injEq, contextAt_inj]
  by_cases h : t.signalled.1 = t.raised.1
  · simp [sp, t.after_regs hK h, h]
  · refine iff_of_false ?_ (fun hc => h hc.1)
    rintro ⟨e, _, _, _, hsp⟩
    exact t.after_sp_ne hK h hsp

theorem SignalTurn.nr?_eq_asked (t : SignalTurn K arch) :
    t.outcome.nr? = asked arch t.trapnr t.atTrap.1 := by
  have hr := (serveTrap_recorded t.switch).1.symm
  rw [gyhTurn_ok t.toTurn, hr, dispatch_nr?, (asked_of_recorded hr).1]
  rfl

/-- A call or callback return that is trapped is dispatched on the registers of
its trap exactly when no signal handler is entered before. -/
theorem signal_unaffected_iff (hK : SignalsOk K arch) (t : SignalTurn K arch) (mem : Memory) (nr : Nr)
    (hnr : asked arch t.trapnr t.atTrap.1 = some nr) :
    t.outcome.nr? = some nr ∧ t.Unaffected mem nr ↔ t.Undisturbed nr := by
  rw [t.nr?_eq_asked, hnr, eq_self, true_and]
  cases nr with
  | call => exact t.call_iff hK false
  | callGrt => exact t.call_iff hK true
  | callbackReturn => exact t.callbackReturn_iff hK mem
  | ctor | dtor | ctorGrt | ctorFcpCm => exact Iff.rfl

def signalledGuest : Kernel Bool :=
  { Kernel.calm Bool with
    processPendingSignals := fun s =>
      if s.2 ∧ 512 ≤ s.1.regs 4 then
        .ok ((), { setReg 7 10 (setReg 4 (s.1.regs 4 - 512) s.1) with pc := 4096 }, false)
      else .ok ((), s) }

theorem signalledGuest_signalsOk : SignalsOk signalledGuest .x86_64 where
  fault := by
    intro _ _ _ s t h
    cases h
    rfl
  pending := by
    intro s t h
    simp only [signalledGuest] at h
    split at h
    next hc =>
      cases h
      refine .inr ?_
      have hle := UInt64.le_iff_toNat_le.mp hc.2
      rw [UInt64.lt_iff_toNat_lt, sp, sp]
      simp only [spReg, setReg, Function.update_of_ne (show (4 : Nat) ≠ 7 by decide), Function.update_self]
      rw [UInt64.toNat_sub_of_le _ _ hc.2]
      exact Nat.sub_lt (Nat.lt_of_lt_of_le (by decide) hle) (by decide)
    next =>
      cases h
      exact .inl rfl

def trappedCall : Env := setReg 4 8192 callEnv

def signalledTurn (pending : Bool) : SignalTurn signalledGuest .x86_64 where
  stale := ⟨0, fun _ => 0⟩
  start := (trappedCall, pending)
  trapnr := 0x101
  atTrap := (trappedCall, pending)
  outcome := dispatch ((⟨0, fun _ => 0⟩ : DoSyscall).record (recorded .x86_64 0x101 trappedCall))
  after := if pending then ({ setReg 7 10 (setReg 4 7680 trappedCall) with pc := 4096 }, false) else (trappedCall, false)
  exec := rfl
  turn := by cases pending <;> rfl
  call := ⟨50406, [0, 0, 0, 0, 0, 0]⟩
  served := (trappedCall, pending)
  raised := (trappedCall, pending)
  signalled := if pending then ({ setReg 7 10 (setReg 4 7680 trappedCall) with pc := 4096 }, false) else (trappedCall, false)
  switch := rfl
  before := rfl
  signals := by cases pending <;> rfl

theorem signalledTurn_undisturbed :
    (signalledTurn false).outcome.nr? = some .call ∧ (signalledTurn false).Unaffected (fun _ => 0) .call :=
  (signal_unaffected_iff signalledGuest_signalsOk (signalledTurn false) (fun _ => 0) .call rfl).mpr
    ⟨rfl, rfl, rfl⟩

/-- With the signal pending the host function runs with the signal's number as
its `qlibUid`, on the stack of the signal handler. -/
theorem signalledTurn_affected : SignalsOk signalledGuest .x86_64 ∧
    asked .x86_64 (signalledTurn true).trapnr (signalledTurn true).atTrap.1 = some .call ∧
      ¬ (signalledTurn true).Unaffected (fun _ => 0) .call := by
  refine ⟨signalledGuest_signalsOk, rfl, ?_⟩
  intro h
  obtain ⟨_, _, he⟩ := gyhCall_eq_ok.mp h
  exact absurd (congrArg HostEntry.stackPointer he) (by decide)

end Comulator.Signals
