import Comulator.Cpu

namespace Comulator.CpuLoop

open Fallible GuestRt Cpu

structure DoSyscall where
  num : UInt32
  args : Nat → UInt64

def DoSyscall.record (g : DoSyscall) : Option Recorded → DoSyscall
  | some r => ⟨r.num, fun i => (r.args[i]?).getD (g.args i)⟩
  | none => g

inductive Dispatch
  | skip
  | handler (nr : Nr) (args : Nat → UInt64)
  | invalid

def dispatch (g : DoSyscall) : Dispatch :=
  if g.num = 0 then .skip
  else match nr? g.num.toNat with
    | some nr => .handler nr g.args
    | none => .invalid

def Dispatch.nr? : Dispatch → Option Nr
  | .handler nr _ => some nr
  | _ => none

variable {W : Type} (K : Kernel W) (arch : Arch)

def gyhDoCpu (g : DoSyscall) : CpuM W DoSyscall := do
  let trapnr ← K.cpuExec
  let r ← serveTrap K arch true trapnr
  afterTrap K arch
  return g.record r

/-- One turn of the loop of `gyh_cpu_loop` up to the handler, where the local
`gyh_syscall` starts with the bytes `stale`. -/
def gyhTurn (stale : DoSyscall) : CpuM W Dispatch := do
  let g ← gyhDoCpu K arch stale
  return dispatch g

structure Turn where
  stale : DoSyscall
  start : Env × W
  trapnr : Nat
  atTrap : Env × W
  outcome : Dispatch
  after : Env × W
  exec : K.cpuExec start = .ok (trapnr, atTrap)
  turn : gyhTurn K arch stale start = .ok (outcome, after)

variable {K arch}

def asked (arch : Arch) (trapnr : Nat) (e : Env) : Option Nr :=
  match syscallNumber? arch trapnr e with
  | some number => if nrStart < number.toNat then nr? number.toUInt32.toNat else none
  | none => none

/-- The handler run is the one the trap asks for, if any, and the loop aborts
only on a system call. -/
def Exact (arch : Arch) (trapnr : Nat) (e : Env) (d : Dispatch) : Prop :=
  (∀ nr, d.nr? = some nr ↔ asked arch trapnr e = some nr) ∧
    (d = .invalid → syscallNumber? arch trapnr e ≠ none)

def Turn.Exact (t : Turn K arch) : Prop := CpuLoop.Exact arch t.trapnr t.atTrap.1 t.outcome

/-- The trap is a system call that `gyh_do_cpu` records; or the bytes left in
the local name the very handler that is asked for, if any, and are zero unless
they name one or the trap is a system call. -/
def Fresh (arch : Arch) (trapnr : Nat) (e : Env) (stale : DoSyscall) : Prop :=
  (recorded arch trapnr e).isSome ∨
    nr? stale.num.toNat = asked arch trapnr e ∧
      (stale.num = 0 ∨ (nr? stale.num.toNat).isSome ∨ syscallNumber? arch trapnr e ≠ none)

def Turn.Fresh (t : Turn K arch) : Prop := CpuLoop.Fresh arch t.trapnr t.atTrap.1 t.stale

theorem gyhTurn_ok (t : Turn K arch) :
    t.outcome = dispatch (t.stale.record (recorded arch t.trapnr t.atTrap.1)) := by
  obtain ⟨⟨g, u⟩, hg, h⟩ := bind_eq_ok.mp t.turn
  obtain ⟨⟨trapnr, v⟩, hexec, hg⟩ := bind_eq_ok.mp hg
  rw [t.exec] at hexec
  cases hexec
  obtain ⟨⟨r, v⟩, hr, hg⟩ := bind_eq_ok.mp hg
  obtain ⟨⟨_, v'⟩, _, hg⟩ := bind_eq_ok.mp hg
  obtain ⟨rfl, _⟩ := serveTrap_recorded hr
  cases hg
  exact (congrArg Prod.fst (Except.ok.inj h)).symm

theorem dispatch_nr? (g : DoSyscall) : (dispatch g).nr? = nr? g.num.toNat := by
  unfold dispatch
  by_cases h0 : g.num = 0
  · rw [if_pos h0, h0]
    rfl
  · rw [if_neg h0]
    cases nr? g.num.toNat <;> rfl

theorem dispatch_invalid (g : DoSyscall) : dispatch g = .invalid ↔ g.num ≠ 0 ∧ nr? g.num.toNat = none := by
  unfold dispatch
  by_cases h0 : g.num = 0
  · simp [h0]
  · rw [if_neg h0]
    cases nr? g.num.toNat <;> simp [h0]

theorem asked_of_recorded {trapnr : Nat} {e : Env} {r : Recorded} (h : recorded arch trapnr e = some r) :
    asked arch trapnr e = nr? r.num.toNat ∧ syscallNumber? arch trapnr e ≠ none := by
  unfold recorded at h
  unfold asked
  split at h
  next number hn =>
    split at h
    next hc =>
      cases h
      simp only [Bool.and_eq_true, decide_eq_true_eq] at hc
      rw [hn]
      simp [hc.1]
    next => cases h
  next => cases h

theorem exact_iff_fresh (trapnr : Nat) (e : Env) (stale : DoSyscall) :
    Exact arch trapnr e (dispatch (stale.record (recorded arch trapnr e))) ↔ Fresh arch trapnr e stale := by
  unfold Exact Fresh
  cases hr : recorded arch trapnr e with
  | some r =>
      obtain ⟨hasked, hsys⟩ := asked_of_recorded hr
      simp only [dispatch_nr?, DoSyscall.record, hasked]
      simp [hsys]
  | none =>
      simp only [dispatch_nr?, dispatch_invalid, DoSyscall.record, ← Option.ext_iff, Option.isSome_none,
        Bool.false_eq_true, false_or]
      refine and_congr_right (fun _ => ?_)
      by_cases h0 : stale.num = 0
      · simp [h0]
      · cases nr? stale.num.toNat <;> simp [h0]

theorem Turn.exact_iff_fresh (t : Turn K arch) : t.Exact ↔ t.Fresh := by
  rw [Turn.Exact, gyhTurn_ok t]
  exact CpuLoop.exact_iff_fresh _ _ _

structure Run (K : Kernel W) (arch : Arch) (handle : Dispatch → CpuM W Unit) where
  turns : List (Turn K arch)
  chained : turns.IsChain (fun t u => handle t.outcome t.after = .ok ((), u.start))

/-- In every run of the loop the turns dispatch their own system calls exactly
when what they find in the uninitialised local does not get in the way. -/
theorem run_exact_iff_fresh {handle : Dispatch → CpuM W Unit} (run : Run K arch handle) :
    (∀ t ∈ run.turns, t.Exact) ↔ ∀ t ∈ run.turns, t.Fresh :=
  forall₂_congr (fun t _ => t.exact_iff_fresh)

def interruptedGuest : Kernel Nat :=
  { Kernel.calm Nat with
    cpuExec := fun s => .ok (if s.2 = 0 then 0x101 else 0x10000, (setReg 0 50406 s.1, s.2 + 1)) }

def zeroEnv : Env := ⟨0, fun _ => 0, 0, 0, 0, 0, 0, 0, 0, false⟩

def callEnv : Env := setReg 0 50406 zeroEnv

def callTurn : Turn interruptedGuest .x86_64 where
  stale := ⟨0, fun _ => 0⟩
  start := (zeroEnv, 0)
  trapnr := 0x101
  atTrap := (callEnv, 1)
  outcome := dispatch ((⟨0, fun _ => 0⟩ : DoSyscall).record (recorded .x86_64 0x101 callEnv))
  after := (callEnv, 1)
  exec := rfl
  turn := rfl

def interruptTurn : Turn interruptedGuest .x86_64 where
  stale := (⟨0, fun _ => 0⟩ : DoSyscall).record (recorded .x86_64 0x101 callEnv)
  start := (callEnv, 1)
  trapnr := 0x10000
  atTrap := (setReg 0 50406 callEnv, 2)
  outcome := dispatch ((⟨0, fun _ => 0⟩ : DoSyscall).record (recorded .x86_64 0x101 callEnv))
  after := (setReg 0 50406 callEnv, 2)
  exec := rfl
  turn := rfl

def interruptedRun : Run interruptedGuest .x86_64 (fun _ => pure ()) where
  turns := [callTurn, interruptTurn]
  chained := .cons_cons rfl (.singleton _)

/-- The interrupt after the call dispatches the call a second time. -/
theorem interrupted_run_not_exact : ¬ ∀ t ∈ interruptedRun.turns, t.Exact := by
  intro h
  have ht := (h interruptTurn (by simp [interruptedRun])).1 .call
  have hrun : interruptTurn.outcome.nr? = some .call := rfl
  have hasked : asked .x86_64 interruptTurn.trapnr interruptTurn.atTrap.1 = none := rfl
  rw [hasked] at ht
  cases ht.mp hrun

end Comulator.CpuLoop
