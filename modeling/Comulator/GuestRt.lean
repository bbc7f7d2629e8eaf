import Mathlib.Logic.Function.Basic
import Mathlib.Tactic.Common

namespace Comulator.GuestRt

inductive Arch
  | x86_64 | aarch64 | riscv64
  deriving DecidableEq

def nrStart : Nat := 50000

inductive Nr
  | ctor | dtor | call | callbackReturn | ctorGrt | callGrt | ctorFcpCm
  deriving DecidableEq

def Nr.number : Nr → Nat
  | .ctor => 50046
  | .dtor => 50096
  | .call => 50406
  | .callbackReturn => 50906
  | .ctorGrt => 51046
  | .callGrt => 51406
  | .ctorFcpCm => 52046

def Nr.all : List Nr := [.ctor, .dtor, .call, .callbackReturn, .ctorGrt, .callGrt, .ctorFcpCm]

def nr? (number : Nat) : Option Nr := Nr.all.find? (fun nr => nr.number == number)

theorem nr?_number (nr : Nr) : nr? nr.number = some nr := by
  cases nr <;> rfl

theorem number_of_nr? {number : Nat} {nr : Nr} (h : nr? number = some nr) : nr.number = number := by
  have hf := List.find?_some h
  simpa using hf

theorem nrStart_lt_number (nr : Nr) : nrStart < nr.number := by
  cases nr <;> decide

/-- The lines of an entry point, as far as they matter to what it asks for:
`frame` and `unframe` are the pretended function call and return around it,
argument registers are counted from 0. -/
inductive Line
  | frame
  | loadCallbackReturn (arg : Nat)
  | number (nr : Nr)
  | trap
  | unframe
  | ret
  deriving DecidableEq

def gyhCtorEntry : Arch → List Line
  | .x86_64 | .aarch64 | .riscv64 => [.frame, .loadCallbackReturn 1, .number .ctor, .trap, .unframe, .ret]

/-- The x86-64 entry point lacks the trap of the other two. -/
def gyhDtorEntry : Arch → List Line
  | .x86_64 => [.frame, .number .dtor, .unframe, .ret]
  | .aarch64 | .riscv64 => [.frame, .number .dtor, .trap, .unframe, .ret]

def gyhCtorGrtEntry : Arch → List Line
  | .x86_64 | .aarch64 | .riscv64 => [.frame, .loadCallbackReturn 3, .number .ctorGrt, .trap, .unframe, .ret]

structure Trap (Arg : Type) where
  nr : Nr
  args : Nat → Arg

def traps {Arg : Type} (callbackReturn : Arg) : List Line → (Nat → Arg) → Option Nr → List (Trap Arg)
  | [], _, _ => []
  | .loadCallbackReturn i :: ls, args, nr => traps callbackReturn ls (Function.update args i callbackReturn) nr
  | .number nr :: ls, args, _ => traps callbackReturn ls args (some nr)
  | .trap :: ls, args, some nr => ⟨nr, args⟩ :: traps callbackReturn ls args (some nr)
  | _ :: ls, args, nr => traps callbackReturn ls args nr

end Comulator.GuestRt
