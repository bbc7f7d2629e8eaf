import Comulator.Exec
import Comulator.TakeOut

namespace Comulator.Compose

open Types Ir TypeHash HostIr TakeOut ChopOff Exec

inductive Behaviour (S W : Type)
  | ret (v : Val S) (w : W)
  | stop (w : W)
  | call (s : Interface) (callee : Val S) (args : List (Val S)) (w : W) (resume : Val S → W → Behaviour S W)

abbrev Caller (S W : Type) := Interface → Val S → List (Val S) → Run S W (Val S)

/-- What the run of a guest program is over besides the module. A function in
`known` is run by its code, any other behaves as `guest` says, whatever that is. -/
structure Setting (S W : Type) where
  sem : Sem S W
  guest : Interface → Val S → List (Val S) → W → Behaviour S W
  known : Nat → Bool
  recorded : Val S → Bool

section Guest

variable {S W : Type}

def setWorld (w : W) : Run S W Unit := modify (fun s => { s with world := w })

def getWorld : Run S W W := do return (← get).world

def perform (call : Caller S W) : Behaviour S W → Run S W (Val S)
  | .ret v w => do
      setWorld w
      return v
  | .stop w => do
      setWorld w
      throw .stopped
  | .call s v args w resume => do
      setWorld w
      let r ← call s v args
      let w ← getWorld
      perform call (resume r w)

variable (E : Setting S W) (m : Module)

def record (v : Val S) (args : List (Val S)) : Run S W Unit :=
  modify (fun s => if E.recorded v then { s with trace := s.trace ++ [⟨v, args⟩] } else s)

theorem record_apply (v : Val S) (args : List (Val S)) (s : Machine S W) :
    record E v args s = .ok () (if E.recorded v then { s with trace := s.trace ++ [⟨v, args⟩] } else s) := rfl

def definedAt : Val S → Option (Nat × GFunction)
  | .addr (.guest g) =>
      match m.function? g with
      | some f => if E.known g && !f.isDeclaration then some (g, f) else none
      | none => none
  | _ => none

def guestSymbols : Symbols Nat S := ⟨fun g => some (.addr (.guest g)), fun kind g => some (.addr (.wrapped kind g))⟩

def runIntrinsic (id : IntrinsicId) (s : Interface) (args : List (Val S)) : Run S W (Val S) :=
  onWorld (E.sem.intrinsic id s.type args)

def originalCtx (call : Caller S W) : Ctx Nat S W where
  toSymbols := guestSymbols
  cell := fun _ => none
  direct := fun g => ((m.function? g).bind Function.intrinsicId).map (runIntrinsic E)
  indirect := call

def callFunction {γ ι β : Type} [DecidableEq ι] [DecidableEq β] (C : Ctx γ S W) (f : Function γ ι β) (fuel : Nat)
    (s : Interface) (args : List (Val S)) : Run S W (Val S) := do
  require (s.agrees f.interface)
  execFunction E.sem C args f fuel

/-- A call in the program as it was, where calls nest at most as deep as the
last number and each function runs through at most `k` blocks. -/
def originalCall (k : Nat) : Nat → Caller S W
  | 0, _, _, _ => throw .fuel
  | n + 1, s, v, args => do
      record E v args
      match definedAt E m v with
      | some (_, f) => callFunction E (originalCtx E m (originalCall k n)) f k s args
      | none => do
          let w ← getWorld
          perform (originalCall k n) (E.guest s v args w)

end Guest

structure Offloaded where
  host : HostModule
  guest : GuestModule

section Composed

variable {S W : Type} (E : Setting S W) (m : Module) (O : Offloaded) (k : Nat)

def stubSymbols : Symbols GuestSym S where
  global
    | .user g => some (.addr (.guest g))
    | .cbStub h => some (.addr (.cbStub h))
    | s => some (.addr (.guestSym s))
  wrapper kind
    | .user g => some (.addr (.wrapped kind g))
    | _ => none

def stubCtx (call : Caller S W) (enter : List (Val S) → Run S W (Val S)) : Ctx GuestSym S W where
  toSymbols := stubSymbols
  cell := fun _ => none
  direct
    | .gyhCall | .gyhCallGrt => some (fun _ => enter)
    | .gyhDebug => some (fun _ _ => pure .undef)
    | _ => none
  indirect := call

def callback (call : Caller S W) : List (Val S) → Run S W (Val S)
  | [.addr (.cbStub h), v, retPad, argPad] =>
      match O.guest.cbStubs.lookup h with
      | some stub => execFunction E.sem (stubCtx call (fun _ => throw .stuck)) [retPad, argPad, v] stub (k + 1)
      | none => throw .stuck
  | _ => throw .stuck

def hostSymbols : Symbols HostSym S where
  global
    | .user _ => none
    | .extreftbl => some (.addr (.variable .extreftbl))
    | .cbstubtbl => some (.addr (.variable .cbstubtbl))
    | s => some (.addr (.hostSym s))
  wrapper
    | .blockAddress b, .hstub uid => some (.addr (.hostBlock (.hstub uid) b))
    | .blockAddress b, .fcpFunc g => some (.addr (.hostBlock (.fcpFunc g) b))
    | _, _ => none

def tableEntry : Table → Int → Option (Val S)
  | .extreftbl, .ofNat i => (O.guest.extreftbl[i]?.join).map (fun g => .addr (.guest g))
  | .cbstubtbl, .ofNat i => (O.guest.cbstubtbl[i]?.join).map (fun h => .addr (.cbStub h))
  | _, _ => none

def hostCell : Addr → Option (Val S)
  | .variable t => some (.addr (.entry t 0))
  | .entry t i => tableEntry O t i
  | _ => none

def hostCtx (call : Caller S W) (fcp : Nat → Interface → List (Val S) → Run S W (Val S)) : Ctx HostSym S W where
  toSymbols := hostSymbols
  cell := hostCell O
  direct
    | .gyhCallback => some (fun _ => callback E O k call)
    | .gyhDebug => some (fun _ _ => pure .undef)
    | .intrinsic id => some (runIntrinsic E id)
    | .fcpFunc g => some (fcp g)
    | _ => none
  indirect := fun _ _ _ => throw .stuck

structure Level (S W : Type) where
  guest : Caller S W
  fcp : Nat → Interface → List (Val S) → Run S W (Val S)

def callFcp (l : Level S W) (g : Nat) (s : Interface) (args : List (Val S)) : Run S W (Val S) :=
  match O.host.functions.lookup (.fcpFunc g) with
  | some f => callFunction E (hostCtx E O k l.guest l.fcp) f (k + 1) s args
  | none => throw .stuck

def callEntry (l : Level S W) (uid : Nat) (args : List (Val S)) : Run S W (Val S) :=
  match O.host.hfunctbl[uid]? with
  | some (.func sym) =>
      match O.host.functions.lookup sym with
      | some f => execFunction E.sem (hostCtx E O k l.guest (callFcp E O k l)) args f (k + 1)
      | none => throw .stuck
  | _ => throw .stuck

def enterHost (l : Level S W) : List (Val S) → Run S W (Val S)
  | .addr (.guestSym .gyhQlibUid) :: .int 32 uid :: pads => callEntry E O k l uid pads
  | _ => throw .stuck

/-- A call in the program as it is after the passes. Generated functions have
one block more than what they are made from. -/
def composedCall (l : Level S W) : Caller S W := fun s v args => do
  record E v args
  match definedAt E m v with
  | some (g, f) =>
      match O.guest.chopped.lookup g with
      | some stub => callFunction E (stubCtx l.guest (enterHost E O k l)) stub (k + 1) s args
      | none => callFunction E (originalCtx E m l.guest) f k s args
  | none => do
      let w ← getWorld
      perform l.guest (E.guest s v args w)

def level : Nat → Level S W
  | 0 => ⟨fun _ _ _ => throw .fuel, fun _ _ _ => throw .fuel⟩
  | n + 1 => ⟨composedCall E m O k (level n), callFcp E O k (level n)⟩

end Composed

def outcome {S W α : Type} : EStateM.Result Halt (Machine S W) α → Except Halt α × W × List (GuestCall S)
  | .ok a s => (.ok a, s.world, s.trace)
  | .error e s => (.error e, s.world, s.trace)

end Comulator.Compose
