import Comulator.ExecApprox
import Comulator.FastCalls
import Comulator.FcpCmSplit

namespace Comulator.CrossCalls

open Types Ir TypeHash HostIr TakeOut ChopOff Exec Simulation ExecRules Compose Approximation ExecApprox

section Program

variable {S W : Type}

structure Calls (S W : Type) extends Level S W where
  cross : Caller S W

abbrev Runner (S W : Type) := Ctx HostSym S W → List (Val S) → HFunction → Run S W (Val S)

variable (E : Setting S W) (m : Module) (O : Offloaded) (k : Nat) (copyAt : Val S → Option (Val S)) (run : Runner S W)

/-- A jump to the address of host code. It is a copy of this library, or one of
another library: then `copyAt` is the function that it is a copy of, and does. -/
def hostCall (l : Calls S W) : Caller S W := fun s h args =>
  match h with
  | .addr (.hostSym (.fcpFunc g)) => l.fcp g s args
  | h =>
      match copyAt h with
      | some v => l.cross s v args
      | none => throw .stuck

def crossCtx (l : Calls S W) : Ctx HostSym S W :=
  { hostCtx E O k l.guest l.fcp with indirect := hostCall copyAt l }

def crossFcp (l : Calls S W) (g : Nat) (s : Interface) (args : List (Val S)) : Run S W (Val S) :=
  match O.host.functions.lookup (.fcpFunc g) with
  | some f => do
      require (s.agrees f.interface)
      run (crossCtx E O k copyAt l) args f
  | none => throw .stuck

def crossEntry (l : Calls S W) (uid : Nat) (args : List (Val S)) : Run S W (Val S) :=
  match O.host.hfunctbl[uid]? with
  | some (.func sym) =>
      match O.host.functions.lookup sym with
      | some f => execFunction E.sem (crossCtx E O k copyAt { l with fcp := crossFcp E O k copyAt run l }) args f (k + 1)
      | none => throw .stuck
  | _ => throw .stuck

def enterCross (l : Calls S W) : List (Val S) → Run S W (Val S)
  | .addr (.guestSym .gyhQlibUid) :: .int 32 uid :: pads => crossEntry E O k copyAt run l uid pads
  | _ => throw .stuck

def outsideCall (call : Caller S W) : Caller S W := fun s v args => do
  let w ← getWorld
  perform call (E.guest s v args w)

def crossCall (l : Calls S W) : Caller S W := fun s v args => do
  record E v args
  match definedAt E m v with
  | some (g, f) =>
      match O.guest.chopped.lookup g with
      | some stub => callFunction E (stubCtx l.guest (enterCross E O k copyAt run l)) stub (k + 1) s args
      | none => callFunction E (originalCtx E m l.guest) f k s args
  | none => outsideCall E l.guest s v args

def crossLevel : Nat → Calls S W
  | 0 => ⟨⟨fun _ _ _ => throw .fuel, fun _ _ _ => throw .fuel⟩, fun _ _ _ => throw .fuel⟩
  | n + 1 =>
      ⟨⟨crossCall E m O k copyAt run (crossLevel n), crossFcp E O k copyAt run (crossLevel n)⟩,
        outsideCall E (crossLevel n).guest⟩

end Program

section Guarded

variable {S W : Type}

def readWord (sem : Sem S W) (C : Ctx HostSym S W) (j : Int) (v : Val S) : Run S W (Val S) := do
  let p ← elementOf sem j v
  loadFrom sem C (.integer 64) p

def readPrefix (sem : Sem S W) (C : Ctx HostSym S W) (v : Val S) : Run S W (Val S × Val S) := do
  let a ← readWord sem C (-2) v
  let b ← readWord sem C (-1) v
  let x ← onWorld (sem.op .xor (.integer 64) [] [.int 64 0x6666200009068888, b])
  let c ← onWorld (sem.op .icmp (.integer 1) [32] [a, x])
  return (c, b)

variable (E : Setting S W) (m : Module) (I : Input) (O : Offloaded) (k : Nat) (copyAt : Val S → Option (Val S))

def guarded (l : Calls S W) : Caller S W := fun s v args => do
  let r ← readPrefix E.sem (hostCtx E O k l.guest l.fcp) v
  let t ← need (E.sem.truth r.1)
  if t then do
    let h ← onWorld (E.sem.op .intToPtr ptrTy [] [r.2])
    hostCall copyAt l s h args
  else l.guest s v args

def guardedCtx (l : Calls S W) : Ctx Nat S W where
  toSymbols := guestSymbols
  cell := fun _ => none
  direct g :=
    match m.function? g with
    | none => none
    | some f =>
        match f.intrinsicId with
        | some id => some (runIntrinsic E id)
        | none =>
            if I.hasFcpFunc g then
              some (fun s vs => if s.type = f.type then l.fcp g s vs else guarded E O k copyAt l s (.addr (.guest g)) vs)
            else none
  indirect := guarded E O k copyAt l

def guardedFcp (l : Calls S W) (g : Nat) (s : Interface) (args : List (Val S)) : Run S W (Val S) :=
  if I.hasFcpFunc g then
    match m.function? g with
    | some f => callFunction E (guardedCtx E m I O k copyAt l) f k s args
    | none => throw .stuck
  else throw .stuck

def guardedCall (l : Calls S W) : Caller S W := fun s v args => do
  record E v args
  match definedAt E m v with
  | some (g, f) =>
      if (O.guest.chopped.lookup g).isSome then callFunction E (guardedCtx E m I O k copyAt l) f k s args
      else callFunction E (originalCtx E m l.guest) f k s args
  | none => outsideCall E l.guest s v args

def guardedLevel : Nat → Calls S W
  | 0 => ⟨⟨fun _ _ _ => throw .fuel, fun _ _ _ => throw .fuel⟩, fun _ _ _ => throw .fuel⟩
  | n + 1 =>
      ⟨⟨guardedCall E m I O k copyAt (guardedLevel n), guardedFcp E m I O k copyAt (guardedLevel n)⟩,
        outsideCall E (guardedLevel n).guest⟩

structure Calm (sem : Sem S W) : Prop where
  world : ∀ opcode ∈ [Opcode.getElementPtr, .load, .xor, .icmp, .intToPtr], ∀ ty is vs w v w',
    sem.op opcode ty is vs w = some (v, w') → w' = w
  pads : ∀ ty is vs w i w', sem.op .getElementPtr ty is vs w ≠ some (.addr (.pad i), w')

end Guarded

section Counted

variable {S W : Type} (sem : Sem S W) (C : Ctx HostSym S W) (args : List (Val S)) (f : HFunction)

def isWhole : HostBlock → Bool
  | .entry | .body _ => true
  | _ => false

def execWhole (rest : Option HostBlock → HostBlock → Env HostId S → Run S W (Val S)) :
    Nat → Option HostBlock → HostBlock → Env HostId S → Run S W (Val S)
  | 0, _, _, _ => throw .fuel
  | j + 1, prev, b, env => do
      let blk ← need (f.block? b)
      let r ← execBlock sem C args env prev blk
      match r.2 with
      | .ret v => return v
      | .goto d => if isWhole b then rest (some b) d r.1 else execWhole rest j (some b) d r.1

def execWholes : Nat → Option HostBlock → HostBlock → Env HostId S → Run S W (Val S)
  | 0, _, _, _ => throw .fuel
  | fuel + 1, prev, b, env => execWhole sem C args f (execWholes fuel) f.blocks.length prev b env

def execCopy (fuel : Nat) : Run S W (Val S) := do
  let _ ← need (evalConsts sem C.toSymbols (f.operands ++ f.prefixData.toList))
  require (args.length = f.type.params.length)
  let pads ← getPads
  let entry ← need (f.blocks.head?.map Prod.fst)
  let v ← execWholes sem C args f fuel none entry (fun _ => none)
  let pads' ← getPads
  setPads (pads'.take pads.length)
  return v

end Counted

end Comulator.CrossCalls
