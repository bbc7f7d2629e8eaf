import Comulator.ChopOff

namespace Comulator.Exec

open Types Ir TypeHash HostIr ChopOff

inductive Table
  | extreftbl
  | cbstubtbl
  deriving DecidableEq

/-- An address: of a global value of the guest or of what a constant makes of
one, of a callback stub, of a block of host code, of a pad or a depth of the
stack of pads, of the variable with a table and of an entry of the table. -/
inductive Addr
  | guest (g : Nat)
  | wrapped (kind : WrapperKind) (g : Nat)
  | cbStub (h : HashCode)
  | guestSym (s : GuestSym)
  | hostSym (s : HostSym)
  | hostBlock (s : HostSym) (b : Nat)
  | pad (i : Nat)
  | stack (depth : Nat)
  | variable (t : Table)
  | entry (t : Table) (i : Int)
  deriving DecidableEq

inductive Val (S : Type)
  | undef
  | poison
  | null
  | int (bitWidth value : Nat)
  | data (ty : Ty) (payload : Nat)
  | scalar (s : S)
  | addr (a : Addr)
  | agg (fields : List (Val S))
  | metadata (n : Nat)

inductive Halt
  | stuck
  | fuel
  | stopped
  deriving DecidableEq

structure GuestCall (S : Type) where
  callee : Val S
  args : List (Val S)

/-- The world is all that programs and guest functions can reach; the calls of
guest functions are recorded, and the pads are those of the generated code. -/
structure Machine (S W : Type) where
  world : W
  trace : List (GuestCall S)
  pads : List (Ty × Val S)

def Machine.withPads {S W : Type} (s : Machine S W) (pads : List (Ty × Val S)) : Machine S W := { s with pads }

abbrev Run (S W : Type) := EStateM Halt (Machine S W)

/-- The meaning of the instructions and constants that the passes do not look
into. What is undefined has no result. -/
structure Sem (S W : Type) where
  op : Opcode → Ty → List Nat → List (Val S) → W → Option (Val S × W)
  expr : Opcode → Ty → List Nat → List (Val S) → Val S
  intrinsic : IntrinsicId → FunctionType → List (Val S) → W → Option (Val S × W)
  truth : Val S → Option Bool
  isCase : Val S → Nat → Bool

structure Symbols (γ S : Type) where
  global : γ → Option (Val S)
  wrapper : WrapperKind → γ → Option (Val S)

/-- What the code of a function runs in: the symbols of its module, memory it
reads besides the pads, functions called by their symbol, and all other calls. -/
structure Ctx (γ S W : Type) extends Symbols γ S where
  cell : Addr → Option (Val S)
  direct : γ → Option (Interface → List (Val S) → Run S W (Val S))
  indirect : Interface → Val S → List (Val S) → Run S W (Val S)

section Basic

variable {S W α : Type}

def need : Option α → Run S W α
  | some a => pure a
  | none => throw .stuck

def require (b : Bool) : Run S W Unit := if b then pure () else throw .stuck

def onWorld (f : W → Option (Val S × W)) : Run S W (Val S) := fun s =>
  match f s.world with
  | some (v, w) => .ok v { s with world := w }
  | none => .error .stuck s

def setPads (pads : List (Ty × Val S)) : Run S W Unit := modify (fun s => s.withPads pads)

def getPads : Run S W (List (Ty × Val S)) := do return (← get).pads

end Basic

section Eval

variable {γ ι β S W : Type} [DecidableEq β] (sem : Sem S W) (A : Symbols γ S)

mutual

def evalConst : Const γ → Option (Val S)
  | .int w v => some (.int w v)
  | .nullPtr => some .null
  | .undef 0 => some .undef
  | .undef (n + 1) => some (.agg (List.replicate (n + 1) .undef))
  | .poison => some .poison
  | .data ty p => some (.data ty p)
  | .global g => A.global g
  | .aggregate _ ops => do return .agg (← evalConsts ops)
  | .expr opcode ty is ops => do return sem.expr opcode ty is (← evalConsts ops)
  | .wrapper kind g => A.wrapper kind g

def evalConsts : List (Const γ) → Option (List (Val S))
  | [] => some []
  | c :: cs => do return (← evalConst c) :: (← evalConsts cs)

end

abbrev Env (ι S : Type) := ι → Option (Val S)

variable (args : List (Val S)) (env : Env ι S)

/-- A value wrapped as metadata is nothing at run time. -/
def evalValue : Value γ ι → Option (Val S)
  | .const c => evalConst sem A c
  | .arg i => args[i]?
  | .inst x => env x
  | .metadata (.node n) => some (.metadata n)
  | .metadata _ => some .undef
  | .inlineAsm _ => none

def evalValues (vs : List (Value γ ι)) : Option (List (Val S)) := vs.mapM (evalValue sem A args env)

def phiValue (prev : Option β) (p : Phi γ ι β) : Option (Val S) := do
  let q ← p.incoming.find? (fun q => prev = some q.2)
  evalValue sem A args env q.1

def assignAll [DecidableEq ι] (env : Env ι S) (l : List (ι × Val S)) : Env ι S :=
  l.foldl (fun env e => Function.update env e.1 (some e.2)) env

def execPhis [DecidableEq ι] (prev : Option β) (l : List (Phi γ ι β)) : Run S W (Env ι S) := do
  let vs ← need (l.mapM (phiValue sem A args env prev))
  return assignAll env ((l.map Phi.id).zip vs)

inductive Next (β S : Type)
  | ret (v : Val S)
  | goto (b : β)

def execTerm : Term γ ι β → Run S W (Next β S)
  | .ret none => return .ret .undef
  | .ret (some (_, v)) => do return .ret (← need (evalValue sem A args env v))
  | .br d => return .goto d
  | .condBr v a b => do
      let v ← need (evalValue sem A args env v)
      let t ← need (sem.truth v)
      return .goto (if t then a else b)
  | .switch v d cases => do
      let v ← need (evalValue sem A args env v)
      return .goto (((cases.find? (fun p => sem.isCase v p.1)).map Prod.snd).getD d)
  | _ => throw .stuck

end Eval

section Interpreter

variable {γ ι β S W : Type} [DecidableEq ι] [DecidableEq β] (sem : Sem S W) (C : Ctx γ S W)
variable (args : List (Val S)) (env : Env ι S)

def callee (c : CallBase γ ι) : Option (List (Val S) → Run S W (Val S)) :=
  match c.calledOperand with
  | .const (.global g) =>
      match C.direct g with
      | some h => some (h c.interface)
      | none => (C.global g).map (C.indirect c.interface)
  | v => (evalValue sem C.toSymbols args env v).map (C.indirect c.interface)

def execCall (c : CallBase γ ι) : Run S W (Val S) := do
  let vs ← need (evalValues sem C.toSymbols args env (c.args.map Prod.snd))
  let f ← need (callee sem C args env c)
  f vs

def loadFrom (ty : Ty) : Val S → Run S W (Val S)
  | .addr (.pad i) => do
      let pads ← getPads
      match pads[i]? with
      | some (ty', v) => if ty' = ty then pure v else throw .stuck
      | none => throw .stuck
  | .addr a =>
      match C.cell a with
      | some v => if ty = ptrTy then pure v else throw .stuck
      | none => onWorld (sem.op .load ty [] [.addr a])
  | v => onWorld (sem.op .load ty [] [v])

def storeTo (ty : Ty) (v : Val S) : Val S → Run S W (Val S)
  | .addr (.pad i) => do
      let pads ← getPads
      match pads[i]? with
      | some (ty', _) => if ty' = ty then do setPads (pads.set i (ty, v)); pure .undef else throw .stuck
      | none => throw .stuck
  | _ => throw .stuck

def elementOf (k : Int) : Val S → Run S W (Val S)
  | .addr (.entry t i) => return .addr (.entry t (i + k))
  | v => onWorld (sem.op .getElementPtr ptrTy [] [v, .int 64 (k % 2 ^ 64).toNat])

def insertAt (i : Nat) (v : Val S) : Val S → Run S W (Val S)
  | .agg fields => if i < fields.length then return .agg (fields.set i v) else throw .stuck
  | _ => throw .stuck

def extractAt (i : Nat) : Val S → Run S W (Val S)
  | .agg fields => need fields[i]?
  | _ => throw .stuck

def restoreTo : Val S → Run S W (Val S)
  | .addr (.stack n) => do
      let pads ← getPads
      setPads (pads.take n)
      return .undef
  | _ => throw .stuck

def execOp (op : InstOp γ ι) : Run S W (Val S) :=
  let eval := fun v => (need (evalValue sem C.toSymbols args env v) : Run S W (Val S))
  let evals := fun vs => (need (evalValues sem C.toSymbols args env vs) : Run S W (List (Val S)))
  match op with
  | .call c => execCall sem C args env c
  | .op opcode ty is ops => do
      let vs ← evals ops
      onWorld (sem.op opcode ty is vs)
  | .landingPad | .catchPad | .cleanupPad => throw .stuck
  | .alloca ty => do
      let pads ← getPads
      setPads (pads ++ [(ty, .undef)])
      return .addr (.pad pads.length)
  | .load ty ptr => do
      let p ← eval ptr
      loadFrom sem C ty p
  | .store ty v ptr => do
      let v ← eval v
      let p ← eval ptr
      storeTo ty v p
  | .elementPtr ptr k => do
      let p ← eval ptr
      elementOf sem k p
  | .insertValue aggregate v i => do
      let a ← eval aggregate
      let v ← eval v
      insertAt i v a
  | .extractValue aggregate i => do
      let a ← eval aggregate
      extractAt i a
  | .expand opcode ty is ops => do
      let vs ← evals ops
      return sem.expr opcode ty is vs
  | .stackSave => do
      let pads ← getPads
      return .addr (.stack pads.length)
  | .stackRestore saved => do
      let p ← eval saved
      restoreTo p
  | .intToPtr v => do
      let v ← eval v
      onWorld (sem.op .intToPtr ptrTy [] [v])
  | .xorMagic magic v => do
      let v ← eval v
      onWorld (sem.op .xor (.integer 64) [] [.int 64 magic, v])
  | .icmpEq a b => do
      let a ← eval a
      let b ← eval b
      onWorld (sem.op .icmp (.integer 1) [32] [a, b])

def isVoidCall : InstOp γ ι → Bool
  | .call c => c.functionType.ret = .void
  | _ => false

def execInst (env : Env ι S) (i : Inst γ ι) : Run S W (Env ι S) := do
  let v ← execOp sem C args env i.op
  return if isVoidCall i.op then env else Function.update env i.id (some v)

def execInsts (env : Env ι S) (l : List (Inst γ ι)) : Run S W (Env ι S) := l.foldlM (execInst sem C args) env

def execBlock (prev : Option β) (b : Block γ ι β) : Run S W (Env ι S × Next β S) := do
  let env ← execPhis sem C.toSymbols args env prev b.phis
  let env ← execInsts sem C args env b.insts
  let next ← execTerm sem C.toSymbols args env b.term
  return (env, next)

def execBlocks (f : Function γ ι β) : Nat → Option β → β → Env ι S → Run S W (Val S)
  | 0, _, _, _ => throw .fuel
  | fuel + 1, prev, b, env => do
      let blk ← need (f.block? b)
      let (env, next) ← execBlock sem C args env prev blk
      match next with
      | .ret v => return v
      | .goto d => execBlocks f fuel (some b) d env

def execFunction (f : Function γ ι β) (fuel : Nat) : Run S W (Val S) := do
  let _ ← need (evalConsts sem C.toSymbols (f.operands ++ f.prefixData.toList))
  require (args.length = f.type.params.length)
  let pads ← getPads
  let entry ← need (f.blocks.head?.map Prod.fst)
  let v ← execBlocks sem C args f fuel none entry (fun _ => none)
  let pads' ← getPads
  setPads (pads'.take pads.length)
  return v

end Interpreter

end Comulator.Exec
