import Comulator.Module

namespace Comulator.HostIr

open Types Ir

inductive HostSym
  | user (g : Nat)
  | gyhCallback
  | gyhDebug
  | callDebugFmt
  | callbackDebugFmt
  | extreftbl
  | cbstubtbl
  | hstub (uid : Nat)
  | fcpFunc (g : Nat)
  | whiteCallee (g : Nat)
  | intrinsic (id : IntrinsicId)
  deriving DecidableEq

/-- The name of an instruction of a host function: the `index`-th made for an
instruction of the guest function, or of the entry block. Index 0 is the copy
of the guest's instruction, or what has replaced it. -/
structure HostId where
  owner : Option Nat
  index : Nat
  deriving DecidableEq

def bodyId (n : Nat) : HostId := ⟨some n, 0⟩

inductive HostBlock
  | entry
  | body (b : Nat)
  | top (call : Nat)
  | left (call : Nat)
  | right (call : Nat)
  deriving DecidableEq

abbrev HValue := Value HostSym HostId
abbrev HOp := InstOp HostSym HostId
abbrev HInst := Inst HostSym HostId
abbrev HPhi := Phi HostSym HostId HostBlock
abbrev HTerm := Term HostSym HostId HostBlock
abbrev HBlock := Block HostSym HostId HostBlock
abbrev HFunction := Function HostSym HostId HostBlock

def ptrTy : Ty := .pointer 0

def ptrsType (n : Nat) : FunctionType := ⟨.void, List.replicate n ptrTy, false⟩

section Chain

variable {γ ι : Type}

def chainValue (name : Nat → ι) (n : Nat) : Nat → Value γ ι
  | 0 => .const (.undef n)
  | i + 1 => .inst (name i)

def insertChain (name : Nat → ι) (vs : List (Value γ ι)) : List (Inst γ ι) :=
  vs.zipIdx.map (fun p => ⟨name p.2, .insertValue (chainValue name vs.length p.2) p.1 p.2⟩)

def packCode (name : Nat → ι) (ty : Ty) (vs : List (Value γ ι)) : List (Inst γ ι) :=
  let insert := fun i => name (2 + i)
  insertChain insert vs ++
    [⟨name 0, .alloca ty⟩, ⟨name 1, .store ty (chainValue insert vs.length vs.length) (.inst (name 0))⟩]

end Chain

/-- Where `TakeOut` stops: an assertion or an `abort`, an access through a null
pointer, or a recursion without end. -/
inductive Error
  | unexpectedGlobal | overflow | unhashableCallback | noCbStub | noGref | noCallbackStub | noFcpFunc | noTable
  | argCount | rejected
  deriving DecidableEq

mutual

/-- What `CloneFunctionInto` makes of a constant: the function's own block
addresses become those of the copy, all other symbols stay. -/
def cloneConst (self : Nat × HostSym) : Const Nat → Const HostSym
  | .int w v => .int w v
  | .nullPtr => .nullPtr
  | .undef n => .undef n
  | .poison => .poison
  | .data ty p => .data ty p
  | .global g => .global (.user g)
  | .aggregate kind ops => .aggregate kind (cloneConsts self ops)
  | .expr opcode ty is ops => .expr opcode ty is (cloneConsts self ops)
  | .wrapper (.blockAddress b) g => .wrapper (.blockAddress b) (if g = self.1 then self.2 else .user g)
  | .wrapper kind g => .wrapper kind (.user g)

def cloneConsts (self : Nat × HostSym) : List (Const Nat) → List (Const HostSym)
  | [] => []
  | c :: cs => cloneConst self c :: cloneConsts self cs

end

def isOwn (self : Nat) : WrapperKind → Nat → Bool
  | .blockAddress _, g => g == self
  | _, _ => false

section Walk

variable (refs : Nat → Option HostId) (walk : Nat → Except Error Unit)

mutual

def constNew : Const Nat → Except Error Bool
  | .global g => if (refs g).isSome then .ok true else do
      walk g
      return false
  | .aggregate _ ops => constsNew ops
  | .expr _ _ _ ops => constsNew ops
  | .wrapper _ g => if (refs g).isSome then .ok false else do
      walk g
      return false
  | _ => .ok false

def constsNew : List (Const Nat) → Except Error Bool
  | [] => .ok false
  | c :: cs => do
      let new ← constNew c
      let news ← constsNew cs
      return new || news

end

end Walk

/-- `do_operand` on a global value without a replacement goes through its
operands. Once it is deeper than there are global values, it is in a cycle. -/
def walkGlobal (m : Module) (refs : Nat → Option HostId) : Nat → Nat → Except Error Unit
  | 0, _ => .error .overflow
  | fuel + 1, g => do
      let new ← constsNew refs (walkGlobal m refs fuel) (m.globalOperands g)
      if new then .error .unexpectedGlobal else .ok ()

/-- What `do_operand` reads: `mExtRefsMap`, the function being copied and the
copy, `mInstruction` and whether it is a `llvm::DbgValueInst`. -/
structure Site where
  refs : Nat → Option HostId
  self : Nat × HostSym
  walk : Nat → Except Error Unit
  owner : Nat
  dbg : Bool

def Site.name (S : Site) (k : Nat) : HostId := ⟨some S.owner, k⟩

mutual

/-- `do_operand` on a constant: the instructions inserted, named from `k` on,
and the new value if there is one. -/
def doConst (S : Site) (k : Nat) : Const Nat → Except Error (List HInst × Option HValue)
  | .global g =>
      match S.refs g with
      | some x => .ok ([], some (.inst x))
      | none =>
          if S.dbg then .ok ([], some (.const .poison))
          else do
            S.walk g
            return ([], none)
  | .aggregate _ ops => do
      let (code, vs, new) ← doConsts S k ops
      let name := fun i => S.name (k + code.length + i)
      if new then return (code ++ insertChain name vs, some (chainValue name vs.length vs.length))
      else return (code, none)
  | .expr opcode ty is ops => do
      let (code, vs, new) ← doConsts S k ops
      let x := S.name (k + code.length)
      if new then return (code ++ [⟨x, .expand opcode ty is vs⟩], some (.inst x))
      else return (code, none)
  | .wrapper kind g =>
      if S.dbg || (!isOwn S.self.1 kind g && (S.refs g).isSome) then .ok ([], none)
      else do
        S.walk g
        return ([], none)
  | _ => .ok ([], none)

def doConsts (S : Site) (k : Nat) : List (Const Nat) → Except Error (List HInst × List HValue × Bool)
  | [] => .ok ([], [], false)
  | c :: cs => do
      let (code, v) ← doConst S k c
      let (code', vs, new) ← doConsts S (k + code.length) cs
      return (code ++ code', v.getD (.const (cloneConst S.self c)) :: vs, v.isSome || new)

end

def asMd : HValue → MdOperand HostSym HostId
  | .const c => .const c
  | .arg i => .arg i
  | .inst x => .inst x
  | _ => .const .poison

section Operand

variable (S : Site) (args : Nat → HValue)

def doMdOperand (k : Nat) : MdOperand Nat Nat → Except Error (List HInst × HValue)
  | .const c => do
      let (code, v) ← doConst S k c
      return (code, v.getD (.const (cloneConst S.self c)))
  | .arg i => .ok ([], args i)
  | .inst x => .ok ([], .inst (bodyId x))

def doArgList (k : Nat) : List (MdOperand Nat Nat) → Except Error (List HInst × List (MdOperand HostSym HostId))
  | [] => .ok ([], [])
  | v :: vs => do
      let (code, v) ← doMdOperand S args k v
      let (code', vs) ← doArgList (k + code.length) vs
      -- a global value that was not replaced does not stay in the list
      let v := match v with
        | .const (.global _) => .const .poison
        | v => v
      return (code ++ code', asMd v :: vs)

def doMetadata (k : Nat) : Metadata Nat Nat → Except Error (List HInst × Metadata HostSym HostId)
  | .value v => do
      let (code, v) ← doMdOperand S args k v
      return (code, .value (asMd v))
  | .argList vs => do
      let (code, vs) ← doArgList S args k vs
      return (code, .argList vs)
  | .node n => .ok ([], .node n)

def doOperand (k : Nat) : GValue → Except Error (List HInst × HValue)
  | .const c => do
      let (code, v) ← doConst S k c
      return (code, v.getD (.const (cloneConst S.self c)))
  | .arg i => .ok ([], args i)
  | .inst x => .ok ([], .inst (bodyId x))
  | .metadata md => do
      let (code, md) ← doMetadata S args k md
      return (code, .metadata md)
  | .inlineAsm n => .ok ([], .inlineAsm n)

def doOperands (k : Nat) : List GValue → Except Error (List HInst × List HValue)
  | [] => .ok ([], [])
  | v :: vs => do
      let (code, v) ← doOperand S args k v
      let (code', vs) ← doOperands (k + code.length) vs
      return (code ++ code', v :: vs)

end Operand

end Comulator.HostIr
