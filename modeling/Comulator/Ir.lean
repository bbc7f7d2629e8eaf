import Comulator.Types

namespace Comulator.Ir

open Types

/-- The instructions with no special place in the passes: all of LLVM's that
are no call, phi, terminator or exception pad. -/
inductive Opcode
  | fneg | add | fadd | sub | fsub | mul | fmul | udiv | sdiv | fdiv | urem | srem | frem
  | shl | lshr | ashr | and | or | xor
  | alloca | load | store | getElementPtr | fence | cmpXchg | atomicRmw
  | trunc | zext | sext | fpToUi | fpToSi | uiToFp | siToFp | fpTrunc | fpExt
  | ptrToInt | intToPtr | bitCast | addrSpaceCast
  | icmp | fcmp | select | vaArg | extractElement | insertElement | shuffleVector
  | extractValue | insertValue | freeze
  deriving DecidableEq

inductive AggregateKind
  | struct | array | vector
  deriving DecidableEq

inductive WrapperKind
  | blockAddress (block : Nat)
  | dsoLocalEquivalent
  | noCfi
  deriving DecidableEq

/-- `llvm::Constant` over the global values `γ`. The constants without operands
that no pass looks into are `data`; `undef` is that of an aggregate by its
number of fields. -/
inductive Const (γ : Type)
  | int (bitWidth value : Nat)
  | nullPtr
  | undef (numFields : Nat)
  | poison
  | data (ty : Ty) (payload : Nat)
  | global (g : γ)
  | aggregate (kind : AggregateKind) (operands : List (Const γ))
  | expr (opcode : Opcode) (ty : Ty) (immediates : List Nat) (operands : List (Const γ))
  | wrapper (kind : WrapperKind) (g : γ)

inductive MdOperand (γ ι : Type)
  | const (c : Const γ)
  | arg (i : Nat)
  | inst (x : ι)

inductive Metadata (γ ι : Type)
  | value (v : MdOperand γ ι)
  | argList (vs : List (MdOperand γ ι))
  | node (n : Nat)

inductive Value (γ ι : Type)
  | const (c : Const γ)
  | arg (i : Nat)
  | inst (x : ι)
  | metadata (md : Metadata γ ι)
  | inlineAsm (n : Nat)

structure CallBase (γ ι : Type) where
  functionType : FunctionType
  callingConv : Nat
  attributes : AttributeList
  calledOperand : Value γ ι
  args : List (Ty × Value γ ι)

/-- The operation of an instruction. The last group is what the passes build
themselves through `IRBuilder`; it works on the pads and tables they lay out,
not on memory the program can reach. -/
inductive InstOp (γ ι : Type)
  | call (c : CallBase γ ι)
  | op (opcode : Opcode) (ty : Ty) (immediates : List Nat) (operands : List (Value γ ι))
  | landingPad
  | catchPad
  | cleanupPad
  | alloca (ty : Ty)
  | load (ty : Ty) (ptr : Value γ ι)
  | store (ty : Ty) (value ptr : Value γ ι)
  | elementPtr (ptr : Value γ ι) (index : Int)
  | insertValue (aggregate value : Value γ ι) (index : Nat)
  | extractValue (aggregate : Value γ ι) (index : Nat)
  | expand (opcode : Opcode) (ty : Ty) (immediates : List Nat) (operands : List (Value γ ι))
  | stackSave
  | stackRestore (saved : Value γ ι)
  | intToPtr (value : Value γ ι)
  | xorMagic (magic : Nat) (value : Value γ ι)
  | icmpEq (left right : Value γ ι)

structure Inst (γ ι : Type) where
  id : ι
  op : InstOp γ ι

structure Phi (γ ι β : Type) where
  id : ι
  ty : Ty
  incoming : List (Value γ ι × β)

inductive Term (γ ι β : Type)
  | ret (value : Option (Ty × Value γ ι))
  | br (dest : β)
  | condBr (cond : Value γ ι) (ifTrue ifFalse : β)
  | switch (cond : Value γ ι) (default : β) (cases : List (Nat × β))
  | unreachable
  | indirectBr (address : Value γ ι) (dests : List β)
  | callBr (asm : Nat)
  | invoke (c : CallBase γ ι) (normal unwind : β)
  | resume
  | catchSwitch
  | catchReturn
  | cleanupReturn

structure Block (γ ι β : Type) where
  phis : List (Phi γ ι β)
  insts : List (Inst γ ι)
  termId : ι
  term : Term γ ι β

inductive IntrinsicId
  | dbgValue
  | dbgAssign
  | dbgDeclare
  | dbgLabel
  | pseudoProbe
  | other (number : Nat)
  deriving DecidableEq

def IntrinsicId.isDebugOrPseudo : IntrinsicId → Bool
  | .other _ => false
  | _ => true

/-- `llvm::Function`. Its own operands are its personality and prologue data,
with the prefix data apart. A declaration has no block; otherwise the first
block is the entry. -/
structure Function (γ ι β : Type) where
  type : FunctionType
  callingConv : Nat
  attributes : AttributeList
  intrinsicId : Option IntrinsicId
  blocks : List (β × Block γ ι β)
  operands : List (Const γ)
  prefixData : Option (Const γ)

variable {γ ι β : Type}

def Function.isDeclaration (f : Function γ ι β) : Bool := f.blocks.isEmpty

def Function.isIntrinsic (f : Function γ ι β) : Bool := f.intrinsicId.isSome

def Function.size (f : Function γ ι β) : Nat := f.blocks.length

def InstOp.isDebugOrPseudo (intrinsicId : γ → Option IntrinsicId) : InstOp γ ι → Bool
  | .call c =>
      match c.calledOperand with
      | .const (.global g) => (intrinsicId g).any IntrinsicId.isDebugOrPseudo
      | _ => false
  | _ => false

def Block.instructionCount (intrinsicId : γ → Option IntrinsicId) (b : Block γ ι β) : Nat :=
  b.phis.length + b.insts.countP (fun i => !i.op.isDebugOrPseudo intrinsicId) + 1

def Function.getInstructionCount (intrinsicId : γ → Option IntrinsicId) (f : Function γ ι β) : Nat :=
  (f.blocks.map (fun b => b.2.instructionCount intrinsicId)).sum

def Function.block? [DecidableEq β] (f : Function γ ι β) (b : β) : Option (Block γ ι β) := f.blocks.lookup b

def Function.interface (f : Function γ ι β) : Interface :=
  ⟨f.type, f.callingConv, f.attributes.getAttributes⟩

def CallBase.interface (c : CallBase γ ι) : Interface :=
  ⟨c.functionType, c.callingConv, c.attributes.getAttributes⟩

abbrev GFunction := Function Nat Nat Nat
abbrev GBlock := Block Nat Nat Nat
abbrev GInst := Inst Nat Nat
abbrev GCall := CallBase Nat Nat
abbrev GValue := Value Nat Nat

inductive GlobalValue
  | function (f : GFunction)
  | variable (initializer : Option (Const Nat))
  | alias (aliasee : Const Nat)
  | ifunc (resolver : Const Nat)

def GlobalValue.operands : GlobalValue → List (Const Nat)
  | .function f => f.operands ++ f.prefixData.toList
  | .variable init => init.toList
  | .alias c | .ifunc c => [c]

end Comulator.Ir
