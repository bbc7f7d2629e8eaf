import Comulator.HostIr
import Comulator.Symtbl

namespace Comulator.ChopOff

open Types Ir TypeHash Symtbl HostIr

inductive GuestSym
  | user (g : Nat)
  | gyhQlibUid
  | gyhCall
  | gyhCallGrt
  | gyhDebug
  | callDebugFmt
  | callbackDebugFmt
  | cbStub (h : HashCode)
  deriving DecidableEq

abbrev SValue := Value GuestSym Nat
abbrev SInst := Inst GuestSym Nat

abbrev Stub := Function GuestSym Nat Unit

def stub (type : FunctionType) (callingConv : Nat) (attributes : AttributeList) (code : List SInst)
    (ret : Option (Ty × SValue)) (prefixData : Option (Const GuestSym)) : Stub :=
  ⟨type, callingConv, attributes, none, [((), ⟨[], code, 0, .ret ret⟩)], [], prefixData⟩

def debugCall (fmt : GuestSym) (args : List (Ty × SValue)) : InstOp GuestSym Nat :=
  .call ⟨⟨.void, [ptrTy], true⟩, 0, ⟨[]⟩, .const (.global .gyhDebug), (ptrTy, .const (.global fmt)) :: args⟩

def pointer (v : SValue) : Ty × SValue := (ptrTy, v)

def structFields : Ty → Nat
  | .struct es _ => es.length
  | _ => 0

def cbStubFunction (debug : Bool) (h : HashCode) (st : StubInfo) : Stub :=
  let call : SInst := ⟨3, .call ⟨st.func, 0, st.attrs, .arg 2,
    st.func.params.zipIdx.map (fun p => (p.1, .inst (4 + p.2)))⟩⟩
  let debugCode : List SInst := if debug then
      [⟨1, debugCall .callbackDebugFmt
        [(.integer 64, .const (.int 64 h)), pointer (.arg 2), pointer (.arg 0), pointer (.arg 1)]⟩]
    else []
  let argCode : List SInst := match st.arg with
    | some ty => ⟨2, .load ty (.arg 1)⟩ ::
        (List.range (structFields ty)).map (fun i => ⟨4 + i, .extractValue (.inst 2) i⟩)
    | none => []
  let retCode : List SInst := match st.ret with
    | some ty => [⟨0, .store ty (.inst 3) (.arg 0)⟩]
    | none => []
  stub (ptrsType 3) 0 ⟨[]⟩ (debugCode ++ argCode ++ [call] ++ retCode) none none

section Pass

variable (m : Module) (config : Config) (bw : BwList) (symtbl : Symtbl)

def genCbStubs : List (HashCode × Stub) :=
  symtbl.callbackStubs.entries.map (fun e => (e.1, cbStubFunction config.debug e.1 e.2))

def tableOf {K V : Type} (uid : V → Nat) (l : List (K × V)) : List (Option K) :=
  l.foldl (fun tbl e => tbl.set (uid e.2) (some e.1)) (List.replicate l.length none)

def genCbstubtbl : List (Option HashCode) := tableOf StubInfo.uid symtbl.callbackStubs.entries

def genExtreftbl : List (Option Nat) := tableOf GrefInfo.uid symtbl.greftbl.entries

def genGfunctbl : List (Option Nat) := tableOf FuncInfo.uid symtbl.functbl.entries

def beneficial (intrinsicId : Nat → Option IntrinsicId) (f : GFunction) : Bool :=
  config.minBasicBlocks < f.size && config.minInstructions < f.getInstructionCount intrinsicId

def isBenefit (intrinsicId : Nat → Option IntrinsicId) (g : Nat) (f : GFunction) : Bool :=
  !decide ((bw.funcs g).bind FuncBw.chopOff = some false) &&
    !(config.useFCPcm && (bw.fcpCmChop g != bw.fcpCmChopOthers)) && beneficial config intrinsicId f

def calcBenefits : List (Nat × FuncInfo) :=
  symtbl.functbl.entries.filter (fun e => match m.function? e.1 with
    | some f => isBenefit config bw (fun k => (m.function? k).bind Function.intrinsicId) e.1 f
    | none => false)

def prefixData (g : Nat) (f : GFunction) (info : FuncInfo) : Option (Const Nat) :=
  if config.useFCPcm ∧ (bw.funcs g).bind FuncBw.chopOff ≠ some false ∧ f.prefixData.isNone then
    some (.aggregate .array [.int 64 0x6666200009068888, .int 64 info.uid])
  else f.prefixData

mutual

def guestConst : Const Nat → Const GuestSym
  | .int w v => .int w v
  | .nullPtr => .nullPtr
  | .undef n => .undef n
  | .poison => .poison
  | .data ty p => .data ty p
  | .global g => .global (.user g)
  | .aggregate kind ops => .aggregate kind (guestConsts ops)
  | .expr opcode ty is ops => .expr opcode ty is (guestConsts ops)
  | .wrapper kind g => .wrapper kind (.user g)

def guestConsts : List (Const Nat) → List (Const GuestSym)
  | [] => []
  | c :: cs => guestConst c :: guestConsts cs

end

def packName (i k : Nat) : Nat := 8 + 4 * k + i

def refPad (i : Nat) (vs : List SValue) : List SInst :=
  if vs.isEmpty then [] else packCode (packName i) (.array ptrTy vs.length) vs

def padPtr (present : Bool) (name : Nat) : SValue := if present then .inst name else .const .nullPtr

/-- The body `chop_gfuncs` gives to a function; it fails when a callback stub is
missing. -/
def chopGfunc (g : Nat) (f : GFunction) (info : FuncInfo) : Option Stub :=
  let ret := info.stubType.ret
  let retPad := padPtr ret.isSome 1
  let argPad := padPtr info.stubType.arg.isSome (packName 0 0)
  let extRefs : List SValue := info.extRefArgs.map (fun r => .const (.global (.user r)))
  let cbStubs : List SValue := info.cbStubArgs.map (fun h => .const (.global (.cbStub h)))
  let uidArgs : List (Ty × SValue) :=
    [pointer (.const (.global .gyhQlibUid)), (.integer 32, .const (.int 32 info.uid)), pointer retPad, pointer argPad]
  let refArgs := [pointer (padPtr (!extRefs.isEmpty) (packName 1 0)), pointer (padPtr (!cbStubs.isEmpty) (packName 2 0))]
  let args := if config.useGRT then uidArgs else uidArgs ++ refArgs
  let retCode : List SInst := match ret with
    | some ty => [⟨1, .alloca ty⟩]
    | none => []
  let argCode : List SInst := match info.stubType.arg with
    | some ty => packCode (packName 0) ty ((List.range f.type.params.length).map Value.arg)
    | none => []
  let refCode := if config.useGRT then [] else refPad 1 extRefs ++ refPad 2 cbStubs
  let debugCode : List SInst := if config.debug then [⟨2, debugCall .callDebugFmt args⟩] else []
  let call : SInst := ⟨3, .call ⟨⟨.void, args.map Prod.fst, false⟩, 0, ⟨[]⟩,
    .const (.global (if config.useGRT then .gyhCallGrt else .gyhCall)), args⟩⟩
  let loadCode : List SInst := match ret with
    | some ty => [⟨4, .load ty retPad⟩]
    | none => []
  if config.useGRT || info.cbStubArgs.all (fun h => (symtbl.callbackStubs.find? h).isSome) then
    some (stub f.type f.callingConv f.attributes
      (retCode ++ argCode ++ refCode ++ debugCode ++ [call] ++ loadCode)
      (ret.map (fun ty => (ty, .inst 4)))
      ((prefixData config bw g f info).map guestConst))
  else none

structure GuestModule where
  chopped : List (Nat × Stub)
  cbStubs : List (HashCode × Stub)
  cbstubtbl : List (Option HashCode)
  extreftbl : List (Option Nat)
  gfunctbl : List (Option Nat)

def chopOff : Option GuestModule := do
  let chopped ← (calcBenefits m config bw symtbl).mapM (fun e => do
    let f ← m.function? e.1
    let s ← chopGfunc config bw symtbl e.1 f e.2
    return (e.1, s))
  return ⟨chopped, genCbStubs config symtbl,
    if config.useGRT then genCbstubtbl symtbl else [], if config.useGRT then genExtreftbl symtbl else [],
    if config.useGRT && config.useFCPcm then genGfunctbl symtbl else []⟩

end Pass

end Comulator.ChopOff
