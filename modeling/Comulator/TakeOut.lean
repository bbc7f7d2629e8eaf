import Comulator.HostIr
import Comulator.Symtbl

namespace Comulator.TakeOut

open Types Ir TypeHash Symtbl HostIr

structure Input where
  hash : HashOps
  module : Module
  config : Config
  bwList : BwList
  symtbl : Symtbl

def Input.blackList (P : Input) (g : Nat) : Bool := (P.bwList.funcs g).bind FuncBw.takeOut = some false

/-- The keys of `mWhiteCallees`: those listed as false. -/
def Input.isWhite (P : Input) (g : Nat) : Bool := P.bwList.callees g = some false

/-- The keys of `mFcpFuncMap`. -/
def Input.hasFcpFunc (P : Input) (g : Nat) : Bool :=
  P.config.useFCP && (P.symtbl.functbl.find? g).isSome && !P.blackList g && !P.isWhite g

def getCalledFunction (m : Module) (c : GCall) : Option (Nat × GFunction) :=
  match c.calledOperand with
  | .const (.global g) =>
      match m.function? g with
      | some f => if f.type = c.functionType then some (g, f) else none
      | none => none
  | _ => none

inductive Route
  | white (g : Nat)
  | intrinsic (id : IntrinsicId)
  | fcp (g : Nat)
  | callback
  deriving DecidableEq

def Input.route (P : Input) (c : GCall) : Route :=
  match getCalledFunction P.module c with
  | some (g, f) =>
      if P.isWhite g then .white g
      else match f.intrinsicId with
        | some id => .intrinsic id
        | none => if P.hasFcpFunc g then .fcp g else .callback
  | none => .callback

def isDbgValueInst (m : Module) (c : GCall) : Bool :=
  match getCalledFunction m c with
  | some (_, f) => f.intrinsicId = some .dbgValue || f.intrinsicId = some .dbgAssign
  | none => false

/-- The members set for the function being copied: `func`, `hfunc`,
`mExtRefsMap`, `mCbStubMap` and the `vmap` of the arguments. -/
structure Copy where
  func : Nat
  hfunc : HostSym
  refs : Nat → Option HostId
  cbStubs : HashCode → Option HostId
  args : Nat → HValue

section Body

variable (P : Input) (X : Copy)

def site (owner : Nat) (dbg : Bool) : Site :=
  ⟨X.refs, (X.func, X.hfunc), walkGlobal P.module X.refs (P.module.symbols.length + 1), owner, dbg⟩

def debugCall (fmt : HostSym) (args : List (Ty × HValue)) : HOp :=
  .call ⟨⟨.void, [ptrTy], true⟩, 0, ⟨[]⟩, .const (.global .gyhDebug), (ptrTy, .const (.global fmt)) :: args⟩

def pointer (v : HValue) : Ty × HValue := (ptrTy, v)

/-- What `do_callback` inserts for the call `n`, named from `k` on; the value
that replaces the call is `result`. -/
def callbackCode (debug : Bool) (n k : Nat) (result : HostId) (cbStub callee : HValue) (retType : Ty)
    (args : List (Ty × HValue)) : List HInst :=
  let name := fun i => (⟨some n, k + i⟩ : HostId)
  let argName := fun i => name (5 + i)
  let retPad : HValue := if retType = .void then .const .nullPtr else .inst (name 1)
  let argPad : HValue := if args.isEmpty then .const .nullPtr else .inst (argName 0)
  let pads := [pointer cbStub, pointer callee, pointer retPad, pointer argPad]
  [⟨name 0, .stackSave⟩] ++
    (if retType = .void then [] else [⟨name 1, .alloca retType⟩]) ++
    (if args.isEmpty then [] else packCode argName (.struct (args.map Prod.fst) false) (args.map Prod.snd)) ++
    (if debug then [⟨name 4, debugCall .callbackDebugFmt pads⟩] else []) ++
    [⟨name 3, .call ⟨ptrsType 4, 0, ⟨[]⟩, .const (.global .gyhCallback), pads⟩⟩] ++
    (if retType = .void then [] else [⟨result, .load retType retPad⟩]) ++
    [⟨name 2, .stackRestore (.inst (name 0))⟩]

def doCallback (n k : Nat) (result : HostId) (c : GCall) (callee : HValue) (args : List (Ty × HValue)) :
    Except Error (List HInst) :=
  match callSiteHash P.hash c with
  | none => .error .unhashableCallback
  | some h =>
      match X.cbStubs h with
      | none => .error .noCbStub
      | some cbStub => .ok (callbackCode P.config.debug n k result (.inst cbStub) callee c.functionType.ret args)

/-- What `do_fcp_cm` makes of the call `n`: the check at the end of the upper
block, the two ways, and the phi that joins them. -/
structure Split where
  call : Nat
  check : List HInst
  cond : HValue
  left : List HInst
  right : List HInst
  phi : Option HPhi

def doFcpCm (n k : Nat) (c : GCall) (callee : HValue) (args : List (Ty × HValue)) : Except Error Split := do
  let name := fun i => (⟨some n, k + i⟩ : HostId)
  let i64 : Ty := .integer 64
  let right ← doCallback P X n (k + 9) (name 8) c callee args
  return {
    call := n
    check := [⟨name 0, .elementPtr callee (-2)⟩, ⟨name 1, .load i64 (.inst (name 0))⟩,
      ⟨name 2, .elementPtr callee (-1)⟩, ⟨name 3, .load i64 (.inst (name 2))⟩,
      ⟨name 4, .xorMagic 0x6666200009068888 (.inst (name 3))⟩,
      ⟨name 5, .icmpEq (.inst (name 1)) (.inst (name 4))⟩]
    cond := .inst (name 5)
    left := [⟨name 6, .intToPtr (.inst (name 3))⟩,
      ⟨name 7, .call ⟨c.functionType, c.callingConv, c.attributes, .inst (name 6), args⟩⟩]
    right
    phi := if c.functionType.ret = .void then none
      else some ⟨bodyId n, c.functionType.ret, [(.inst (name 7), .left n), (.inst (name 8), .right n)]⟩ }

inductive Piece
  | code (l : List HInst)
  | split (pre : List HInst) (s : Split)

def doCall (n : Nat) (c : GCall) : Except Error Piece := do
  let S := site P X n (isDbgValueInst P.module c)
  let (code, vs) ← doOperands S X.args 1 (c.args.map Prod.snd)
  let args := (c.args.map Prod.fst).zip vs
  match P.route c with
  | .white g =>
      return .code (code ++
        [⟨bodyId n, .call ⟨c.functionType, c.callingConv, c.attributes, .const (.global (.whiteCallee g)), args⟩⟩])
  | .intrinsic id =>
      return .code (code ++ [⟨bodyId n, .call ⟨c.functionType, 0, ⟨[]⟩, .const (.global (.intrinsic id)), args⟩⟩])
  | .fcp g =>
      return .code (code ++
        [⟨bodyId n, .call ⟨c.functionType, c.callingConv, c.attributes, .const (.global (.fcpFunc g)), args⟩⟩])
  | .callback => do
      let (code', callee) ← doOperand S X.args (1 + code.length) c.calledOperand
      let k := 1 + code.length + code'.length
      if P.config.useFCPcm then
        let s ← doFcpCm P X n k c callee args
        return .split (code ++ code') s
      else
        let code'' ← doCallback P X n k (bodyId n) c callee args
        return .code (code ++ code' ++ code'')

/-- `do_instruction`. Exception pads are in no function that was analyzed. -/
def doInstruction (i : GInst) : Except Error Piece :=
  match i.op with
  | .call c => doCall P X i.id c
  | .op opcode ty is ops => do
      let (code, vs) ← doOperands (site P X i.id false) X.args 1 ops
      return .code (code ++ [⟨bodyId i.id, .op opcode ty is vs⟩])
  | _ => .error .rejected

def entryLabel (f : GFunction) (b : Nat) : HostBlock :=
  match f.block? b with
  | none => .body b
  | some blk =>
      match blk.insts.find? (fun i => match i.op with
        | .call c => P.config.useFCPcm && P.route c = .callback
        | _ => false) with
      | some i => .top i.id
      | none => .body b

/-- The copy of a terminator; outside the fast call path a value is returned
through `retPad`. -/
def doTerminator (f : GFunction) (n : Nat) (t : Term Nat Nat Nat) : Except Error (List HInst × HTerm) :=
  let operand := doOperand (site P X n false) X.args 1
  match t with
  | .ret none => .ok ([], .ret none)
  | .ret (some (ty, v)) => do
      let (code, v) ← operand v
      if P.config.useFCP then return (code, .ret (some (ty, v)))
      else return (code ++ [⟨⟨some n, 1 + code.length⟩, .store ty v (.arg 0)⟩], .ret none)
  | .br d => .ok ([], .br (entryLabel P f d))
  | .condBr v a b => do
      let (code, v) ← operand v
      return (code, .condBr v (entryLabel P f a) (entryLabel P f b))
  | .switch v d cases => do
      let (code, v) ← operand v
      return (code, .switch v (entryLabel P f d) (cases.map (fun p => (p.1, entryLabel P f p.2))))
  | .unreachable => .ok ([], .unreachable)
  | _ => .error .rejected

def doPhi (p : Phi Nat Nat Nat) : Except Error (List HInst × HPhi) := do
  let (code, vs) ← doOperands (site P X p.id false) X.args 1 (p.incoming.map Prod.fst)
  return (code, ⟨bodyId p.id, p.ty, vs.zip (p.incoming.map (fun q => .body q.2))⟩)

/-- Where the copy of the block `b` goes on with these pieces left: each split puts
all that is before the call into a block of its own. -/
def nextLabel (b : Nat) : List Piece → HostBlock
  | [] => .body b
  | .code _ :: ps => nextLabel b ps
  | .split _ s :: _ => .top s.call

def assemble (b : Nat) (termId : HostId) (term : HTerm) (phis : List HPhi) (code : List HInst) :
    List Piece → List (HostBlock × HBlock)
  | [] => [(.body b, ⟨phis, code, termId, term⟩)]
  | .code l :: ps => assemble b termId term phis (code ++ l) ps
  | .split pre s :: ps =>
      (.top s.call, ⟨phis, code ++ pre ++ s.check, ⟨some s.call, 0⟩, .condBr s.cond (.left s.call) (.right s.call)⟩) ::
      (.left s.call, ⟨[], s.left, ⟨some s.call, 0⟩, .br (nextLabel b ps)⟩) ::
      (.right s.call, ⟨[], s.right, ⟨some s.call, 0⟩, .br (nextLabel b ps)⟩) ::
      assemble b termId term s.phi.toList [] ps

def doBlock (f : GFunction) (b : Nat × GBlock) : Except Error (List HInst × List (HostBlock × HBlock)) := do
  let phis ← b.2.phis.mapM (doPhi P X)
  let pieces ← b.2.insts.mapM (doInstruction P X)
  let (code, term) ← doTerminator P X f b.2.termId b.2.term
  return (phis.flatMap Prod.fst,
    assemble b.1 (bodyId b.2.termId) term (phis.map Prod.snd) [] (pieces ++ [.code code]))

def doBody (f : GFunction) (entry : List HInst) : Except Error (List (HostBlock × HBlock)) := do
  let blocks ← f.blocks.mapM (doBlock P X f)
  match f.blocks with
  | [] => .error .rejected
  | b :: _ =>
      return (.entry, ⟨[], entry ++ blocks.flatMap Prod.fst, ⟨none, 0⟩, .br (entryLabel P f b.1)⟩) ::
        blocks.flatMap Prod.snd

end Body

def assign {K V : Type} [DecidableEq K] (l : List (K × V)) : K → Option V :=
  l.foldl (fun map e => Function.update map e.1 (some e.2)) (fun _ => none)

def entryName (i : Nat) : HostId := ⟨none, i⟩

def place (pos : Nat) (ops : List HOp) : List HInst := ops.zipIdx.map (fun p => ⟨entryName (pos + p.2), p.1⟩)

def loadFields (pos : Nat) (ty : Ty) (ptr : HValue) (n : Nat) : List HInst :=
  place pos (.load ty ptr :: (List.range n).map (fun i => .extractValue (.inst (entryName pos)) i))

def fieldNames {K : Type} (pos : Nat) (keys : List K) : List (K × HostId) :=
  keys.zipIdx.map (fun p => (p.1, entryName (pos + 1 + p.2)))

def padFields {K : Type} (pos : Nat) (ptr : HValue) (keys : List K) : List HInst :=
  if keys.isEmpty then [] else loadFields pos (.array ptrTy keys.length) ptr keys.length

/-- Entries of a table read through the global variable `tbl`, each with a load
of the variable; the `j`-th is named `pos + 3 * j + 2`. -/
def tableEntries (pos : Nat) (tbl : HostSym) (uids : List Nat) : List HInst :=
  place pos (uids.zipIdx.flatMap (fun p =>
    [.load ptrTy (.const (.global tbl)), .elementPtr (.inst (entryName (pos + 3 * p.2))) p.1,
      .load ptrTy (.inst (entryName (pos + 3 * p.2 + 1)))]))

def entryNames {K : Type} (pos : Nat) (keys : List K) : List (K × HostId) :=
  keys.zipIdx.map (fun p => (p.1, entryName (pos + 3 * p.2 + 2)))

def fcpTableEntries (pos : Nat) (tbl : HostSym) (uids : List Nat) : List HInst :=
  place pos (.load ptrTy (.const (.global tbl)) :: uids.zipIdx.flatMap (fun p =>
    [.elementPtr (.inst (entryName pos)) p.1, .load ptrTy (.inst (entryName (pos + 2 * p.2 + 1)))]))

def fcpEntryNames {K : Type} (pos : Nat) (keys : List K) : List (K × HostId) :=
  keys.zipIdx.map (fun p => (p.1, entryName (pos + 2 * p.2 + 2)))

section Function

variable (P : Input) (g : Nat) (f : GFunction) (info : FuncInfo)

def Input.grefUids (P : Input) (info : FuncInfo) : Except Error (List Nat) :=
  info.extRefArgs.mapM (fun r => match P.symtbl.greftbl.find? r with
    | some i => .ok i.uid
    | none => .error .noGref)

def Input.cbStubUids (P : Input) (info : FuncInfo) : Except Error (List Nat) :=
  info.cbStubArgs.mapM (fun h => match P.symtbl.callbackStubs.find? h with
    | some s => .ok s.uid
    | none => .error .noCallbackStub)

structure Generated where
  stub : HFunction
  copy : Option HFunction

def hstubType : FunctionType := ptrsType (if P.config.useGRT then 2 else 4)

def debugCode : List HInst :=
  if P.config.debug then
    place 1 [debugCall .callDebugFmt ((.integer 32, .const (.int 32 info.uid)) ::
      (List.range (if P.config.useGRT then 2 else 4)).map (fun i => pointer (.arg i)))]
  else []

def argsCode (pos : Nat) : List HInst :=
  match info.stubType.arg with
  | some ty => loadFields pos ty (.arg 1) f.type.params.length
  | none => []

def hstubArgs (pos : Nat) : Except Error (Nat → HValue) :=
  if info.stubType.arg.isSome ∨ f.type.params.length = 0 then .ok (fun i => .inst (entryName (pos + 1 + i)))
  else .error .argCount

def copyOf (type : FunctionType) (attributes : AttributeList) (self : HostSym)
    (blocks : List (HostBlock × HBlock)) : HFunction :=
  ⟨type, f.callingConv, attributes, none, blocks, cloneConsts (g, self) f.operands,
    f.prefixData.map (cloneConst (g, self))⟩

def genPlain : Except Error Generated := do
  let pos := 1 + (debugCode P info).length
  let args ← hstubArgs f info pos
  let entry := debugCode P info ++ argsCode f info pos
  let pos := 1 + entry.length
  let extRefs := padFields pos (.arg 2) info.extRefArgs
  let pos' := pos + extRefs.length
  let cbStubs := padFields pos' (.arg 3) info.cbStubArgs
  let X : Copy := ⟨g, .hstub info.uid, assign (fieldNames pos info.extRefArgs),
    assign (fieldNames pos' info.cbStubArgs), args⟩
  let blocks ← doBody P X f (entry ++ extRefs ++ cbStubs)
  return ⟨copyOf g f (hstubType P) ⟨[]⟩ X.hfunc blocks, none⟩

def genGrt : Except Error Generated := do
  let pos := 1 + (debugCode P info).length
  let args ← hstubArgs f info pos
  let entry := debugCode P info ++ argsCode f info pos
  let pos := 1 + entry.length
  let extRefs := tableEntries pos .extreftbl (← P.grefUids info)
  let pos' := pos + extRefs.length
  let cbStubs := tableEntries pos' .cbstubtbl (← P.cbStubUids info)
  let X : Copy := ⟨g, .hstub info.uid, assign (entryNames pos info.extRefArgs),
    assign (entryNames pos' info.cbStubArgs), args⟩
  let blocks ← doBody P X f (entry ++ extRefs ++ cbStubs)
  return ⟨copyOf g f (hstubType P) ⟨[]⟩ X.hfunc blocks, none⟩

def fcpStub : HFunction :=
  let pos := 1 + (debugCode P info).length
  let entry := debugCode P info ++ argsCode f info pos
  let pos' := 1 + entry.length
  let args := f.type.params.zipIdx.map (fun p => (p.1, (.inst (entryName (pos + 1 + p.2)) : HValue)))
  let call : HOp := .call ⟨f.type, 0, ⟨[]⟩, .const (.global (.fcpFunc g)), args⟩
  let code := if info.stubType.ret.isSome then
      place pos' [call, .store f.type.ret (.inst (entryName pos')) (.arg 0)]
    else place pos' [call]
  ⟨hstubType P, 0, ⟨[]⟩, none, [(.entry, ⟨[], entry ++ code, ⟨none, 0⟩, .ret none⟩)], [], none⟩

def genFcp : Except Error Generated := do
  if P.hasFcpFunc g then
    let extRefs := fcpTableEntries 1 .extreftbl (← P.grefUids info)
    let pos := 1 + extRefs.length
    let cbStubs := fcpTableEntries pos .cbstubtbl (← P.cbStubUids info)
    let X : Copy := ⟨g, .fcpFunc g, assign (fcpEntryNames 1 info.extRefArgs),
      assign (fcpEntryNames pos info.cbStubArgs), Value.arg⟩
    let blocks ← doBody P X f (extRefs ++ cbStubs)
    return ⟨fcpStub P g f info, some (copyOf g f f.type ⟨[] :: f.attributes.sets.tail⟩ X.hfunc blocks)⟩
  else throw .noFcpFunc

/-- `do_hstubcvt` with `do_function`. With the fast call path but without the
tables, `do_function` works on the stub with its four arguments and loads the
tables through null pointers. -/
def doHstubcvt : Except Error Generated :=
  if P.config.useGRT then
    if P.config.useFCP then genFcp P g f info else genGrt P g f info
  else if P.config.useFCP then
    if f.type.params.length = 4 then .error .noTable else .error .argCount
  else genPlain P g f info

end Function

inductive HEntry
  | unset
  | null
  | func (s : HostSym)
  deriving DecidableEq

structure HostModule where
  hfunctbl : List HEntry
  functbl : Option (List HEntry)
  functions : List (HostSym × HFunction)

def Generated.functions (gen : Generated) (g : Nat) (info : FuncInfo) : List (HostSym × HFunction) :=
  (.hstub info.uid, gen.stub) :: gen.copy.toList.map (fun f => (.fcpFunc g, f))

section Module

variable (P : Input)

abbrev Hfuncs := List HEntry × List (HostSym × HFunction)

def genHfunc (s : Hfuncs) (e : Nat × FuncInfo) : Except Error Hfuncs :=
  if P.blackList e.1 then .ok (s.1.set e.2.uid .null, s.2)
  else match P.module.function? e.1 with
    | none => .error .rejected
    | some f => do
        let gen ← doHstubcvt P e.1 f e.2
        return (s.1.set e.2.uid (.func (.hstub e.2.uid)), s.2 ++ gen.functions e.1 e.2)

def genHfuncs : Except Error Hfuncs :=
  P.symtbl.functbl.entries.foldlM (genHfunc P) (List.replicate P.symtbl.functbl.size .unset, [])

def genFunctbl : Except Error (List HEntry) :=
  P.symtbl.functbl.entries.foldlM (fun s e =>
    if P.blackList e.1 then .ok (s.set e.2.uid .null)
    else if P.hasFcpFunc e.1 then .ok (s.set e.2.uid (.func (.fcpFunc e.1)))
    else .error .noFcpFunc) (List.replicate P.symtbl.functbl.size .unset)

def takeOut : Except Error HostModule := do
  let (hfuncs, functions) ← genHfuncs P
  if P.config.useFCPcm then
    let functbl ← genFunctbl P
    return ⟨hfuncs, some functbl, functions⟩
  else return ⟨hfuncs, none, functions⟩

end Module

end Comulator.TakeOut
