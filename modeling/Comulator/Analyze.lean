import Comulator.Symtbl

namespace Comulator.Analyze

open Types Ir TypeHash Symtbl

/-- What depends on the addresses of a run: the order of pointers as keys, and
the order in which a `llvm::SmallPtrSet<_, 16>` is iterated. -/
structure Layout where
  before : Nat → Nat → Bool
  setOrder : List Nat → List Nat
  perm : ∀ l, (setOrder l).Perm l
  small : ∀ l, l.length ≤ 16 → setOrder l = l

inductive Unsupported
  | varArgFunction | unhashableFunction | indirectBr | exception | inlineAsm | blackCallee | varArgCall
  | unhashableCall
  deriving DecidableEq

def Unsupported.desc : Unsupported → String
  | .varArgFunction => "不支持可变参数函数"
  | .unhashableFunction => "无法哈希的函数签名"
  | .indirectBr => "不支持间接跳转"
  | .exception => "不支持异常处理"
  | .inlineAsm => "不支持内联汇编"
  | .blackCallee => "调用黑名单"
  | .varArgCall => "不支持变参调用"
  | .unhashableCall => "不可哈希的回调类型"

mutual

def constRefs : Const Nat → List Nat
  | .global g => [g]
  | .aggregate _ ops => constsRefs ops
  | .expr _ _ _ ops => constsRefs ops
  | _ => []

def constsRefs : List (Const Nat) → List Nat
  | [] => []
  | c :: cs => constRefs c ++ constsRefs cs

end

def valueRefs : GValue → List Nat
  | .const c => constRefs c
  | _ => []

/-- What the loop of `do_function` does at an instruction: register a global
value, register the type of a callback, or give up. -/
inductive Item
  | ref (g : Nat)
  | callback (c : GCall)
  | reject (e : Unsupported)

def operandItems (vs : List GValue) : List Item := (vs.flatMap valueRefs).map Item.ref

def calleeItems (m : Module) (bw : BwList) (c : GCall) : List Item :=
  match c.calledOperand with
  | .inlineAsm _ => [.reject .inlineAsm]
  | .const (.global g) =>
      match m.function? g with
      | some f =>
          match bw.callees g with
          | some true => []
          | some false => [.reject .blackCallee]
          | none => if f.isIntrinsic then [] else [.ref g, .callback c]
      | none => [.ref g, .callback c]
  | _ => [.callback c]

def instItems (m : Module) (bw : BwList) : InstOp Nat Nat → List Item
  | .landingPad | .catchPad | .cleanupPad => [.reject .exception]
  | .call c => calleeItems m bw c ++ operandItems (c.args.map Prod.snd)
  | op => operandItems (Module.argOperands op)

def termItems : Term Nat Nat Nat → List Item
  | .indirectBr _ _ => [.reject .indirectBr]
  | .invoke _ _ _ | .resume | .catchSwitch | .catchReturn | .cleanupReturn => [.reject .exception]
  | .callBr _ => [.reject .inlineAsm]
  | t => operandItems (Module.termOperands t)

def blockItems (m : Module) (bw : BwList) (b : GBlock) : List Item :=
  operandItems (b.phis.flatMap (fun p => p.incoming.map Prod.fst)) ++
    b.insts.flatMap (fun i => instItems m bw i.op) ++ termItems b.term

def functionItems (m : Module) (bw : BwList) (f : GFunction) : List Item :=
  f.blocks.flatMap (fun b => blockItems m bw b.2)

/-- The temporaries of `do_function`; `grefsInFunc` and `mExtRefArgs` have the
same elements. -/
structure Scan where
  extRefs : List Nat
  cbStubs : OrderedMap HashCode StubInfo
  cbStubArgs : List HashCode

def Scan.empty : Scan := ⟨[], .empty, []⟩

def Scan.addRef (s : Scan) (g : Nat) : Scan :=
  if g ∈ s.extRefs then s else { s with extRefs := s.extRefs ++ [g] }

def hashBefore (h k : HashCode) : Bool := h < k

def callbackStub (c : GCall) : StubInfo :=
  { StubInfo.ofType c.functionType with attrs := filterAbiAttributes c.attributes }

def callingStub (f : GFunction) (uid : Nat) : StubInfo :=
  { StubInfo.ofType f.type with attrs := filterAbiAttributes f.attributes, uid }

section Run

variable (H : HashOps) (L : Layout) (m : Module) (bw : BwList)

def Scan.addCallback (s : Scan) (c : GCall) : Except Unsupported Scan :=
  if c.functionType.isVarArg then .error .varArgCall
  else match callSiteHash H c with
    | none => .error .unhashableCall
    | some h =>
        if s.cbStubs.find? h = none then
          .ok { s with cbStubs := s.cbStubs.tryEmplace hashBefore h (callbackStub c), cbStubArgs := s.cbStubArgs ++ [h] }
        else .ok s

def Scan.visit (s : Scan) : Item → Except Unsupported Scan
  | .ref g => .ok (s.addRef g)
  | .callback c => s.addCallback H c
  | .reject e => .error e

def scanFunction (f : GFunction) : Except Unsupported Scan :=
  (functionItems m bw f).foldlM (Scan.visit H) Scan.empty

structure State where
  symtbl : Symtbl
  callingCounter : Nat
  callbackCounter : Nat
  funcCounter : Nat
  grefCounter : Nat
  log : List (Nat × String)
  diagnosed : List Nat

def State.new (uid : Nat) : State := ⟨.new uid, 0, 0, 0, 0, [], []⟩

def State.addCalling (st : State) (h : HashCode) (f : GFunction) : State :=
  if st.symtbl.callingStubs.find? h = none then
    { st with
      symtbl := { st.symtbl with
        callingStubs := st.symtbl.callingStubs.tryEmplace hashBefore h (callingStub f st.callingCounter) }
      callingCounter := st.callingCounter + 1 }
  else st

def State.addCallback (st : State) (e : HashCode × StubInfo) : State :=
  if st.symtbl.callbackStubs.find? e.1 = none then
    { st with
      symtbl := { st.symtbl with
        callbackStubs := st.symtbl.callbackStubs.tryEmplace hashBefore e.1 { e.2 with uid := st.callbackCounter } }
      callbackCounter := st.callbackCounter + 1 }
  else st

def State.addFunction (st : State) (g : Nat) (stub : StubInfo) (scan : Scan) : State :=
  { st with
    symtbl := { st.symtbl with
      functbl := st.symtbl.functbl.tryEmplace L.before g ⟨st.funcCounter, stub, scan.extRefs, scan.cbStubArgs⟩ }
    funcCounter := st.funcCounter + 1 }

def State.addGref (st : State) (g : Nat) : State :=
  if st.symtbl.greftbl.find? g = none then
    { st with
      symtbl := { st.symtbl with greftbl := st.symtbl.greftbl.tryEmplace L.before g ⟨st.grefCounter⟩ }
      grefCounter := st.grefCounter + 1 }
  else st

/-- The part of `do_function` after its loop. -/
def State.merge (st : State) (g : Nat) (f : GFunction) (h : HashCode) (scan : Scan) : State :=
  let st := st.addCalling h f
  let stub := (st.symtbl.callingStubs.find? h).getD (callingStub f st.callingCounter)
  let st := scan.cbStubs.entries.foldl State.addCallback st
  let st := st.addFunction L g stub scan
  (L.setOrder scan.extRefs).foldl (State.addGref L) st

def doFunction (st : State) (g : Nat) (f : GFunction) : Except Unsupported State :=
  if f.isDeclaration then .ok st
  else if f.type.isVarArg then .error .varArgFunction
  else match functionHash H f with
    | none => .error .unhashableFunction
    | some h =>
        match scanFunction H m bw f with
        | .error e => .error e
        | .ok scan => .ok (st.merge L g f h scan)

def State.reject (st : State) (g : Nat) (demanded : Bool) (e : Unsupported) : State :=
  { st with
    log := st.log ++ [(g, e.desc)]
    diagnosed := if demanded then st.diagnosed ++ [g] else st.diagnosed }

def visitFunction (st : State) (g : Nat) : State :=
  match m.function? g with
  | none => st
  | some f =>
      let listed := (bw.funcs g).bind FuncBw.analyze
      if listed = some false then { st with log := st.log ++ [(g, "忽略黑名单中的函数")] }
      else match doFunction H L m bw st g f with
        | .ok st' => st'
        | .error e => st.reject g (listed = some true) e

def analyze (uid : Nat) : Symtbl := (m.functions.foldl (visitFunction H L m bw) (.new uid)).symtbl

end Run

end Comulator.Analyze
