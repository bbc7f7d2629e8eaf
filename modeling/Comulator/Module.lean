import Comulator.Ir

namespace Comulator.Module

open Types Ir

def argOperands : InstOp Nat Nat → List GValue
  | .call c => c.args.map Prod.snd
  | .op _ _ _ ops => ops
  | _ => []

def termOperands : Term Nat Nat Nat → List GValue
  | .ret (some (_, v)) => [v]
  | .condBr v _ _ | .switch v _ _ | .indirectBr v _ => [v]
  | _ => []

def blockOperands (b : GBlock) : List GValue :=
  b.phis.flatMap (fun p => p.incoming.map Prod.fst) ++ b.insts.flatMap (fun i => argOperands i.op) ++
    termOperands b.term

def callOf {γ ι : Type} : InstOp γ ι → Option (CallBase γ ι)
  | .call c => some c
  | _ => none

theorem callOf_eq_some {γ ι : Type} {op : InstOp γ ι} {c : CallBase γ ι} : callOf op = some c ↔ op = .call c := by
  cases op <;> simp [callOf]

def blockCalls (b : GBlock) : List GCall := b.insts.filterMap (fun i => callOf i.op)

def calls (f : GFunction) : List GCall := f.blocks.flatMap (fun b => blockCalls b.2)

def operands (f : GFunction) : List GValue := f.blocks.flatMap (fun b => blockOperands b.2)

def ids (f : GFunction) : List Nat :=
  f.blocks.flatMap (fun b => b.2.phis.map Phi.id ++ b.2.insts.map Inst.id ++ [b.2.termId])

/-- An instruction a compiler front end can have produced: none of the group
that stands for what the passes build. -/
def isProgramOp : InstOp Nat Nat → Bool
  | .call _ | .op _ _ _ _ | .landingPad | .catchPad | .cleanupPad => true
  | _ => false

def verifyRet (ret : Ty) : Term Nat Nat Nat → Bool
  | .ret none => ret = .void
  | .ret (some (t, _)) => t = ret && !decide (ret = .void)
  | _ => true

/-- What `llvm::verifyModule` demands of a call: a call without varargs passes
the declared types, and an intrinsic is called at its own type. -/
def verifyCall (symbols : List GlobalValue) (c : GCall) : Bool :=
  (c.functionType.isVarArg || c.args.map Prod.fst = c.functionType.params) &&
    match c.calledOperand with
    | .const (.global g) => match symbols[g]? with
      | some (.function h) => !h.isIntrinsic || c.functionType = h.type
      | _ => true
    | _ => true

def verifyValue (numArgs : Nat) : GValue → Bool
  | .arg i => i < numArgs
  | _ => true

def verifyFunction (symbols : List GlobalValue) (f : GFunction) : Bool :=
  decide (ids f).Nodup && decide (f.blocks.map Prod.fst).Nodup &&
    (calls f).all (verifyCall symbols) &&
    f.blocks.all (fun b => b.2.insts.all (fun i => isProgramOp i.op) && verifyRet f.type.ret b.2.term) &&
    (match f.blocks with | [] => true | b :: _ => b.2.phis.isEmpty) &&
    (!f.isIntrinsic || f.isDeclaration) &&
    (operands f ++ (calls f).map CallBase.calledOperand).all (verifyValue f.type.params.length)

def verify (symbols : List GlobalValue) : Bool :=
  symbols.all (fun s => match s with | .function f => verifyFunction symbols f | _ => true)

end Module

/-- A verified guest module. A global value is known by its position, which
stands for its address as an `llvm::GlobalValue*`. -/
structure Module where
  symbols : List Ir.GlobalValue
  verified : Module.verify symbols = true

namespace Module

open Types Ir

def function? (m : Module) (g : Nat) : Option GFunction :=
  match m.symbols[g]? with
  | some (.function f) => some f
  | _ => none

def functions (m : Module) : List Nat := (List.range m.symbols.length).filter (fun g => (m.function? g).isSome)

def globalOperands (m : Module) (g : Nat) : List (Const Nat) :=
  match m.symbols[g]? with
  | some s => s.operands
  | none => []

variable {m : Module} {g : Nat} {f : GFunction}

theorem function?_eq_some : m.function? g = some f ↔ m.symbols[g]? = some (.function f) := by
  unfold function?
  cases m.symbols[g]? with
  | none => simp
  | some v => cases v <;> simp

theorem verifyFunction_of_function? (h : m.function? g = some f) : verifyFunction m.symbols f = true :=
  List.all_eq_true.mp m.verified _ (List.mem_of_getElem? (function?_eq_some.mp h))

theorem mem_functions (h : m.function? g = some f) : g ∈ m.functions := by
  have hs : (m.function? g).isSome := by rw [h]; rfl
  refine List.mem_filter.mpr ⟨List.mem_range.mpr ?_, hs⟩
  exact (List.getElem?_eq_some_iff.mp (function?_eq_some.mp h)).1

theorem ids_nodup (h : m.function? g = some f) : (ids f).Nodup := by
  have hv := verifyFunction_of_function? h
  simp only [verifyFunction, Bool.and_eq_true, decide_eq_true_eq] at hv
  exact hv.1.1.1.1.1.1

theorem labels_nodup (h : m.function? g = some f) : (f.blocks.map Prod.fst).Nodup := by
  have hv := verifyFunction_of_function? h
  simp only [verifyFunction, Bool.and_eq_true, decide_eq_true_eq] at hv
  exact hv.1.1.1.1.1.2

theorem verifyCall_of_mem (h : m.function? g = some f) {c : GCall} (hc : c ∈ calls f) :
    verifyCall m.symbols c = true := by
  have hv := verifyFunction_of_function? h
  simp only [verifyFunction, Bool.and_eq_true] at hv
  exact List.all_eq_true.mp hv.1.1.1.1.2 c hc

theorem args_types (h : m.function? g = some f) {c : GCall} (hc : c ∈ calls f)
    (hva : c.functionType.isVarArg = false) : c.args.map Prod.fst = c.functionType.params := by
  have hv := verifyCall_of_mem h hc
  simp only [verifyCall, hva, Bool.false_or, Bool.and_eq_true, decide_eq_true_eq] at hv
  exact hv.1

theorem intrinsic_type (h : m.function? g = some f) {c : GCall} (hc : c ∈ calls f) {k : Nat}
    (hk : c.calledOperand = .const (.global k)) {callee : GFunction} (hcallee : m.function? k = some callee)
    (hi : callee.isIntrinsic = true) : c.functionType = callee.type := by
  have hv := verifyCall_of_mem h hc
  simp only [verifyCall, hk, function?_eq_some.mp hcallee, Bool.and_eq_true, hi, Bool.not_true, Bool.false_or,
    decide_eq_true_eq] at hv
  exact hv.2

theorem verify_block (h : m.function? g = some f) {b : Nat × GBlock} (hb : b ∈ f.blocks) :
    (∀ i ∈ b.2.insts, isProgramOp i.op = true) ∧ verifyRet f.type.ret b.2.term = true := by
  have hv := verifyFunction_of_function? h
  simp only [verifyFunction, Bool.and_eq_true] at hv
  have hall := List.all_eq_true.mp hv.1.1.1.2 b hb
  simp only [Bool.and_eq_true] at hall
  exact ⟨List.all_eq_true.mp hall.1, hall.2⟩

theorem entry_phis (h : m.function? g = some f) {b : Nat × GBlock} {bs : List (Nat × GBlock)}
    (hb : f.blocks = b :: bs) : b.2.phis = [] := by
  have hv := verifyFunction_of_function? h
  simp only [verifyFunction, Bool.and_eq_true, hb] at hv
  exact List.isEmpty_iff.mp hv.1.1.2

theorem verify_operand (h : m.function? g = some f) {v : GValue} (hv : v ∈ operands f) :
    verifyValue f.type.params.length v = true := by
  have hf := verifyFunction_of_function? h
  simp only [verifyFunction, Bool.and_eq_true] at hf
  exact List.all_eq_true.mp hf.2 v (List.mem_append_left _ hv)

theorem verify_calledOperand (h : m.function? g = some f) {c : GCall} (hc : c ∈ calls f) :
    verifyValue f.type.params.length c.calledOperand = true := by
  have hf := verifyFunction_of_function? h
  simp only [verifyFunction, Bool.and_eq_true] at hf
  exact List.all_eq_true.mp hf.2 _ (List.mem_append_right _ (List.mem_map_of_mem hc))

end Comulator.Module
