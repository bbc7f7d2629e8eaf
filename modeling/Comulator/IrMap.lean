import Comulator.Ir
import Mathlib.Data.List.Basic

namespace Comulator.Ir

section Inst

variable {γ ι κ μ β : Type} (f : ι → κ) (g : κ → μ)

def MdOperand.mapInst : MdOperand γ ι → MdOperand γ κ
  | .const c => .const c
  | .arg i => .arg i
  | .inst x => .inst (f x)

def MdOperand.insts : MdOperand γ ι → List ι
  | .inst x => [x]
  | _ => []

def Metadata.mapInst : Metadata γ ι → Metadata γ κ
  | .value v => .value (v.mapInst f)
  | .argList vs => .argList (vs.map (MdOperand.mapInst f))
  | .node n => .node n

def Metadata.insts : Metadata γ ι → List ι
  | .value v => v.insts
  | .argList vs => vs.flatMap MdOperand.insts
  | .node _ => []

def Value.mapInst : Value γ ι → Value γ κ
  | .const c => .const c
  | .arg i => .arg i
  | .inst x => .inst (f x)
  | .metadata md => .metadata (md.mapInst f)
  | .inlineAsm n => .inlineAsm n

def Value.insts : Value γ ι → List ι
  | .inst x => [x]
  | .metadata md => md.insts
  | _ => []

def CallBase.mapInst (c : CallBase γ ι) : CallBase γ κ :=
  ⟨c.functionType, c.callingConv, c.attributes, c.calledOperand.mapInst f, c.args.map (fun a => (a.1, a.2.mapInst f))⟩

def CallBase.insts (c : CallBase γ ι) : List ι := c.calledOperand.insts ++ c.args.flatMap (fun a => a.2.insts)

def InstOp.mapInst : InstOp γ ι → InstOp γ κ
  | .call c => .call (c.mapInst f)
  | .op opcode ty is vs => .op opcode ty is (vs.map (Value.mapInst f))
  | .expand opcode ty is vs => .expand opcode ty is (vs.map (Value.mapInst f))
  | .store ty v p => .store ty (v.mapInst f) (p.mapInst f)
  | .insertValue v w i => .insertValue (v.mapInst f) (w.mapInst f) i
  | .icmpEq v w => .icmpEq (v.mapInst f) (w.mapInst f)
  | .load ty v => .load ty (v.mapInst f)
  | .elementPtr v i => .elementPtr (v.mapInst f) i
  | .extractValue v i => .extractValue (v.mapInst f) i
  | .stackRestore v => .stackRestore (v.mapInst f)
  | .intToPtr v => .intToPtr (v.mapInst f)
  | .xorMagic n v => .xorMagic n (v.mapInst f)
  | .landingPad => .landingPad
  | .catchPad => .catchPad
  | .cleanupPad => .cleanupPad
  | .alloca ty => .alloca ty
  | .stackSave => .stackSave

def InstOp.insts : InstOp γ ι → List ι
  | .call c => c.insts
  | .op _ _ _ vs | .expand _ _ _ vs => vs.flatMap Value.insts
  | .store _ v p | .insertValue v p _ | .icmpEq v p => v.insts ++ p.insts
  | .load _ v | .elementPtr v _ | .extractValue v _ | .stackRestore v | .intToPtr v | .xorMagic _ v => v.insts
  | .landingPad | .catchPad | .cleanupPad | .alloca _ | .stackSave => []

def Term.mapInst : Term γ ι β → Term γ κ β
  | .ret r => .ret (r.map (fun p => (p.1, p.2.mapInst f)))
  | .br d => .br d
  | .condBr v a b => .condBr (v.mapInst f) a b
  | .switch v d cases => .switch (v.mapInst f) d cases
  | .unreachable => .unreachable
  | .indirectBr v ds => .indirectBr (v.mapInst f) ds
  | .callBr asm => .callBr asm
  | .invoke c a b => .invoke (c.mapInst f) a b
  | .resume => .resume
  | .catchSwitch => .catchSwitch
  | .catchReturn => .catchReturn
  | .cleanupReturn => .cleanupReturn

def Term.insts : Term γ ι β → List ι
  | .ret r => r.toList.flatMap (fun p => p.2.insts)
  | .condBr v _ _ | .switch v _ _ | .indirectBr v _ => v.insts
  | .invoke c _ _ => c.insts
  | _ => []

theorem MdOperand.mapInst_mapInst (v : MdOperand γ ι) : (v.mapInst f).mapInst g = v.mapInst (g ∘ f) := by
  cases v <;> rfl

theorem Metadata.mapInst_mapInst (md : Metadata γ ι) : (md.mapInst f).mapInst g = md.mapInst (g ∘ f) := by
  cases md with
  | value v => exact congrArg Metadata.value (v.mapInst_mapInst f g)
  | argList vs => simp [Metadata.mapInst, MdOperand.mapInst_mapInst]
  | node n => rfl

theorem Value.mapInst_mapInst (v : Value γ ι) : (v.mapInst f).mapInst g = v.mapInst (g ∘ f) := by
  cases v with
  | metadata md => exact congrArg Value.metadata (md.mapInst_mapInst f g)
  | const | arg | inst | inlineAsm => rfl

theorem CallBase.mapInst_mapInst (c : CallBase γ ι) : (c.mapInst f).mapInst g = c.mapInst (g ∘ f) := by
  simp [CallBase.mapInst, Value.mapInst_mapInst]

theorem InstOp.mapInst_mapInst (op : InstOp γ ι) : (op.mapInst f).mapInst g = op.mapInst (g ∘ f) := by
  cases op <;> simp [InstOp.mapInst, Value.mapInst_mapInst, CallBase.mapInst_mapInst]

theorem Term.mapInst_mapInst (t : Term γ ι β) : (t.mapInst f).mapInst g = t.mapInst (g ∘ f) := by
  cases t with
  | ret r => cases r <;> simp [Term.mapInst, Value.mapInst_mapInst]
  | invoke c a b => simp [Term.mapInst, CallBase.mapInst_mapInst]
  | _ => simp [Term.mapInst, Value.mapInst_mapInst]

theorem MdOperand.insts_mapInst (v : MdOperand γ ι) : (v.mapInst f).insts = v.insts.map f := by
  cases v <;> rfl

theorem Metadata.insts_mapInst (md : Metadata γ ι) : (md.mapInst f).insts = md.insts.map f := by
  cases md with
  | value v => exact v.insts_mapInst f
  | argList vs => simp [Metadata.mapInst, Metadata.insts, MdOperand.insts_mapInst, List.flatMap_map, List.map_flatMap]
  | node n => rfl

theorem Value.insts_mapInst (v : Value γ ι) : (v.mapInst f).insts = v.insts.map f := by
  cases v with
  | metadata md => exact md.insts_mapInst f
  | const | arg | inst | inlineAsm => rfl

theorem CallBase.insts_mapInst (c : CallBase γ ι) : (c.mapInst f).insts = c.insts.map f := by
  simp [CallBase.mapInst, CallBase.insts, Value.insts_mapInst, List.flatMap_map, List.map_flatMap]

theorem InstOp.insts_mapInst (op : InstOp γ ι) : (op.mapInst f).insts = op.insts.map f := by
  cases op <;> simp [InstOp.mapInst, InstOp.insts, Value.insts_mapInst, CallBase.insts_mapInst, List.flatMap_map,
    List.map_flatMap]

theorem Term.insts_mapInst (t : Term γ ι β) : (t.mapInst f).insts = t.insts.map f := by
  cases t with
  | ret r => cases r <;> simp [Term.mapInst, Term.insts, Value.insts_mapInst]
  | invoke c a b => exact c.insts_mapInst f
  | _ => simp [Term.mapInst, Term.insts, Value.insts_mapInst]

end Inst

section Id

variable {γ ι β : Type}

theorem MdOperand.mapInst_id (v : MdOperand γ ι) : v.mapInst id = v := by
  cases v <;> rfl

theorem Metadata.mapInst_id (md : Metadata γ ι) : md.mapInst id = md := by
  cases md with
  | value v => exact congrArg Metadata.value v.mapInst_id
  | argList vs => simp [Metadata.mapInst, List.map_id'' MdOperand.mapInst_id]
  | node n => rfl

theorem Value.mapInst_id (v : Value γ ι) : v.mapInst id = v := by
  cases v with
  | metadata md => exact congrArg Value.metadata md.mapInst_id
  | const | arg | inst | inlineAsm => rfl

theorem CallBase.mapInst_id (c : CallBase γ ι) : c.mapInst id = c := by
  simp [CallBase.mapInst, Value.mapInst_id]

theorem InstOp.mapInst_id (op : InstOp γ ι) : op.mapInst id = op := by
  cases op <;> simp [InstOp.mapInst, Value.mapInst_id, CallBase.mapInst_id, List.map_id'' Value.mapInst_id]

theorem Term.mapInst_id (t : Term γ ι β) : t.mapInst id = t := by
  cases t with
  | ret r => cases r <;> simp [Term.mapInst, Value.mapInst_id]
  | invoke c a b => simp [Term.mapInst, CallBase.mapInst_id]
  | _ => simp [Term.mapInst, Value.mapInst_id]

end Id

section Label

variable {γ ι κ β δ η : Type} (f : β → δ) (g : δ → η)

def Term.mapLabel : Term γ ι β → Term γ ι δ
  | .ret r => .ret r
  | .br d => .br (f d)
  | .condBr v a b => .condBr v (f a) (f b)
  | .switch v d cases => .switch v (f d) (cases.map (fun c => (c.1, f c.2)))
  | .unreachable => .unreachable
  | .indirectBr v ds => .indirectBr v (ds.map f)
  | .callBr asm => .callBr asm
  | .invoke c a b => .invoke c (f a) (f b)
  | .resume => .resume
  | .catchSwitch => .catchSwitch
  | .catchReturn => .catchReturn
  | .cleanupReturn => .cleanupReturn

def Term.labels : Term γ ι β → List β
  | .br d => [d]
  | .condBr _ a b | .invoke _ a b => [a, b]
  | .switch _ d cases => d :: cases.map Prod.snd
  | .indirectBr _ ds => ds
  | _ => []

theorem Term.mapLabel_mapLabel (t : Term γ ι β) : (t.mapLabel f).mapLabel g = t.mapLabel (g ∘ f) := by
  cases t <;> simp [Term.mapLabel]

theorem Term.mapLabel_id (t : Term γ ι β) : t.mapLabel id = t := by
  cases t <;> simp [Term.mapLabel]

theorem Term.labels_mapLabel (t : Term γ ι β) : (t.mapLabel f).labels = t.labels.map f := by
  cases t <;> simp [Term.mapLabel, Term.labels]

theorem Term.mapInst_mapLabel (h : ι → κ) (t : Term γ ι β) : (t.mapLabel f).mapInst h = (t.mapInst h).mapLabel f := by
  cases t <;> rfl

end Label

end Comulator.Ir
