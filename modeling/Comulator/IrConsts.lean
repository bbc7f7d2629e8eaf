import Comulator.Ir
import Mathlib.Data.List.Basic

namespace Comulator.Ir

variable {γ ι β : Type} (φ : Const γ → Const γ)

def MdOperand.consts : MdOperand γ ι → List (Const γ)
  | .const c => [c]
  | _ => []

def MdOperand.mapConst : MdOperand γ ι → MdOperand γ ι
  | .const c => .const (φ c)
  | .arg i => .arg i
  | .inst x => .inst x

def Metadata.consts : Metadata γ ι → List (Const γ)
  | .value v => v.consts
  | .argList vs => vs.flatMap MdOperand.consts
  | .node _ => []

def Metadata.mapConst : Metadata γ ι → Metadata γ ι
  | .value v => .value (v.mapConst φ)
  | .argList vs => .argList (vs.map (MdOperand.mapConst φ))
  | .node n => .node n

def Value.consts : Value γ ι → List (Const γ)
  | .const c => [c]
  | .metadata md => md.consts
  | _ => []

def Value.mapConst : Value γ ι → Value γ ι
  | .const c => .const (φ c)
  | .arg i => .arg i
  | .inst x => .inst x
  | .metadata md => .metadata (md.mapConst φ)
  | .inlineAsm n => .inlineAsm n

def CallBase.consts (c : CallBase γ ι) : List (Const γ) :=
  c.calledOperand.consts ++ c.args.flatMap (fun a => a.2.consts)

def CallBase.mapConst (c : CallBase γ ι) : CallBase γ ι :=
  { c with calledOperand := c.calledOperand.mapConst φ, args := c.args.map (fun a => (a.1, a.2.mapConst φ)) }

def InstOp.consts : InstOp γ ι → List (Const γ)
  | .call c => c.consts
  | .op _ _ _ vs | .expand _ _ _ vs => vs.flatMap Value.consts
  | .store _ v p | .insertValue v p _ | .icmpEq v p => v.consts ++ p.consts
  | .load _ v | .elementPtr v _ | .extractValue v _ | .stackRestore v | .intToPtr v | .xorMagic _ v => v.consts
  | .landingPad | .catchPad | .cleanupPad | .alloca _ | .stackSave => []

def InstOp.mapConst : InstOp γ ι → InstOp γ ι
  | .call c => .call (c.mapConst φ)
  | .op opcode ty is vs => .op opcode ty is (vs.map (Value.mapConst φ))
  | .expand opcode ty is vs => .expand opcode ty is (vs.map (Value.mapConst φ))
  | .store ty v p => .store ty (v.mapConst φ) (p.mapConst φ)
  | .insertValue v w i => .insertValue (v.mapConst φ) (w.mapConst φ) i
  | .icmpEq v w => .icmpEq (v.mapConst φ) (w.mapConst φ)
  | .load ty v => .load ty (v.mapConst φ)
  | .elementPtr v i => .elementPtr (v.mapConst φ) i
  | .extractValue v i => .extractValue (v.mapConst φ) i
  | .stackRestore v => .stackRestore (v.mapConst φ)
  | .intToPtr v => .intToPtr (v.mapConst φ)
  | .xorMagic n v => .xorMagic n (v.mapConst φ)
  | .landingPad => .landingPad
  | .catchPad => .catchPad
  | .cleanupPad => .cleanupPad
  | .alloca ty => .alloca ty
  | .stackSave => .stackSave

def Term.consts : Term γ ι β → List (Const γ)
  | .ret (some r) => r.2.consts
  | .condBr v _ _ | .switch v _ _ | .indirectBr v _ => v.consts
  | .invoke c _ _ => c.consts
  | _ => []

def Term.mapConst : Term γ ι β → Term γ ι β
  | .ret (some r) => .ret (some (r.1, r.2.mapConst φ))
  | .condBr v a b => .condBr (v.mapConst φ) a b
  | .switch v d cs => .switch (v.mapConst φ) d cs
  | .indirectBr v ds => .indirectBr (v.mapConst φ) ds
  | .invoke c a b => .invoke (c.mapConst φ) a b
  | t => t

def Phi.consts (p : Phi γ ι β) : List (Const γ) := p.incoming.flatMap (fun e => e.1.consts)

def Phi.mapConst (p : Phi γ ι β) : Phi γ ι β :=
  { p with incoming := p.incoming.map (fun e => (e.1.mapConst φ, e.2)) }

def Block.consts (b : Block γ ι β) : List (Const γ) :=
  b.phis.flatMap Phi.consts ++ b.insts.flatMap (fun i => i.op.consts) ++ b.term.consts

def Block.mapConst (b : Block γ ι β) : Block γ ι β :=
  { b with
    phis := b.phis.map (Phi.mapConst φ)
    insts := b.insts.map (fun i => { i with op := i.op.mapConst φ })
    term := b.term.mapConst φ }

def Function.consts (f : Function γ ι β) : List (Const γ) :=
  f.blocks.flatMap (fun b => b.2.consts) ++ f.operands ++ f.prefixData.toList

def Function.mapConst (f : Function γ ι β) : Function γ ι β :=
  { f with
    blocks := f.blocks.map (fun b => (b.1, b.2.mapConst φ))
    operands := f.operands.map φ
    prefixData := f.prefixData.map φ }

section Lists

variable {α : Type} {f : α → α} {g : α → List (Const γ)} {l : List α}

theorem flatMap_map_consts (h : ∀ a ∈ l, g (f a) = (g a).map φ) : (l.map f).flatMap g = (l.flatMap g).map φ := by
  rw [List.flatMap_map, List.map_flatMap]
  exact List.flatMap_congr h

variable {φ}

theorem map_eq_self_of_consts (h : ∀ a ∈ l, (∀ c ∈ g a, φ c = c) → f a = a) (hall : ∀ c ∈ l.flatMap g, φ c = c) :
    l.map f = l := by
  refine (List.map_congr_left (fun a ha => ?_)).trans l.map_id
  exact h a ha (fun c hc => hall c (List.mem_flatMap.mpr ⟨a, ha, hc⟩))

end Lists

section Map

theorem MdOperand.consts_mapConst (v : MdOperand γ ι) : (v.mapConst φ).consts = v.consts.map φ := by
  cases v <;> rfl

theorem Metadata.consts_mapConst (md : Metadata γ ι) : (md.mapConst φ).consts = md.consts.map φ := by
  cases md with
  | value v => exact v.consts_mapConst φ
  | argList vs => exact flatMap_map_consts φ (fun v _ => v.consts_mapConst φ)
  | node n => rfl

theorem Value.consts_mapConst (v : Value γ ι) : (v.mapConst φ).consts = v.consts.map φ := by
  cases v with
  | metadata md => exact md.consts_mapConst φ
  | const | arg | inst | inlineAsm => rfl

theorem CallBase.consts_mapConst (c : CallBase γ ι) : (c.mapConst φ).consts = c.consts.map φ := by
  unfold consts mapConst
  rw [List.map_append, c.calledOperand.consts_mapConst, flatMap_map_consts φ (fun a _ => a.2.consts_mapConst φ)]

theorem InstOp.consts_mapConst (op : InstOp γ ι) : (op.mapConst φ).consts = op.consts.map φ := by
  cases op with
  | call c => exact c.consts_mapConst φ
  | op | expand => exact flatMap_map_consts φ (fun v _ => v.consts_mapConst φ)
  | store | insertValue | icmpEq => simp only [mapConst, consts, List.map_append, Value.consts_mapConst]
  | load | elementPtr | extractValue | stackRestore | intToPtr | xorMagic => exact Value.consts_mapConst φ _
  | landingPad | catchPad | cleanupPad | alloca | stackSave => rfl

theorem Term.consts_mapConst (t : Term γ ι β) : (t.mapConst φ).consts = t.consts.map φ := by
  cases t with
  | ret r =>
      cases r with
      | none => rfl
      | some r => exact r.2.consts_mapConst φ
  | condBr | switch | indirectBr => exact Value.consts_mapConst φ _
  | invoke c => exact c.consts_mapConst φ
  | _ => rfl

theorem Phi.consts_mapConst (p : Phi γ ι β) : (p.mapConst φ).consts = p.consts.map φ :=
  flatMap_map_consts φ (fun e _ => e.1.consts_mapConst φ)

theorem Block.consts_mapConst (b : Block γ ι β) : (b.mapConst φ).consts = b.consts.map φ := by
  unfold consts mapConst
  rw [List.map_append, List.map_append, b.term.consts_mapConst,
    flatMap_map_consts φ (fun p _ => p.consts_mapConst φ), flatMap_map_consts φ (fun i _ => i.op.consts_mapConst φ)]

theorem Function.consts_mapConst (f : Function γ ι β) : (f.mapConst φ).consts = f.consts.map φ := by
  unfold consts mapConst
  rw [List.map_append, List.map_append, flatMap_map_consts φ (fun b _ => b.2.consts_mapConst φ)]
  cases f.prefixData <;> rfl

end Map

section Same

variable {φ}

theorem MdOperand.mapConst_eq_self {v : MdOperand γ ι} (h : ∀ c ∈ v.consts, φ c = c) : v.mapConst φ = v := by
  cases v with
  | const c => rw [mapConst, h c (List.mem_singleton_self c)]
  | arg | inst => rfl

theorem Metadata.mapConst_eq_self {md : Metadata γ ι} (h : ∀ c ∈ md.consts, φ c = c) : md.mapConst φ = md := by
  cases md with
  | value v => rw [mapConst, MdOperand.mapConst_eq_self h]
  | argList vs => rw [mapConst, map_eq_self_of_consts (fun v _ => v.mapConst_eq_self) h]
  | node n => rfl

theorem Value.mapConst_eq_self {v : Value γ ι} (h : ∀ c ∈ v.consts, φ c = c) : v.mapConst φ = v := by
  cases v with
  | const c => rw [mapConst, h c (List.mem_singleton_self c)]
  | metadata md => rw [mapConst, Metadata.mapConst_eq_self h]
  | arg | inst | inlineAsm => rfl

theorem CallBase.mapConst_eq_self {c : CallBase γ ι} (h : ∀ d ∈ c.consts, φ d = d) : c.mapConst φ = c := by
  obtain ⟨hcalled, hargs⟩ := List.forall_mem_append.mp h
  unfold mapConst
  rw [Value.mapConst_eq_self hcalled, map_eq_self_of_consts (fun a _ ha => by rw [Value.mapConst_eq_self ha]) hargs]

theorem InstOp.mapConst_eq_self {op : InstOp γ ι} (h : ∀ c ∈ op.consts, φ c = c) : op.mapConst φ = op := by
  cases op with
  | call c => rw [mapConst, CallBase.mapConst_eq_self h]
  | op | expand => rw [mapConst, map_eq_self_of_consts (fun v _ => v.mapConst_eq_self) h]
  | store | insertValue | icmpEq =>
      obtain ⟨hleft, hright⟩ := List.forall_mem_append.mp h
      rw [mapConst, Value.mapConst_eq_self hleft, Value.mapConst_eq_self hright]
  | load | elementPtr | extractValue | stackRestore | intToPtr | xorMagic => rw [mapConst, Value.mapConst_eq_self h]
  | landingPad | catchPad | cleanupPad | alloca | stackSave => rfl

theorem Term.mapConst_eq_self {t : Term γ ι β} (h : ∀ c ∈ t.consts, φ c = c) : t.mapConst φ = t := by
  cases t with
  | ret r =>
      cases r with
      | none => rfl
      | some r => rw [mapConst, Value.mapConst_eq_self h]
  | condBr | switch | indirectBr => rw [mapConst, Value.mapConst_eq_self h]
  | invoke => rw [mapConst, CallBase.mapConst_eq_self h]
  | _ => rfl

theorem Phi.mapConst_eq_self {p : Phi γ ι β} (h : ∀ c ∈ p.consts, φ c = c) : p.mapConst φ = p := by
  unfold mapConst
  rw [map_eq_self_of_consts (fun e _ he => by rw [Value.mapConst_eq_self he]) h]

theorem Block.mapConst_eq_self {b : Block γ ι β} (h : ∀ c ∈ b.consts, φ c = c) : b.mapConst φ = b := by
  obtain ⟨hrest, hterm⟩ := List.forall_mem_append.mp h
  obtain ⟨hphis, hinsts⟩ := List.forall_mem_append.mp hrest
  unfold mapConst
  rw [Term.mapConst_eq_self hterm, map_eq_self_of_consts (fun i _ hi => by rw [InstOp.mapConst_eq_self hi]) hinsts,
    map_eq_self_of_consts (fun p _ => p.mapConst_eq_self) hphis]

theorem Function.mapConst_eq_self {f : Function γ ι β} (h : ∀ c ∈ f.consts, φ c = c) : f.mapConst φ = f := by
  obtain ⟨hrest, hpre⟩ := List.forall_mem_append.mp h
  obtain ⟨hblocks, hoperands⟩ := List.forall_mem_append.mp hrest
  have hdata : f.prefixData.map φ = f.prefixData := by
    cases hc : f.prefixData with
    | none => rfl
    | some c =>
        rw [hc] at hpre
        rw [Option.map_some, hpre c (List.mem_singleton_self c)]
  unfold mapConst
  rw [hdata, map_eq_self_of_consts (fun b _ hb => by rw [Block.mapConst_eq_self hb]) hblocks,
    (List.map_congr_left hoperands).trans f.operands.map_id]

end Same

end Comulator.Ir
