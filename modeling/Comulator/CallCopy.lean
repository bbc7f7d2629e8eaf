import Comulator.Fallible
import Comulator.TakeOut

namespace Comulator.CallCopy

open Fallible Types Ir TypeHash Symtbl HostIr TakeOut

def directCall (c : GCall) (args : List (Ty × HValue)) : Route → Option (CallBase HostSym HostId)
  | .white g => some ⟨c.functionType, c.callingConv, c.attributes, .const (.global (.whiteCallee g)), args⟩
  | .intrinsic id => some ⟨c.functionType, 0, ⟨[]⟩, .const (.global (.intrinsic id)), args⟩
  | .fcp g => some ⟨c.functionType, c.callingConv, c.attributes, .const (.global (.fcpFunc g)), args⟩
  | .callback => none

inductive Made (P : Input) (X : Copy) (i : GInst) : Piece → Prop
  | op {opcode : Opcode} {ty : Ty} {is : List Nat} {ops : List GValue} {code : List HInst} {vs : List HValue}
      (hop : i.op = .op opcode ty is ops) (hops : doOperands (site P X i.id false) X.args 1 ops = .ok (code, vs)) :
      Made P X i (.code (code ++ [⟨bodyId i.id, .op opcode ty is vs⟩]))
  | direct {c : GCall} {d : CallBase HostSym HostId} {code : List HInst} {vs : List HValue} (hop : i.op = .call c)
      (hargs : doOperands (site P X i.id (isDbgValueInst P.module c)) X.args 1 (c.args.map Prod.snd) = .ok (code, vs))
      (hd : directCall c ((c.args.map Prod.fst).zip vs) (P.route c) = some d) :
      Made P X i (.code (code ++ [⟨bodyId i.id, .call d⟩]))
  | callback {c : GCall} {code code' code'' : List HInst} {vs : List HValue} {callee : HValue} (hop : i.op = .call c)
      (hargs : doOperands (site P X i.id (isDbgValueInst P.module c)) X.args 1 (c.args.map Prod.snd) = .ok (code, vs))
      (hroute : P.route c = .callback)
      (hcallee : doOperand (site P X i.id (isDbgValueInst P.module c)) X.args (1 + code.length) c.calledOperand =
        .ok (code', callee))
      (hcm : P.config.useFCPcm = false)
      (hcode : doCallback P X i.id (1 + code.length + code'.length) (bodyId i.id) c callee
        ((c.args.map Prod.fst).zip vs) = .ok code'') :
      Made P X i (.code (code ++ code' ++ code''))
  | split {c : GCall} {code code' : List HInst} {vs : List HValue} {callee : HValue} {s : Split} (hop : i.op = .call c)
      (hargs : doOperands (site P X i.id (isDbgValueInst P.module c)) X.args 1 (c.args.map Prod.snd) = .ok (code, vs))
      (hroute : P.route c = .callback)
      (hcallee : doOperand (site P X i.id (isDbgValueInst P.module c)) X.args (1 + code.length) c.calledOperand =
        .ok (code', callee))
      (hcm : P.config.useFCPcm = true)
      (hs : doFcpCm P X i.id (1 + code.length + code'.length) c callee ((c.args.map Prod.fst).zip vs) = .ok s) :
      Made P X i (.split (code ++ code') s)

variable {P : Input} {X : Copy}

theorem directCall_route {c : GCall} {args : List (Ty × HValue)} {r : Route} {d : CallBase HostSym HostId}
    (h : directCall c args r = some d) : r ≠ .callback := by
  rintro rfl
  cases h

theorem doInstruction_made {i : GInst} {p : Piece} (h : doInstruction P X i = .ok p) : Made P X i p := by
  unfold doInstruction at h
  split at h
  next c hop =>
    obtain ⟨⟨code, vs⟩, hargs, h⟩ := bind_eq_ok.mp h
    dsimp only at h
    split at h
    case h_4 hroute =>
      obtain ⟨⟨code', callee⟩, hcallee, h⟩ := bind_eq_ok.mp h
      dsimp only at h
      split at h
      next hcm =>
        obtain ⟨s, hs, h⟩ := bind_eq_ok.mp h
        cases h
        exact .split hop hargs hroute hcallee hcm hs
      next hcm =>
        obtain ⟨code'', hcode, h⟩ := bind_eq_ok.mp h
        cases h
        exact .callback hop hargs hroute hcallee (Bool.eq_false_iff.mpr hcm) hcode
    all_goals
      next hroute =>
        cases h
        refine .direct hop hargs ?_
        rw [hroute]
        rfl
  next opcode ty is ops hop =>
    obtain ⟨⟨code, vs⟩, hops, h⟩ := bind_eq_ok.mp h
    cases h
    exact .op hop hops
  next => cases h

theorem doCallback_eq_ok {n k : Nat} {result : HostId} {c : GCall} {callee : HValue} {args : List (Ty × HValue)}
    {code : List HInst} : doCallback P X n k result c callee args = .ok code ↔
      ∃ h stub, callSiteHash P.hash c = some h ∧ X.cbStubs h = some stub ∧
        callbackCode P.config.debug n k result (.inst stub) callee c.functionType.ret args = code := by
  unfold doCallback
  cases callSiteHash P.hash c with
  | none => simp
  | some h =>
      cases hstub : X.cbStubs h with
      | none => simp [hstub]
      | some stub => simp [hstub]

end Comulator.CallCopy
