import Comulator.CallCopy

namespace Comulator.FcpCmSplit

open Fallible Types Ir TypeHash Symtbl HostIr TakeOut CallCopy

section Instruction

variable (P : Input) (X : Copy)

def splits (i : GInst) : Bool :=
  match i.op with
  | .call c => P.config.useFCPcm && P.route c = .callback
  | _ => false

structure SplitCall (i : GInst) (c : GCall) (pre : List HInst) (k : Nat) (callee : HValue) (args : List (Ty × HValue)) :
    Prop where
  call : i.op = .call c
  route : P.route c = .callback
  useFCPcm : P.config.useFCPcm = true
  operands : ∃ code vs code', doOperands (site P X i.id (isDbgValueInst P.module c)) X.args 1 (c.args.map Prod.snd) =
    .ok (code, vs) ∧ doOperand (site P X i.id (isDbgValueInst P.module c)) X.args (1 + code.length) c.calledOperand =
      .ok (code', callee) ∧ pre = code ++ code' ∧ k = 1 + code.length + code'.length ∧
        args = (c.args.map Prod.fst).zip vs

variable {P X} {i : GInst}

theorem doInstruction_split {pre : List HInst} {s : Split} (h : doInstruction P X i = .ok (.split pre s)) :
    ∃ c k callee args, SplitCall P X i c pre k callee args ∧ doFcpCm P X i.id k c callee args = .ok s := by
  cases doInstruction_made h with
  | split hop hargs hroute hcallee hcm hs =>
      exact ⟨_, _, _, _, ⟨hop, hroute, hcm, _, _, _, hargs, hcallee, rfl, rfl, rfl⟩, hs⟩

theorem SplitCall.splits {c : GCall} {pre : List HInst} {k : Nat} {callee : HValue} {args : List (Ty × HValue)}
    (h : SplitCall P X i c pre k callee args) : splits P i = true := by
  simp [FcpCmSplit.splits, h.call, h.useFCPcm, h.route]

theorem doInstruction_code {l : List HInst} (h : doInstruction P X i = .ok (.code l)) : splits P i = false := by
  cases doInstruction_made h with
  | op hop _ => simp [FcpCmSplit.splits, hop]
  | callback hop _ _ _ hcm _ => simp [FcpCmSplit.splits, hop, hcm]
  | direct hop _ hd => simp [FcpCmSplit.splits, hop, directCall_route hd]

variable {n k : Nat} {c : GCall} {callee : HValue} {args : List (Ty × HValue)} {s : Split}

theorem doFcpCm_call (h : doFcpCm P X n k c callee args = .ok s) : s.call = n := by
  obtain ⟨right, _, h⟩ := bind_eq_ok.mp h
  cases h
  rfl

theorem doFcpCm_phi (h : doFcpCm P X n k c callee args = .ok s) : s.phi = if c.functionType.ret = .void then none
    else some ⟨bodyId n, c.functionType.ret, [(.inst ⟨some n, k + 7⟩, .left n), (.inst ⟨some n, k + 8⟩, .right n)]⟩ := by
  obtain ⟨right, _, h⟩ := bind_eq_ok.mp h
  cases h
  rfl

theorem split_call {pre : List HInst} (h : doInstruction P X i = .ok (.split pre s)) : s.call = i.id := by
  obtain ⟨c, k, callee, args, _, hs⟩ := doInstruction_split h
  exact doFcpCm_call hs

theorem nextLabel_concat_code (b : Nat) (ps : List Piece) (l : List HInst) :
    nextLabel b (ps ++ [.code l]) = nextLabel b ps := by
  induction ps with
  | nil => rfl
  | cons p ps ih =>
      cases p with
      | code l => exact ih
      | split pre s => rfl

/-- Where the copy of a block is entered is known before the walk. -/
theorem nextLabel_pieces (b : Nat) {is : List GInst} {ps : List Piece} (h : is.mapM (doInstruction P X) = .ok ps) :
    nextLabel b ps = ((is.find? (splits P)).map (fun i => HostBlock.top i.id)).getD (.body b) := by
  induction is generalizing ps with
  | nil =>
      cases h
      rfl
  | cons i is ih =>
      rw [List.mapM_cons] at h
      obtain ⟨p, hp, h⟩ := bind_eq_ok.mp h
      obtain ⟨ps', hps, h⟩ := bind_eq_ok.mp h
      cases h
      cases p with
      | code l =>
          rw [nextLabel, List.find?_cons, doInstruction_code hp]
          exact ih hps
      | split pre s =>
          obtain ⟨c, k, callee, args, hc, hs⟩ := doInstruction_split hp
          rw [nextLabel, List.find?_cons, hc.splits, doFcpCm_call hs]
          rfl

theorem entryLabel_find {f : GFunction} {b : Nat} {blk : GBlock} (hb : f.block? b = some blk) :
    entryLabel P f b = ((blk.insts.find? (splits P)).map (fun i => HostBlock.top i.id)).getD (.body b) := by
  rw [entryLabel, hb]
  dsimp only
  split
  next i hi =>
    have hfind : blk.insts.find? (splits P) = some i := hi
    rw [hfind]
    rfl
  next hnone =>
    have hfind : blk.insts.find? (splits P) = none := hnone
    rw [hfind]
    rfl

theorem entryLabel_eq {f : GFunction} {b : Nat} {blk : GBlock} (hb : f.block? b = some blk) {ps : List Piece}
    (h : blk.insts.mapM (doInstruction P X) = .ok ps) : entryLabel P f b = nextLabel b ps := by
  rw [entryLabel_find hb, nextLabel_pieces b h]

end Instruction

end Comulator.FcpCmSplit
