import Comulator.ConstExpand

namespace Comulator.Bundles

open Fallible Types Ir Symtbl HostIr TakeOut GuestSymbols CallCopy SelfContained ConstExpand

variable {P : Input} {X : Copy}

/-- The call of the guest function whose operand bundles an instruction has: it is
this call with another called operand. The calls of intrinsics, of
`__gyh_callback__` and of a stub are new ones. -/
def bundleOwner (i : HInst) : Option Nat :=
  match i.op with
  | .call c => match c.calledOperand with
    | .const (.global (.fcpFunc _)) | .const (.global (.whiteCallee _)) | .inst _ => i.id.owner
    | _ => none
  | _ => none

/-- The constants in its bundles, if the call `n` of the guest function has `bundles n`.
`do_instruction` does not look at them. -/
def bundleConsts (bundles : Nat → List (Const Nat)) : AnyInst → List (Const Nat)
  | .inst i => (bundleOwner i).elim [] bundles
  | _ => []

theorem bundleOwner_of_noCall {i : HInst} (h : Module.callOf i.op = none) : bundleOwner i = none := by
  unfold bundleOwner
  split
  next c hop =>
    rw [hop] at h
    cases h
  next => rfl

theorem bundleOwner_of_expansion {i : HInst} (h : isExpansion i.op = true) : bundleOwner i = none := by
  apply bundleOwner_of_noCall
  cases hop : i.op with
  | call c =>
      rw [hop] at h
      cases h
  | _ => rfl

theorem bundleOwner_of_debug {i : HInst} (h : called i.op = some .gyhDebug) : bundleOwner i = none := by
  unfold bundleOwner
  split
  next c hop =>
    rw [hop] at h
    simp only [called] at h
    split at h
    next s hs =>
      cases h
      rw [hs]
    next => cases h
  next => rfl

theorem quiet_noBundles {l : List HInst} (h : Quiet l) : ∀ i ∈ l, bundleOwner i = none := by
  intro i hi
  rcases (h i hi).2 with hnone | hdebug
  · exact bundleOwner_of_noCall hnone
  · exact bundleOwner_of_debug hdebug

theorem insertChain_noBundles {name : Nat → HostId} {vs : List HValue} :
    ∀ i ∈ insertChain name vs, bundleOwner i = none := by
  intro i hi
  obtain ⟨p, _, rfl⟩ := List.mem_map.mp hi
  rfl

theorem callbackCode_noBundles {debug : Bool} {n k : Nat} {result : HostId} {cbStub callee : HValue} {ret : Ty}
    {args : List (Ty × HValue)} :
    ∀ i ∈ callbackCode debug n k result cbStub callee ret args, bundleOwner i = none := by
  have hif : ∀ {c : Prop} [Decidable c] {l : List HInst}, (∀ i ∈ l, bundleOwner i = none) →
      ∀ i ∈ (if c then [] else l), bundleOwner i = none := by
    intro c _ l h
    split
    · exact List.forall_mem_nil _
    · exact h
  have hone : ∀ {x : HostId} {op : HOp}, bundleOwner ⟨x, op⟩ = none → ∀ i ∈ [(⟨x, op⟩ : HInst)], bundleOwner i = none :=
    fun h => List.forall_mem_singleton.mpr h
  have hpack : ∀ {name : Nat → HostId} {ty : Ty} {vs : List HValue}, ∀ i ∈ packCode name ty vs, bundleOwner i = none := by
    intro name ty vs
    refine List.forall_mem_append.mpr ⟨insertChain_noBundles, ?_⟩
    exact List.forall_mem_cons.mpr ⟨rfl, hone rfl⟩
  simp only [callbackCode, List.forall_mem_append]
  refine ⟨⟨⟨⟨⟨⟨hone rfl, hif (hone rfl)⟩, hif hpack⟩, ?_⟩, hone rfl⟩, hif (hone rfl)⟩, hone rfl⟩
  split
  · exact hone rfl
  · exact List.forall_mem_nil _

theorem doCallback_noBundles {n k : Nat} {result : HostId} {c : GCall} {callee : HValue} {args : List (Ty × HValue)}
    {code : List HInst} (h : doCallback P X n k result c callee args = .ok code) : ∀ i ∈ code, bundleOwner i = none := by
  obtain ⟨_, _, _, _, rfl⟩ := doCallback_eq_ok.mp h
  exact callbackCode_noBundles

theorem doOperands_noBundles {S : Site} {args : Nat → HValue} {k : Nat} {vs : List GValue} {code : List HInst}
    {ws : List HValue} (h : doOperands S args k vs = .ok (code, ws)) : ∀ i ∈ code, bundleOwner i = none :=
  fun i hi => bundleOwner_of_expansion (doOperands_expansions h i hi)

theorem doTerminator_noBundles {f : GFunction} {n : Nat} {t : Term Nat Nat Nat} {code : List HInst} {term : HTerm}
    (h : doTerminator P X f n t = .ok (code, term)) : ∀ i ∈ code, bundleOwner i = none := by
  have hoperand : ∀ {k : Nat} {v : GValue} {code : List HInst} {w : HValue},
      doOperand (site P X n false) X.args k v = .ok (code, w) → ∀ i ∈ code, bundleOwner i = none :=
    fun h i hi => bundleOwner_of_expansion (doOperand_expansions h i hi)
  cases t with
  | ret r =>
      cases r with
      | none =>
          cases h
          exact List.forall_mem_nil _
      | some r =>
          obtain ⟨⟨code₁, w⟩, hv, h⟩ := bind_eq_ok.mp h
          dsimp only at h
          split at h
          next =>
            cases h
            exact hoperand hv
          next =>
            cases h
            exact List.forall_mem_append.mpr ⟨hoperand hv, List.forall_mem_singleton.mpr rfl⟩
  | condBr | switch =>
      obtain ⟨_, hv, h⟩ := bind_eq_ok.mp h
      cases h
      exact hoperand hv
  | br | unreachable =>
      cases h
      exact List.forall_mem_nil _
  | _ => cases h

/-- An instruction with the bundles of a call has been made for this call. -/
theorem doInstruction_bundles {i : GInst} {p : Piece} (h : doInstruction P X i = .ok p) {y : HInst} {n : Nat}
    (hy : AnyInst.inst y ∈ pieceInstructions p) (hn : bundleOwner y = some n) : n = i.id ∧ ∃ c, i.op = .call c := by
  have hcode : ∀ {l : List HInst}, (∀ i ∈ l, bundleOwner i = none) → y ∉ l := by
    intro l hl hmem
    rw [hl y hmem] at hn
    cases hn
  cases doInstruction_made h with
  | op hop hops =>
      obtain ⟨z, hz, heq⟩ := List.mem_map.mp hy
      cases heq
      rcases List.mem_append.mp hz with hz | hz
      · exact absurd hz (hcode (doOperands_noBundles hops))
      · cases List.mem_singleton.mp hz
        cases hn
  | @direct c d code vs hop hvs hd =>
      obtain ⟨z, hz, heq⟩ := List.mem_map.mp hy
      cases heq
      rcases List.mem_append.mp hz with hz | hz
      · exact absurd hz (hcode (doOperands_noBundles hvs))
      · cases List.mem_singleton.mp hz
        refine ⟨?_, c, hop⟩
        simp only [bundleOwner] at hn
        split at hn
        all_goals cases hn
        all_goals rfl
  | @callback c code code' code'' vs callee hop hvs hroute hcallee hcm hcallback =>
      obtain ⟨z, hz, heq⟩ := List.mem_map.mp hy
      cases heq
      refine absurd hz (hcode ?_)
      refine List.forall_mem_append.mpr ⟨List.forall_mem_append.mpr ⟨doOperands_noBundles hvs, ?_⟩,
        doCallback_noBundles hcallback⟩
      exact fun i hi => bundleOwner_of_expansion (doOperand_expansions hcallee i hi)
  | @split c code code' vs callee s hop hvs hroute hcallee hcm hs =>
      obtain ⟨right, hright, hs⟩ := bind_eq_ok.mp hs
      cases hs
      simp only [pieceInstructions, List.mem_append, List.mem_map, AnyInst.inst.injEq, exists_eq_right,
        List.mem_singleton, reduceCtorEq, and_false, exists_false, or_false] at hy
      rcases hy with ((hy | hy) | hy) | hy
      · refine absurd (List.mem_append.mpr hy) (hcode ?_)
        refine List.forall_mem_append.mpr ⟨doOperands_noBundles hvs, ?_⟩
        exact fun i hi => bundleOwner_of_expansion (doOperand_expansions hcallee i hi)
      · refine absurd hy (hcode ?_)
        simp only [List.forall_mem_cons]
        exact ⟨rfl, rfl, rfl, rfl, rfl, rfl, List.forall_mem_nil _⟩
      · -- the call in the left block is the one that was cloned
        rcases List.mem_cons.mp hy with rfl | hy
        · cases hn
        · cases List.mem_singleton.mp hy
          cases hn
          exact ⟨rfl, c, hop⟩
      · exact absurd hy (hcode (doCallback_noBundles hright))

theorem doBody_bundles {f : GFunction} {entry : List HInst} {blocks : List (HostBlock × HBlock)}
    (h : doBody P X f entry = .ok blocks) (hentry : Quiet entry) {y : HInst} {n : Nat}
    (hy : AnyInst.inst y ∈ blocksInstructions blocks) (hn : bundleOwner y = some n) :
    ∃ b ∈ f.blocks, ∃ i ∈ b.2.insts, n = i.id ∧ ∃ c, i.op = .call c := by
  rcases (doBody_instructions h).2 _ hy with hmem | ⟨d, hd⟩ | ⟨b, hb, o, ho, hmem⟩
  · obtain ⟨z, hz, heq⟩ := List.mem_map.mp hmem
    cases heq
    rw [quiet_noBundles hentry y hz] at hn
    cases hn
  · cases hd
  · simp only [BlockCopy.instructions, List.mem_append, List.mem_map, List.mem_flatMap, AnyInst.inst.injEq,
      exists_eq_right, reduceCtorEq, and_false, exists_false, or_false, List.mem_singleton] at hmem
    rcases hmem with (⟨q, hq, hy⟩ | ⟨p, hp, hy⟩) | hy
    · obtain ⟨ph, _, hph⟩ := (mapM_ok_mem ho.phis).2 q hq
      obtain ⟨⟨code, vs⟩, hvs, hph⟩ := bind_eq_ok.mp hph
      cases hph
      rw [doOperands_noBundles hvs y hy] at hn
      cases hn
    · obtain ⟨i, hi, hip⟩ := (mapM_ok_mem ho.pieces).2 p hp
      exact ⟨b, hb, i, hi, doInstruction_bundles hip hy hn⟩
    · rw [doTerminator_noBundles ho.term y hy] at hn
      cases hn

theorem fcpStub_noBundles {g : Nat} {f : GFunction} {info : FuncInfo} {y : HInst}
    (hy : AnyInst.inst y ∈ instructions (fcpStub P g f info)) : bundleOwner y = none := by
  have hplace : ∀ {pos : Nat} {ops : List HOp}, ∀ i ∈ place pos ops, bundleOwner i = none := by
    intro pos ops i hi
    obtain ⟨q, _, rfl⟩ := List.mem_map.mp hi
    unfold bundleOwner
    split
    next =>
      split
      all_goals rfl
    next => rfl
  simp only [fcpStub, instructions, blocksInstructions, List.flatMap_cons, List.flatMap_nil, List.append_nil,
    blockInstructions, List.map_nil, List.nil_append, List.mem_append, List.mem_map,
    AnyInst.inst.injEq, exists_eq_right, List.mem_singleton, reduceCtorEq, or_false] at hy
  rcases hy with hy | hy
  · exact quiet_noBundles (quiet_stubEntry P f info) y (List.mem_append.mpr hy)
  · split at hy
    · exact hplace y hy
    · exact hplace y hy

mutual

theorem cloneConst_users {self : Nat × HostSym} (hself : ∀ k, self.2 ≠ .user k) (c : Const Nat) :
    constUsers (cloneConst self c) = constLeft ⟨fun _ => false, self.1, false⟩ c := by
  cases c with
  | wrapper kind g =>
      cases kind with
      | blockAddress b =>
          by_cases hg : g = self.1
          · have hsym : constUsers (.wrapper (.blockAddress b) self.2) = [] := by
              cases hs : self.2 with
              | user k => exact absurd hs (hself k)
              | _ => rfl
            simp [cloneConst, constLeft, hg, hsym]
          · simp [cloneConst, constUsers, constLeft, hg]
      | dsoLocalEquivalent | noCfi => rfl
  | aggregate kind ops => exact cloneConsts_users hself ops
  | expr opcode ty is ops => exact cloneConsts_users hself ops
  | global | int | nullPtr | undef | poison | data => rfl

theorem cloneConsts_users {self : Nat × HostSym} (hself : ∀ k, self.2 ≠ .user k) (cs : List (Const Nat)) :
    constsUsers (cloneConsts self cs) = constsLeft ⟨fun _ => false, self.1, false⟩ cs := by
  cases cs with
  | nil => rfl
  | cons c cs => rw [cloneConsts, constsUsers, constsLeft, cloneConst_users hself c, cloneConsts_users hself cs]

end

end Comulator.Bundles
