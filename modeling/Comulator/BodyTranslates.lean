import Comulator.OperandEnds

namespace Comulator.BodyTranslates

open Fallible DepthWalk Types Ir TypeHash Symtbl HostIr TakeOut Analyze Lookups CallCopy GuestSymbols SelfContained OperandEnds

def isCopied : InstOp Nat Nat → Bool
  | .call _ | .op _ _ _ _ => true
  | _ => false

section Condition

variable (P : Input) (X : Copy)

/-- No global value that `do_operand` could get to from the operand is on a cycle or holds
a reference that is replaced. -/
def OperandSound (q : Bool × GValue) : Prop :=
  ∀ g ∈ valueMet (copyPlace X q.1) q.2, Sound (below (hasRef X.refs) P.module) (asserts (hasRef X.refs) P.module) g

structure Translatable (f : GFunction) : Prop where
  insts : ∀ b ∈ f.blocks, ∀ i ∈ b.2.insts, isCopied i.op = true
  terms : ∀ b ∈ f.blocks, ∀ e, Item.reject e ∉ termItems b.2.term
  callbacks : ∀ c ∈ Module.calls f, P.route c = .callback → ∃ h, callSiteHash P.hash c = some h ∧ X.cbStubs h ≠ none
  operands : ∀ q ∈ passed P f, OperandSound P X q

end Condition

section Operands

variable {P : Input} {X : Copy} {n : Nat} {dbg : Bool}

theorem walk_ok (n : Nat) (dbg : Bool) (g : Nat) : (site P X n dbg).walk g = .ok () ↔
    Sound (below (hasRef X.refs) P.module) (asserts (hasRef X.refs) P.module) g := by
  have hwalk : (site P X n dbg).walk = DepthWalk.walk (below (hasRef X.refs) P.module) (asserts (hasRef X.refs) P.module)
      Error.overflow Error.unexpectedGlobal ((List.range P.module.symbols.length).length + 1) := by
    rw [List.length_range, ← walkGlobal_eq]
    rfl
  rw [hwalk]
  exact walk_ok_iff (by decide) (below_bounded _ _)

theorem doOperand_ok_iff {k : Nat} {v : GValue} :
    (∃ r, doOperand (site P X n dbg) X.args k v = .ok r) ↔ OperandSound P X (dbg, v) := by
  have hforM : forM (valueMet (copyPlace X dbg) v) (site P X n dbg).walk = .ok () ↔ OperandSound P X (dbg, v) := by
    rw [forM_eq_ok]
    exact forall₂_congr (fun g _ => walk_ok n dbg g)
  have herror := fun e => doOperand_error (S := site P X n dbg) X.args k v e
  have hmet : valueWalked (site P X n dbg) v = valueMet (copyPlace X dbg) v := valueWalked_eq _ v
  rw [hmet] at herror
  rw [← hforM]
  cases hop : doOperand (site P X n dbg) X.args k v with
  | error e =>
      rw [(herror e).mp hop]
      simp
  | ok r =>
      refine iff_of_true ⟨r, rfl⟩ ?_
      cases hwalk : forM (valueMet (copyPlace X dbg) v) (site P X n dbg).walk with
      | error e => cases hop.symm.trans ((herror e).mpr hwalk)
      | ok u => rfl

theorem sound_of_doOperands {k : Nat} {vs : List GValue} {r : List HInst × List HValue}
    (h : doOperands (site P X n dbg) X.args k vs = .ok r) : ∀ v ∈ vs, OperandSound P X (dbg, v) := by
  induction vs generalizing k r with
  | nil => simp
  | cons v vs ih =>
      obtain ⟨_, hv, h⟩ := bind_eq_ok.mp h
      obtain ⟨_, hvs, _⟩ := bind_eq_ok.mp h
      rw [List.forall_mem_cons]
      exact ⟨doOperand_ok_iff.mp ⟨_, hv⟩, ih hvs⟩

end Operands

section Body

variable {P : Input} {X : Copy} {f : GFunction}

/-- What an instruction has that has been translated. -/
theorem doInstruction_ok {i : GInst} {p : Piece} (h : doInstruction P X i = .ok p) :
    isCopied i.op = true ∧ (∀ q ∈ passedInst P i, OperandSound P X q) ∧
      ∀ c, i.op = .call c → P.route c = .callback → ∃ h, callSiteHash P.hash c = some h ∧ X.cbStubs h ≠ none := by
  have hstub : ∀ {n k result c callee args code}, doCallback P X n k result c callee args = .ok code →
      ∃ h, callSiteHash P.hash c = some h ∧ X.cbStubs h ≠ none := by
    intro n k result c callee args code hcode
    obtain ⟨h, stub, hh, hstub, _⟩ := doCallback_eq_ok.mp hcode
    exact ⟨h, hh, by rw [hstub]; exact Option.some_ne_none stub⟩
  have hpassed : ∀ {c code vs}, i.op = .call c →
      doOperands (site P X i.id (isDbgValueInst P.module c)) X.args 1 (c.args.map Prod.snd) = .ok (code, vs) →
      (P.route c = .callback → OperandSound P X (isDbgValueInst P.module c, c.calledOperand)) →
      ∀ q ∈ passedInst P i, OperandSound P X q := by
    intro c code vs hop hargs hcallee q hq
    simp only [passedInst, hop] at hq
    obtain ⟨v, hv, rfl⟩ := List.mem_map.mp hq
    rcases List.mem_append.mp hv with hv | hv
    · exact sound_of_doOperands hargs v hv
    · split at hv
      next hroute =>
        rw [List.mem_singleton.mp hv]
        exact hcallee hroute
      next => cases hv
  cases doInstruction_made h with
  | op hop hops =>
      refine ⟨by rw [hop]; rfl, ?_, fun c hc => by rw [hop] at hc; cases hc⟩
      intro q hq
      simp only [passedInst, hop] at hq
      obtain ⟨v, hv, rfl⟩ := List.mem_map.mp hq
      exact sound_of_doOperands hops v hv
  | direct hop hargs hd =>
      have hroute := directCall_route hd
      refine ⟨by rw [hop]; rfl, hpassed hop hargs (fun h => absurd h hroute), ?_⟩
      intro c hc hcallback
      rw [hop] at hc
      cases hc
      exact absurd hcallback hroute
  | callback hop hargs hroute hcallee hcm hcode =>
      refine ⟨by rw [hop]; rfl, hpassed hop hargs (fun _ => doOperand_ok_iff.mp ⟨_, hcallee⟩), ?_⟩
      intro c hc _
      rw [hop] at hc
      cases hc
      exact hstub hcode
  | split hop hargs hroute hcallee hcm hs =>
      refine ⟨by rw [hop]; rfl, hpassed hop hargs (fun _ => doOperand_ok_iff.mp ⟨_, hcallee⟩), ?_⟩
      intro c hc _
      rw [hop] at hc
      cases hc
      obtain ⟨_, hright, _⟩ := bind_eq_ok.mp hs
      exact hstub hright

theorem doTerminator_ok {n : Nat} {t : Term Nat Nat Nat} {r : List HInst × HTerm} (h : doTerminator P X f n t = .ok r) :
    (∀ e, Item.reject e ∉ termItems t) ∧ ∀ v ∈ Module.termOperands t, OperandSound P X (false, v) := by
  have hitems : ∀ e vs, Item.reject e ∉ operandItems vs := by
    intro e vs hmem
    obtain ⟨_, _, hitem⟩ := List.mem_map.mp hmem
    cases hitem
  have hone : ∀ {v : GValue} {r}, doOperand (site P X n false) X.args 1 v = .ok r →
      ∀ u ∈ [v], OperandSound P X (false, u) := by
    intro v r hv u hu
    rw [List.mem_singleton.mp hu]
    exact doOperand_ok_iff.mp ⟨r, hv⟩
  cases t with
  | ret o =>
      cases o with
      | none => exact ⟨fun e => hitems e _, by simp [Module.termOperands]⟩
      | some o =>
          obtain ⟨_, hv, _⟩ := bind_eq_ok.mp h
          exact ⟨fun e => hitems e _, hone hv⟩
  | condBr v a b =>
      obtain ⟨_, hv, _⟩ := bind_eq_ok.mp h
      exact ⟨fun e => hitems e _, hone hv⟩
  | switch v d cases =>
      obtain ⟨_, hv, _⟩ := bind_eq_ok.mp h
      exact ⟨fun e => hitems e _, hone hv⟩
  | br | unreachable => exact ⟨fun e => hitems e _, by simp [Module.termOperands]⟩
  | _ => cases h

theorem translatable_of_doBody {entry : List HInst} {blocks : List (HostBlock × HBlock)}
    (h : doBody P X f entry = .ok blocks) : Translatable P X f := by
  have hparts := (doBody_instructions h).1
  have hinst : ∀ b ∈ f.blocks, ∀ i ∈ b.2.insts, ∃ p, doInstruction P X i = .ok p := by
    intro b hb i hi
    obtain ⟨o, ho, _⟩ := hparts b hb
    obtain ⟨p, _, hp⟩ := (mapM_ok_mem ho.pieces).1 i hi
    exact ⟨p, hp⟩
  constructor
  · intro b hb i hi
    obtain ⟨p, hp⟩ := hinst b hb i hi
    exact (doInstruction_ok hp).1
  · intro b hb
    obtain ⟨o, ho, _⟩ := hparts b hb
    exact (doTerminator_ok ho.term).1
  · intro c hc hroute
    obtain ⟨b, hb, hc⟩ := List.mem_flatMap.mp hc
    obtain ⟨i, hi, hop⟩ := List.mem_filterMap.mp hc
    obtain ⟨p, hp⟩ := hinst b hb i hi
    exact (doInstruction_ok hp).2.2 c (Module.callOf_eq_some.mp hop) hroute
  · intro q hq
    obtain ⟨b, hb, hq⟩ := List.mem_flatMap.mp hq
    obtain ⟨o, ho, _⟩ := hparts b hb
    rcases List.mem_append.mp hq with hq | hq
    · rcases List.mem_append.mp hq with hq | hq
      · obtain ⟨v, hv, rfl⟩ := List.mem_map.mp hq
        obtain ⟨p, hp, hv⟩ := List.mem_flatMap.mp hv
        obtain ⟨_, _, hphi⟩ := (mapM_ok_mem ho.phis).1 p hp
        obtain ⟨_, hops, _⟩ := bind_eq_ok.mp hphi
        exact sound_of_doOperands hops v hv
      · obtain ⟨i, hi, hq⟩ := List.mem_flatMap.mp hq
        obtain ⟨p, hp⟩ := hinst b hb i hi
        exact (doInstruction_ok hp).2.1 q hq
    · obtain ⟨v, hv, rfl⟩ := List.mem_map.mp hq
      exact (doTerminator_ok ho.term).2 v hv

/-- Sound operands are gone through without a failure. -/
theorem OperandSound.fails {n : Nat} {dbg : Bool} {v : GValue} (h : OperandSound P X (dbg, v)) :
    OperandFails (fun _ => False) P X n dbg v := by
  intro g hg e he
  have hmet : valueWalked (site P X n dbg) v = valueMet (copyPlace X dbg) v := valueWalked_eq _ v
  rw [hmet] at hg
  cases ((walk_ok n dbg g).mpr (h g hg)).symm.trans he

theorem Translatable.bodyFails (h : Translatable P X f) (hf : f.blocks ≠ []) : BodyFails (fun _ => False) P X f := by
  have hblock : ∀ b ∈ f.blocks, ∀ q ∈ passedBlock P b.2, OperandSound P X q := by
    intro b hb q hq
    exact h.operands q (List.mem_flatMap.mpr ⟨b, hb, hq⟩)
  constructor
  · intro b hb p hp v hv
    apply OperandSound.fails
    apply hblock b hb
    apply List.mem_append_left
    apply List.mem_append_left
    exact List.mem_map_of_mem (List.mem_flatMap.mpr ⟨p, hp, hv⟩)
  · intro b hb i hi
    have hq : ∀ q ∈ passedInst P i, OperandSound P X q := by
      intro q hq
      apply hblock b hb
      apply List.mem_append_left
      exact List.mem_append_right _ (List.mem_flatMap.mpr ⟨i, hi, hq⟩)
    have hcopied := h.insts b hb i hi
    rw [InstFails]
    cases hop : i.op with
    | call c =>
        rw [passedInst, hop] at hq
        constructor
        · intro v hv
          exact (hq _ (List.mem_map_of_mem (List.mem_append_left _ hv))).fails
        · intro hroute
          exact (hq _ (List.mem_map_of_mem (List.mem_append_right _ (by simp [hroute])))).fails
    | op opcode ty is ops =>
        rw [passedInst, hop] at hq
        intro v hv
        exact (hq _ (List.mem_map_of_mem hv)).fails
    | _ =>
        rw [hop] at hcopied
        cases hcopied
  · intro b hb v hv
    exact (hblock b hb _ (List.mem_append_right _ (List.mem_map_of_mem hv))).fails
  · intro b hb e he
    exact h.terms b hb e he
  · exact hf

/-- The copying of a body succeeds for these bodies only. -/
theorem doBody_ok_iff (hf : f.blocks ≠ []) (entry : List HInst) :
    (∃ blocks, doBody P X f entry = .ok blocks) ↔ Translatable P X f := by
  constructor
  · rintro ⟨blocks, h⟩
    exact translatable_of_doBody h
  · intro h
    cases hbody : doBody P X f entry with
    | ok blocks => exact ⟨blocks, rfl⟩
    | error e => exact (doBody_fails entry (h.bodyFails hf) h.callbacks e hbody).elim

end Body

end Comulator.BodyTranslates
