import Comulator.CallbackStubs
import Comulator.GeneratedRun
import Comulator.SelfContained

namespace Comulator.Visible

open Fallible Types Ir TypeHash Symtbl HostIr TakeOut Analyze AnalyzeSpec Lookups Exec Compose CallbackRun OperandRun
  InstRun BodyRun SelfContained

section Condition

mutual

def noSymbol : Const Nat → Bool
  | .global _ | .wrapper _ _ => false
  | .aggregate _ ops => noSymbols ops
  | .expr _ _ _ ops => noSymbols ops
  | _ => true

def noSymbols : List (Const Nat) → Bool
  | [] => true
  | c :: cs => noSymbol c && noSymbols cs

end

def metadataConsts : GValue → List (Const Nat)
  | .metadata md => mdConsts md
  | _ => []

def valueConsts : GValue → List (Const Nat)
  | .const c => [c]
  | v => metadataConsts v

def calledConsts (c : GCall) : List (Const Nat) :=
  match c.calledOperand with
  | .const (.global _) => []
  | v => valueConsts v

variable (m : Module) (f : GFunction)

def unseenInInst (i : GInst) : List (Const Nat) :=
  match i.op with
  | .call c => (if isDbgValueInst m c then [] else (c.args.map Prod.snd).flatMap metadataConsts) ++ calledConsts c
  | op => (Module.argOperands op).flatMap metadataConsts

def unseen : List (Const Nat) :=
  f.blocks.flatMap (fun b => (b.2.phis.flatMap (fun p => p.incoming.map Prod.fst)).flatMap metadataConsts ++
    b.2.insts.flatMap (unseenInInst m) ++ (Module.termOperands b.2.term).flatMap metadataConsts)

/-- All that the copy of a function needs is registered for it: no operand has a
block address, a `dso_local_equivalent` or a `no_cfi`, what `Analyze` does not
look at names no global value that is not an operand elsewhere, and neither do
the personality, the prologue and the prefix data. -/
structure Visible : Prop where
  plain : ∀ v ∈ Module.operands f, ∀ c ∈ valueConsts v, noWrapper c = true
  called : ∀ k ∈ Module.calls f, ∀ c ∈ calledConsts k, noWrapper c = true
  registered : ∀ c ∈ unseen m f, ∀ r ∈ constRefs c, r ∈ registeredRefs m f
  own : noSymbols (f.operands ++ f.prefixData.toList) = true

end Condition

section Own

variable {Sc W : Type} {self : Nat × HostSym}

mutual

theorem cloneConst_evaluates (sem : Sem Sc W) (c : Const Nat) (h : noSymbol c = true) :
    ∃ v, evalConst sem hostSymbols (cloneConst self c) = some v := by
  cases c with
  | aggregate kind ops =>
      obtain ⟨vs, hvs⟩ := cloneConsts_evaluates sem ops h
      exact ⟨_, by rw [cloneConst, evalConst, hvs]; rfl⟩
  | expr opcode ty is ops =>
      obtain ⟨vs, hvs⟩ := cloneConsts_evaluates sem ops h
      exact ⟨_, by rw [cloneConst, evalConst, hvs]; rfl⟩
  | undef n => cases n <;> exact ⟨_, rfl⟩
  | global | wrapper => cases h
  | int | nullPtr | poison | data => exact ⟨_, rfl⟩

theorem cloneConsts_evaluates (sem : Sem Sc W) (cs : List (Const Nat)) (h : noSymbols cs = true) :
    ∃ vs, evalConsts sem hostSymbols (cloneConsts self cs) = some vs := by
  cases cs with
  | nil => exact ⟨[], rfl⟩
  | cons c cs =>
      rw [noSymbols, Bool.and_eq_true] at h
      obtain ⟨v, hv⟩ := cloneConst_evaluates sem c h.1
      obtain ⟨vs, hvs⟩ := cloneConsts_evaluates sem cs h.2
      exact ⟨v :: vs, by rw [cloneConsts, evalConsts, hv, hvs]; rfl⟩

end

end Own

section Seen

variable {m : Module} {f : GFunction} {g : Nat}

theorem ref_of_operand {v : GValue} {vs : List GValue} (hv : v ∈ vs) {r : Nat} (hr : r ∈ valueRefs v) :
    Item.ref r ∈ operandItems vs :=
  List.mem_map_of_mem (List.mem_flatMap.mpr ⟨v, hv, hr⟩)

theorem phi_operand {b : Nat × GBlock} {p : Phi Nat Nat Nat} (hb : b ∈ f.blocks) (hp : p ∈ b.2.phis) {v : GValue}
    (hv : v ∈ p.incoming.map Prod.fst) : v ∈ Module.operands f :=
  List.mem_flatMap.mpr ⟨b, hb, List.mem_append_left _ (List.mem_append_left _ (List.mem_flatMap.mpr ⟨p, hp, hv⟩))⟩

theorem inst_operand {b : Nat × GBlock} {i : GInst} (hb : b ∈ f.blocks) (hi : i ∈ b.2.insts) {v : GValue}
    (hv : v ∈ Module.argOperands i.op) : v ∈ Module.operands f :=
  List.mem_flatMap.mpr ⟨b, hb, List.mem_append_left _ (List.mem_append_right _ (List.mem_flatMap.mpr ⟨i, hi, hv⟩))⟩

theorem term_operand {b : Nat × GBlock} (hb : b ∈ f.blocks) {v : GValue} (hv : v ∈ Module.termOperands b.2.term) :
    v ∈ Module.operands f :=
  List.mem_flatMap.mpr ⟨b, hb, List.mem_append_right _ hv⟩

/-- `Analyze` registers what an operand of a function that it accepts names. -/
theorem operand_registered (haccepted : ∀ e, Item.reject e ∉ functionItems m .null f) {v : GValue}
    (hv : v ∈ Module.operands f) {r : Nat} (hr : r ∈ valueRefs v) : r ∈ registeredRefs m f := by
  refine mem_registeredRefs.mpr ?_
  obtain ⟨b, hb, hv⟩ := List.mem_flatMap.mp hv
  refine List.mem_flatMap.mpr ⟨b, hb, ?_⟩
  unfold blockItems
  rw [Module.blockOperands, List.mem_append, List.mem_append] at hv
  rcases hv with (hv | hv) | hv
  · exact List.mem_append_left _ (List.mem_append_left _ (ref_of_operand hv hr))
  · obtain ⟨i, hi, hv⟩ := List.mem_flatMap.mp hv
    refine List.mem_append_left _ (List.mem_append_right _ (List.mem_flatMap.mpr ⟨i, hi, ?_⟩))
    cases hop : i.op with
    | call c =>
        rw [hop] at hv
        exact List.mem_append_right _ (ref_of_operand hv hr)
    | op =>
        rw [hop] at hv
        exact ref_of_operand hv hr
    | _ =>
        rw [hop] at hv
        cases hv
  · apply List.mem_append_right
    have hterm : ∀ e, Item.reject e ∉ termItems b.2.term := fun e he =>
      haccepted e (List.mem_flatMap.mpr ⟨b, hb, List.mem_append_right _ he⟩)
    cases ht : b.2.term with
    | indirectBr =>
        rw [ht] at hterm
        exact absurd List.mem_cons_self (hterm .indirectBr)
    | ret | condBr | switch =>
        rw [ht] at hv
        exact ref_of_operand hv hr
    | _ =>
        rw [ht] at hv
        cases hv

variable {I : Input} {X : Copy} {n : Nat} {dbg : Bool}

/-- An operand of a visible function is seen. -/
theorem seen_of_visible (hf : m.function? g = some f) (haccepted : ∀ e, Item.reject e ∉ functionItems m .null f)
    (hvisible : Visible m f) (hrefs : ∀ r ∈ registeredRefs m f, (X.refs r).isSome) {v : GValue}
    (hv : v ∈ Module.operands f)
    (hmd : dbg = true ∨ ∀ c ∈ metadataConsts v, ∀ r ∈ constRefs c, r ∈ registeredRefs m f) :
    Seen (site I X n dbg) f.type.params.length v := by
  cases v with
  | const c =>
      refine ⟨hvisible.plain _ hv c (List.mem_singleton.mpr rfl), fun r hr => hrefs r ?_⟩
      exact operand_registered haccepted hv hr
  | arg i => exact of_decide_eq_true (p := i < f.type.params.length) (Module.verify_operand hf hv)
  | metadata md =>
      intro c hc
      refine ⟨hvisible.plain _ hv c hc, ?_⟩
      rcases hmd with hdbg | hmd
      · exact .inl hdbg
      · exact .inr (fun r hr => hrefs r (hmd c hc r hr))
  | inst | inlineAsm => trivial

theorem phi_unseen {b : Nat × GBlock} {p : Phi Nat Nat Nat} (hb : b ∈ f.blocks) (hp : p ∈ b.2.phis) {v : GValue}
    (hv : v ∈ p.incoming.map Prod.fst) {c : Const Nat} (hc : c ∈ metadataConsts v) : c ∈ unseen m f := by
  refine List.mem_flatMap.mpr ⟨b, hb, List.mem_append_left _ (List.mem_append_left _ ?_)⟩
  exact List.mem_flatMap.mpr ⟨v, List.mem_flatMap.mpr ⟨p, hp, hv⟩, hc⟩

theorem inst_unseen {b : Nat × GBlock} {i : GInst} (hb : b ∈ f.blocks) (hi : i ∈ b.2.insts) {c : Const Nat}
    (hc : c ∈ unseenInInst m i) : c ∈ unseen m f :=
  List.mem_flatMap.mpr ⟨b, hb, List.mem_append_left _ (List.mem_append_right _ (List.mem_flatMap.mpr ⟨i, hi, hc⟩))⟩

theorem term_unseen {b : Nat × GBlock} (hb : b ∈ f.blocks) {v : GValue} (hv : v ∈ Module.termOperands b.2.term)
    {c : Const Nat} (hc : c ∈ metadataConsts v) : c ∈ unseen m f :=
  List.mem_flatMap.mpr ⟨b, hb, List.mem_append_right _ (List.mem_flatMap.mpr ⟨v, hv, hc⟩)⟩

end Seen

section Analyzed

variable {H : HashOps} {L : Layout} {m : Module} {config : Config} {uid g : Nat} {f : GFunction} {info : FuncInfo}
variable {scan : Scan} {h : HashCode} {X : Copy} {O : Offloaded} {c : GCall} {bw : BwList}

def NoneCalled (m : Module) (bw : BwList) : Prop :=
  ∀ k callee, m.function? k = some callee → callee.isIntrinsic = false → bw.callees k ≠ some true

theorem noneCalled_null (m : Module) : NoneCalled m .null := by
  intro k callee _ _ h
  cases h

theorem calleeItems_unlisted (hbw : NoneCalled m bw) (hitems : ∀ e, Item.reject e ∉ calleeItems m bw c) :
    calleeItems m bw c = calleeItems m .null c := by
  unfold calleeItems at hitems ⊢
  split
  next => rfl
  next k hk =>
    simp only [hk] at hitems
    cases hcallee : m.function? k with
    | none => rfl
    | some callee =>
        rw [hcallee] at hitems
        cases hlisted : bw.callees k with
        | none => rfl
        | some b =>
            rw [hlisted] at hitems
            cases b with
            | false => exact absurd (List.mem_singleton.mpr rfl) (hitems .blackCallee)
            | true =>
                have hintrinsic : callee.isIntrinsic = true := by
                  by_contra hplain
                  exact hbw k callee hcallee (Bool.eq_false_iff.mpr hplain) hlisted
                simp [hintrinsic, BwList.null]
  next => rfl

/-- A function that is accepted has the items that it has without a list. -/
theorem functionItems_unlisted (hbw : NoneCalled m bw) (haccepted : ∀ e, Item.reject e ∉ functionItems m bw f) :
    functionItems m bw f = functionItems m .null f := by
  refine List.flatMap_congr (fun b hb => ?_)
  unfold blockItems
  congr 2
  refine List.flatMap_congr (fun i hi => ?_)
  cases hop : i.op with
  | call c =>
      have hcallee := calleeItems_unlisted hbw
        (fun e he => haccepted e (calleeItems_subset (mem_calls hb hi hop) he))
      simp only [instItems, hcallee]
  | _ => rfl

theorem registers_null (h : Registers m bw c) : Registers m .null c := by
  unfold Registers at h ⊢
  split
  next hasm => simp [hasm] at h
  next k hk =>
    simp only [hk] at h
    cases hcallee : m.function? k with
    | none => trivial
    | some callee =>
        rw [hcallee] at h
        exact ⟨rfl, h.2⟩
  next => trivial

/-- A call that is made through a callback is registered with one. -/
theorem registers_of_callback (hbw : NoneCalled m bw) (hf : m.function? g = some f)
    (haccepted : ∀ e, Item.reject e ∉ functionItems m bw f) (hc : c ∈ Module.calls f)
    (hroute : (analyzed H L m config bw uid).route c = .callback) : Registers m bw c := by
  rcases registers_or_listed hf haccepted hc hroute with h | ⟨k, callee, h, _⟩
  · exact h
  · exact absurd h.listed (hbw k callee h.function h.plain)

theorem mem_calledConsts {d : Const Nat} (hv : c.calledOperand = .const d) (hd : ∀ k, d ≠ .global k) :
    d ∈ calledConsts c := by
  unfold calledConsts
  split
  next k hk =>
    rw [hv] at hk
    cases hk
    exact absurd rfl (hd k)
  next =>
    rw [hv]
    exact List.mem_singleton.mpr rfl

theorem seen_called (hf : m.function? g = some f) (hvisible : Visible m f) (hrefs : ∀ r ∈ registeredRefs m f, (X.refs r).isSome) {I : Input} {n : Nat} {dbg : Bool}
    (hc : c ∈ Module.calls f) (hreg : Registers m .null c) :
    Seen (site I X n dbg) f.type.params.length c.calledOperand := by
  have hplain := hvisible.called c hc
  have hunseen : ∀ d ∈ calledConsts c, ∀ r ∈ constRefs d, (X.refs r).isSome := by
    obtain ⟨b, hb, i, hi, hop⟩ := mem_calls_iff.mp hc
    intro d hd r hr
    refine hrefs r (hvisible.registered d (inst_unseen hb hi ?_) r hr)
    rw [unseenInInst, hop]
    exact List.mem_append_right _ hd
  cases hv : c.calledOperand with
  | const d =>
      by_cases hglobal : ∃ k, d = .global k
      · obtain ⟨k, rfl⟩ := hglobal
        refine ⟨rfl, fun r hr => hrefs r ?_⟩
        obtain rfl := List.mem_singleton.mp hr
        exact callee_registered hc hv hreg
      · have hmem := mem_calledConsts hv (fun k hk => hglobal ⟨k, hk⟩)
        exact ⟨hplain d hmem, hunseen d hmem⟩
  | arg i =>
      have hlt := Module.verify_calledOperand hf hc
      rw [hv] at hlt
      exact of_decide_eq_true (p := i < f.type.params.length) hlt
  | metadata md =>
      intro d hd
      have hmem : d ∈ calledConsts c := by
        rw [calledConsts, hv]
        exact hd
      exact ⟨hplain d hmem, .inr (hunseen d hmem)⟩
  | inst | inlineAsm => trivial

/-- The types of the pads are those of the function. -/
theorem stubType_types (hfree : CollisionFree H m)
    (he : Entry H m bw (analyze H L m bw uid) g info f scan h) :
    info.stubType.ret = retType f.type ∧ info.stubType.arg = argType f.type := by
  obtain ⟨g', f', hf', hh', hstub⟩ := (analyze_wellFormed H L m bw uid).calling h _ he.stub
  have htype : f'.type = f.type :=
    (hfree _ (function_mem_signatures hf') _ (function_mem_signatures he.function) h hh' he.hash).1
  rw [hstub, ← htype]
  exact ⟨rfl, rfl⟩

theorem lookup_genCbStubs {config : Config} {t : Symtbl} {h : HashCode} {st : StubInfo}
    (hst : t.callbackStubs.find? h = some st) :
    (ChopOff.genCbStubs config t).lookup h = some (ChopOff.cbStubFunction config.debug h st) := by
  refine OrderedMap.lookup_eq_some_of_mem ?_ (List.mem_map.mpr ⟨(h, st), OrderedMap.mem_entries.mpr hst, rfl⟩)
  rw [ChopOff.genCbStubs, List.map_map]
  exact t.callbackStubs.nodup

/-- The stub for a call that is made through a callback makes it. -/
theorem hasStub (hfree : CollisionFree H m) {guestConfig : Config}
    (hstubs : O.guest.cbStubs = ChopOff.genCbStubs guestConfig (analyze H L m bw uid))
    (he : Entry H m bw (analyze H L m bw uid) g info f scan h) (hc : c ∈ Module.calls f)
    (hconv : c.callingConv = 0) (hreg : Registers m bw c) :
    c.args.map Prod.fst = c.functionType.params ∧ HasStub (analyzed H L m config bw uid) O c := by
  have hwf := analyze_wellFormed H L m bw uid
  have hscanned := scanFunction_scanned he.scanned
  have hitem : Item.callback c ∈ functionItems m bw f := callback_mem_functionItems.mpr ⟨hc, hreg⟩
  obtain ⟨hfixed, k, hk⟩ := hscanned.callbacks c hitem
  obtain ⟨st, hst⟩ := Option.ne_none_iff_exists'.mp (he.callbacks k ((hscanned.stubs k).mpr ⟨c, hitem, hk⟩))
  obtain ⟨g', f', d, hf', hd, hdk, hstub⟩ := hwf.callback k st hst
  obtain ⟨htype, hattrs⟩ := hfree _ (call_mem_signatures hf' hd) _ (call_mem_signatures he.function hc) k hdk hk
  have hcontent : CallbackStubs.content st = CallbackStubs.stubContent d := by
    rw [hstub]
    rfl
  refine ⟨Module.args_types he.function hc hfixed, k, st, guestConfig.debug, hk, ?_, ?_, ?_, ?_⟩
  · rw [hstubs]
    exact lookup_genCbStubs hst
  · rw [hstub]
    rfl
  · rw [hstub]
    rfl
  · exact (CallbackStubs.stubCall_interface_iff hcontent).mpr ⟨hconv, htype, fun i => congrFun hattrs i⟩

/-- The references passed to a function are those registered for it. -/
theorem refs_registered (hbw : NoneCalled m bw) (he : Entry H m bw (analyze H L m bw uid) g info f scan h)
    (hrefs : ∀ r ∈ info.extRefArgs, (X.refs r).isSome) : ∀ r ∈ registeredRefs m f, (X.refs r).isSome := by
  intro r hr
  refine hrefs r ?_
  have hscanned := scanFunction_scanned he.scanned
  rw [he.refs]
  refine (hscanned.refs r).mpr ?_
  rw [functionItems_unlisted hbw hscanned.accepted]
  exact mem_registeredRefs.mp hr

/-- All that the copy of a visible function needs is there. -/
theorem functionSeen (hfree : CollisionFree H m) (hbw : NoneCalled m bw) {guestConfig : Config}
    (hstubs : O.guest.cbStubs = ChopOff.genCbStubs guestConfig (analyze H L m bw uid))
    (he : Entry H m bw (analyze H L m bw uid) g info f scan h)
    (hconv : ∀ c ∈ Module.calls f, c.callingConv = 0) (hvisible : Visible m f)
    (hrefs : ∀ r ∈ info.extRefArgs, (X.refs r).isSome) :
    FunctionSeen O (analyzed H L m config bw uid) X f := by
  have hscanned := scanFunction_scanned he.scanned
  have haccepted : ∀ e, Item.reject e ∉ functionItems m .null f := by
    rw [← functionItems_unlisted hbw hscanned.accepted]
    exact hscanned.accepted
  have hregistered := refs_registered hbw he hrefs
  have hoperand : ∀ {n : Nat} {dbg : Bool} {v : GValue}, v ∈ Module.operands f →
      (dbg = true ∨ ∀ c ∈ metadataConsts v, c ∈ unseen m f) →
        Seen (site (analyzed H L m config bw uid) X n dbg) f.type.params.length v := by
    intro n dbg v hv hmd
    refine seen_of_visible he.function haccepted hvisible hregistered hv ?_
    exact hmd.imp_right (fun hmd c hc r hr => hvisible.registered c (hmd c hc) r hr)
  refine ⟨?_, ?_, ?_⟩
  · intro b hb p hp v hv
    exact hoperand (phi_operand hb hp hv) (.inr (fun c hc => phi_unseen hb hp hv hc))
  · intro b hb i hi
    unfold InstSeen
    have hargs : ∀ v ∈ Module.argOperands i.op, v ∈ Module.operands f := fun v hv => inst_operand hb hi hv
    split
    next c hop =>
      have hc := mem_calls hb hi hop
      rw [hop] at hargs
      constructor
      · intro v hv
        refine hoperand (hargs v hv) ?_
        cases hdbg : isDbgValueInst m c with
        | true => exact .inl hdbg
        | false =>
            refine .inr (fun d hd => inst_unseen hb hi ?_)
            rw [unseenInInst, hop]
            refine List.mem_append_left _ ?_
            rw [hdbg]
            exact List.mem_flatMap.mpr ⟨v, hv, hd⟩
      · intro hroute
        have hreg := registers_of_callback hbw he.function hscanned.accepted hc hroute
        obtain ⟨htypes, hstub⟩ := hasStub hfree hstubs he hc (hconv c hc) hreg
        refine ⟨seen_called he.function hvisible hregistered hc (registers_null hreg), htypes, hstub, ?_⟩
        intro k callee hk hcallee
        have hcallee : m.function? k = some callee := hcallee
        simp only [Registers, hk, hcallee] at hreg
        simpa [Function.isIntrinsic] using hreg.2
    next opcode ty is ops hop =>
      rw [hop] at hargs
      intro v hv
      refine hoperand (hargs v hv) (.inr (fun d hd => inst_unseen hb hi ?_))
      rw [unseenInInst, hop]
      exact List.mem_flatMap.mpr ⟨v, hv, hd⟩
    next => trivial
  · intro b hb v hv
    exact hoperand (term_operand hb hv) (.inr (fun c hc => term_unseen hb hv hc))

end Analyzed

section Completes

variable {S : Site}

mutual

theorem constWalked_eq_nil (c : Const Nat) (hplain : noWrapper c = true) (hknown : Known S (constRefs c)) :
    constWalked S c = [] := by
  cases c with
  | global g =>
      rw [constWalked]
      apply if_pos
      rcases hknown with hdbg | hall
      · rw [hdbg, Bool.true_or]
      · rw [hall g (List.mem_singleton.mpr rfl), Bool.or_true]
  | wrapper kind g => cases hplain
  | aggregate kind ops => exact constsWalked_eq_nil ops hplain hknown
  | expr opcode ty is ops => exact constsWalked_eq_nil ops hplain hknown
  | int | nullPtr | undef | poison | data => rfl

theorem constsWalked_eq_nil (cs : List (Const Nat)) (hplain : noWrappers cs = true)
    (hknown : Known S (constsRefs cs)) : constsWalked S cs = [] := by
  cases cs with
  | nil => rfl
  | cons c cs =>
      rw [noWrappers, Bool.and_eq_true] at hplain
      have hc : Known S (constRefs c) := hknown.imp_right (fun hall g hg => hall g (List.mem_append_left _ hg))
      have hcs : Known S (constsRefs cs) := hknown.imp_right (fun hall g hg => hall g (List.mem_append_right _ hg))
      rw [constsWalked, constWalked_eq_nil c hplain.1 hc, constsWalked_eq_nil cs hplain.2 hcs]
      rfl

end

/-- An operand that is seen has a replacement for all it names. -/
theorem seen_walked {n : Nat} {v : GValue} (h : Seen S n v) : valueWalked S v = [] := by
  have hmd : ∀ u : MdOperand Nat Nat, (∀ c ∈ mdOperandConsts u, noWrapper c = true ∧ Known S (constRefs c)) →
      mdOperandWalked S u = [] := by
    intro u hu
    cases u with
    | const c =>
        obtain ⟨hplain, hknown⟩ := hu c (List.mem_singleton.mpr rfl)
        exact constWalked_eq_nil c hplain hknown
    | arg | inst => rfl
  cases v with
  | const c => exact constWalked_eq_nil c h.1 (.inr h.2)
  | metadata md =>
      cases md with
      | value u => exact hmd u h
      | argList us =>
          refine List.flatMap_eq_nil_iff.mpr (fun u hu => hmd u (fun c hc => ?_))
          exact h c (List.mem_flatMap.mpr ⟨u, hu, hc⟩)
      | node => rfl
  | arg | inst | inlineAsm => rfl

variable {I : Input} {X : Copy} {O : Offloaded} {q : Error → Prop} {g : Nat} {f : GFunction}

theorem operandFails_of_seen {n k : Nat} {dbg : Bool} {v : GValue} (h : Seen (site I X n dbg) k v) :
    OperandFails q I X n dbg v := by
  rw [OperandFails, seen_walked h]
  intro g hg
  cases hg

/-- Nothing fails in the copying of a function that is seen. -/
theorem bodyFails_of_seen (hfun : I.module.function? g = some f) (hdef : f.isDeclaration = false)
    {bw : BwList} (haccepted : ∀ e, Item.reject e ∉ functionItems I.module bw f) (hseen : FunctionSeen O I X f) :
    BodyFails q I X f where
  phis := fun b hb p hp v hv => operandFails_of_seen (hseen.phis b hb p hp v hv)
  insts := by
    intro b hb i hi
    have hinst := hseen.insts b hb i hi
    have hprogram := (Module.verify_block hfun hb).1 i hi
    have hitems : ∀ e, Item.reject e ∉ instItems I.module bw i.op := fun e he => haccepted e
      (List.mem_flatMap.mpr ⟨b, hb, List.mem_append_left _ (List.mem_append_right _ (List.mem_flatMap.mpr ⟨i, hi, he⟩))⟩)
    unfold InstFails
    unfold InstSeen at hinst
    cases hop : i.op with
    | call c =>
        rw [hop] at hinst
        exact ⟨fun v hv => operandFails_of_seen (hinst.1 v hv), fun hroute => operandFails_of_seen (hinst.2 hroute).1⟩
    | op =>
        rw [hop] at hinst
        exact fun v hv => operandFails_of_seen (hinst v hv)
    | landingPad | catchPad | cleanupPad =>
        rw [hop] at hitems
        exact absurd (List.mem_singleton.mpr rfl) (hitems .exception)
    | _ =>
        rw [hop] at hprogram
        cases hprogram
  terms := fun b hb v hv => operandFails_of_seen (hseen.terms b hb v hv)
  jumps := fun b hb e he => absurd (List.mem_flatMap.mpr ⟨b, hb, List.mem_append_right _ he⟩) (haccepted e)
  entry := by
    intro hnil
    rw [Function.isDeclaration, hnil] at hdef
    cases hdef

end Completes

end Comulator.Visible
