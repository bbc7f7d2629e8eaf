import Comulator.ConstExpand
import Comulator.InstRun

namespace Comulator.CalleeList

open Fallible Types Ir TypeHash Symtbl HostIr TakeOut Analyze AnalyzeSpec Lookups GuestSymbols SelfContained CallCopy
  ConstExpand

def NoCalls (l : List HInst) : Prop := ∀ i ∈ l, called i.op = none

theorem NoCalls.append {l k : List HInst} (hl : NoCalls l) (hk : NoCalls k) : NoCalls (l ++ k) := by
  intro i hi
  rcases List.mem_append.mp hi with hi | hi
  · exact hl i hi
  · exact hk i hi

theorem noCalls_nil : NoCalls [] := by
  intro i hi
  cases hi

theorem noCalls_insertChain (name : Nat → HostId) (vs : List HValue) : NoCalls (insertChain name vs) := by
  intro i hi
  obtain ⟨q, _, rfl⟩ := List.mem_map.mp hi
  rfl

section Operand

variable {S : Site} {args : Nat → HValue}

/-- The code for operands only builds values. -/
theorem noCalls_of_expansions {code : List HInst} (h : ∀ i ∈ code, isExpansion i.op = true) : NoCalls code := by
  intro i hi
  have hexpansion := h i hi
  cases hop : i.op with
  | insertValue | expand => rfl
  | _ =>
      rw [hop] at hexpansion
      cases hexpansion

theorem doOperand_noCalls {k : Nat} {v : GValue} {code : List HInst} {w : HValue}
    (h : doOperand S args k v = .ok (code, w)) : NoCalls code :=
  noCalls_of_expansions (doOperand_expansions h)

theorem doOperands_noCalls {k : Nat} {vs : List GValue} {code : List HInst} {ws : List HValue}
    (h : doOperands S args k vs = .ok (code, ws)) : NoCalls code :=
  noCalls_of_expansions (doOperands_expansions h)

end Operand

section Body

variable {P : Input} {X : Copy} {f : GFunction}

def target : Route → HostSym
  | .white k => .whiteCallee k
  | .intrinsic id => .intrinsic id
  | .fcp k => .fcpFunc k
  | .callback => .gyhCallback

theorem target_injective : Function.Injective target := by
  intro r r' h
  cases r <;> cases r' <;> cases h <;> rfl

def CallsOnly (Q : HostSym → Prop) (l : List HInst) : Prop :=
  ∀ i ∈ l, ∀ s, called i.op = some s → s = .gyhDebug ∨ Q s

variable {Q : HostSym → Prop}

theorem NoCalls.callsOnly {l : List HInst} (h : NoCalls l) : CallsOnly Q l := by
  intro i hi s hs
  rw [h i hi] at hs
  cases hs

theorem CallsOnly.append {l k : List HInst} (hl : CallsOnly Q l) (hk : CallsOnly Q k) : CallsOnly Q (l ++ k) := by
  intro i hi
  rcases List.mem_append.mp hi with hi | hi
  · exact hl i hi
  · exact hk i hi

theorem callsOnly_single {x : HostId} {op : HOp} (h : ∀ s, called op = some s → s = .gyhDebug ∨ Q s) :
    CallsOnly Q [⟨x, op⟩] := by
  intro i hi
  cases List.mem_singleton.mp hi
  exact h

theorem callsOnly_call {x : HostId} {t : FunctionType} {cc : Nat} {a : AttributeList} {s : HostSym}
    {args : List (Ty × HValue)} (h : s = .gyhDebug ∨ Q s) :
    CallsOnly Q [⟨x, .call ⟨t, cc, a, .const (.global s), args⟩⟩] := by
  refine callsOnly_single (fun s' hs => ?_)
  cases hs
  exact h

theorem noCalls_packCode (name : Nat → HostId) (ty : Ty) (vs : List HValue) : NoCalls (packCode name ty vs) := by
  refine (noCalls_insertChain _ _).append ?_
  intro i hi
  simp only [List.mem_cons, List.not_mem_nil, or_false] at hi
  rcases hi with rfl | rfl <;> rfl

theorem callbackCode_callsOnly (hQ : Q .gyhCallback) (debug : Bool) (n k : Nat) (result : HostId)
    (cbStub callee : HValue) (ret : Ty) (args : List (Ty × HValue)) :
    CallsOnly Q (callbackCode debug n k result cbStub callee ret args) := by
  rw [CallbackRun.callbackCode_eq]
  refine CallsOnly.append (CallsOnly.append (CallsOnly.append ?_ ?_) ?_)
    (CallsOnly.append (CallsOnly.append ?_ ?_) ?_)
  · exact callsOnly_single (fun _ h => by cases h)
  · split
    · exact noCalls_nil.callsOnly
    · exact callsOnly_single (fun _ h => by cases h)
  · split
    · exact noCalls_nil.callsOnly
    · exact (noCalls_packCode _ _ _).callsOnly
  · split
    · exact callsOnly_call (.inl rfl)
    · exact noCalls_nil.callsOnly
  · exact callsOnly_call (.inr hQ)
  · unfold CallbackRun.callbackEpilogue
    refine CallsOnly.append ?_ (callsOnly_single (fun _ h => by cases h))
    split
    · exact noCalls_nil.callsOnly
    · exact callsOnly_single (fun _ h => by cases h)

theorem doCallback_callsOnly (hQ : Q .gyhCallback) {n k : Nat} {result : HostId} {c : GCall} {callee : HValue}
    {args : List (Ty × HValue)} {code : List HInst} (h : doCallback P X n k result c callee args = .ok code) :
    CallsOnly Q code := by
  obtain ⟨_, _, _, _, rfl⟩ := doCallback_eq_ok.mp h
  exact callbackCode_callsOnly hQ _ _ _ _ _ _ _ _

def pieceCode : Piece → List HInst
  | .code l => l
  | .split pre s => pre ++ s.check ++ s.left ++ s.right

theorem doFcpCm_callsOnly (hQ : Q .gyhCallback) {n k : Nat} {c : GCall} {pre : List HInst} {callee : HValue}
    {args : List (Ty × HValue)} {s : Split} (h : doFcpCm P X n k c callee args = .ok s) (hpre : CallsOnly Q pre) :
    CallsOnly Q (pieceCode (.split pre s)) := by
  obtain ⟨right, hright, h⟩ := bind_eq_ok.mp h
  cases h
  refine CallsOnly.append (CallsOnly.append (CallsOnly.append hpre ?_) ?_) (doCallback_callsOnly hQ hright)
  · refine NoCalls.callsOnly (fun i hi => ?_)
    simp only [List.mem_cons, List.not_mem_nil, or_false] at hi
    rcases hi with rfl | rfl | rfl | rfl | rfl | rfl <;> rfl
  · refine NoCalls.callsOnly (fun i hi => ?_)
    simp only [List.mem_cons, List.not_mem_nil, or_false] at hi
    rcases hi with rfl | rfl <;> rfl

theorem doInstruction_callsOnly {i : GInst} {p : Piece} (h : doInstruction P X i = .ok p)
    (hQ : ∀ c, i.op = .call c → Q (target (P.route c))) : CallsOnly Q (pieceCode p) := by
  cases doInstruction_made h with
  | op hop hops => exact (doOperands_noCalls hops).callsOnly.append (callsOnly_single (fun k hk => by cases hk))
  | @direct c d _ _ hop hargs hd =>
      have hcall := hQ c hop
      refine (doOperands_noCalls hargs).callsOnly.append ?_
      cases hroute : P.route c with
      | callback => exact absurd hroute (directCall_route hd)
      | white | intrinsic | fcp =>
          rw [hroute] at hd hcall
          cases hd
          exact callsOnly_call (.inr hcall)
  | @callback c _ _ _ _ _ hop hargs hroute hcallee _ hcode =>
      have hcall := hQ c hop
      rw [hroute] at hcall
      exact ((doOperands_noCalls hargs).callsOnly.append (doOperand_noCalls hcallee).callsOnly).append
        (doCallback_callsOnly hcall hcode)
  | @split c _ _ _ _ _ hop hargs hroute hcallee _ hs =>
      have hcall := hQ c hop
      rw [hroute] at hcall
      exact doFcpCm_callsOnly hcall hs ((doOperands_noCalls hargs).callsOnly.append (doOperand_noCalls hcallee).callsOnly)

theorem doTerminator_noCalls {n : Nat} {t : Term Nat Nat Nat} {q : List HInst × HTerm}
    (h : doTerminator P X f n t = .ok q) : NoCalls q.1 := by
  unfold doTerminator at h
  simp only at h
  split at h
  case h_1 | h_3 | h_6 =>
    cases h
    exact noCalls_nil
  case h_2 ty v =>
    obtain ⟨⟨code, w⟩, hv, h⟩ := bind_eq_ok.mp h
    split at h
    · cases h
      exact doOperand_noCalls hv
    · cases h
      refine (doOperand_noCalls hv).append ?_
      intro i hi
      cases List.mem_singleton.mp hi
      rfl
  case h_4 v a b =>
    obtain ⟨⟨code, w⟩, hv, h⟩ := bind_eq_ok.mp h
    cases h
    exact doOperand_noCalls hv
  case h_5 v d cases =>
    obtain ⟨⟨code, w⟩, hv, h⟩ := bind_eq_ok.mp h
    cases h
    exact doOperand_noCalls hv
  case h_7 => cases h

theorem inst_mem_pieceInstructions {p : Piece} {i : HInst} :
    AnyInst.inst i ∈ pieceInstructions p ↔ i ∈ pieceCode p := by
  cases p with
  | code l => simp [pieceInstructions, pieceCode]
  | split pre s => simp [pieceInstructions, pieceCode]

/-- A copy makes direct calls where the function makes calls, of the symbols
that these are redirected to. -/
theorem doBody_calls {entry : List HInst} {blocks : List (HostBlock × HBlock)}
    (h : doBody P X f entry = .ok blocks) (hentry : Quiet entry) {i : HInst}
    (hi : AnyInst.inst i ∈ blocksInstructions blocks) {s : HostSym} (hs : called i.op = some s) :
    s = .gyhDebug ∨ ∃ c ∈ Module.calls f, s = target (P.route c) := by
  rcases (doBody_instructions h).2 _ hi with hmem | ⟨d, hd⟩ | ⟨b, hb, o, ho, hmem⟩
  · obtain ⟨j, hj, heq⟩ := List.mem_map.mp hmem
    cases heq
    rcases (hentry i hj).2 with hnone | hdebug
    · rw [called_eq_none hnone] at hs
      cases hs
    · rw [hdebug] at hs
      exact .inl (Option.some.inj hs).symm
  · cases hd
  · simp only [BlockCopy.instructions, List.mem_append, List.mem_map, List.mem_flatMap, AnyInst.inst.injEq,
      exists_eq_right, reduceCtorEq, and_false, exists_false, or_false, List.mem_singleton] at hmem
    rcases hmem with (⟨q, hq, hi⟩ | ⟨p, hp, hi⟩) | hi
    · obtain ⟨ph, _, hph⟩ := (mapM_ok_mem ho.phis).2 q hq
      obtain ⟨⟨code, vs⟩, hvs, hph⟩ := bind_eq_ok.mp hph
      cases hph
      exact absurd hs (by rw [doOperands_noCalls hvs i hi]; simp)
    · obtain ⟨j, hj, hjp⟩ := (mapM_ok_mem ho.pieces).2 p hp
      refine doInstruction_callsOnly (Q := fun s => ∃ c ∈ Module.calls f, s = target (P.route c)) hjp ?_ i
        (inst_mem_pieceInstructions.mp hi) s hs
      intro c hc
      exact ⟨c, mem_calls hb hj hc, rfl⟩
    · exact absurd hs (by rw [doTerminator_noCalls ho.term i hi]; simp)

end Body

structure DirectCall (m : Module) (f : GFunction) (i : GInst) (c : GCall) (k : Nat) (callee : GFunction) : Prop where
  mem : ∃ b ∈ f.blocks, i ∈ b.2.insts
  op : i.op = .call c
  operand : c.calledOperand = .const (.global k)
  function : m.function? k = some callee

def OnHost (hf : HFunction) (i : GInst) (k : Nat) (callee : GFunction) : Prop :=
  ∃ d, AnyInst.inst ⟨bodyId i.id, .call d⟩ ∈ instructions hf ∧ d.functionType = callee.type ∧
    (d.calledOperand = .const (.global (.whiteCallee k)) ∨
      ∃ id, callee.intrinsicId = some id ∧ d.calledOperand = .const (.global (.intrinsic id)))

/-- Every direct call of a function listed as true, in a function that is taken
out, is a direct call in the host module. -/
def ListedCallsDirect (H : HashOps) (L : Layout) (m : Module) (bw : BwList) (uid : Nat) (M : HostModule) : Prop :=
  ∀ g info f i c k callee, (analyze H L m bw uid).functbl.find? g = some info → m.function? g = some f →
    (bw.funcs g).bind FuncBw.takeOut ≠ some false → DirectCall m f i c k callee → bw.callees k = some true →
      ∃ hf, (M.functions.lookup (.hstub info.uid) = some hf ∨ M.functions.lookup (.fcpFunc g) = some hf) ∧
        OnHost hf i k callee

section Analyzed

variable {H : HashOps} {L : Layout} {m : Module} {config : Config} {bw : BwList} {uid g : Nat} {f : GFunction}
variable {i : GInst} {c : GCall} {k : Nat} {callee : GFunction}

theorem DirectCall.mem_calls (h : DirectCall m f i c k callee) : c ∈ Module.calls f := by
  obtain ⟨b, hb, hi⟩ := h.mem
  exact Lookups.mem_calls hb hi h.op

/-- No function that is accepted calls a function listed as false. -/
theorem accepted_callee (hacc : Accepted H m bw g) (hf : m.function? g = some f)
    (hcall : DirectCall m f i c k callee) : bw.callees k ≠ some false := by
  intro hlisted
  obtain ⟨f', h, scan, hf', _, _, _, _, hscan⟩ := hacc
  cases hf.symm.trans hf'
  apply (scanFunction_scanned hscan).accepted .blackCallee
  apply calleeItems_subset hcall.mem_calls
  simp [calleeItems, hcall.operand, hcall.function, hlisted]

theorem route_white {P : Input} (h : P.route c = .white k) :
    P.isWhite k = true ∧ c.calledOperand = .const (.global k) ∧ ∃ callee, P.module.function? k = some callee := by
  rcases InstRun.route_cases _ h with ⟨g, f, hcalled, hwhite, hg⟩ | ⟨_, _, _, _, _, hg⟩ | ⟨_, _, _, _, _, hg⟩ | hg
  · cases hg
    obtain ⟨hoperand, hfun, _⟩ := InstRun.getCalledFunction_eq_some.mp hcalled
    exact ⟨hwhite, hoperand, f, hfun⟩
  all_goals cases hg

theorem not_route_white (hacc : Accepted H m bw g) (hf : m.function? g = some f) (hc : c ∈ Module.calls f) :
    (analyzed H L m config bw uid).route c ≠ .white k := by
  intro h
  obtain ⟨hwhite, hoperand, callee, hfun⟩ := route_white h
  obtain ⟨b, hb, i, hi, hop⟩ := mem_calls_iff.mp hc
  exact accepted_callee hacc hf ⟨⟨b, hb, hi⟩, hop, hoperand, hfun⟩ (of_decide_eq_true hwhite)

theorem foldlM_copy_other {P : Input} {l : List (Nat × FuncInfo)} {s t : Hfuncs} (h : l.foldlM (genHfunc P) s = .ok t)
    (hg : ∀ e ∈ l, e.1 ≠ g) : t.2.lookup (.fcpFunc g) = s.2.lookup (.fcpFunc g) := by
  induction l generalizing s with
  | nil =>
      cases h
      rfl
  | cons e l ih =>
      rw [List.foldlM_cons] at h
      obtain ⟨u, hu, h⟩ := bind_eq_ok.mp h
      rw [ih h (fun d hd => hg d (List.mem_cons_of_mem _ hd))]
      apply HostTable.genHfunc_other hu (by simp)
      simpa using (hg e List.mem_cons_self).symm

/-- The copy of a function is found under its symbol. -/
theorem genHfuncs_copy {P : Input} {s : Hfuncs} {info : FuncInfo} {gen : Generated} (h : genHfuncs P = .ok s)
    (hinfo : P.symtbl.functbl.find? g = some info) (hf : P.module.function? g = some f)
    (hblack : P.blackList g = false) (hgen : doHstubcvt P g f info = .ok gen) :
    s.2.lookup (.fcpFunc g) = gen.copy := by
  obtain ⟨pre, post, heq⟩ := List.append_of_mem (OrderedMap.mem_entries.mpr hinfo)
  have hnodup := P.symtbl.functbl.nodup
  unfold genHfuncs at h
  rw [heq] at h hnodup
  rw [List.map_append, List.map_cons, List.nodup_append] at hnodup
  rw [List.foldlM_append] at h
  obtain ⟨u, hpre, h⟩ := bind_eq_ok.mp h
  rw [List.foldlM_cons] at h
  obtain ⟨w, hw, hpost⟩ := bind_eq_ok.mp h
  have hu : u.2.lookup (.fcpFunc g) = none := by
    apply foldlM_copy_other hpre
    intro e he
    exact hnodup.2.2 e.1 (List.mem_map_of_mem he) g List.mem_cons_self
  rw [foldlM_copy_other hpost]
  · simp only [genHfunc, hblack, Bool.false_eq_true, if_false, hf] at hw
    obtain ⟨gen', hgen', hw⟩ := bind_eq_ok.mp hw
    cases hgen.symm.trans hgen'
    cases hw
    have hne : (HostSym.fcpFunc g == HostSym.hstub info.uid) = false := beq_false_of_ne (by simp)
    rw [List.lookup_append, hu, Option.none_or]
    cases hcopy : gen.copy <;> simp [Generated.functions, hcopy, List.lookup_cons, hne]
  · intro e he heq'
    apply (List.nodup_cons.mp hnodup.2.1).1
    exact List.mem_map.mpr ⟨e, he, heq'⟩

/-- The functions of the host module that are made for a function. -/
theorem takenOut_functions {M : HostModule} {info : FuncInfo}
    (hM : takeOut (analyzed H L m config bw uid) = .ok M)
    (hinfo : (analyze H L m bw uid).functbl.find? g = some info) (hf : m.function? g = some f)
    (htaken : (bw.funcs g).bind FuncBw.takeOut ≠ some false) :
    ∃ gen, doHstubcvt (analyzed H L m config bw uid) g f info = .ok gen ∧
      M.functions.lookup (.hstub info.uid) = some gen.stub ∧ M.functions.lookup (.fcpFunc g) = gen.copy := by
  have hblack : (analyzed H L m config bw uid).blackList g = false := blackList_eq_false.mpr htaken
  have hgens := HostTable.takeOut_genHfuncs hM
  have hfilled := HostTable.genHfuncs_filled hgens (analyze_wellFormed H L m bw uid).functionUids hinfo
  unfold HostTable.Filled at hfilled
  rw [if_neg (by rw [hblack]; simp)] at hfilled
  obtain ⟨f', gen, hf', hgen, _, hstub, _⟩ := hfilled
  cases hf.symm.trans hf'
  exact ⟨gen, hgen, hstub, genHfuncs_copy hgens hinfo hf hblack hgen⟩

theorem fcpStub_calls {P : Input} {info : FuncInfo} {j : HInst}
    (hj : AnyInst.inst j ∈ instructions (fcpStub P g f info)) {s : HostSym} (hs : called j.op = some s) :
    s = .gyhDebug ∨ s = .fcpFunc g := by
  have hentry := quiet_stubEntry P f info
  simp only [fcpStub, instructions, blocksInstructions, List.flatMap_cons, List.flatMap_nil, List.append_nil,
    blockInstructions, List.map_nil, List.nil_append, List.map_append, List.mem_append, List.mem_map,
    AnyInst.inst.injEq, exists_eq_right, List.mem_singleton, reduceCtorEq, or_false] at hj
  rcases hj with hj | hj
  · rcases (hentry j (List.mem_append.mpr hj)).2 with h | h
    · rw [called_eq_none h] at hs
      cases hs
    · rw [h] at hs
      exact .inl (Option.some.inj hs).symm
  · split at hj
    · obtain ⟨q, hq, rfl⟩ := List.mem_map.mp hj
      simp only [List.zipIdx_cons, List.zipIdx_nil, List.mem_cons, List.not_mem_nil, or_false] at hq
      rcases hq with rfl | rfl
      · exact .inr (Option.some.inj hs).symm
      · cases hs
    · obtain ⟨q, hq, rfl⟩ := List.mem_map.mp hj
      simp only [List.zipIdx_cons, List.zipIdx_nil, List.mem_cons, List.not_mem_nil, or_false] at hq
      obtain rfl := hq
      exact .inr (Option.some.inj hs).symm

/-- What the functions made for a function call directly. -/
theorem generated_calls {P : Input} {gen : Generated} {info : FuncInfo} (hgen : doHstubcvt P g f info = .ok gen)
    {hfun : HFunction} (hwhich : hfun = gen.stub ∨ gen.copy = some hfun) {j : HInst}
    (hj : AnyInst.inst j ∈ instructions hfun) {s : HostSym} (hs : called j.op = some s) :
    s = .gyhDebug ∨ (∃ c ∈ Module.calls f, s = target (P.route c)) ∨
      gen.copy ≠ none ∧ hfun = fcpStub P g f info ∧ s = .fcpFunc g := by
  obtain ⟨X, entry, hf', hX, hwhere⟩ := doHstubcvt_copying hgen
  have hbody : AnyInst.inst j ∈ instructions hf' → s = .gyhDebug ∨ ∃ c ∈ Module.calls f, s = target (P.route c) :=
    fun hj => doBody_calls hX.body hX.entry hj hs
  rcases hwhere with ⟨hstub, hcopy⟩ | ⟨hstub, hcopy⟩
  · rcases hwhich with rfl | hwhich
    · rw [hstub] at hj
      exact (hbody hj).imp_right .inl
    · rw [hcopy] at hwhich
      cases hwhich
  · rcases hwhich with rfl | hwhich
    · rw [hstub] at hj
      exact (fcpStub_calls hj hs).imp_right (fun h => .inr ⟨by rw [hcopy]; simp, hstub, h⟩)
    · rw [hcopy] at hwhich
      cases hwhich
      exact (hbody hj).imp_right .inl

/-- No generated function calls a host declaration for a listed function. -/
theorem not_called_white {gen : Generated} {info : FuncInfo} (hacc : Accepted H m bw g) (hf : m.function? g = some f)
    (hgen : doHstubcvt (analyzed H L m config bw uid) g f info = .ok gen) {hfun : HFunction}
    (hwhich : hfun = gen.stub ∨ gen.copy = some hfun) {j : HInst} (hj : AnyInst.inst j ∈ instructions hfun) :
    called j.op ≠ some (.whiteCallee k) := by
  intro hk
  rcases generated_calls hgen hwhich hj hk with h | ⟨c, hc, h⟩ | ⟨_, _, h⟩
  · cases h
  · have hroute : target (.white k) = target ((analyzed H L m config bw uid).route c) := h
    exact not_route_white hacc hf hc (target_injective hroute).symm
  · cases h

/-- A call of an intrinsic is one of the host's intrinsic. -/
theorem intrinsic_onHost {gen : Generated} {info : FuncInfo} (hf : m.function? g = some f)
    (hgen : doHstubcvt (analyzed H L m config bw uid) g f info = .ok gen) (hcall : DirectCall m f i c k callee)
    (hlisted : bw.callees k ≠ some false) {id : IntrinsicId} (hid : callee.intrinsicId = some id) :
    ∃ hfun, (hfun = gen.stub ∨ gen.copy = some hfun) ∧ OnHost hfun i k callee := by
  obtain ⟨X, entry, hfun, hX, hwhere⟩ := doHstubcvt_copying hgen
  refine ⟨hfun, hwhere.imp (fun h => h.1.symm) (fun h => h.2), ?_⟩
  have htype := Module.intrinsic_type hf hcall.mem_calls hcall.operand hcall.function (by simp [Function.isIntrinsic, hid])
  have hroute : (analyzed H L m config bw uid).route c = .intrinsic id := by
    have hcalled : getCalledFunction (analyzed H L m config bw uid).module c = some (k, callee) :=
      InstRun.getCalledFunction_eq_some.mpr ⟨hcall.operand, hcall.function, htype.symm⟩
    simp [Input.route, hcalled, isWhite_eq_false.mpr hlisted, hid]
  obtain ⟨b, hb, hi⟩ := hcall.mem
  obtain ⟨o, ho, hsub⟩ := (doBody_instructions hX.body).1 b hb
  obtain ⟨p, hp, hip⟩ := (mapM_ok_mem ho.pieces).1 i hi
  simp only [doInstruction, hcall.op] at hip
  obtain ⟨⟨code, vs⟩, _, hip⟩ := bind_eq_ok.mp hip
  simp only [hroute] at hip
  cases hip
  refine ⟨⟨c.functionType, 0, ⟨[]⟩, .const (.global (.intrinsic id)), (c.args.map Prod.fst).zip vs⟩, hsub _ ?_, htype,
    .inr ⟨id, hid, rfl⟩⟩
  simp only [BlockCopy.instructions, List.mem_append]
  refine .inl (.inl (.inr (List.mem_flatMap.mpr ⟨_, hp, inst_mem_pieceInstructions.mpr ?_⟩)))
  exact List.mem_append_right _ (List.mem_singleton.mpr rfl)

end Analyzed

/-- Calls of functions listed as true are direct calls in the host module
exactly when those functions are intrinsics, and no accepted function calls a
function listed as false. -/
theorem listedCallsDirect_iff (H : HashOps) (L : Layout) (m : Module) (config : Config) (bw : BwList) (uid : Nat)
    {M : HostModule} (hM : takeOut (analyzed H L m config bw uid) = .ok M) :
    (ListedCallsDirect H L m bw uid M ↔
      ∀ g f i c k callee, Accepted H m bw g → m.function? g = some f → (bw.funcs g).bind FuncBw.takeOut ≠ some false →
        DirectCall m f i c k callee → bw.callees k = some true → callee.isIntrinsic = true) ∧
      ∀ g f i c k callee, Accepted H m bw g → m.function? g = some f → DirectCall m f i c k callee →
        bw.callees k ≠ some false := by
  have hfunctions := (analyze_wellFormed H L m bw uid).functions
  refine ⟨⟨?_, ?_⟩, fun g f i c k callee hacc hf hcall => accepted_callee hacc hf hcall⟩
  · intro hdirect g f i c k callee hacc hf htaken hcall hlisted
    obtain ⟨info, hinfo⟩ := Option.ne_none_iff_exists'.mp ((hfunctions g).mpr hacc)
    obtain ⟨gen, hgen, hstub, hcopy⟩ := takenOut_functions hM hinfo hf htaken
    obtain ⟨hfun, hwhich, d, hd, _, hwhite | ⟨id, hid, _⟩⟩ :=
      hdirect g info f i c k callee hinfo hf htaken hcall hlisted
    · rw [hstub, hcopy] at hwhich
      have hwhich' : hfun = gen.stub ∨ gen.copy = some hfun := hwhich.imp (fun h => (Option.some.inj h).symm) id
      refine absurd ?_ (not_called_white (k := k) hacc hf hgen hwhich' hd)
      simp [called, hwhite]
    · simp [Function.isIntrinsic, hid]
  · intro hintrinsic g info f i c k callee hinfo hf htaken hcall hlisted
    have hacc : Accepted H m bw g := (hfunctions g).mp (by rw [hinfo]; simp)
    obtain ⟨gen, hgen, hstub, hcopy⟩ := takenOut_functions hM hinfo hf htaken
    obtain ⟨iid, hid⟩ := Option.isSome_iff_exists.mp (hintrinsic g f i c k callee hacc hf htaken hcall hlisted)
    obtain ⟨hfun, hwhich, honHost⟩ := intrinsic_onHost hf hgen hcall (by rw [hlisted]; simp) hid
    refine ⟨hfun, ?_, honHost⟩
    rw [hstub, hcopy]
    exact hwhich.imp (fun h => by rw [h]) id

def voidCall (k : Nat) : GCall := ⟨⟨.void, [], false⟩, 0, ⟨[]⟩, .const (.global k), []⟩

def listedCaller : GFunction :=
  ⟨⟨.void, [], false⟩, 0, ⟨[]⟩, none,
    [(0, ⟨[], [⟨0, .call (voidCall 1)⟩, ⟨1, .call (voidCall 2)⟩], 2, .ret none⟩)], [], none⟩

def declared (id : Option IntrinsicId) : GFunction := ⟨⟨.void, [], false⟩, 0, ⟨[]⟩, id, [], [], none⟩

def listedModule (id : Option IntrinsicId) : Module :=
  ⟨[.function listedCaller, .function (declared id), .function (declared none)], by cases id <;> rfl⟩

def listedModuleInput (id : Option IntrinsicId) : Input :=
  analyzed HostTable.sumHash HostTable.plainLayout (listedModule id) HostTable.chopAll listedCallee 7

theorem listedIntrinsic_direct : ∃ M, takeOut (listedModuleInput (some (.other 5))) = .ok M ∧
    ListedCallsDirect HostTable.sumHash HostTable.plainLayout (listedModule (some (.other 5))) listedCallee 7 M := by
  refine ⟨_, rfl, (listedCallsDirect_iff HostTable.sumHash HostTable.plainLayout (listedModule (some (.other 5)))
    HostTable.chopAll listedCallee 7 rfl).1.mpr ?_⟩
  intro g f i c k callee _ _ _ hcall hlisted
  have hk : k = 1 := by
    by_contra hne
    simp [listedCallee, hne] at hlisted
  subst hk
  cases hcall.function
  rfl

def directCalls (hf : HFunction) : List HostSym :=
  (instructions hf).filterMap (fun x => match x with
    | .inst i => called i.op
    | _ => none)

theorem OnHost.mem_directCalls {hf : HFunction} {i : GInst} {k : Nat} {callee : GFunction} (h : OnHost hf i k callee) :
    .whiteCallee k ∈ directCalls hf ∨ ∃ id, .intrinsic id ∈ directCalls hf := by
  obtain ⟨d, hd, _, hoperand | ⟨id, _, hoperand⟩⟩ := h
  · exact .inl (List.mem_filterMap.mpr ⟨_, hd, by simp [called, hoperand]⟩)
  · exact .inr ⟨id, List.mem_filterMap.mpr ⟨_, hd, by simp [called, hoperand]⟩⟩

/-- The call of the listed function goes through a callback, like that of the
other function. -/
theorem listedCall_callback : ∃ M hf, takeOut (listedModuleInput none) = .ok M ∧
    M.functions.lookup (.hstub 0) = some hf ∧ M.functions.lookup (.fcpFunc 0) = none ∧
      DirectCall (listedModule none) listedCaller ⟨0, .call (voidCall 1)⟩ (voidCall 1) 1 (declared none) ∧
      listedCallee.callees 1 = some true ∧ directCalls hf = [.gyhCallback, .gyhCallback] ∧
        ¬ OnHost hf ⟨0, .call (voidCall 1)⟩ 1 (declared none) := by
  refine ⟨_, _, rfl, rfl, rfl, ⟨⟨_, List.mem_cons_self, List.mem_cons_self⟩, rfl, rfl, rfl⟩, rfl, rfl, ?_⟩
  intro h
  rcases h.mem_directCalls with h | ⟨id, h⟩
  · exact absurd h (by decide)
  · rcases List.mem_cons.mp h with h | h
    · cases h
    · cases List.mem_singleton.mp h

end Comulator.CalleeList
