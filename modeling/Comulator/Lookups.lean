import Comulator.HostTable

namespace Comulator.Lookups

open Fallible Types Ir TypeHash Symtbl HostIr TakeOut Analyze AnalyzeSpec

def isLookup : Error → Bool
  | .unhashableCallback | .noCbStub | .noGref | .noCallbackStub | .noFcpFunc | .noTable => true
  | _ => false

structure Found (P : Input) (g : Nat) (info : FuncInfo) (f : GFunction) : Prop where
  callbacks : ∀ c ∈ Module.calls f, P.route c = .callback → ∃ h ∈ info.cbStubArgs, callSiteHash P.hash c = some h
  grefs : ∀ r ∈ info.extRefArgs, P.symtbl.greftbl.find? r ≠ none
  cbStubs : ∀ h ∈ info.cbStubArgs, P.symtbl.callbackStubs.find? h ≠ none
  fcpFunc : P.config.useGRT = true → P.config.useFCP = true → P.hasFcpFunc g = true
  functbl : P.config.useFCPcm = true → P.hasFcpFunc g = true
  tables : P.config.useFCP = true → P.config.useGRT = true

def LookupsSucceed (P : Input) : Prop :=
  ∀ g info f, P.symtbl.functbl.find? g = some info → P.module.function? g = some f → P.blackList g = false →
    Found P g info f

def Registers (m : Module) (bw : BwList) (c : GCall) : Prop :=
  match c.calledOperand with
  | .inlineAsm _ => False
  | .const (.global k) =>
      match m.function? k with
      | some callee => bw.callees k = none ∧ callee.isIntrinsic = false
      | none => True
  | _ => True

/-- A call of a function that is listed as true, which `Analyze` passes over. -/
structure ListedCall (m : Module) (bw : BwList) (c : GCall) (k : Nat) (callee : GFunction) : Prop where
  operand : c.calledOperand = .const (.global k)
  function : m.function? k = some callee
  plain : callee.isIntrinsic = false
  listed : bw.callees k = some true

structure Redirected (hash : HashOps) (m : Module) (config : Config) (bw : BwList) (c : GCall) (k : Nat)
    (callee : GFunction) : Prop where
  useFCP : config.useFCP = true
  type : callee.type = c.functionType
  accepted : Accepted hash m bw k
  takenOut : (bw.funcs k).bind FuncBw.takeOut ≠ some false

structure Supported (hash : HashOps) (m : Module) (config : Config) (bw : BwList) (g : Nat) (f : GFunction) :
    Prop where
  tables : config.useFCP = true → config.useGRT = true
  functbl : config.useFCPcm = true → config.useFCP = true
  callable : config.useFCP = true → bw.callees g ≠ some false
  calls : ∀ c ∈ Module.calls f, ∀ k callee, ListedCall m bw c k callee →
    Redirected hash m config bw c k callee ∨
      ∃ d ∈ Module.calls f, Registers m bw d ∧ ∃ h, callSiteHash hash d = some h ∧ callSiteHash hash c = some h

def Feasible (hash : HashOps) (m : Module) (config : Config) (bw : BwList) : Prop :=
  ∀ g f, Accepted hash m bw g → m.function? g = some f → (bw.funcs g).bind FuncBw.takeOut ≠ some false →
    Supported hash m config bw g f

section Registered

variable {m : Module} {bw : BwList} {f : GFunction} {c : GCall}

theorem mem_calleeItems_iff : Item.callback c ∈ calleeItems m bw c ↔ Registers m bw c := by
  simp only [calleeItems, Registers]
  cases c.calledOperand with
  | const d =>
      cases d with
      | global k =>
          cases hk : m.function? k with
          | none => simp [hk]
          | some callee => rcases hb : bw.callees k with _ | _ | _ <;> simp [hk, hb]
      | _ => simp
  | _ => simp

theorem mem_calls {b : Nat × GBlock} {i : GInst} (hb : b ∈ f.blocks) (hi : i ∈ b.2.insts) (hc : i.op = .call c) :
    c ∈ Module.calls f := by
  refine List.mem_flatMap.mpr ⟨b, hb, List.mem_filterMap.mpr ⟨i, hi, ?_⟩⟩
  rw [hc]
  rfl

theorem mem_calls_iff : c ∈ Module.calls f ↔ ∃ b ∈ f.blocks, ∃ i ∈ b.2.insts, i.op = .call c := by
  constructor
  · intro h
    obtain ⟨b, hb, h⟩ := List.mem_flatMap.mp h
    obtain ⟨i, hi, hc⟩ := List.mem_filterMap.mp h
    exact ⟨b, hb, i, hi, Module.callOf_eq_some.mp hc⟩
  · rintro ⟨b, hb, i, hi, hc⟩
    exact mem_calls hb hi hc

/-- The items of a call of the function are among those of the function. -/
theorem calleeItems_subset (h : c ∈ Module.calls f) : calleeItems m bw c ⊆ functionItems m bw f := by
  obtain ⟨b, hb, i, hi, hc⟩ := mem_calls_iff.mp h
  intro x hx
  refine List.mem_flatMap.mpr ⟨b, hb, ?_⟩
  refine List.mem_append_left _ (List.mem_append_right _ (List.mem_flatMap.mpr ⟨i, hi, ?_⟩))
  rw [hc]
  exact List.mem_append_left _ hx

theorem callback_mem_registers (h : Item.callback c ∈ functionItems m bw f) : Registers m bw c := by
  obtain ⟨b, hb, h⟩ := List.mem_flatMap.mp h
  unfold blockItems at h
  rw [List.mem_append, List.mem_append] at h
  rcases h with (h | h) | h
  · exact absurd h not_callback_mem_operandItems
  · obtain ⟨i, hi, h⟩ := List.mem_flatMap.mp h
    rw [Module.callOf_eq_some.mp (callback_mem_instItems h)] at h
    rcases List.mem_append.mp h with h | h
    · exact mem_calleeItems_iff.mp h
    · exact absurd h not_callback_mem_operandItems
  · unfold termItems at h
    split at h
    case h_8 => exact absurd h not_callback_mem_operandItems
    all_goals simp at h

theorem callback_mem_functionItems : Item.callback c ∈ functionItems m bw f ↔ c ∈ Module.calls f ∧ Registers m bw c :=
  ⟨fun h => ⟨callback_mem_calls h, callback_mem_registers h⟩,
    fun h => calleeItems_subset h.1 (mem_calleeItems_iff.mpr h.2)⟩

end Registered

section Analyzed

variable {hash : HashOps} {L : Layout} {m : Module} {config : Config} {bw : BwList} {uid g : Nat}

def analyzed (hash : HashOps) (L : Layout) (m : Module) (config : Config) (bw : BwList) (uid : Nat) : Input :=
  ⟨hash, m, config, bw, analyze hash L m bw uid⟩

theorem blackList_eq_false : (analyzed hash L m config bw uid).blackList g = false ↔
    (bw.funcs g).bind FuncBw.takeOut ≠ some false := decide_eq_false_iff_not

theorem isWhite_eq_false : (analyzed hash L m config bw uid).isWhite g = false ↔ bw.callees g ≠ some false :=
  decide_eq_false_iff_not

theorem hasFcpFunc_iff : (analyzed hash L m config bw uid).hasFcpFunc g = true ↔
    config.useFCP = true ∧ Accepted hash m bw g ∧ (bw.funcs g).bind FuncBw.takeOut ≠ some false ∧
      bw.callees g ≠ some false := by
  have haccepted := (analyze_wellFormed hash L m bw uid).functions g
  have hblack : (analyzed hash L m config bw uid).blackList g = false ↔ _ := blackList_eq_false
  have hwhite : (analyzed hash L m config bw uid).isWhite g = false ↔ _ := isWhite_eq_false
  rw [← haccepted, Option.ne_none_iff_isSome, ← hblack, ← hwhite]
  simp only [Input.hasFcpFunc, Bool.and_eq_true, Bool.not_eq_true', and_assoc]
  rfl

theorem route_eq_callback {c : GCall} {k : Nat} {callee : GFunction}
    (hcall : ListedCall m bw c k callee) (hr : ¬ Redirected hash m config bw c k callee) :
    (analyzed hash L m config bw uid).route c = .callback := by
  have hfcp : callee.type = c.functionType → (analyzed hash L m config bw uid).hasFcpFunc k = false := by
    intro htype
    refine Bool.eq_false_iff.mpr (fun hfcp => hr ?_)
    obtain ⟨huse, haccepted, htaken, _⟩ := hasFcpFunc_iff.mp hfcp
    exact ⟨huse, htype, haccepted, htaken⟩
  have hwhite : (analyzed hash L m config bw uid).isWhite k = false := by
    refine isWhite_eq_false.mpr ?_
    rw [hcall.listed]
    simp
  have hid : callee.intrinsicId = none := by simpa [Function.isIntrinsic] using hcall.plain
  have hfun : (analyzed hash L m config bw uid).module.function? k = some callee := hcall.function
  by_cases htype : callee.type = c.functionType
  · simp [Input.route, getCalledFunction, hcall.operand, hfun, htype, hwhite, hid, hfcp htype]
  · simp [Input.route, getCalledFunction, hcall.operand, hfun, htype]

/-- A call of an analyzed function that is made through a callback has one
registered, or is of a function listed as true that has no copy. -/
theorem registers_or_listed {f : GFunction} (hf : m.function? g = some f)
    (haccepted : ∀ e, Item.reject e ∉ functionItems m bw f) {c : GCall} (hc : c ∈ Module.calls f)
    (hroute : (analyzed hash L m config bw uid).route c = .callback) :
    Registers m bw c ∨ ∃ k callee, ListedCall m bw c k callee ∧ ¬ Redirected hash m config bw c k callee := by
  have hitems : ∀ e, Item.reject e ∉ calleeItems m bw c := fun e he => haccepted e (calleeItems_subset hc he)
  unfold calleeItems at hitems
  split at hitems
  next => exact absurd (List.mem_singleton.mpr rfl) (hitems .inlineAsm)
  next k hk =>
    split at hitems
    next callee hcallee =>
      have hfun : (analyzed hash L m config bw uid).module.function? k = some callee := hcallee
      split at hitems
      next hlisted =>
        have hwhite : (analyzed hash L m config bw uid).isWhite k = false := by
          refine isWhite_eq_false.mpr ?_
          rw [hlisted]
          simp
        refine .inr ⟨k, callee, ⟨hk, hcallee, ?_, hlisted⟩, ?_⟩
        · refine Bool.eq_false_iff.mpr (fun hi => ?_)
          have htype := (Module.intrinsic_type hf hc hk hcallee hi).symm
          obtain ⟨id, hid⟩ := Option.isSome_iff_exists.mp hi
          simp [Input.route, getCalledFunction, hk, hfun, htype, hwhite, hid] at hroute
        · intro hr
          have hfcp : (analyzed hash L m config bw uid).hasFcpFunc k = true :=
            hasFcpFunc_iff.mpr ⟨hr.useFCP, hr.accepted, hr.takenOut, by rw [hlisted]; simp⟩
          cases hid : callee.intrinsicId with
          | none => simp [Input.route, getCalledFunction, hk, hfun, hr.type, hwhite, hid, hfcp] at hroute
          | some id => simp [Input.route, getCalledFunction, hk, hfun, hr.type, hwhite, hid] at hroute
      next => exact absurd (List.mem_singleton.mpr rfl) (hitems .blackCallee)
      next hnone =>
        have hi : callee.isIntrinsic = false := by
          refine Bool.eq_false_iff.mpr (fun hi => ?_)
          have htype := (Module.intrinsic_type hf hc hk hcallee hi).symm
          have hwhite : (analyzed hash L m config bw uid).isWhite k = false := by
            refine isWhite_eq_false.mpr ?_
            rw [hnone]
            simp
          obtain ⟨id, hid⟩ := Option.isSome_iff_exists.mp hi
          simp [Input.route, getCalledFunction, hk, hfun, htype, hwhite, hid] at hroute
        refine .inl ?_
        simp [Registers, hk, hcallee, hnone, hi]
    next hnone => exact .inl (by simp [Registers, hk, hnone])
  next hasm hglobal =>
    refine .inl ?_
    unfold Registers
    split
    next n heq => exact absurd heq (hasm n)
    next k heq => exact absurd heq (hglobal k)
    next => trivial

theorem found_iff_supported {f : GFunction} {info : FuncInfo}
    (hinfo : (analyze hash L m bw uid).functbl.find? g = some info) (hf : m.function? g = some f)
    (htaken : (bw.funcs g).bind FuncBw.takeOut ≠ some false) :
    Found (analyzed hash L m config bw uid) g info f ↔ Supported hash m config bw g f := by
  have hwf := analyze_wellFormed hash L m bw uid
  have hacc : Accepted hash m bw g := (hwf.functions g).mp (by rw [hinfo]; simp)
  obtain ⟨f', scan, h, hentry⟩ := hwf.entries g info hinfo
  cases hf.symm.trans hentry.function
  have hscanned := scanFunction_scanned hentry.scanned
  have hregistered : ∀ k, k ∈ info.cbStubArgs ↔
      ∃ d, (d ∈ Module.calls f ∧ Registers m bw d) ∧ callSiteHash hash d = some k := by
    intro k
    rw [hentry.stubs, hscanned.stubs]
    exact exists_congr (fun d => and_congr_left (fun _ => callback_mem_functionItems))
  constructor
  · intro hfound
    refine ⟨hfound.tables, fun hcm => (hasFcpFunc_iff.mp (hfound.functbl hcm)).1, ?_, ?_⟩
    · intro hfcp
      exact (hasFcpFunc_iff.mp (hfound.fcpFunc (hfound.tables hfcp) hfcp)).2.2.2
    · intro c hc k callee hcall
      refine or_iff_not_imp_left.mpr (fun hr => ?_)
      obtain ⟨h, hh, hch⟩ := hfound.callbacks c hc (route_eq_callback hcall hr)
      obtain ⟨d, ⟨hd, hreg⟩, hdh⟩ := (hregistered h).mp hh
      exact ⟨d, hd, hreg, h, hdh, hch⟩
  · intro hs
    have hfcp : config.useFCP = true → (analyzed hash L m config bw uid).hasFcpFunc g = true :=
      fun huse => hasFcpFunc_iff.mpr ⟨huse, hacc, htaken, hs.callable huse⟩
    refine ⟨?_, ?_, ?_, fun _ huse => hfcp huse, fun hcm => hfcp (hs.functbl hcm), hs.tables⟩
    · intro c hc hroute
      rcases registers_or_listed hf hscanned.accepted hc hroute with hreg | ⟨k, callee, hcall, hr⟩
      · obtain ⟨_, h, hh⟩ := hscanned.callbacks c (callback_mem_functionItems.mpr ⟨hc, hreg⟩)
        exact ⟨h, (hregistered h).mpr ⟨c, ⟨hc, hreg⟩, hh⟩, hh⟩
      · rcases hs.calls c hc k callee hcall with hr' | ⟨d, hd, hreg, h, hdh, hch⟩
        · exact absurd hr' hr
        · exact ⟨h, (hregistered h).mpr ⟨d, ⟨hd, hreg⟩, hdh⟩, hch⟩
    · intro r hr
      exact hentry.grefs r (hentry.refs ▸ hr)
    · intro h hh
      exact hentry.callbacks h (hentry.stubs ▸ hh)

theorem lookupsSucceed_iff : LookupsSucceed (analyzed hash L m config bw uid) ↔ Feasible hash m config bw := by
  have hwf := analyze_wellFormed hash L m bw uid
  constructor
  · intro hall g f hacc hf htaken
    obtain ⟨info, hinfo⟩ := Option.ne_none_iff_exists'.mp ((hwf.functions g).mpr hacc)
    exact (found_iff_supported hinfo hf htaken).mp (hall g info f hinfo hf (blackList_eq_false.mpr htaken))
  · intro hall g info f hinfo hf hblack
    have htaken := blackList_eq_false.mp hblack
    have hacc : Accepted hash m bw g := (hwf.functions g).mp (by
      have hinfo : (analyze hash L m bw uid).functbl.find? g = some info := hinfo
      rw [hinfo]
      simp)
    exact (found_iff_supported hinfo hf htaken).mpr (hall g f hacc hf htaken)

end Analyzed

section NeverStuck

def NoLookupFails {α : Type} (x : Except Error α) : Prop := FailsOnly (fun e => isLookup e = false) x

section Walk

variable {refs : Nat → Option HostId} {walk : Nat → Except Error Unit}

mutual

theorem constNew_fails (hwalk : ∀ g, NoLookupFails (walk g)) (c : Const Nat) :
    NoLookupFails (constNew refs walk c) := by
  cases c with
  | global g =>
      rw [constNew]
      split
      next => exact .pure _
      next => exact (hwalk g).bind (fun _ _ => .pure _)
  | wrapper kind g =>
      rw [constNew]
      split
      next => exact .pure _
      next => exact (hwalk g).bind (fun _ _ => .pure _)
  | aggregate kind ops =>
      rw [constNew]
      exact constsNew_fails hwalk ops
  | expr opcode ty is ops =>
      rw [constNew]
      exact constsNew_fails hwalk ops
  | int | nullPtr | undef | poison | data => exact .pure _

theorem constsNew_fails (hwalk : ∀ g, NoLookupFails (walk g)) (cs : List (Const Nat)) :
    NoLookupFails (constsNew refs walk cs) := by
  cases cs with
  | nil => exact .pure _
  | cons c cs =>
      rw [constsNew]
      refine (constNew_fails hwalk c).bind (fun _ _ => ?_)
      exact (constsNew_fails hwalk cs).bind (fun _ _ => .pure _)

end

end Walk

theorem walkGlobal_fails (m : Module) (refs : Nat → Option HostId) (fuel g : Nat) :
    NoLookupFails (walkGlobal m refs fuel g) := by
  induction fuel generalizing g with
  | zero => exact .throw rfl
  | succ fuel ih =>
      refine (constsNew_fails ih _).bind (fun new _ => ?_)
      split
      next => exact .throw rfl
      next => exact .pure _

variable {q : Error → Prop}

section Walked

variable (S : Site)

mutual

def constWalked : Const Nat → List Nat
  | .global g => if S.dbg || (S.refs g).isSome then [] else [g]
  | .wrapper kind g => if S.dbg || (!isOwn S.self.1 kind g && (S.refs g).isSome) then [] else [g]
  | .aggregate _ ops => constsWalked ops
  | .expr _ _ _ ops => constsWalked ops
  | _ => []

def constsWalked : List (Const Nat) → List Nat
  | [] => []
  | c :: cs => constWalked c ++ constsWalked cs

end

def mdOperandWalked : MdOperand Nat Nat → List Nat
  | .const c => constWalked S c
  | _ => []

def valueWalked : GValue → List Nat
  | .const c => constWalked S c
  | .metadata (.value v) => mdOperandWalked S v
  | .metadata (.argList vs) => vs.flatMap (mdOperandWalked S)
  | _ => []

end Walked

section Operand

variable {S : Site} {args : Nat → HValue}

variable (q S) in
def WalksFail (gs : List Nat) : Prop := ∀ g ∈ gs, FailsOnly q (S.walk g)

mutual

theorem doConst_fails (k : Nat) (c : Const Nat) (hwalk : WalksFail q S (constWalked S c)) :
    FailsOnly q (doConst S k c) := by
  cases c with
  | global g =>
      rw [doConst]
      split
      next => exact .pure _
      next hnone =>
        split
        next => exact .pure _
        next hdbg =>
          refine (hwalk g ?_).bind (fun _ _ => .pure _)
          simp [constWalked, hnone, hdbg]
  | wrapper kind g =>
      rw [doConst]
      split
      next => exact .pure _
      next hself =>
        refine (hwalk g ?_).bind (fun _ _ => .pure _)
        rw [constWalked, if_neg hself]
        exact List.mem_singleton.mpr rfl
  | aggregate kind ops =>
      rw [doConst]
      refine (doConsts_fails k ops hwalk).bind (fun r _ => ?_)
      simp only
      split
      next => exact .pure _
      next => exact .pure _
  | expr opcode ty is ops =>
      rw [doConst]
      refine (doConsts_fails k ops hwalk).bind (fun r _ => ?_)
      simp only
      split
      next => exact .pure _
      next => exact .pure _
  | int | nullPtr | undef | poison | data => exact .pure _

theorem doConsts_fails (k : Nat) (cs : List (Const Nat)) (hwalk : WalksFail q S (constsWalked S cs)) :
    FailsOnly q (doConsts S k cs) := by
  cases cs with
  | nil => exact .pure _
  | cons c cs =>
      rw [doConsts]
      refine (doConst_fails k c (fun g hg => hwalk g (List.mem_append_left _ hg))).bind (fun r _ => ?_)
      exact (doConsts_fails _ cs (fun g hg => hwalk g (List.mem_append_right _ hg))).bind (fun _ _ => .pure _)

end

theorem doMdOperand_fails (k : Nat) (v : MdOperand Nat Nat) (hwalk : WalksFail q S (mdOperandWalked S v)) :
    FailsOnly q (doMdOperand S args k v) := by
  cases v with
  | const c => exact (doConst_fails k c hwalk).bind (fun _ _ => .pure _)
  | arg i => exact .pure _
  | inst x => exact .pure _

theorem doArgList_fails (k : Nat) (vs : List (MdOperand Nat Nat))
    (hwalk : WalksFail q S (vs.flatMap (mdOperandWalked S))) : FailsOnly q (doArgList S args k vs) := by
  induction vs generalizing k with
  | nil => exact .pure _
  | cons v vs ih =>
      rw [List.flatMap_cons] at hwalk
      refine (doMdOperand_fails k v (fun g hg => hwalk g (List.mem_append_left _ hg))).bind (fun r _ => ?_)
      exact (ih _ (fun g hg => hwalk g (List.mem_append_right _ hg))).bind (fun _ _ => .pure _)

theorem doOperand_fails (k : Nat) (v : GValue) (hwalk : WalksFail q S (valueWalked S v)) :
    FailsOnly q (doOperand S args k v) := by
  cases v with
  | const c => exact (doConst_fails k c hwalk).bind (fun _ _ => .pure _)
  | metadata md =>
      refine FailsOnly.bind ?_ (fun _ _ => .pure _)
      cases md with
      | value v => exact (doMdOperand_fails k v hwalk).bind (fun _ _ => .pure _)
      | argList vs => exact (doArgList_fails k vs hwalk).bind (fun _ _ => .pure _)
      | node n => exact .pure _
  | arg | inst | inlineAsm => exact .pure _

theorem doOperands_fails (k : Nat) (vs : List GValue) (hwalk : ∀ v ∈ vs, WalksFail q S (valueWalked S v)) :
    FailsOnly q (doOperands S args k vs) := by
  induction vs generalizing k with
  | nil => exact .pure _
  | cons v vs ih =>
      refine (doOperand_fails k v (hwalk v List.mem_cons_self)).bind (fun r _ => ?_)
      exact (ih _ (fun u hu => hwalk u (List.mem_cons_of_mem _ hu))).bind (fun _ _ => .pure _)

end Operand

section Body

variable {P : Input} {X : Copy} {f : GFunction}

variable (q P X) in
abbrev OperandFails (n : Nat) (dbg : Bool) (v : GValue) : Prop :=
  WalksFail q (site P X n dbg) (valueWalked (site P X n dbg) v)

variable (q P X) in
def InstFails (i : GInst) : Prop :=
  match i.op with
  | .call c => (∀ v ∈ c.args.map Prod.snd, OperandFails q P X i.id (isDbgValueInst P.module c) v) ∧
      (P.route c = .callback → OperandFails q P X i.id (isDbgValueInst P.module c) c.calledOperand)
  | .op _ _ _ ops => ∀ v ∈ ops, OperandFails q P X i.id false v
  | _ => q .rejected

variable (q P X f) in
structure BodyFails : Prop where
  phis : ∀ b ∈ f.blocks, ∀ p ∈ b.2.phis, ∀ v ∈ p.incoming.map Prod.fst, OperandFails q P X p.id false v
  insts : ∀ b ∈ f.blocks, ∀ i ∈ b.2.insts, InstFails q P X i
  terms : ∀ b ∈ f.blocks, ∀ v ∈ Module.termOperands b.2.term, OperandFails q P X b.2.termId false v
  jumps : ∀ b ∈ f.blocks, ∀ e, Item.reject e ∈ termItems b.2.term → q .rejected
  entry : f.blocks = [] → q .rejected

theorem doCallback_fails {c : GCall} (hc : ∃ h, callSiteHash P.hash c = some h ∧ X.cbStubs h ≠ none) (n k : Nat)
    (result : HostId) (callee : HValue) (args : List (Ty × HValue)) :
    FailsOnly q (doCallback P X n k result c callee args) := by
  obtain ⟨h, hh, hstub⟩ := hc
  unfold doCallback
  rw [hh]
  simp only
  split
  next hnone => exact absurd hnone hstub
  next => exact .pure _

theorem doCall_fails {c : GCall} {n : Nat}
    (hargs : ∀ v ∈ c.args.map Prod.snd, OperandFails q P X n (isDbgValueInst P.module c) v)
    (hcallee : P.route c = .callback → OperandFails q P X n (isDbgValueInst P.module c) c.calledOperand)
    (hc : P.route c = .callback → ∃ h, callSiteHash P.hash c = some h ∧ X.cbStubs h ≠ none) :
    FailsOnly q (doCall P X n c) := by
  refine (doOperands_fails 1 _ hargs).bind (fun r _ => ?_)
  simp only
  split
  next => exact .pure _
  next => exact .pure _
  next => exact .pure _
  next hroute =>
    refine (doOperand_fails _ _ (hcallee hroute)).bind (fun r' _ => ?_)
    split
    next =>
      refine FailsOnly.bind ?_ (fun _ _ => .pure _)
      exact (doCallback_fails (hc hroute) _ _ _ _ _).bind (fun _ _ => .pure _)
    next => exact (doCallback_fails (hc hroute) _ _ _ _ _).bind (fun _ _ => .pure _)

theorem doTerminator_fails {n : Nat} {t : Term Nat Nat Nat}
    (hwalk : ∀ v ∈ Module.termOperands t, OperandFails q P X n false v)
    (hjump : ∀ e, Item.reject e ∈ termItems t → q .rejected) : FailsOnly q (doTerminator P X f n t) := by
  cases t with
  | ret r =>
      cases r with
      | none => exact .pure _
      | some r =>
          refine (doOperand_fails 1 r.2 (hwalk _ (List.mem_singleton.mpr rfl))).bind (fun _ _ => ?_)
          simp only
          split <;> exact .pure _
  | condBr v a b => exact (doOperand_fails 1 v (hwalk v (List.mem_singleton.mpr rfl))).bind (fun r _ => .pure _)
  | switch v d cases => exact (doOperand_fails 1 v (hwalk v (List.mem_singleton.mpr rfl))).bind (fun r _ => .pure _)
  | br | unreachable => exact .pure _
  | _ => exact .throw (hjump _ (List.mem_singleton.mpr rfl))

theorem doBody_fails (entry : List HInst) (hbody : BodyFails q P X f)
    (hc : ∀ c ∈ Module.calls f, P.route c = .callback → ∃ h, callSiteHash P.hash c = some h ∧ X.cbStubs h ≠ none) :
    FailsOnly q (doBody P X f entry) := by
  refine FailsOnly.bind (FailsOnly.mapM ?_) (fun blocks _ => ?_)
  · intro b hb
    refine FailsOnly.bind (FailsOnly.mapM ?_) (fun phis _ => ?_)
    · intro p hp
      exact (doOperands_fails 1 _ (hbody.phis b hb p hp)).bind (fun _ _ => .pure _)
    refine FailsOnly.bind (FailsOnly.mapM ?_) (fun pieces _ => ?_)
    · intro i hi
      have hinst := hbody.insts b hb i hi
      unfold doInstruction
      unfold InstFails at hinst
      split
      next c hop =>
        rw [hop] at hinst
        exact doCall_fails hinst.1 hinst.2 (hc c (mem_calls hb hi hop))
      next opcode ty is ops hop =>
        rw [hop] at hinst
        exact (doOperands_fails 1 _ hinst).bind (fun _ _ => .pure _)
      next hcall hop =>
        split at hinst
        next c h => exact absurd h (hcall c)
        next h => exact absurd h (hop _ _ _ _)
        next => exact .throw hinst
    exact (doTerminator_fails (hbody.terms b hb) (hbody.jumps b hb)).bind (fun _ _ => .pure _)
  · split
    next hnil => exact .throw (hbody.entry hnil)
    next => exact .pure _

/-- No lookup fails in the copying of the operands. -/
theorem bodyFails_lookup : BodyFails (fun e => isLookup e = false) P X f where
  phis := fun _ _ _ _ _ _ _ _ => walkGlobal_fails _ _ _ _
  insts := by
    intro b _ i _
    unfold InstFails
    split
    next => exact ⟨fun _ _ _ _ => walkGlobal_fails _ _ _ _, fun _ _ _ => walkGlobal_fails _ _ _ _⟩
    next => exact fun _ _ _ _ => walkGlobal_fails _ _ _ _
    next => rfl
  terms := fun _ _ _ _ _ _ => walkGlobal_fails _ _ _ _
  jumps := fun _ _ _ _ => rfl
  entry := fun _ => rfl

end Body

section Module

variable {P : Input} {g : Nat} {f : GFunction} {info : FuncInfo}

theorem foldl_update_ne_none {K V : Type} [DecidableEq K] (l : List (K × V)) (map : K → Option V) (k : K)
    (h : k ∈ l.map Prod.fst ∨ map k ≠ none) :
    l.foldl (fun (map : K → Option V) e => Function.update map e.1 (some e.2)) map k ≠ none := by
  induction l generalizing map with
  | nil => simpa using h
  | cons e l ih =>
      refine ih _ ?_
      by_cases hk : k = e.1
      · subst hk
        exact .inr (by simp)
      · simp only [Function.update_of_ne hk]
        simpa [hk] using h

theorem assign_ne_none {K V : Type} [DecidableEq K] {l : List (K × V)} {k : K} (h : k ∈ l.map Prod.fst) :
    assign l k ≠ none := foldl_update_ne_none l _ k (.inl h)

theorem map_fst_zipIdx {K V : Type} (keys : List K) (name : Nat → V) :
    (keys.zipIdx.map (fun p => (p.1, name p.2))).map Prod.fst = keys := by
  rw [List.map_map]
  exact List.zipIdx_map_fst 0 keys

theorem fieldNames_keys {K : Type} (pos : Nat) (keys : List K) : (fieldNames pos keys).map Prod.fst = keys :=
  map_fst_zipIdx keys (fun i => entryName (pos + 1 + i))

theorem entryNames_keys {K : Type} (pos : Nat) (keys : List K) : (entryNames pos keys).map Prod.fst = keys :=
  map_fst_zipIdx keys (fun i => entryName (pos + 3 * i + 2))

theorem fcpEntryNames_keys {K : Type} (pos : Nat) (keys : List K) : (fcpEntryNames pos keys).map Prod.fst = keys :=
  map_fst_zipIdx keys (fun i => entryName (pos + 2 * i + 2))

theorem grefUids_fails (h : Found P g info f) : FailsOnly q (P.grefUids info) := by
  refine FailsOnly.mapM (fun r hr => ?_)
  split
  next => exact .pure _
  next hnone => exact absurd hnone (h.grefs r hr)

theorem cbStubUids_fails (h : Found P g info f) : FailsOnly q (P.cbStubUids info) := by
  refine FailsOnly.mapM (fun k hk => ?_)
  split
  next => exact .pure _
  next hnone => exact absurd hnone (h.cbStubs k hk)

theorem hstubArgs_fails (h : info.stubType.arg.isSome ∨ f.type.params.length = 0 ∨ q .argCount) (pos : Nat) :
    FailsOnly q (hstubArgs f info pos) := by
  unfold hstubArgs
  split
  next => exact .pure _
  next hargs =>
    rcases h with h | h | h
    · exact absurd (.inl h) hargs
    · exact absurd (.inr h) hargs
    · exact .throw h

/-- The callback stubs are found in a map with the keys `mCbStubArgs`. -/
theorem Found.cbStub (h : Found P g info f) {l : List (HashCode × HostId)} (hl : l.map Prod.fst = info.cbStubArgs) :
    ∀ c ∈ Module.calls f, P.route c = .callback → ∃ k, callSiteHash P.hash c = some k ∧ assign l k ≠ none := by
  intro c hc hroute
  obtain ⟨k, hk, hh⟩ := h.callbacks c hc hroute
  exact ⟨k, hh, assign_ne_none (hl ▸ hk)⟩

theorem doHstubcvt_fails (h : Found P g info f)
    (hargs : info.stubType.arg.isSome ∨ f.type.params.length = 0 ∨ q .argCount)
    (hbody : ∀ X : Copy, (∀ r ∈ info.extRefArgs, X.refs r ≠ none) → BodyFails q P X f) :
    FailsOnly q (doHstubcvt P g f info) := by
  unfold doHstubcvt
  split
  next hgrt =>
    split
    next hfcp =>
      unfold genFcp
      rw [if_pos (h.fcpFunc hgrt hfcp)]
      refine (grefUids_fails h).bind (fun uids _ => ?_)
      refine (cbStubUids_fails h).bind (fun uids' _ => ?_)
      refine FailsOnly.bind ?_ (fun _ _ => .pure _)
      exact doBody_fails _ (hbody _ (fun r hr => assign_ne_none (fcpEntryNames_keys _ _ ▸ hr))) (h.cbStub (fcpEntryNames_keys _ _))
    next =>
      refine (hstubArgs_fails hargs _).bind (fun args _ => ?_)
      refine (grefUids_fails h).bind (fun uids _ => ?_)
      refine (cbStubUids_fails h).bind (fun uids' _ => ?_)
      refine FailsOnly.bind ?_ (fun _ _ => .pure _)
      exact doBody_fails _ (hbody _ (fun r hr => assign_ne_none (entryNames_keys _ _ ▸ hr))) (h.cbStub (entryNames_keys _ _))
  next hgrt =>
    split
    next hfcp => exact absurd (h.tables hfcp) hgrt
    next =>
      refine (hstubArgs_fails hargs _).bind (fun args _ => ?_)
      refine FailsOnly.bind ?_ (fun _ _ => .pure _)
      exact doBody_fails _ (hbody _ (fun r hr => assign_ne_none (fieldNames_keys _ _ ▸ hr))) (h.cbStub (fieldNames_keys _ _))

theorem takeOut_fails (h : LookupsSucceed P)
    (hfun : ∀ g info, P.symtbl.functbl.find? g = some info → ∃ f, P.module.function? g = some f ∧
      (Found P g info f → FailsOnly q (doHstubcvt P g f info))) : FailsOnly q (takeOut P) := by
  refine FailsOnly.bind (FailsOnly.foldlM (fun s e he => ?_)) (fun r _ => ?_)
  · have hinfo := OrderedMap.mem_entries.mp he
    unfold genHfunc
    split
    next => exact .pure _
    next hblack =>
      obtain ⟨f, hf, hcvt⟩ := hfun e.1 e.2 hinfo
      rw [hf]
      exact (hcvt (h e.1 e.2 f hinfo hf (by simpa using hblack))).bind (fun _ _ => .pure _)
  · simp only
    split
    next hcm =>
      refine FailsOnly.bind (FailsOnly.foldlM (fun s e he => ?_)) (fun _ _ => .pure _)
      have hinfo := OrderedMap.mem_entries.mp he
      split
      next => exact .pure _
      next hblack =>
        obtain ⟨f, hf, _⟩ := hfun e.1 e.2 hinfo
        rw [if_pos ((h e.1 e.2 f hinfo hf (by simpa using hblack)).functbl hcm)]
        exact .pure _
    next => exact .pure _

end Module

end NeverStuck

theorem analyzed_fails {hash : HashOps} {L : Layout} {m : Module} {config : Config} {bw : BwList} {uid : Nat}
    (h : LookupsSucceed (analyzed hash L m config bw uid)) :
    NoLookupFails (takeOut (analyzed hash L m config bw uid)) := by
  refine takeOut_fails h (fun g info hinfo => ?_)
  obtain ⟨f, scan, k, hentry⟩ :=
    (analyze_wellFormed hash L m bw uid).entries g info hinfo
  exact ⟨f, hentry.function, fun hfound => doHstubcvt_fails hfound (.inr (.inr rfl)) (fun _ _ => bodyFails_lookup)⟩

/-- All lookups of the pass succeed exactly when the flags, the lists and the
calls fit together, and then it does not stop at one. -/
theorem lookupsSucceed_iff_feasible (hash : HashOps) (L : Layout) (m : Module) (config : Config) (bw : BwList)
    (uid : Nat) :
    (LookupsSucceed (analyzed hash L m config bw uid) ↔ Feasible hash m config bw) ∧
      (Feasible hash m config bw → NoLookupFails (takeOut (analyzed hash L m config bw uid))) :=
  ⟨lookupsSucceed_iff, fun h => analyzed_fails (lookupsSucceed_iff.mpr h)⟩

def callerModule : Module :=
  ⟨[.function ⟨⟨.void, [], false⟩, 0, ⟨[]⟩, none,
      [(0, ⟨[], [⟨0, .call ⟨⟨.void, [], false⟩, 0, ⟨[]⟩, .const (.global 1), []⟩⟩], 1, .ret none⟩)], [], none⟩,
    .function ⟨⟨.void, [], false⟩, 0, ⟨[]⟩, none, [], [], none⟩], by decide⟩

def listedCallee : BwList := ⟨fun _ => none, fun g => if g = 1 then some true else none, fun _ => false, false⟩

def listedInput : Input :=
  analyzed HostTable.sumHash HostTable.plainLayout callerModule HostTable.chopAll listedCallee 7

theorem listedCallee_stuck : ¬ LookupsSucceed listedInput ∧ takeOut listedInput = .error .noCbStub := by
  have hstuck : takeOut listedInput = .error .noCbStub := rfl
  refine ⟨fun h => ?_, hstuck⟩
  exact absurd (analyzed_fails h _ hstuck) (by decide)

end Comulator.Lookups
