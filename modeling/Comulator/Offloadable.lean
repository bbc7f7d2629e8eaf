import Comulator.Lookups
import Comulator.HashSpec
import Comulator.Outline

namespace Comulator.Offloadable

open Fallible Types Ir TypeHash HostIr Symtbl Analyze AnalyzeSpec Outline

section Scanning

variable {H : HashOps} {m : Module} {bw : BwList} {f : GFunction}

theorem operandItems_pass (vs : List GValue) : ∀ i ∈ operandItems vs, isSupported H i := by
  intro i hi
  obtain ⟨g, _, rfl⟩ := List.mem_map.mp hi
  rfl

def isIntrinsicAt (m : Module) (g : Nat) : Bool :=
  match m.function? g with
  | some f => f.isIntrinsic
  | none => false

def callsIntrinsic (m : Module) (c : GCall) : Bool :=
  match c.calledOperand with
  | .const (.global g) => isIntrinsicAt m g
  | _ => false

/-- Without lists only intrinsics are told from other called values. -/
theorem calleeItems_congr {m' : Module} (h : ∀ g, isIntrinsicAt m g = isIntrinsicAt m' g) (c : GCall) :
    calleeItems m .null c = calleeItems m' .null c := by
  unfold calleeItems
  cases c.calledOperand with
  | const d =>
      cases d with
      | global g =>
          have hg := h g
          unfold isIntrinsicAt at hg
          cases hm : m.function? g <;> cases hm' : m'.function? g <;> simp_all [BwList.null]
      | _ => rfl
  | _ => rfl

theorem instItems_congr {m' : Module} (h : ∀ g, isIntrinsicAt m g = isIntrinsicAt m' g) (op : InstOp Nat Nat) :
    instItems m .null op = instItems m' .null op := by
  cases op with
  | call c => rw [instItems, instItems, calleeItems_congr h]
  | _ => rfl

theorem functionItems_congr {m' : Module} (h : ∀ g, isIntrinsicAt m g = isIntrinsicAt m' g) (f : GFunction) :
    functionItems m .null f = functionItems m' .null f := by
  simp only [functionItems, blockItems, instItems_congr h]

/-- The items of a called operand pass. -/
theorem calleeItems_pass_iff {c : GCall} : (∀ i ∈ calleeItems m .null c, isSupported H i) ↔
    (∀ a, c.calledOperand ≠ .inlineAsm a) ∧
      (callsIntrinsic m c = false → c.functionType.isVarArg = false ∧ (callSiteHash H c).isSome) := by
  unfold calleeItems callsIntrinsic
  cases c.calledOperand with
  | inlineAsm a => simp [isSupported]
  | const d =>
      cases d with
      | global g =>
          cases hg : m.function? g with
          | none => simp [isSupported, isIntrinsicAt, hg]
          | some callee =>
              cases hi : callee.isIntrinsic <;> simp [isSupported, isIntrinsicAt, hg, hi, BwList.null]
      | _ => simp [isSupported]
  | _ => simp [isSupported]

end Scanning

section Agreement

variable {H : HashOps} {m : Module} {name : GValue → String} {f : GFunction}

def reports (name : GValue → String) (f : GFunction) : Bool :=
  f.blocks.any (fun b => b.2.insts.any (fun i => checkOp name i.op ≠ .nothing) || checkTerm b.2.term ≠ .nothing)

def refusedOp (m : Module) : InstOp Nat Nat → Bool
  | .landingPad | .catchPad | .cleanupPad => true
  | .call c =>
      match c.calledOperand with
      | .inlineAsm _ => true
      | _ => c.functionType.isVarArg && !callsIntrinsic m c
  | _ => false

def refused (m : Module) (f : GFunction) : Bool :=
  f.blocks.any (fun b => b.2.insts.any (fun i => refusedOp m i.op) || checkTerm b.2.term ≠ .nothing)

/-- What only `check_function` holds against it: a call of `_setjmp`, and a
variadic call of an intrinsic. -/
def onlyReportedOp (m : Module) (name : GValue → String) : InstOp Nat Nat → Bool
  | .call c =>
      match c.calledOperand with
      | .inlineAsm _ => false
      | callee => if c.functionType.isVarArg then callsIntrinsic m c else name callee = "_setjmp"
  | _ => false

def onlyReported (m : Module) (name : GValue → String) (f : GFunction) : Bool :=
  f.blocks.any (fun b => b.2.insts.any (fun i => onlyReportedOp m name i.op))

theorem checkOp_eq (op : InstOp Nat Nat) :
    decide (checkOp name op ≠ .nothing) = (refusedOp m op || onlyReportedOp m name op) := by
  cases op with
  | call c =>
      cases hcallee : c.calledOperand with
      | inlineAsm a => simp [checkOp, refusedOp, onlyReportedOp, hcallee]
      | _ =>
          cases hva : c.functionType.isVarArg with
          | true => simp [checkOp, refusedOp, onlyReportedOp, hcallee, hva]
          | false => simp [checkOp, refusedOp, onlyReportedOp, hcallee, hva]
  | _ => rfl

theorem reports_eq : reports name f = (refused m f || onlyReported m name f) := by
  rw [Bool.eq_iff_iff]
  simp only [reports, refused, onlyReported, checkOp_eq (m := m), List.any_eq_true, Bool.or_eq_true]
  constructor
  · rintro ⟨b, hb, ⟨i, hi, hop | hop⟩ | hterm⟩
    · exact .inl ⟨b, hb, .inl ⟨i, hi, hop⟩⟩
    · exact .inr ⟨b, hb, i, hi, hop⟩
    · exact .inl ⟨b, hb, .inr hterm⟩
  · rintro (⟨b, hb, ⟨i, hi, hop⟩ | hterm⟩ | ⟨b, hb, i, hi, hop⟩)
    · exact ⟨b, hb, .inl ⟨i, hi, .inl hop⟩⟩
    · exact ⟨b, hb, .inr hterm⟩
    · exact ⟨b, hb, .inl ⟨i, hi, .inr hop⟩⟩

theorem instItems_pass_iff {op : InstOp Nat Nat} (hcalls : ∀ c, Module.callOf op = some c →
    callsIntrinsic m c = false → c.functionType.isVarArg = false → (callSiteHash H c).isSome) :
    (∀ i ∈ instItems m .null op, isSupported H i) ↔ refusedOp m op = false := by
  cases op with
  | call c =>
      have hops := operandItems_pass (H := H) (c.args.map Prod.snd)
      simp only [instItems, List.forall_mem_append, calleeItems_pass_iff]
      cases hcallee : c.calledOperand with
      | inlineAsm a => simp [refusedOp, hcallee]
      | _ =>
          have hhash := hcalls c rfl
          cases hva : c.functionType.isVarArg <;> cases hi : callsIntrinsic m c <;>
            simp_all [refusedOp]
  | landingPad | catchPad | cleanupPad => simp [instItems, refusedOp, isSupported]
  | _ =>
      refine iff_of_true (fun i hi => ?_) rfl
      exact operandItems_pass _ i hi

theorem termItems_pass_iff (t : Term Nat Nat Nat) :
    (∀ i ∈ termItems t, isSupported H i) ↔ checkTerm t = .nothing := by
  cases t with
  | indirectBr v ts => simp [termItems, checkTerm, isSupported]
  | invoke c n u => simp [termItems, checkTerm, isSupported]
  | resume | catchSwitch | catchReturn | cleanupReturn => simp [termItems, checkTerm, isSupported]
  | callBr c => simp [termItems, checkTerm, isSupported]
  | _ => exact iff_of_true (operandItems_pass _) rfl

theorem functionItems_pass_iff (hcalls : ∀ c ∈ Module.calls f, callsIntrinsic m c = false →
    c.functionType.isVarArg = false → (callSiteHash H c).isSome) : (∀ i ∈ functionItems m .null f, isSupported H i) ↔ refused m f = false := by
  simp only [functionItems, blockItems, List.forall_mem_flatMap, List.forall_mem_append, termItems_pass_iff, refused,
    List.any_eq_false, Bool.or_eq_true, not_or, decide_eq_true_eq, not_not, Bool.not_eq_true, ne_eq]
  refine forall₂_congr (fun b hb => and_congr_left' ?_)
  rw [and_iff_right (operandItems_pass _)]
  refine forall₂_congr (fun i hi => ?_)
  exact instItems_pass_iff (fun c hc => hcalls c (Lookups.mem_calls hb hi (Module.callOf_eq_some.mp hc)))

theorem rejects_iff (hdefined : f.isDeclaration = false) (hfixed : f.type.isVarArg = false)
    (hhash : (functionHash H f).isSome) (hcalls : ∀ c ∈ Module.calls f, callsIntrinsic m c = false →
      c.functionType.isVarArg = false → (callSiteHash H c).isSome) (L : Layout) (st : State) (g : Nat) :
    (∃ e, doFunction H L m .null st g f = .error e) ↔ refused m f = true := by
  obtain ⟨h, hh⟩ := Option.isSome_iff_exists.mp hhash
  have hscan := scan_ok_iff.trans (functionItems_pass_iff hcalls)
  cases hs : scanFunction H m .null f with
  | ok s =>
      have hok : doFunction H L m .null st g f = .ok (st.merge L g f h s) := by
        simp [doFunction, hdefined, hfixed, hh, hs]
      have hnot := hscan.mp ⟨s, hs⟩
      simp [hok, hnot]
  | error e =>
      have herror : doFunction H L m .null st g f = .error e := by
        simp [doFunction, hdefined, hfixed, hh, hs]
      have hyes : refused m f ≠ false := by
        intro hno
        obtain ⟨s, hok⟩ := hscan.mpr hno
        rw [hs] at hok
        cases hok
      simp [herror, hyes]

/-- The two passes agree on a function exactly if `check_function` reports
nothing that `Analyze` passes over, or `Analyze` refuses something else. -/
theorem agree_iff (H : HashOps) (L : Layout) (name : GValue → String) (m : Module) (st : State) (g : Nat)
    (f : GFunction) (hdefined : f.isDeclaration = false) (hfixed : f.type.isVarArg = false)
    (hhash : (functionHash H f).isSome) (hcalls : ∀ c ∈ Module.calls f, callsIntrinsic m c = false →
      c.functionType.isVarArg = false → (callSiteHash H c).isSome) :
    ((∃ e, doFunction H L m .null st g f = .error e) ↔ reports name f = true) ↔
      (onlyReported m name f = true → refused m f = true) := by
  rw [rejects_iff hdefined hfixed hhash hcalls, reports_eq (m := m), Bool.or_eq_true]
  constructor
  · intro hagree honly
    exact hagree.mpr (.inr honly)
  · intro honly
    constructor
    · exact Or.inl
    · rintro (hrefused | h)
      · exact hrefused
      · exact honly h

/-- A variadic call is refused by both. -/
theorem agree_variadic : onlyReported variadicModule (fun _ => "") (variadicCaller (variadicCall 2 [ptrTy])) = false ∧
    ((∃ e, doFunction HostTable.sumHash HostTable.plainLayout variadicModule .null (.new 0) 0
        (variadicCaller (variadicCall 2 [ptrTy])) = .error e) ↔
      reports (fun _ => "") (variadicCaller (variadicCall 2 [ptrTy])) = true) := by
  have honly : onlyReported variadicModule (fun _ => "") (variadicCaller (variadicCall 2 [ptrTy])) = false := by decide
  refine ⟨honly, (agree_iff _ _ _ _ _ _ _ rfl rfl rfl ?_).mpr (fun h => ?_)⟩
  · intro c hc _ _
    cases List.mem_singleton.mp hc
    rfl
  · rw [honly] at h
    cases h

def setjmpType : FunctionType := ⟨.integer 32, [ptrTy], false⟩

def setjmpCaller : GFunction :=
  ⟨⟨.void, [ptrTy], false⟩, 0, ⟨[]⟩, none,
    [(0, ⟨[], [⟨0, .call ⟨setjmpType, 0, ⟨[]⟩, .const (.global 1), [(ptrTy, .arg 0)]⟩⟩], 1, .ret none⟩)], [], none⟩

def setjmpModule : Module := ⟨[.function setjmpCaller, .function ⟨setjmpType, 0, ⟨[]⟩, none, [], [], none⟩], by decide⟩

def setjmpName : GValue → String
  | .const (.global 1) => "_setjmp"
  | _ => ""

/-- `check_function` reports the call of `_setjmp`, and `Analyze` accepts the
function. -/
theorem setjmp_accepted : setjmpModule.function? 0 = some setjmpCaller ∧
    (functionHash HostTable.sumHash setjmpCaller).isSome ∧
    (∀ c ∈ Module.calls setjmpCaller, (callSiteHash HostTable.sumHash c).isSome) ∧
    reports setjmpName setjmpCaller = true ∧
    ¬ ∃ e, doFunction HostTable.sumHash HostTable.plainLayout setjmpModule .null (.new 0) 0 setjmpCaller = .error e := by
  refine ⟨rfl, rfl, ?_, rfl, ?_⟩
  · intro c hc
    cases List.mem_singleton.mp hc
    rfl
  · rw [rejects_iff rfl rfl rfl]
    · decide
    · intro c hc _ _
      cases List.mem_singleton.mp hc
      rfl

end Agreement

section Declarations

def declaration : GlobalValue → GlobalValue
  | .function f => .function { f with blocks := [] }
  | v => v

def declarations (symbols : List GlobalValue) : Module where
  symbols := symbols.map declaration
  verified := by
    refine List.all_eq_true.mpr (fun v hv => ?_)
    obtain ⟨w, _, rfl⟩ := List.mem_map.mp hv
    cases w with
    | function f =>
        simp [declaration, Module.verifyFunction, Module.ids, Module.calls, Module.operands, Function.isDeclaration]
    | _ => rfl

def AcceptedIn (H : HashOps) (symbols : List GlobalValue) (g : Nat) : Prop :=
  ∃ f, symbols[g]? = some (.function f) ∧ f.isDeclaration = false ∧ f.type.isVarArg = false ∧
    (functionHash H f).isSome ∧ ∃ scan, scanFunction H (declarations symbols) .null f = .ok scan

def isIntrinsicSymbol : Option GlobalValue → Bool
  | some (.function f) => f.isIntrinsic
  | _ => false

theorem isIntrinsicAt_eq (m : Module) (g : Nat) : isIntrinsicAt m g = isIntrinsicSymbol m.symbols[g]? := by
  unfold isIntrinsicAt Module.function?
  cases m.symbols[g]? with
  | none => rfl
  | some v => cases v <;> rfl

theorem isIntrinsicAt_declarations (symbols : List GlobalValue) (g : Nat) :
    isIntrinsicAt (declarations symbols) g = isIntrinsicSymbol symbols[g]? := by
  rw [isIntrinsicAt_eq, declarations, List.getElem?_map]
  cases symbols[g]? with
  | none => rfl
  | some v => cases v <;> rfl

theorem acceptedIn_iff {H : HashOps} {m : Module} {g : Nat} : AcceptedIn H m.symbols g ↔ Accepted H m .null g := by
  have hscan : ∀ f, scanFunction H (declarations m.symbols) .null f = scanFunction H m .null f := by
    intro f
    unfold scanFunction
    rw [functionItems_congr (fun k => (isIntrinsicAt_declarations m.symbols k).trans (isIntrinsicAt_eq m k).symm)]
  constructor
  · rintro ⟨f, hf, hdefined, hfixed, hhash, scan, hs⟩
    obtain ⟨h, hh⟩ := Option.isSome_iff_exists.mp hhash
    exact ⟨f, h, scan, Module.function?_eq_some.mpr hf, by simp [BwList.null], hdefined, hfixed, hh, (hscan f).symm.trans hs⟩
  · rintro ⟨f, h, scan, hf, _, hdefined, hfixed, hh, hs⟩
    exact ⟨f, Module.function?_eq_some.mp hf, hdefined, hfixed, by rw [hh]; rfl, scan, (hscan f).trans hs⟩

end Declarations

section Changes

variable {H : HashOps} {names : Nat → GValue → String} {m : Module} {bw : BwList}

abbrev Hashed (H : HashOps) : Outliners → Prop := Made (fun c h => outlinerHash H c = some h)

theorem checkOp_call_iff (name : GValue → String) {c : GCall} : checkOp name (.call c) = .toOutline ↔
    c.functionType.isVarArg = true ∧ ∀ a, c.calledOperand ≠ .inlineAsm a := by
  cases hcallee : c.calledOperand with
  | inlineAsm a => simp [checkOp, hcallee]
  | _ =>
      cases hva : c.functionType.isVarArg with
      | true => simp [checkOp, hcallee, hva]
      | false =>
          simp only [checkOp, hcallee, hva, Bool.false_eq_true, if_false, false_and, iff_false]
          split <;> simp

theorem outlined?_eq_some (name : GValue → String) {inst : GInst} {c : GCall} {h : HashCode} :
    outlined? H name inst = some (c, h) ↔ inst.op = .call c ∧ outlinerHash H c = some h ∧
      c.functionType.isVarArg = true ∧ ∀ a, c.calledOperand ≠ .inlineAsm a := by
  unfold outlined?
  cases inst.op with
  | call d =>
      rw [← checkOp_call_iff name]
      by_cases hcheck : checkOp name (.call d) = .toOutline
      · simp only [hcheck, if_true, Option.map_eq_some_iff, Prod.mk.injEq, InstOp.call.injEq]
        constructor
        · rintro ⟨h', hh', rfl, rfl⟩
          exact ⟨rfl, hh', hcheck⟩
        · rintro ⟨rfl, hh, _⟩
          exact ⟨h, hh, rfl, rfl⟩
      · simp only [hcheck, if_false, reduceCtorEq, InstOp.call.injEq, false_iff]
        rintro ⟨rfl, _, hc⟩
        exact hcheck hc
  | _ => simp

variable (H names m bw) in
theorem outliners_hashed : Hashed H (outliners H names m bw) := by
  obtain ⟨hhashes, hcalls⟩ := (outline_spec H names m bw).1
  refine ⟨hhashes, fun e he => ?_⟩
  obtain ⟨c, ⟨_, _, _, _, hsite⟩, hc⟩ := hcalls e he
  exact ⟨c, ((outlined?_eq_some _).mp hsite.outlined).2.1, hc⟩

variable (H names bw) in
theorem outline_symbol {g : Nat} {v : GlobalValue} (hv : m.symbols[g]? = some v) :
    ∃ v', (outline H names m bw)[g]? = some v' ∧ Changed H names m bw (outliners H names m bw) (v, g) v' := by
  have hzip : m.symbols.zipIdx[g]? = some (v, g) := by
    rw [List.getElem?_zipIdx, hv]
    simp
  obtain ⟨v', hv', hchanged⟩ := forall₂_getElem? (outline_spec H names m bw).2 hzip
  exact ⟨v', outline_below hv', hchanged⟩

variable (H names bw) in
theorem outline_function {g : Nat} {f : GFunction} (hf : m.symbols[g]? = some (.function f)) :
    ∃ blocks, (outline H names m bw)[g]? = some (.function { f with blocks }) ∧
      BodyChanged H names m bw (outliners H names m bw) g f blocks := by
  obtain ⟨_, hv', blocks, rfl, hbody⟩ := outline_symbol H names bw hf
  exact ⟨blocks, hv', hbody⟩

/-- The pass makes no intrinsics. -/
theorem isIntrinsicAt_outline (g : Nat) : isIntrinsicAt (declarations (outline H names m bw)) g = isIntrinsicAt m g := by
  rw [isIntrinsicAt_declarations, isIntrinsicAt_eq]
  cases hv : m.symbols[g]? with
  | some v =>
      obtain ⟨v', hv', hchanged⟩ := outline_symbol H names bw hv
      rw [hv']
      cases v with
      | function f =>
          obtain ⟨blocks, rfl, _⟩ := hchanged
          rfl
      | _ =>
          cases hchanged
          rfl
  | none =>
      obtain ⟨j, rfl⟩ := Nat.exists_eq_add_of_le (List.getElem?_eq_none_iff.mp hv)
      rw [outline_above]
      cases hj : (outliners H names m bw)[j]? with
      | none => rfl
      | some e =>
          obtain ⟨c, _, hc⟩ := (outline_spec H names m bw).1.calls e (List.mem_of_getElem? hj)
          rw [Option.map_some, hc]
          rfl

theorem eq_of_forall₂ {α : Type} {R : α → α → Prop} {l l' : List α} (h : List.Forall₂ R l l')
    (heq : ∀ a ∈ l, ∀ b, R a b → b = a) : l' = l := by
  induction h with
  | nil => rfl
  | cons hab _ ih =>
      rw [heq _ List.mem_cons_self _ hab, ih (fun c hc => heq c (List.mem_cons_of_mem _ hc))]

variable (H) in
/-- A function in which nothing is to be outlined stays as it is. -/
theorem outline_unchanged {g : Nat} {f : GFunction} (hf : m.symbols[g]? = some (.function f))
    (hnone : outlines names bw g f = true → ∀ c ∈ Module.calls f, c.functionType.isVarArg = false) :
    (outline H names m bw)[g]? = some (.function f) := by
  obtain ⟨blocks, hget, hbody⟩ := outline_function H names bw hf
  suffices hblocks : blocks = f.blocks by
    rw [hget, hblocks]
  unfold BodyChanged at hbody
  by_cases hout : outlines names bw g f = true
  · rw [if_pos hout] at hbody
    refine eq_of_forall₂ hbody ?_
    rintro b hb _ ⟨insts, rfl, hinsts⟩
    suffices hsame : insts = b.2.insts by
      rw [hsame]
    refine eq_of_forall₂ hinsts (fun inst hi inst' hrepl => ?_)
    unfold Replaced at hrepl
    split at hrepl
    next c h hsite =>
      obtain ⟨hop, _, hva, _⟩ := (outlined?_eq_some _).mp hsite
      rw [hnone hout c (Lookups.mem_calls hb hi hop)] at hva
      cases hva
    next => exact hrepl
  · rwa [if_neg hout] at hbody

theorem outlinerCall_pass {s : Outliners} {j k : Nat} {h : HashCode} {f : GFunction} (hs : Hashed H s)
    (hj : s[j]? = some (h, f)) (m : Module) (c : GCall) :
    ∀ i ∈ instItems m .null (.call (outlinerCall k f c)), isSupported H i := by
  obtain ⟨c₀, hc₀, hf⟩ := hs.calls _ (List.mem_of_getElem? hj)
  have hf : f = outlinerFunction c₀ := hf
  have hhash : (signatureHash H (outlinerType c₀) ⟨[]⟩).isSome := by
    have htype : functionTypeHash H (outlinerType c₀) = some h := hc₀
    rw [signatureHash, htype]
    rfl
  subst hf
  intro i hi
  rcases List.mem_append.mp hi with hi | hi
  · have hasm : ∀ a, (outlinerCall k (outlinerFunction c₀) c).calledOperand ≠ .inlineAsm a := by
      intro a ha
      cases ha
    exact (calleeItems_pass_iff (H := H)).mpr ⟨hasm, fun _ => ⟨rfl, hhash⟩⟩ i hi
  · exact operandItems_pass _ i hi

variable {m' : Module} {name : GValue → String} {s : Outliners}

theorem replaced_pass (hs : Hashed H s) (hsame : ∀ k, isIntrinsicAt m k = isIntrinsicAt m' k) {inst inst' : GInst}
    (hrepl : Replaced H m name s inst inst')
    (hold : outlined? H name inst = none → ∀ i ∈ instItems m .null inst.op, isSupported H i) :
    ∀ i ∈ instItems m' .null inst'.op, isSupported H i := by
  unfold Replaced at hrepl
  split at hrepl
  next c h hsite =>
    obtain ⟨j, f, hj, rfl⟩ := hrepl
    exact outlinerCall_pass hs hj m' c
  next hsite =>
    rw [hrepl, ← instItems_congr hsame]
    exact hold hsite

theorem blockChanged_pass (hs : Hashed H s) (hsame : ∀ k, isIntrinsicAt m k = isIntrinsicAt m' k)
    {b b' : Nat × GBlock} (hb : BlockChanged H m name s b b') (hterm : checkTerm b.2.term = .nothing)
    (hold : ∀ inst ∈ b.2.insts, outlined? H name inst = none → ∀ i ∈ instItems m .null inst.op, isSupported H i) :
    ∀ i ∈ blockItems m' .null b'.2, isSupported H i := by
  obtain ⟨insts, rfl, hinsts⟩ := hb
  unfold blockItems
  rw [List.forall_mem_append, List.forall_mem_append, List.forall_mem_flatMap]
  refine ⟨⟨operandItems_pass _, fun inst' hi' => ?_⟩, (termItems_pass_iff _).mpr hterm⟩
  obtain ⟨inst, hi, hrepl⟩ := forall₂_mem_right hinsts hi'
  exact replaced_pass hs hsame hrepl (hold inst hi)

variable {g : Nat} {f : GFunction}

theorem checkTerm_of_not_neg {t : Term Nat Nat Nat} (h : checkTerm t ≠ .toNegOutline) : checkTerm t = .nothing := by
  cases t <;> first | rfl | exact absurd rfl h

theorem not_neg_of_outlines (hout : outlines names bw g f = true) {b : Nat × GBlock} (hb : b ∈ f.blocks) :
    (∀ inst ∈ b.2.insts, checkOp (names g) inst.op ≠ .toNegOutline) ∧ checkTerm b.2.term = .nothing := by
  simp only [outlines, Bool.and_eq_true, Bool.not_eq_true', hasNegOutline, List.any_eq_false] at hout
  have hblock := hout.2 b hb
  simp only [Bool.or_eq_true, not_or, decide_eq_true_eq, List.any_eq_true, not_exists, not_and] at hblock
  exact ⟨hblock.1, checkTerm_of_not_neg hblock.2⟩

/-- Whatever `Analyze` has against a function goes with the variadic calls. -/
theorem acceptedIn_of_outlines (hf : m.symbols[g]? = some (.function f)) (hdefined : f.isDeclaration = false)
    (hhash : (functionHash H f).isSome) (hout : outlines names .null g f = true)
    (hold : ∀ b ∈ f.blocks, ∀ inst ∈ b.2.insts, outlined? H (names g) inst = none →
      ∀ i ∈ instItems m .null inst.op, isSupported H i) : AcceptedIn H (outline H names m .null) g := by
  obtain ⟨blocks, hget, hbody⟩ := outline_function H names .null hf
  have hsame : ∀ k, isIntrinsicAt m k = isIntrinsicAt (declarations (outline H names m .null)) k :=
    fun k => (isIntrinsicAt_outline k).symm
  have hfixed : f.type.isVarArg = false := by
    simp only [outlines, Bool.and_eq_true, Bool.not_eq_true'] at hout
    exact hout.1.2
  unfold BodyChanged at hbody
  rw [if_pos hout] at hbody
  have hitems : ∀ i ∈ functionItems (declarations (outline H names m .null)) .null { f with blocks }, isSupported H i := by
    refine List.forall_mem_flatMap.mpr (fun b' hb' => ?_)
    obtain ⟨b, hb, hchanged⟩ := forall₂_mem_right hbody hb'
    exact blockChanged_pass (outliners_hashed H names m .null) hsame hchanged (not_neg_of_outlines hout hb).2 (hold b hb)
  have hblocks : blocks.isEmpty = false := by
    have hlen := hbody.length_eq
    cases blocks with
    | nil =>
        rw [List.length_nil, List.length_eq_zero_iff] at hlen
        simp [Function.isDeclaration, hlen] at hdefined
    | cons b bs => rfl
  exact ⟨_, hget, hblocks, hfixed, hhash, scan_ok_iff.mpr hitems⟩

def hashableCall (H : HashOps) (c : GCall) : Prop :=
  (typeHash H c.functionType.ret).isSome ∧ ∀ t ∈ (operands c).map Prod.fst, (typeHash H t).isSome

theorem functionTypeHash_isSome {ty : FunctionType} (hret : (typeHash H ty.ret).isSome)
    (hparams : ∀ t ∈ ty.params, (typeHash H t).isSome) : (functionTypeHash H ty).isSome := by
  rw [functionTypeHash, HashSpec.typeHash_isSome, HashSpec.isHashable, ← HashSpec.typeHash_isSome (H := H), hret,
    ← HashSpec.mapM_isSome (H := H), Bool.true_and]
  obtain ⟨hs, hhs⟩ := mapM_some_of_mem (f := typeHash H) (fun t ht => Option.isSome_iff_exists.mp (hparams t ht))
  rw [hhs]
  rfl

theorem outlinerHash_isSome {c : GCall} (hc : hashableCall H c) : (outlinerHash H c).isSome :=
  functionTypeHash_isSome hc.1 hc.2

theorem callSiteHash_isSome {c : GCall} (hc : hashableCall H c) (htypes : c.args.map Prod.fst = c.functionType.params) :
    (callSiteHash H c).isSome := by
  have htype := functionTypeHash_isSome hc.1 (fun t ht => hc.2 t (by
    rw [operands, List.map_append, htypes]
    exact List.mem_append_left _ ht))
  obtain ⟨h, hh⟩ := Option.isSome_iff_exists.mp htype
  rw [callSiteHash, signatureHash, hh]
  rfl

/-- What is not outlined, though nothing speaks against it, passes. -/
theorem instItems_pass_of_hashable (hf : m.function? g = some f) {b : Nat × GBlock} (hb : b ∈ f.blocks) {inst : GInst}
    (hi : inst ∈ b.2.insts) (hneg : checkOp (names g) inst.op ≠ .toNegOutline)
    (hcalls : ∀ c ∈ Module.calls f, callsIntrinsic m c = false → hashableCall H c)
    (hnone : outlined? H (names g) inst = none) : ∀ i ∈ instItems m .null inst.op, isSupported H i := by
  rw [instItems_pass_iff]
  · by_contra hrefused
    rw [Bool.not_eq_false] at hrefused
    cases hop : inst.op with
    | call c =>
        rw [hop] at hrefused hneg
        have hasm : ∀ a, c.calledOperand ≠ .inlineAsm a := by
          intro a ha
          simp [checkOp, ha] at hneg
        have hvariadic : c.functionType.isVarArg = true ∧ callsIntrinsic m c = false := by
          cases hcallee : c.calledOperand <;> simp_all [refusedOp]
        obtain ⟨h, hh⟩ := Option.isSome_iff_exists.mp
          (outlinerHash_isSome (hcalls c (Lookups.mem_calls hb hi hop) hvariadic.2))
        have hsome := (outlined?_eq_some (names g)).mpr ⟨hop, hh, hvariadic.1, hasm⟩
        rw [hnone] at hsome
        cases hsome
    | _ =>
        rw [hop] at hrefused hneg
        first
        | exact absurd rfl hneg
        | cases hrefused
  · intro c hc hplain hva
    have hmem := Lookups.mem_calls hb hi (Module.callOf_eq_some.mp hc)
    exact callSiteHash_isSome (hcalls c hmem hplain) (Module.args_types hf hmem hva)

end Changes

/-- Outlining makes functions acceptable and none unacceptable, and leaves alone
what it cannot help or need not. -/
theorem outline_offloads (H : HashOps) (names : Nat → GValue → String) (m : Module) (g : Nat) (f : GFunction)
    (hf : m.function? g = some f) :
    (f.isDeclaration = false → f.type.isVarArg = false → hasNegOutline (names g) f = false →
      (functionHash H f).isSome → (∀ c ∈ Module.calls f, callsIntrinsic m c = false → hashableCall H c) →
      AcceptedIn H (outline H names m .null) g) ∧
    (Accepted H m .null g → AcceptedIn H (outline H names m .null) g) ∧
    (f.type.isVarArg = true ∨ hasNegOutline (names g) f = true ∨
        (∀ c ∈ Module.calls f, c.functionType.isVarArg = false) →
      (outline H names m .null)[g]? = some (.function f)) := by
  have hsymbol := Module.function?_eq_some.mp hf
  have hout : outlines names .null g f = true ↔ f.type.isVarArg = false ∧ hasNegOutline (names g) f = false := by
    simp [outlines, BwList.null]
  refine ⟨?_, ?_, ?_⟩
  · intro hdefined hfixed hneg hhash hcalls
    have hyes := hout.mpr ⟨hfixed, hneg⟩
    refine acceptedIn_of_outlines hsymbol hdefined hhash hyes ?_
    intro b hb inst hi
    exact instItems_pass_of_hashable hf hb hi ((not_neg_of_outlines hyes hb).1 inst hi) hcalls
  · rintro ⟨f', h, scan, hf', _, hdefined, hfixed, hh, hscan⟩
    rw [hf] at hf'
    cases hf'
    have hpass := scan_ok_iff.mp ⟨scan, hscan⟩
    have hhash : (functionHash H f).isSome := by
      rw [hh]
      rfl
    by_cases hyes : outlines names .null g f = true
    · refine acceptedIn_of_outlines hsymbol hdefined hhash hyes ?_
      intro b hb inst hi _ i hmem
      refine hpass i (List.mem_flatMap.mpr ⟨b, hb, ?_⟩)
      exact List.mem_append_left _ (List.mem_append_right _ (List.mem_flatMap.mpr ⟨inst, hi, hmem⟩))
    · have hsame := outline_unchanged H hsymbol (fun h => absurd h hyes)
      refine ⟨f, hsame, hdefined, hfixed, hhash, scan, ?_⟩
      unfold scanFunction
      rw [functionItems_congr isIntrinsicAt_outline]
      exact hscan
  · intro hleave
    refine outline_unchanged H hsymbol (fun hyes c hc => ?_)
    obtain ⟨hfixed, hneg⟩ := hout.mp hyes
    rcases hleave with hva | hneg' | hcalls
    · rw [hfixed] at hva
      cases hva
    · rw [hneg] at hneg'
      cases hneg'
    · exact hcalls c hc

/-- The first function of the module is accepted only after the pass. -/
theorem variadicCaller_offloads :
    ¬ Accepted HostTable.sumHash variadicModule .null 0 ∧
      AcceptedIn HostTable.sumHash (outline HostTable.sumHash (fun _ _ => "") variadicModule .null) 0 := by
  have hf : variadicModule.function? 0 = some (variadicCaller (variadicCall 2 [ptrTy])) := rfl
  constructor
  · rintro ⟨f, h, scan, hf', _, _, _, _, hscan⟩
    rw [hf] at hf'
    cases hf'
    have hpass := scan_ok_iff.mp ⟨scan, hscan⟩ (.callback (variadicCall 2 [ptrTy])) (by simp [functionItems, blockItems,
      variadicCaller, instItems, calleeItems, variadicCall, variadicModule, Module.function?, variadicDeclaration,
      BwList.null, Function.isIntrinsic])
    cases hpass
  · refine (outline_offloads HostTable.sumHash (fun _ _ => "") variadicModule 0 _ hf).1 rfl rfl rfl rfl ?_
    intro c hc _
    cases List.mem_singleton.mp hc
    refine ⟨rfl, ?_⟩
    intro t ht
    simp only [operands, variadicCall, List.map_cons, List.map_nil, List.cons_append, List.nil_append,
      List.mem_cons, List.not_mem_nil, or_false] at ht
    rcases ht with rfl | rfl | rfl
    · rfl
    · rfl
    · rfl

def longDoubleCaller : GFunction :=
  ⟨⟨.void, [], false⟩, 0, ⟨[]⟩, none,
    [(0, ⟨[], [⟨0, .call ⟨⟨.x86Fp80, [], false⟩, 0, ⟨[]⟩, .const (.global 1), []⟩⟩], 1, .ret none⟩)], [], none⟩

def longDoubleModule : Module :=
  ⟨[.function longDoubleCaller, .function ⟨⟨.x86Fp80, [], false⟩, 0, ⟨[]⟩, none, [], [], none⟩], by decide⟩

/-- Hashable operands are not enough, the result of a call counts too. -/
theorem longDouble_not_offloaded : longDoubleModule.function? 0 = some longDoubleCaller ∧
    hasNegOutline (fun _ => "") longDoubleCaller = false ∧
    (functionHash HostTable.sumHash longDoubleCaller).isSome ∧
    (∀ c ∈ Module.calls longDoubleCaller, ∀ t ∈ (operands c).map Prod.fst, (typeHash HostTable.sumHash t).isSome) ∧
    ¬ AcceptedIn HostTable.sumHash (outline HostTable.sumHash (fun _ _ => "") longDoubleModule .null) 0 := by
  refine ⟨rfl, rfl, rfl, ?_, ?_⟩
  · intro c hc t ht
    cases List.mem_singleton.mp hc
    cases List.mem_singleton.mp ht
    rfl
  · rintro ⟨f, hf, _, _, _, scan, hscan⟩
    cases hf
    cases hscan

end Comulator.Offloadable
