import Comulator.FirstSeen
import Comulator.Offloadable
import Comulator.SymtblSpec

namespace Comulator.Numbering

open Types Ir TypeHash Symtbl Analyze AnalyzeSpec FirstSeen Offloadable

structure Verdict where
  g : Nat
  func : GFunction
  hash : HashCode
  scan : Scan

/-- `Analyze` on one function, among symbols that need not be those of a verified
module. -/
def judge (H : HashOps) (symbols : List GlobalValue) (bw : BwList) (g : Nat) : Option Verdict :=
  match symbols[g]? with
  | some (.function f) =>
      if (bw.funcs g).bind FuncBw.analyze = some false || f.isDeclaration || f.type.isVarArg then none
      else match functionHash H f, scanFunction H (declarations symbols) bw f with
        | some h, .ok scan => some ⟨g, f, h, scan⟩
        | _, _ => none
  | _ => none

def verdicts (H : HashOps) (symbols : List GlobalValue) (bw : BwList) : List Verdict :=
  (List.range symbols.length).filterMap (judge H symbols bw)

def callings (vs : List Verdict) : List (HashCode × StubInfo) :=
  firsts Prod.fst (vs.map (fun v => (v.hash, callingStub v.func 0)))

def callbacks (vs : List Verdict) : List (HashCode × StubInfo) :=
  firsts Prod.fst (vs.flatMap (fun v => v.scan.cbStubs.entries))

def grefs (L : Layout) (vs : List Verdict) : List Nat := firsts id (vs.flatMap (fun v => L.setOrder v.scan.extRefs))

def numberStub (p : (HashCode × StubInfo) × Nat) : StubInfo := { p.1.2 with uid := p.2 }

def numberGref (p : Nat × Nat) : GrefInfo := ⟨p.2⟩

def funcInfo (stubs : List (HashCode × StubInfo)) (p : Verdict × Nat) : FuncInfo :=
  ⟨p.2, ((seen Prod.fst stubs p.1.hash).map numberStub).getD (callingStub p.1.func 0), p.1.scan.extRefs,
    p.1.scan.cbStubArgs⟩

structure Represents (L : Layout) (uid : Nat) (vs : List Verdict) (st : State) : Prop where
  uid : st.symtbl.uid = uid
  calling : Holds Prod.fst numberStub hashBefore st.symtbl.callingStubs st.callingCounter (callings vs)
  callback : Holds Prod.fst numberStub hashBefore st.symtbl.callbackStubs st.callbackCounter (callbacks vs)
  function : Holds Verdict.g (funcInfo (callings vs)) L.before st.symtbl.functbl st.funcCounter vs
  gref : Holds id numberGref L.before st.symtbl.greftbl st.grefCounter (grefs L vs)

theorem new_represents (L : Layout) (uid : Nat) : Represents L uid [] (.new uid) :=
  ⟨rfl, holds_empty, holds_empty, holds_empty, holds_empty⟩

section Kinds

variable {bw : BwList} {m m' : Module}

def kind : Option GlobalValue → Option Bool
  | some (.function f) => some f.isIntrinsic
  | _ => none

theorem function?_kind (m : Module) (g : Nat) : (m.function? g).map Function.isIntrinsic = kind m.symbols[g]? := by
  unfold Module.function?
  cases m.symbols[g]? with
  | none => rfl
  | some v => cases v <;> rfl

theorem declarations_kind (symbols : List GlobalValue) (g : Nat) :
    ((declarations symbols).function? g).map Function.isIntrinsic = kind symbols[g]? := by
  rw [function?_kind, declarations, List.getElem?_map]
  cases symbols[g]? with
  | none => rfl
  | some v => cases v <;> rfl

/-- Nothing else of the other symbols is looked at. -/
theorem functionItems_eq (h : ∀ g, (m.function? g).map Function.isIntrinsic = (m'.function? g).map Function.isIntrinsic)
    (f : GFunction) : functionItems m bw f = functionItems m' bw f := by
  have hcallee : ∀ c, calleeItems m bw c = calleeItems m' bw c := by
    intro c
    unfold calleeItems
    cases c.calledOperand with
    | const d =>
        cases d with
        | global g =>
            have hg := h g
            cases hm : m.function? g <;> cases hm' : m'.function? g <;> simp_all
        | _ => rfl
    | _ => rfl
  have hinst : ∀ op, instItems m bw op = instItems m' bw op := by
    intro op
    cases op with
    | call c => rw [instItems, instItems, hcallee]
    | _ => rfl
  simp only [functionItems, blockItems, hinst]

end Kinds

section Judge

variable {H : HashOps} {m : Module} {bw : BwList} {g : Nat} {v : Verdict}

theorem judge_eq_some {symbols : List GlobalValue} : judge H symbols bw g = some v ↔
    v.g = g ∧ symbols[g]? = some (.function v.func) ∧ (bw.funcs g).bind FuncBw.analyze ≠ some false ∧
      v.func.isDeclaration = false ∧ v.func.type.isVarArg = false ∧ functionHash H v.func = some v.hash ∧
        scanFunction H (declarations symbols) bw v.func = .ok v.scan := by
  unfold judge
  cases hs : symbols[g]? with
  | none => simp
  | some w =>
      cases w with
      | function f =>
          simp only [Option.some.injEq, GlobalValue.function.injEq]
          constructor
          · intro h
            split at h
            next => cases h
            next hpass =>
              split at h
              next k scan hh hscan =>
                cases h
                simp only [Bool.or_eq_true, decide_eq_true_eq, not_or, Bool.not_eq_true] at hpass
                exact ⟨rfl, rfl, hpass.1.1, hpass.1.2, hpass.2, hh, hscan⟩
              next => cases h
          · rintro ⟨rfl, rfl, hlisted, hdefined, hfixed, hh, hscan⟩
            simp [hlisted, hdefined, hfixed, hh, hscan]
      | _ => simp

theorem scanFunction_declarations (f : GFunction) :
    scanFunction H (declarations m.symbols) bw f = scanFunction H m bw f := by
  unfold scanFunction
  rw [functionItems_eq (fun k => (declarations_kind m.symbols k).trans (function?_kind m k).symm)]

theorem judge_iff_accepted : (judge H m.symbols bw g).isSome ↔ Accepted H m bw g := by
  rw [Option.isSome_iff_exists]
  constructor
  · rintro ⟨v, hv⟩
    obtain ⟨_, hf, hlisted, hdefined, hfixed, hh, hscan⟩ := judge_eq_some.mp hv
    rw [scanFunction_declarations] at hscan
    exact ⟨v.func, v.hash, v.scan, Module.function?_eq_some.mpr hf, hlisted, hdefined, hfixed, hh, hscan⟩
  · rintro ⟨f, h, scan, hf, hlisted, hdefined, hfixed, hh, hscan⟩
    refine ⟨⟨g, f, h, scan⟩, judge_eq_some.mpr ⟨rfl, Module.function?_eq_some.mp hf, hlisted, hdefined, hfixed, hh, ?_⟩⟩
    rw [scanFunction_declarations]
    exact hscan

end Judge

section Merge

variable {L : Layout} {uid : Nat} {st : State}

theorem addCalling_holds {acc : List (HashCode × StubInfo)}
    (hst : Holds Prod.fst numberStub hashBefore st.symtbl.callingStubs st.callingCounter acc) (h : HashCode) (f : GFunction) :
    ∃ stubs n, st.addCalling h f =
        { st with symtbl := { st.symtbl with callingStubs := stubs }, callingCounter := n } ∧
      Holds Prod.fst numberStub hashBefore stubs n (add Prod.fst acc (h, callingStub f 0)) := by
  unfold State.addCalling
  split
  next hnew => exact ⟨_, _, rfl, hst.tryEmplace (a := (h, callingStub f 0)) hnew⟩
  next hold =>
    refine ⟨_, _, rfl, ?_⟩
    rw [add_of_mem (not_not.mp (fun hnot => hold (hst.find?_eq_none.mpr hnot)))]
    exact hst

theorem addCallback_holds {acc : List (HashCode × StubInfo)}
    (hst : Holds Prod.fst numberStub hashBefore st.symtbl.callbackStubs st.callbackCounter acc) (e : HashCode × StubInfo) :
    ∃ stubs n, st.addCallback e =
        { st with symtbl := { st.symtbl with callbackStubs := stubs }, callbackCounter := n } ∧
      Holds Prod.fst numberStub hashBefore stubs n (add Prod.fst acc e) := by
  unfold State.addCallback
  split
  next hnew => exact ⟨_, _, rfl, hst.tryEmplace hnew⟩
  next hold =>
    refine ⟨_, _, rfl, ?_⟩
    rw [add_of_mem (not_not.mp (fun hnot => hold (hst.find?_eq_none.mpr hnot)))]
    exact hst

variable (st) in
theorem foldl_addCallback_holds (l : List (HashCode × StubInfo)) {acc : List (HashCode × StubInfo)}
    (hst : Holds Prod.fst numberStub hashBefore st.symtbl.callbackStubs st.callbackCounter acc) :
    ∃ stubs n, l.foldl State.addCallback st =
        { st with symtbl := { st.symtbl with callbackStubs := stubs }, callbackCounter := n } ∧
      Holds Prod.fst numberStub hashBefore stubs n (l.foldl (add Prod.fst) acc) := by
  induction l generalizing st acc with
  | nil => exact ⟨_, _, rfl, hst⟩
  | cons e l ih =>
      obtain ⟨stubs, n, heq, hstep⟩ := addCallback_holds hst e
      rw [List.foldl_cons, heq, List.foldl_cons]
      exact ih _ hstep

theorem addGref_holds {acc : List Nat} (hst : Holds id numberGref L.before st.symtbl.greftbl st.grefCounter acc) (r : Nat) :
    ∃ refs n, st.addGref L r = { st with symtbl := { st.symtbl with greftbl := refs }, grefCounter := n } ∧
      Holds id numberGref L.before refs n (add id acc r) := by
  unfold State.addGref
  split
  next hnew => exact ⟨_, _, rfl, hst.tryEmplace (a := r) hnew⟩
  next hold =>
    refine ⟨_, _, rfl, ?_⟩
    rw [add_of_mem (not_not.mp (fun hnot => hold (hst.find?_eq_none.mpr hnot)))]
    exact hst

variable (st) in
theorem foldl_addGref_holds (l : List Nat) {acc : List Nat}
    (hst : Holds id numberGref L.before st.symtbl.greftbl st.grefCounter acc) :
    ∃ refs n, l.foldl (State.addGref L) st =
        { st with symtbl := { st.symtbl with greftbl := refs }, grefCounter := n } ∧
      Holds id numberGref L.before refs n (l.foldl (add id) acc) := by
  induction l generalizing st acc with
  | nil => exact ⟨_, _, rfl, hst⟩
  | cons r l ih =>
      obtain ⟨refs, n, heq, hstep⟩ := addGref_holds (L := L) hst r
      rw [List.foldl_cons, heq, List.foldl_cons]
      exact ih _ hstep

theorem callings_concat (vs : List Verdict) (v : Verdict) :
    callings (vs ++ [v]) = add Prod.fst (callings vs) (v.hash, callingStub v.func 0) := by
  rw [callings, List.map_append]
  exact firsts_concat _ _

theorem callbacks_concat (vs : List Verdict) (v : Verdict) :
    callbacks (vs ++ [v]) = v.scan.cbStubs.entries.foldl (add Prod.fst) (callbacks vs) := by
  rw [callbacks, List.flatMap_append, List.flatMap_singleton, firsts, List.foldl_append]
  rfl

theorem grefs_concat (vs : List Verdict) (v : Verdict) :
    grefs L (vs ++ [v]) = (L.setOrder v.scan.extRefs).foldl (add id) (grefs L vs) := by
  rw [grefs, List.flatMap_append, List.flatMap_singleton, firsts, List.foldl_append]
  rfl

theorem seen_ne_none_of_mem {vs : List Verdict} {v : Verdict} (hv : v ∈ vs) :
    seen Prod.fst (callings vs) v.hash ≠ none := by
  rw [ne_eq, seen_eq_none, not_not, callings, firsts, mem_foldl_add]
  refine .inr ?_
  rw [List.map_map]
  exact List.mem_map_of_mem (f := Prod.fst ∘ fun v : Verdict => (v.hash, callingStub v.func 0)) hv

theorem merge_represents {vs : List Verdict} (hst : Represents L uid vs st) {v : Verdict} (hv : v.g ∉ vs.map Verdict.g) :
    Represents L uid (vs ++ [v]) (st.merge L v.g v.func v.hash v.scan) := by
  obtain ⟨stubs, n, hadd, hcalling⟩ := addCalling_holds hst.calling v.hash v.func
  rw [← callings_concat] at hcalling
  obtain ⟨cbStubs, n', hfold, hcallback⟩ := foldl_addCallback_holds
    { st with symtbl := { st.symtbl with callingStubs := stubs }, callingCounter := n } v.scan.cbStubs.entries
    hst.callback
  rw [← callbacks_concat] at hcallback
  -- the stubs of the functions before keep their numbers
  have hfunction : Holds Verdict.g (funcInfo (callings (vs ++ [v]))) L.before st.symtbl.functbl st.funcCounter vs := by
    refine hst.function.congr (fun u hu i => ?_)
    obtain ⟨p, hp⟩ := Option.ne_none_iff_exists'.mp (seen_ne_none_of_mem hu)
    have hle : callings vs <+: callings (vs ++ [v]) := by
      rw [callings_concat]
      exact isPrefix_foldl_add _ [_] _
    rw [funcInfo, funcInfo, hp, seen_mono hle hp]
  obtain ⟨p, hp⟩ := Option.ne_none_iff_exists'.mp (seen_ne_none_of_mem (List.mem_append_right vs (List.mem_singleton_self v)))
  have hstub : stubs.find? v.hash = some (numberStub p) := by
    rw [hcalling.find?, hp]
    rfl
  have hinfo : funcInfo (callings (vs ++ [v])) (v, st.funcCounter) =
      ⟨st.funcCounter, numberStub p, v.scan.extRefs, v.scan.cbStubArgs⟩ := by
    rw [funcInfo, hp]
    rfl
  have hnew : st.symtbl.functbl.find? v.g = none := hfunction.find?_eq_none.mpr hv
  have hadded := hfunction.tryEmplace hnew
  rw [hinfo, add_of_not_mem hv] at hadded
  obtain ⟨refs, n'', hgrefs, hgref⟩ := foldl_addGref_holds
    { st with
      symtbl := ⟨st.symtbl.uid, stubs, cbStubs, st.symtbl.functbl.tryEmplace L.before v.g
        ⟨st.funcCounter, numberStub p, v.scan.extRefs, v.scan.cbStubArgs⟩, st.symtbl.greftbl⟩
      callingCounter := n, callbackCounter := n', funcCounter := st.funcCounter + 1 } (L.setOrder v.scan.extRefs) hst.gref
  rw [← grefs_concat] at hgref
  have hmerge : st.merge L v.g v.func v.hash v.scan = (L.setOrder v.scan.extRefs).foldl (State.addGref L) { st with
      symtbl := ⟨st.symtbl.uid, stubs, cbStubs, st.symtbl.functbl.tryEmplace L.before v.g
        ⟨st.funcCounter, numberStub p, v.scan.extRefs, v.scan.cbStubArgs⟩, st.symtbl.greftbl⟩
      callingCounter := n, callbackCounter := n', funcCounter := st.funcCounter + 1 } := by
    simp only [State.merge, hadd, hstub, Option.getD_some, hfold, State.addFunction]
  rw [hmerge, hgrefs]
  exact ⟨hst.uid, hcalling, hcallback, hadded, hgref⟩

end Merge

section Run

variable (H : HashOps) (L : Layout) (symbols : List GlobalValue) (bw : BwList)

def visitSymbol (st : State) (g : Nat) : State :=
  match symbols[g]? with
  | some (.function f) =>
      let listed := (bw.funcs g).bind FuncBw.analyze
      if listed = some false then { st with log := st.log ++ [(g, "忽略黑名单中的函数")] }
      else match doFunction H L (declarations symbols) bw st g f with
        | .ok st' => st'
        | .error e => st.reject g (listed = some true) e
  | _ => st

def analyzeSymbols (uid : Nat) : Symtbl :=
  ((List.range symbols.length).foldl (visitSymbol H L symbols bw) (.new uid)).symtbl

variable {H L symbols bw} {uid : Nat} {st : State} {vs : List Verdict}

/-- Either the function is accepted and merged, or no table changes. -/
theorem visitSymbol_cases (st : State) (g : Nat) :
    (judge H symbols bw g = none ∧ ∃ log diagnosed, visitSymbol H L symbols bw st g = { st with log, diagnosed }) ∨
      ∃ v, judge H symbols bw g = some v ∧ v.g = g ∧
        visitSymbol H L symbols bw st g = st.merge L v.g v.func v.hash v.scan := by
  unfold visitSymbol judge
  cases symbols[g]? with
  | none => exact .inl ⟨rfl, _, _, rfl⟩
  | some w =>
      cases w with
      | function f =>
          dsimp only
          by_cases hlisted : (bw.funcs g).bind FuncBw.analyze = some false
          · rw [if_pos hlisted, if_pos (by simp [hlisted])]
            exact .inl ⟨rfl, _, _, rfl⟩
          · rw [if_neg hlisted]
            cases hdefined : f.isDeclaration with
            | true =>
                rw [if_pos (by simp), doFunction, if_pos hdefined]
                exact .inl ⟨rfl, _, _, rfl⟩
            | false =>
                cases hfixed : f.type.isVarArg with
                | true =>
                    rw [if_pos (by simp), doFunction, if_neg (by simp [hdefined]), if_pos hfixed]
                    exact .inl ⟨rfl, _, _, rfl⟩
                | false =>
                    rw [if_neg (by simp [hlisted]), doFunction, if_neg (by simp [hdefined]), if_neg (by simp [hfixed])]
                    cases functionHash H f with
                    | none => exact .inl ⟨rfl, _, _, rfl⟩
                    | some h =>
                        cases scanFunction H (declarations symbols) bw f with
                        | error e => exact .inl ⟨rfl, _, _, rfl⟩
                        | ok scan => exact .inr ⟨_, rfl, rfl, rfl⟩
      | _ => exact .inl ⟨rfl, _, _, rfl⟩

variable (H symbols bw) in
theorem visitSymbol_represents (hst : Represents L uid vs st) {g : Nat} (hg : g ∉ vs.map Verdict.g) :
    Represents L uid (vs ++ (judge H symbols bw g).toList) (visitSymbol H L symbols bw st g) := by
  rcases visitSymbol_cases st g with ⟨hnone, log, diagnosed, heq⟩ | ⟨v, hsome, rfl, heq⟩
  · rw [heq, hnone, Option.toList_none, List.append_nil]
    exact ⟨hst.uid, hst.calling, hst.callback, hst.function, hst.gref⟩
  · rw [heq, hsome]
    exact merge_represents hst hg

variable (H symbols bw) in
theorem foldl_visitSymbol_represents {l : List Nat} (hst : Represents L uid vs st)
    (hl : (vs.map Verdict.g ++ l).Nodup) :
    Represents L uid (vs ++ l.filterMap (judge H symbols bw)) (l.foldl (visitSymbol H L symbols bw) st) := by
  induction l generalizing vs st with
  | nil => rwa [List.filterMap_nil, List.append_nil]
  | cons g l ih =>
      have hg : g ∉ vs.map Verdict.g := by
        intro hmem
        exact (List.nodup_append.mp hl).2.2 g hmem g List.mem_cons_self rfl
      have hstep := visitSymbol_represents H symbols bw hst hg
      cases hj : judge H symbols bw g with
      | none =>
          rw [hj, Option.toList_none, List.append_nil] at hstep
          rw [List.filterMap_cons_none hj]
          refine ih hstep (hl.sublist ?_)
          exact (List.sublist_cons_self g l).append_left _
      | some v =>
          rw [hj] at hstep
          have hvs : vs ++ v :: l.filterMap (judge H symbols bw) =
              (vs ++ [v]) ++ l.filterMap (judge H symbols bw) := by simp
          rw [List.filterMap_cons_some hj, hvs]
          refine ih hstep ?_
          have hvg := (judge_eq_some.mp hj).1
          simpa [hvg] using hl

variable (H L symbols bw) in
/-- The symbol table numbers what the accepted functions bring in their order. -/
theorem analyzeSymbols_represents (uid : Nat) : ∃ st, st.symtbl = analyzeSymbols H L symbols bw uid ∧
    Represents L uid (verdicts H symbols bw) st := by
  have hrep := foldl_visitSymbol_represents H symbols bw (l := List.range symbols.length) (new_represents L uid)
    List.nodup_range
  exact ⟨_, rfl, hrep⟩

theorem doFunction_declarations {m : Module} (st : State) (g : Nat) (f : GFunction) :
    doFunction H L (declarations m.symbols) bw st g f = doFunction H L m bw st g f := by
  simp only [doFunction, scanFunction_declarations]

variable (H L bw) in
theorem analyze_eq (m : Module) (uid : Nat) : analyze H L m bw uid = analyzeSymbols H L m.symbols bw uid := by
  have hvisit : ∀ st g, (m.function? g).isSome = true → visitFunction H L m bw st g = visitSymbol H L m.symbols bw st g := by
    intro st g hg
    obtain ⟨f, hf⟩ := Option.isSome_iff_exists.mp hg
    unfold visitFunction visitSymbol
    rw [hf, Module.function?_eq_some.mp hf]
    dsimp only
    rewrite [doFunction_declarations]
    rfl
  have hskip : ∀ st g, (m.function? g).isSome ≠ true → visitSymbol H L m.symbols bw st g = st := by
    intro st g hg
    unfold visitSymbol
    split
    next f hf =>
      rw [Module.function?_eq_some.mpr hf] at hg
      exact absurd rfl hg
    next => rfl
  have hfold : ∀ (l : List Nat) (st : State), (l.filter (fun g => (m.function? g).isSome)).foldl (visitFunction H L m bw) st =
      l.foldl (visitSymbol H L m.symbols bw) st := by
    intro l
    induction l with
    | nil => exact fun st => rfl
    | cons g l ih =>
        intro st
        rw [List.filter_cons]
        split
        next hg => rw [List.foldl_cons, List.foldl_cons, hvisit st g hg, ih]
        next hg => rw [List.foldl_cons, hskip st g hg, ih]
  exact congrArg State.symtbl (hfold _ _)

variable (H L bw) in
theorem analyze_represents (m : Module) (uid : Nat) : ∃ st, st.symtbl = analyze H L m bw uid ∧
    Represents L uid (verdicts H m.symbols bw) st := by
  rw [analyze_eq]
  exact analyzeSymbols_represents H L m.symbols bw uid

end Run

end Comulator.Numbering
