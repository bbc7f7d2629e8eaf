import Comulator.HostTable

namespace Comulator.AnalyzeExits

open Fallible Types Ir TypeHash Symtbl Analyze

structure Object where
  state : State
  scan : Scan

section Exits

variable (H : HashOps) (L : Layout) (m : Module) (bw : BwList)

/-- One item in the loop of `do_function`: the error it returns with, if it does,
and the object as it is then. -/
def visitItem (o : Object) : Item → Option Unsupported × Object
  | .ref g => (none, { o with scan := o.scan.addRef g })
  | .callback c =>
      if c.functionType.isVarArg then (some .varArgCall, o)
      else match callSiteHash H c with
        | none => (some .unhashableCall, o)
        | some h =>
            if o.scan.cbStubs.find? h = none then
              (none, { o with scan := { o.scan with
                cbStubs := o.scan.cbStubs.tryEmplace hashBefore h (callbackStub c)
                cbStubArgs := o.scan.cbStubArgs ++ [h] } })
            else (none, o)
  | .reject e => (some e, o)

def visitItems : List Item → Object → Option Unsupported × Object
  | [], o => (none, o)
  | i :: is, o =>
      match visitItem H o i with
      | (some e, o) => (some e, o)
      | (none, o) => visitItems is o

def doFunctionFrom (o : Object) (g : Nat) (f : GFunction) : Option Unsupported × Object :=
  if f.isDeclaration then (none, o)
  else if f.type.isVarArg then (some .varArgFunction, o)
  else match functionHash H f with
    | none => (some .unhashableFunction, o)
    | some h =>
        match visitItems H (functionItems m bw f) { o with scan := Scan.empty } with
        | (some e, o) => (some e, o)
        | (none, o) => (none, { o with state := o.state.merge L g f h o.scan })

def visitFunctionFrom (o : Object) (g : Nat) : Object :=
  match m.function? g with
  | none => o
  | some f =>
      let listed := (bw.funcs g).bind FuncBw.analyze
      if listed = some false then { o with state := { o.state with log := o.state.log ++ [(g, "忽略黑名单中的函数")] } }
      else match doFunctionFrom H L m bw o g f with
        | (none, o) => o
        | (some e, o) => { o with state := o.state.reject g (listed = some true) e }

def rejects (g : Nat) : Bool :=
  match m.function? g with
  | some f => (doFunctionFrom H L m bw ⟨.new 0, Scan.empty⟩ g f).1.isSome
  | none => false

end Exits

section Outcome

variable {ε α : Type}

def errorOf : Except ε α → Option ε
  | .ok _ => none
  | .error e => some e

def valueAfter (a : α) : Except ε α → α
  | .ok b => b
  | .error _ => a

end Outcome

section Atomic

variable {H : HashOps} {L : Layout} {m : Module} {bw : BwList} {o : Object} {g : Nat} {f : GFunction}

theorem visitItem_eq (o : Object) (i : Item) :
    visitItem H o i = (errorOf (o.scan.visit H i), { o with scan := valueAfter o.scan (o.scan.visit H i) }) := by
  cases i with
  | ref g => rfl
  | reject e => rfl
  | callback c =>
      simp only [visitItem, Scan.visit, Scan.addCallback]
      split
      next => rfl
      next =>
        cases callSiteHash H c with
        | none => rfl
        | some h =>
            dsimp only
            split <;> rfl

/-- The loop does not touch the state, whichever way it ends. -/
theorem visitItems_eq (l : List Item) (o : Object) :
    ∃ scan, visitItems H l o = (errorOf (l.foldlM (Scan.visit H) o.scan), { o with scan }) ∧
      ∀ t, l.foldlM (Scan.visit H) o.scan = .ok t → scan = t := by
  induction l generalizing o with
  | nil => exact ⟨o.scan, rfl, fun t ht => Except.ok.inj ht⟩
  | cons i l ih =>
      rw [visitItems, visitItem_eq, List.foldlM_cons]
      cases o.scan.visit H i with
      | error e => exact ⟨o.scan, rfl, fun t ht => by cases ht⟩
      | ok scan => exact ih { o with scan }

variable (H L m bw) in
theorem doFunctionFrom_eq (o : Object) (g : Nat) (f : GFunction) :
    ∃ scan, doFunctionFrom H L m bw o g f = (errorOf (doFunction H L m bw o.state g f),
      ⟨valueAfter o.state (doFunction H L m bw o.state g f), scan⟩) := by
  unfold doFunctionFrom doFunction
  split
  next => exact ⟨o.scan, rfl⟩
  next =>
    split
    next => exact ⟨o.scan, rfl⟩
    next =>
      cases functionHash H f with
      | none => exact ⟨o.scan, rfl⟩
      | some h =>
          obtain ⟨scan, hitems, hscan⟩ := visitItems_eq (H := H) (functionItems m bw f) { o with scan := Scan.empty }
          dsimp only at hitems hscan ⊢
          rw [hitems, scanFunction]
          cases hfold : (functionItems m bw f).foldlM (Scan.visit H) Scan.empty with
          | error e => exact ⟨scan, rfl⟩
          | ok t =>
              rw [hscan t hfold]
              exact ⟨t, rfl⟩

theorem visitFunctionFrom_state (o : Object) (g : Nat) :
    (visitFunctionFrom H L m bw o g).state = visitFunction H L m bw o.state g := by
  unfold visitFunctionFrom visitFunction
  cases m.function? g with
  | none => rfl
  | some f =>
      dsimp only
      split
      next => rfl
      next =>
        obtain ⟨scan, hrun⟩ := doFunctionFrom_eq H L m bw o g f
        rw [hrun]
        cases doFunction H L m bw o.state g f with
        | ok st => rfl
        | error e => rfl

structure Untouched (st st' : State) : Prop where
  symtbl : st'.symtbl = st.symtbl
  callingCounter : st'.callingCounter = st.callingCounter
  callbackCounter : st'.callbackCounter = st.callbackCounter
  funcCounter : st'.funcCounter = st.funcCounter
  grefCounter : st'.grefCounter = st.grefCounter

theorem Untouched.refl (st : State) : Untouched st st := ⟨rfl, rfl, rfl, rfl, rfl⟩

theorem Untouched.symm {st st' : State} (h : Untouched st st') : Untouched st' st :=
  ⟨h.symtbl.symm, h.callingCounter.symm, h.callbackCounter.symm, h.funcCounter.symm, h.grefCounter.symm⟩

theorem Untouched.trans {st st' st'' : State} (h : Untouched st st') (h' : Untouched st' st'') : Untouched st st'' :=
  ⟨h'.symtbl.trans h.symtbl, h'.callingCounter.trans h.callingCounter, h'.callbackCounter.trans h.callbackCounter,
    h'.funcCounter.trans h.funcCounter, h'.grefCounter.trans h.grefCounter⟩

theorem untouched_iff {st st' : State} :
    Untouched st st' ↔ ∃ log diagnosed, st' = { st with log, diagnosed } := by
  constructor
  · intro h
    obtain ⟨symtbl, calling, callback, func, gref, log, diagnosed⟩ := st'
    obtain ⟨rfl, rfl, rfl, rfl, rfl⟩ := h
    exact ⟨log, diagnosed, rfl⟩
  · rintro ⟨log, diagnosed, rfl⟩
    exact ⟨rfl, rfl, rfl, rfl, rfl⟩

section Congruence

variable (st : State) (log : List (Nat × String)) (diagnosed : List Nat)

theorem addCalling_log (h : HashCode) (f : GFunction) :
    State.addCalling { st with log, diagnosed } h f = { st.addCalling h f with log, diagnosed } := by
  unfold State.addCalling
  dsimp only
  split <;> rfl

theorem foldl_addCallback_log (l : List (HashCode × StubInfo)) :
    l.foldl State.addCallback { st with log, diagnosed } = { l.foldl State.addCallback st with log, diagnosed } := by
  induction l generalizing st with
  | nil => rfl
  | cons e l ih =>
      have hstep : State.addCallback { st with log, diagnosed } e = { st.addCallback e with log, diagnosed } := by
        unfold State.addCallback
        dsimp only
        split <;> rfl
      rw [List.foldl_cons, List.foldl_cons, hstep, ih]

theorem foldl_addGref_log (l : List Nat) :
    l.foldl (State.addGref L) { st with log, diagnosed } = { l.foldl (State.addGref L) st with log, diagnosed } := by
  induction l generalizing st with
  | nil => rfl
  | cons r l ih =>
      have hstep : State.addGref L { st with log, diagnosed } r = { st.addGref L r with log, diagnosed } := by
        unfold State.addGref
        dsimp only
        split <;> rfl
      rw [List.foldl_cons, List.foldl_cons, hstep, ih]

/-- What was logged does not matter to the tables. -/
theorem merge_log (g : Nat) (f : GFunction) (h : HashCode) (scan : Scan) :
    State.merge L { st with log, diagnosed } g f h scan = { st.merge L g f h scan with log, diagnosed } := by
  unfold State.merge
  dsimp only
  rw [addCalling_log, foldl_addCallback_log]
  exact foldl_addGref_log ((scan.cbStubs.entries.foldl State.addCallback (st.addCalling h f)).addFunction L g
    (((st.addCalling h f).symtbl.callingStubs.find? h).getD (callingStub f (st.addCalling h f).callingCounter)) scan)
    log diagnosed _

end Congruence

/-- An error does not depend on what there is in the tables. -/
theorem errorOf_doFunction (st st' : State) (g : Nat) (f : GFunction) :
    errorOf (doFunction H L m bw st g f) = errorOf (doFunction H L m bw st' g f) := by
  unfold doFunction
  split
  next => rfl
  next =>
    split
    next => rfl
    next =>
      cases functionHash H f with
      | none => rfl
      | some h => cases scanFunction H m bw f <;> rfl

theorem doFunction_untouched {st st' : State} (hst : Untouched st st') (g : Nat) (f : GFunction) :
    Untouched (valueAfter st (doFunction H L m bw st g f)) (valueAfter st' (doFunction H L m bw st' g f)) := by
  unfold doFunction
  split
  next => exact hst
  next =>
    split
    next => exact hst
    next =>
      cases functionHash H f with
      | none => exact hst
      | some h =>
          cases scanFunction H m bw f with
          | error e => exact hst
          | ok scan =>
              obtain ⟨log, diagnosed, rfl⟩ := untouched_iff.mp hst
              exact untouched_iff.mpr ⟨log, diagnosed, merge_log st log diagnosed g f h scan⟩

variable (H L m bw) in
/-- The body of the loop over the functions passes one over or leaves behind what
`do_function` does. -/
theorem visitFunction_cases (g : Nat) : (∀ st, Untouched st (visitFunction H L m bw st g)) ∨
    ∃ f, m.function? g = some f ∧
      ∀ st, Untouched (valueAfter st (doFunction H L m bw st g f)) (visitFunction H L m bw st g) := by
  unfold visitFunction
  cases m.function? g with
  | none => exact .inl Untouched.refl
  | some f =>
      dsimp only
      split
      next => exact .inl (fun st => ⟨rfl, rfl, rfl, rfl, rfl⟩)
      next =>
        refine .inr ⟨f, rfl, fun st => ?_⟩
        cases doFunction H L m bw st g f with
        | error e => exact ⟨rfl, rfl, rfl, rfl, rfl⟩
        | ok st' => exact .refl st'

theorem visitFunction_untouched {st st' : State} (hst : Untouched st st') (g : Nat) :
    Untouched (visitFunction H L m bw st g) (visitFunction H L m bw st' g) := by
  rcases visitFunction_cases H L m bw g with hskip | ⟨f, _, hdo⟩
  · exact ((hskip st).symm.trans hst).trans (hskip st')
  · exact ((hdo st).symm.trans (doFunction_untouched hst g f)).trans (hdo st')

theorem rejects_eq (hf : m.function? g = some f) (st : State) :
    rejects H L m bw g = (errorOf (doFunction H L m bw st g f)).isSome := by
  obtain ⟨scan, hrun⟩ := doFunctionFrom_eq H L m bw ⟨.new 0, Scan.empty⟩ g f
  rw [rejects, hf]
  dsimp only
  rw [hrun, errorOf_doFunction _ st]

/-- A function that is rejected leaves the tables and counters as they are. -/
theorem visitFunction_rejected (h : rejects H L m bw g = true) (st : State) :
    Untouched st (visitFunction H L m bw st g) := by
  rcases visitFunction_cases H L m bw g with hskip | ⟨f, hf, hdo⟩
  · exact hskip st
  · have hst := hdo st
    rw [rejects_eq hf st] at h
    cases hdo : doFunction H L m bw st g f with
    | ok st' =>
        rw [hdo] at h
        cases h
    | error e =>
        rw [hdo] at hst
        exact hst

theorem foldl_rejected (l : List Nat) {st st' : State} (hst : Untouched st st') :
    Untouched ((l.filter (fun g => !rejects H L m bw g)).foldl (visitFunction H L m bw) st)
      (l.foldl (visitFunction H L m bw) st') := by
  induction l generalizing st st' with
  | nil => exact hst
  | cons g l ih =>
      rw [List.foldl_cons, List.filter_cons]
      cases hg : rejects H L m bw g with
      | true => exact ih (hst.trans (visitFunction_rejected hg st'))
      | false => exact ih (visitFunction_untouched hst g)

theorem foldl_visitFunctionFrom (l : List Nat) (o : Object) :
    (l.foldl (visitFunctionFrom H L m bw) o).state = l.foldl (visitFunction H L m bw) o.state := by
  induction l generalizing o with
  | nil => rfl
  | cons g l ih => rw [List.foldl_cons, List.foldl_cons, ih, visitFunctionFrom_state]

end Atomic

/-- A rejected function leaves the tables and counters as they were, at whichever
exit it is rejected; and `Analyze` ends with the same ones if it skips all such
functions. -/
theorem rejection_untouched (H : HashOps) (L : Layout) (m : Module) (bw : BwList) (o : Object) :
    (∀ g f e o', doFunctionFrom H L m bw o g f = (some e, o') → Untouched o.state o'.state) ∧
      (∀ g, rejects H L m bw g = true → Untouched o.state (visitFunctionFrom H L m bw o g).state) ∧
      Untouched ((m.functions.filter (fun g => !rejects H L m bw g)).foldl (visitFunctionFrom H L m bw) o).state
        (m.functions.foldl (visitFunctionFrom H L m bw) o).state := by
  refine ⟨?_, ?_, ?_⟩
  · intro g f e o' h
    obtain ⟨scan, hrun⟩ := doFunctionFrom_eq H L m bw o g f
    rw [hrun] at h
    cases hdo : doFunction H L m bw o.state g f with
    | ok st =>
        rw [hdo] at h
        cases h
    | error e' =>
        rw [hdo] at h
        cases h
        exact .refl _
  · intro g h
    rw [visitFunctionFrom_state]
    exact visitFunction_rejected h o.state
  · rw [foldl_visitFunctionFrom, foldl_visitFunctionFrom]
    exact foldl_rejected m.functions (.refl _)

def asmCaller : GFunction :=
  ⟨⟨.void, [], false⟩, 0, ⟨[]⟩, none,
    [(0, ⟨[], [⟨0, .op .load (.pointer 0) [] [.const (.global 1)]⟩,
      ⟨1, .call ⟨⟨.void, [], false⟩, 0, ⟨[]⟩, .inlineAsm 0, []⟩⟩], 2, .ret none⟩)], [], none⟩

def asmModule : Module := ⟨[.function asmCaller, .variable none, .function HostTable.emptyFunction], by decide⟩

theorem rejection_untouched_asm :
    (doFunctionFrom HostTable.sumHash HostTable.plainLayout asmModule .null ⟨.new 7, Scan.empty⟩ 0 asmCaller).1 =
      some .inlineAsm ∧
    (doFunctionFrom HostTable.sumHash HostTable.plainLayout asmModule .null ⟨.new 7, Scan.empty⟩ 0 asmCaller).2.scan.extRefs =
      [1] ∧
    Untouched (.new 7)
      (doFunctionFrom HostTable.sumHash HostTable.plainLayout asmModule .null ⟨.new 7, Scan.empty⟩ 0 asmCaller).2.state :=
  ⟨rfl, rfl, (rejection_untouched HostTable.sumHash HostTable.plainLayout asmModule .null ⟨.new 7, Scan.empty⟩).1 0
    asmCaller .inlineAsm _ rfl⟩

end Comulator.AnalyzeExits
