import Comulator.CallbackRun
import Comulator.Lookups
import Comulator.SymtblSpec

namespace Comulator.CallbackStubs

open Fallible Types Ir TypeHash Symtbl HostIr Analyze AnalyzeSpec Exec Simulation ExecRules Compose CallbackRun

variable {H : HashOps} {L : Layout} {m : Module} {bw : BwList}

def callbackOf : Item → Option GCall
  | .callback c => some c
  | _ => none

def callbacks (m : Module) (bw : BwList) (f : GFunction) : List GCall := (functionItems m bw f).filterMap callbackOf

def isAccepted (H : HashOps) (m : Module) (bw : BwList) (g : Nat) : Bool :=
  match m.function? g with
  | some f => decide ((bw.funcs g).bind FuncBw.analyze ≠ some false) && !f.isDeclaration && !f.type.isVarArg &&
      (functionHash H f).isSome && (functionItems m bw f).all (isSupported H)
  | none => false

def registeredBy (H : HashOps) (m : Module) (bw : BwList) (g : Nat) : List GCall :=
  match m.function? g with
  | some f => if isAccepted H m bw g then callbacks m bw f else []
  | none => []

def registered (H : HashOps) (m : Module) (bw : BwList) (gs : List Nat) : List GCall :=
  gs.flatMap (registeredBy H m bw)

def firstCallback (H : HashOps) (m : Module) (bw : BwList) (h : HashCode) : Option GCall :=
  (registered H m bw m.functions).find? (fun c => callSiteHash H c = some h)

section Accepted

theorem isAccepted_iff {g : Nat} : isAccepted H m bw g = true ↔ Accepted H m bw g := by
  unfold isAccepted Accepted
  cases m.function? g with
  | none => simp
  | some f =>
      simp only [Bool.and_eq_true, decide_eq_true_eq, Bool.not_eq_true', ← foldlM_visit_ok_iff _ Scan.empty,
        Option.isSome_iff_exists]
      constructor
      · rintro ⟨⟨⟨⟨hlisted, hdef⟩, hfixed⟩, h, hh⟩, scan, hscan⟩
        exact ⟨f, h, scan, rfl, hlisted, hdef, hfixed, hh, hscan⟩
      · rintro ⟨f', h, scan, hf, hlisted, hdef, hfixed, hh, hscan⟩
        cases hf
        exact ⟨⟨⟨⟨hlisted, hdef⟩, hfixed⟩, h, hh⟩, scan, hscan⟩

theorem registeredBy_of_not_accepted {g : Nat} (h : ¬ Accepted H m bw g) : registeredBy H m bw g = [] := by
  unfold registeredBy
  split
  next => exact if_neg (fun hg => h (isAccepted_iff.mp hg))
  next => rfl

theorem registeredBy_of_accepted {g : Nat} {f : GFunction} (hf : m.function? g = some f)
    (h : Accepted H m bw g) : registeredBy H m bw g = callbacks m bw f := by
  unfold registeredBy
  rw [hf]
  exact if_pos (isAccepted_iff.mpr h)

end Accepted

section First

def firstOf (H : HashOps) (l : List GCall) (h : HashCode) : Option GCall :=
  l.find? (fun c => callSiteHash H c = some h)

theorem visit_first {l : List Item} {s t : Scan} {i : Item}
    (hs : ∀ h, s.cbStubs.find? h = (firstOf H (l.filterMap callbackOf) h).map callbackStub)
    (h : s.visit H i = .ok t) :
    ∀ h, t.cbStubs.find? h = (firstOf H ((l ++ [i]).filterMap callbackOf) h).map callbackStub := by
  intro h'
  rw [List.filterMap_append]
  cases i with
  | ref g =>
      cases h
      have hsame : (s.addRef g).cbStubs = s.cbStubs := by
        simp only [Scan.addRef]
        split <;> rfl
      change _ = (firstOf H (l.filterMap callbackOf ++ []) h').map callbackStub
      rw [hsame, hs h', List.append_nil]
  | callback c =>
      simp only [Scan.visit, Scan.addCallback] at h
      split at h
      next => cases h
      next =>
        split at h
        next => cases h
        next k hk =>
          have hlast : firstOf H ([Item.callback c].filterMap callbackOf) h' = if k = h' then some c else none := by
            change List.find? _ [c] = _
            simp only [List.find?_cons, List.find?_nil, hk, Option.some.injEq]
            by_cases hh : k = h' <;> simp [hh]
          rw [firstOf, List.find?_append, ← firstOf, ← firstOf, hlast]
          split at h
          next hnew =>
            cases h
            by_cases hh : h' = k
            · subst hh
              have hnone : firstOf H (l.filterMap callbackOf) h' = none := by
                rw [hs h'] at hnew
                simpa using hnew
              simp [OrderedMap.find?_tryEmplace_self, hnew, hnone]
            · simp only [OrderedMap.find?_tryEmplace_of_ne hh, hs h', if_neg (Ne.symm hh), Option.or_none]
          next hold =>
            cases h
            rw [hs h']
            by_cases hh : k = h'
            · subst hh
              obtain ⟨st, hst⟩ := Option.ne_none_iff_exists'.mp hold
              rw [hs k] at hst
              obtain ⟨d, hd, _⟩ := Option.map_eq_some_iff.mp hst
              simp [hd]
            · rw [if_neg hh, Option.or_none]
  | reject e => cases h

theorem foldlM_first {l k : List Item} {s t : Scan}
    (hs : ∀ h, s.cbStubs.find? h = (firstOf H (l.filterMap callbackOf) h).map callbackStub)
    (h : k.foldlM (Scan.visit H) s = .ok t) :
    ∀ h, t.cbStubs.find? h = (firstOf H ((l ++ k).filterMap callbackOf) h).map callbackStub := by
  induction k generalizing l s with
  | nil =>
      cases h
      rwa [List.append_nil]
  | cons i k ih =>
      rw [List.foldlM_cons] at h
      obtain ⟨u, hu, h⟩ := bind_eq_ok.mp h
      have hrest := ih (visit_first hs hu) h
      rwa [List.append_assoc] at hrest

theorem scanFunction_first {f : GFunction} {s : Scan} (h : scanFunction H m bw f = .ok s) (k : HashCode) :
    s.cbStubs.find? k = (firstOf H (callbacks m bw f) k).map callbackStub :=
  foldlM_first (l := []) (fun _ => rfl) h k

def content (s : StubInfo) : FunctionType × AttributeList := (s.func, s.attrs)

variable {st : State}

theorem foldl_addCallback_content (l : List (HashCode × StubInfo)) (st : State) (h : HashCode) :
    ((l.foldl State.addCallback st).symtbl.callbackStubs.find? h).map content =
      ((st.symtbl.callbackStubs.find? h).map content).or ((l.lookup h).map content) := by
  induction l generalizing st with
  | nil => simp
  | cons e l ih =>
      rw [List.foldl_cons, ih, List.lookup_cons]
      by_cases hh : h = e.1
      · subst hh
        rw [beq_self_eq_true]
        simp only [State.addCallback]
        split
        next hnew => simp [OrderedMap.find?_tryEmplace_self, hnew, content]
        next hold =>
          obtain ⟨s, hs⟩ := Option.ne_none_iff_exists'.mp hold
          simp [hs]
      · rw [beq_false_of_ne hh]
        simp only [State.addCallback]
        split
        next => simp only [OrderedMap.find?_tryEmplace_of_ne hh]
        next => rfl

theorem merge_content {g : Nat} {f : GFunction} {k : HashCode} {scan : Scan} (h : HashCode) :
    ((st.merge L g f k scan).symtbl.callbackStubs.find? h).map content =
      ((st.symtbl.callbackStubs.find? h).map content).or ((scan.cbStubs.find? h).map content) := by
  simp only [State.merge]
  rw [(SymtblSpec.foldl_addGref_keys _ _).1]
  change ((scan.cbStubs.entries.foldl State.addCallback (st.addCalling k f)).symtbl.callbackStubs.find? h).map content = _
  rw [foldl_addCallback_content, (SymtblSpec.addCalling_others st k f).2]
  rfl

def stubContent (c : GCall) : FunctionType × AttributeList := (c.functionType, filterAbiAttributes c.attributes)

theorem visitFunction_content {gs : List Nat} {g : Nat}
    (hst : ∀ h, (st.symtbl.callbackStubs.find? h).map content = (firstOf H (registered H m bw gs) h).map stubContent) :
    ∀ h, ((visitFunction H L m bw st g).symtbl.callbackStubs.find? h).map content =
      (firstOf H (registered H m bw (gs ++ [g])) h).map stubContent := by
  intro h
  have happend : registered H m bw (gs ++ [g]) = registered H m bw gs ++ registeredBy H m bw g := by
    simp [registered]
  rw [happend, firstOf, List.find?_append, ← firstOf, ← firstOf]
  rcases visitFunction_cases H L m bw st g with
    ⟨hnot, log, diagnosed, heq⟩ | ⟨f, k, scan, hf, hlisted, hdef, hfixed, hk, hscan, heq⟩
  · rw [heq, registeredBy_of_not_accepted hnot]
    simp only [hst h, firstOf, List.find?_nil, Option.or_none]
  · have hacc : Accepted H m bw g := ⟨f, k, scan, hf, hlisted, hdef, hfixed, hk, hscan⟩
    rw [heq, merge_content, registeredBy_of_accepted hf hacc, scanFunction_first hscan, hst h]
    cases firstOf H (registered H m bw gs) h <;> simp [Option.map_map]
    rfl

theorem foldl_visitFunction_content (gs : List Nat) {l : List Nat}
    (hst : ∀ h, (st.symtbl.callbackStubs.find? h).map content = (firstOf H (registered H m bw gs) h).map stubContent) :
    ∀ h, ((l.foldl (visitFunction H L m bw) st).symtbl.callbackStubs.find? h).map content =
      (firstOf H (registered H m bw (gs ++ l)) h).map stubContent := by
  induction l generalizing gs st with
  | nil => simpa using hst
  | cons g l ih =>
      have hrest := ih (gs ++ [g]) (visitFunction_content (L := L) (g := g) hst)
      rwa [List.append_assoc] at hrest

variable (H L m bw) in
theorem callbackStub_content (uid : Nat) (h : HashCode) :
    ((analyze H L m bw uid).callbackStubs.find? h).map content = (firstCallback H m bw h).map stubContent :=
  foldl_visitFunction_content [] (fun _ => rfl) h

end First

/-- The stub `st` for the hash `h` makes the call `c` again: with the interface
of `c`, and wherever a callback stands for `c` with `hargs` for its arguments,
with the values of these in their positions and with the value of the callee. -/
structure Reissues (h : HashCode) (st : StubInfo) (c : GCall) : Prop where
  interface : (stubCall st).interface = c.interface
  values : ∀ (S W : Type) (E : Setting S W) (O : Offloaded) (fuel : Nat) (call : Caller S W)
    (fcp : Nat → Interface → List (Val S) → Run S W (Val S)) (args : List (Val S)) (env : Env HostId S)
    (n k : Nat) (debug debug' : Bool) (result : HostId) (cbStub callee : HValue) (hargs : List (Ty × HValue))
    (P : Pads S) (oc : Val S → List (Val S) → Run S W (Val S)),
    O.guest.cbStubs.lookup h = some (ChopOff.cbStubFunction debug' h st) →
    evalValue E.sem hostSymbols args env cbStub = some (.addr (.cbStub h)) →
    (∀ v ∈ cbStub :: callee :: hargs.map Prod.snd, Stable E.sem hostSymbols args (callName n k) env v) →
    hargs.map Prod.fst = c.args.map Prod.fst → (∀ i, result ≠ callName n k i) →
    (∀ P v ws, Sim Machine.withPads P (Same P) (oc v ws) (call c.interface v ws)) →
    Sim Machine.withPads P (fun a env' P' => Called n k result c.functionType.ret env a env' ∧ P' = P)
      (do
        let ws ← need (evalValues E.sem hostSymbols args env (hargs.map Prod.snd))
        let v ← need (evalValue E.sem hostSymbols args env callee)
        oc v ws)
      (execInsts E.sem (hostCtx E O fuel call fcp) args env
        (TakeOut.callbackCode debug n k result cbStub callee c.functionType.ret hargs))

theorem reissues_of_interface {h : HashCode} {st : StubInfo} {c : GCall} (hret : st.ret = retType st.func)
    (harg : st.arg = argType st.func) (htys : c.args.map Prod.fst = c.functionType.params)
    (hst : (stubCall st).interface = c.interface) : Reissues h st c := by
  have htype : st.func = c.functionType := congrArg Interface.type hst
  refine ⟨hst, ?_⟩
  intro S W E O fuel call fcp args env n k debug debug' result cbStub callee hargs P oc hlookup hcb hstable hfst
    hresult hoc
  rw [← htype]
  rw [← hst] at hoc
  refine callbackCode_sim P fcp fuel debug oc hcb hstable hlookup hret harg ?_ hresult hoc
  rw [hfst, htys, htype]

theorem stubCall_interface_iff {st : StubInfo} {first c : GCall} (hcontent : content st = stubContent first) :
    (stubCall st).interface = c.interface ↔ c.callingConv = 0 ∧ first.functionType = c.functionType ∧
      ∀ i, first.attributes.getAttributes i = c.attributes.getAttributes i := by
  have hfunc : st.func = first.functionType := congrArg Prod.fst hcontent
  have hattrs : st.attrs.getAttributes = first.attributes.getAttributes := by
    have heq : st.attrs = filterAbiAttributes first.attributes := congrArg Prod.snd hcontent
    funext i
    rw [heq, getAttributes_filterAbiAttributes]
  simp only [CallBase.interface, stubCall, Interface.mk.injEq, hfunc, hattrs, funext_iff]
  constructor
  · rintro ⟨htype, hcc, hattr⟩
    exact ⟨hcc.symm, htype, hattr⟩
  · rintro ⟨hcc, htype, hattr⟩
    exact ⟨htype, hcc.symm, hattr⟩

theorem firstCallback_fixed {h : HashCode} {first : GCall} (hfirst : firstCallback H m bw h = some first) :
    first.functionType.isVarArg = false := by
  obtain ⟨g, _, hmem⟩ := List.mem_flatMap.mp (List.mem_of_find?_eq_some hfirst)
  unfold registeredBy at hmem
  split at hmem
  next f hf =>
    split at hmem
    next hacc =>
      obtain ⟨f', k, scan, hf', _, _, _, _, hscan⟩ := isAccepted_iff.mp hacc
      cases hf.symm.trans hf'
      obtain ⟨i, hi, hcall⟩ := List.mem_filterMap.mp hmem
      cases i with
      | callback c =>
          cases hcall
          exact ((scanFunction_scanned hscan).callbacks first hi).1
      | ref | reject => cases hcall
    next => cases hmem
  next => cases hmem

/-- The stub selected for a call makes it again exactly when the call has the
default calling convention and the type and the attributes of the first call
that was registered with its hash. -/
theorem callback_reissues_iff (H : HashOps) (L : Layout) (m : Module) (bw : BwList) (uid : Nat) {g : Nat}
    {info : FuncInfo} {f : GFunction} {c : GCall} (hinfo : (analyze H L m bw uid).functbl.find? g = some info)
    (hf : m.function? g = some f) (hc : c ∈ Module.calls f)
    (hstub : ∃ h ∈ info.cbStubArgs, callSiteHash H c = some h) :
    ∃ h st first, callSiteHash H c = some h ∧ (analyze H L m bw uid).callbackStubs.find? h = some st ∧
      firstCallback H m bw h = some first ∧
        (Reissues h st c ↔ c.callingConv = 0 ∧ first.functionType = c.functionType ∧
          ∀ i, first.attributes.getAttributes i = c.attributes.getAttributes i) := by
  obtain ⟨h, hstub, hh⟩ := hstub
  have hwf := analyze_wellFormed H L m bw uid
  obtain ⟨st, hst⟩ := Option.ne_none_iff_exists'.mp
    (((SymtblSpec.analyze_usable H L m bw uid).stubs g info hinfo).2 h hstub)
  have hcontent := callbackStub_content H L m bw uid h
  rw [hst, Option.map_some] at hcontent
  obtain ⟨first, hfirst, hcontent⟩ := Option.map_eq_some_iff.mp hcontent.symm
  obtain ⟨_, _, d, _, _, _, hd⟩ := hwf.callback h st hst
  have hret : st.ret = retType st.func := by rw [hd]; rfl
  have harg : st.arg = argType st.func := by rw [hd]; rfl
  refine ⟨h, st, first, hh, hst, hfirst, ?_⟩
  rw [← stubCall_interface_iff hcontent.symm]
  constructor
  · exact Reissues.interface
  · intro hinterface
    refine reissues_of_interface hret harg ?_ hinterface
    have htype := (stubCall_interface_iff hcontent.symm).mp hinterface
    apply Module.args_types hf hc
    rw [← htype.2.1]
    exact firstCallback_fixed hfirst

def conventionCall (cc : Nat) : GCall := ⟨⟨.void, [], false⟩, cc, ⟨[]⟩, .const (.global 1), []⟩

def conventionCaller (cc : Nat) : GFunction :=
  ⟨⟨.void, [], false⟩, 0, ⟨[]⟩, none, [(0, ⟨[], [⟨0, .call (conventionCall cc)⟩], 1, .ret none⟩)], [], none⟩

def conventionModule (cc : Nat) : Module :=
  ⟨[.function (conventionCaller cc), .function ⟨⟨.void, [], false⟩, cc, ⟨[]⟩, none, [], [], none⟩], rfl⟩

def conventionInput (cc : Nat) : TakeOut.Input :=
  Lookups.analyzed HostTable.sumHash HostTable.plainLayout (conventionModule cc) HostTable.chopAll .null 7

theorem defaultConvention_reissued : ∃ h st, callSiteHash HostTable.sumHash (conventionCall 0) = some h ∧
    (conventionInput 0).symtbl.callbackStubs.find? h = some st ∧ Reissues h st (conventionCall 0) := by
  obtain ⟨h, st, first, hh, hst, hfirst, hiff⟩ := callback_reissues_iff HostTable.sumHash HostTable.plainLayout
    (conventionModule 0) .null 7 (g := 0) (f := conventionCaller 0) (c := conventionCall 0) rfl rfl
    List.mem_cons_self ⟨2, List.mem_cons_self, rfl⟩
  cases hh
  cases hfirst
  exact ⟨_, st, rfl, hst, hiff.mpr ⟨rfl, rfl, fun _ => rfl⟩⟩

/-- The guest calls a function of the fast convention with the default one. -/
theorem fastConvention_lost : ∃ M h st, TakeOut.takeOut (conventionInput 8) = .ok M ∧
    (conventionInput 8).route (conventionCall 8) = .callback ∧
    callSiteHash HostTable.sumHash (conventionCall 8) = some h ∧
    (conventionInput 8).symtbl.callbackStubs.find? h = some st ∧ (stubCall st).callingConv = 0 ∧
      ¬ Reissues h st (conventionCall 8) := by
  refine ⟨_, 2, _, rfl, rfl, rfl, rfl, rfl, ?_⟩
  intro h
  exact absurd (congrArg Interface.callingConv h.interface) (by decide)

end Comulator.CallbackStubs
