import Comulator.EntryRun
import Comulator.Lookups

namespace Comulator.GeneratedRun

open Fallible Types Ir TypeHash Symtbl HostIr TakeOut Exec Simulation ExecRules Compose CallbackRun OperandRun BodyRun
  EntryRun

variable {Sc W : Type} {E : Setting Sc W} {O : Offloaded} {fuel : Nat} {call : Caller Sc W}
variable {fcp : Nat → Interface → List (Val Sc) → Run Sc W (Val Sc)} {I : Input} {g : Nat} {f : GFunction}
variable {info : FuncInfo} {X : Copy} {P : Pads Sc} {gargs args : List (Val Sc)} {env : Env HostId Sc}

structure Made (I : Input) (g : Nat) (f : GFunction) (info : FuncInfo) (X : Copy) (entry : List HInst)
    (hf : HFunction) : Prop where
  refs : ∀ r ∈ info.extRefArgs, (X.refs r).isSome
  body : doBody I X f entry = .ok hf.blocks
  own : hf.operands ++ hf.prefixData.toList = cloneConsts (g, X.hfunc) (f.operands ++ f.prefixData.toList)

variable (E O fuel call fcp X gargs args P) in
def Enters (entry : List HInst) : Prop :=
  ∃ env, Silent Machine.withPads P env P (execInsts E.sem (hostCtx E O fuel call fcp) args (fun _ => none) entry) ∧
    Matches E X gargs args (fun _ => none) env

theorem cloneConsts_append (self : Nat × HostSym) (cs ds : List (Const Nat)) :
    cloneConsts self (cs ++ ds) = cloneConsts self cs ++ cloneConsts self ds := by
  induction cs with
  | nil => rfl
  | cons c cs ih => rw [List.cons_append, cloneConsts, ih, cloneConsts, List.cons_append]

theorem copyOf_own (type : FunctionType) (attributes : AttributeList) (self : HostSym)
    (blocks : List (HostBlock × HBlock)) :
    (copyOf g f type attributes self blocks).operands ++ (copyOf g f type attributes self blocks).prefixData.toList =
      cloneConsts (g, self) (f.operands ++ f.prefixData.toList) := by
  rw [cloneConsts_append]
  cases hp : f.prefixData <;> simp [copyOf, hp, cloneConsts]

theorem assign_isSome {K V : Type} [DecidableEq K] {l : List (K × V)} {keys : List K} (hkeys : l.map Prod.fst = keys) :
    ∀ k ∈ keys, (assign l k).isSome := by
  intro k hk
  exact Option.isSome_iff_ne_none.mpr (Lookups.assign_ne_none (hkeys ▸ hk))

theorem matches_of_named {refNames : List (Nat × HostId)} {cbNames : List (HashCode × HostId)} {bound bound' : Nat}
    (hXrefs : X.refs = assign refNames) (hXstubs : X.cbStubs = assign cbNames)
    (hoff : Off (callName none 1) (fun _ => none) env)
    (hrefs : Named (fun r => .addr (.guest r)) refNames bound env)
    (hstubs : Named (fun h => .addr (.cbStub h)) cbNames bound' env)
    (hargs : ∀ i, i < gargs.length → (∀ x, X.args i = .inst x → x.owner = none) ∧
      evalValue E.sem hostSymbols args env (X.args i) = gargs[i]?) :
    Matches E X gargs args (fun _ => none) env where
  body := fun n => hoff _ (fun i h => by cases congrArg HostId.owner h)
  refs := by
    intro r x hx
    rw [hXrefs] at hx
    obtain ⟨howner, _, hval⟩ := hrefs r x (assign_mem hx)
    exact ⟨howner, hval⟩
  cbStubs := by
    intro h x hx
    rw [hXstubs] at hx
    obtain ⟨howner, _, hval⟩ := hstubs h x (assign_mem hx)
    exact ⟨howner, hval⟩
  args := hargs

def RefPad (P : Pads Sc) (ptr : Val Sc) (vs : List (Val Sc)) : Prop :=
  vs ≠ [] → ∃ j, ptr = .addr (.pad j) ∧ P[j]? = some (.array ptrTy vs.length, .agg vs)

section Plain

variable {retPad argPad refPad stubPad : Val Sc} {gen : Generated}

variable (O fuel call fcp) in
theorem padFields_refPad {K : Type} {keys : List K} {val : K → Val Sc} {ptr : HValue} {padPtr : Val Sc} (pos : Nat)
    (hptr : evalValue E.sem hostSymbols args env ptr = some padPtr) (hpad : RefPad P padPtr (keys.map val)) :
    ∃ env', Computes E O fuel call fcp args P none pos env (padFields pos ptr keys) env' ∧
      Named val (fieldNames pos keys) (pos + (padFields pos ptr keys).length) env' := by
  refine padFields_run hptr (fun hkeys => ?_)
  obtain ⟨j, hj, hval⟩ := hpad (by simpa using hkeys)
  exact ⟨j, hj, by simpa using hval⟩

theorem genPlain_run (hgrt : I.config.useGRT = false) (harg : info.stubType.arg = argType f.type)
    (h : genPlain I g f info = .ok gen) (hpads : CallPads P retPad argPad f.type gargs)
    (hrefPad : RefPad P refPad (info.extRefArgs.map (fun r => .addr (.guest r))))
    (hstubPad : RefPad P stubPad (info.cbStubArgs.map (fun k => .addr (.cbStub k)))) :
    ∃ X entry, Made I g f info X entry gen.stub ∧ gen.stub.type = hstubType I ∧
      Enters E O fuel call fcp X P gargs [retPad, argPad, refPad, stubPad] entry := by
  obtain ⟨a, ha, h⟩ := bind_eq_ok.mp h
  obtain ⟨blocks, hblocks, h⟩ := bind_eq_ok.mp h
  cases h
  cases hstubArgs_eq ha
  have hdebug : Computes E O fuel call fcp [retPad, argPad, refPad, stubPad] P none 1 (fun _ => none)
      (debugCode I info) (fun _ => none) := debugCode_run (by simp [hstubType, ptrsType, hgrt])
  obtain ⟨env₁, hargs, hfields⟩ : ∃ env', Computes E O fuel call fcp [retPad, argPad, refPad, stubPad] P none _
      (fun _ => none) (argsCode f info (1 + (debugCode I info).length)) env' ∧ _ := argsCode_run harg hpads rfl
  have hentry := hdebug.append hargs
  have hrefPtr : evalValue E.sem hostSymbols [retPad, argPad, refPad, stubPad] env₁ (.arg 2) = some refPad := rfl
  obtain ⟨env₂, hrefs, hrefNames⟩ := padFields_refPad O fuel call fcp (1 + (debugCode I info ++
    argsCode f info (1 + (debugCode I info).length)).length) hrefPtr hrefPad
  have hstubPtr : evalValue E.sem hostSymbols [retPad, argPad, refPad, stubPad] env₂ (.arg 3) = some stubPad := rfl
  obtain ⟨env₃, hstubs, hstubNames⟩ := padFields_refPad O fuel call fcp _ hstubPtr hstubPad
  have hcode := hentry.append (hrefs.append hstubs)
  refine ⟨_, _, ⟨assign_isSome (Lookups.fieldNames_keys _ _), hblocks, copyOf_own _ _ _ _⟩, rfl, env₃, ?_, ?_⟩
  · rw [List.append_assoc]
    exact hcode.run
  · refine matches_of_named rfl rfl hcode.off (hrefNames.off (Nat.le_refl _) hstubs.off) hstubNames (fun i hi => ?_)
    obtain ⟨hlt, hval⟩ := hfields i hi
    refine ⟨fun x hx => by cases hx; rfl, (off_entry ?_ (hrefs.append hstubs).off).trans hval⟩
    rw [List.length_append]
    omega

end Plain

section Tables

variable {retPad argPad : Val Sc} {gen : Generated}

variable (I O) in
structure TablesLaid : Prop where
  refs : ∀ r i, I.symtbl.greftbl.find? r = some i → O.guest.extreftbl[i.uid]? = some (some r)
  stubs : ∀ h s, I.symtbl.callbackStubs.find? h = some s → O.guest.cbstubtbl[s.uid]? = some (some h)

theorem grefUids_inTable {uids : List Nat} (hlaid : TablesLaid O I) (h : I.grefUids info = .ok uids) :
    InTable O .extreftbl (fun r => (.addr (.guest r) : Val Sc)) info.extRefArgs uids := by
  refine (mapM_eq_ok.mp h).imp (fun r uid hr => ?_)
  split at hr
  next i hi =>
    cases hr
    simp [tableEntry, hlaid.refs r i hi]
  next => cases hr

theorem cbStubUids_inTable {uids : List Nat} (hlaid : TablesLaid O I) (h : I.cbStubUids info = .ok uids) :
    InTable O .cbstubtbl (fun k => (.addr (.cbStub k) : Val Sc)) info.cbStubArgs uids := by
  refine (mapM_eq_ok.mp h).imp (fun k uid hk => ?_)
  split at hk
  next s hs =>
    cases hk
    simp [tableEntry, hlaid.stubs k s hs]
  next => cases hk

theorem genGrt_run (hgrt : I.config.useGRT = true) (harg : info.stubType.arg = argType f.type)
    (h : genGrt I g f info = .ok gen) (hpads : CallPads P retPad argPad f.type gargs) (hlaid : TablesLaid O I) :
    ∃ X entry, Made I g f info X entry gen.stub ∧ gen.stub.type = hstubType I ∧
      Enters E O fuel call fcp X P gargs [retPad, argPad] entry := by
  obtain ⟨a, ha, h⟩ := bind_eq_ok.mp h
  obtain ⟨uids, huids, h⟩ := bind_eq_ok.mp h
  obtain ⟨uids', huids', h⟩ := bind_eq_ok.mp h
  obtain ⟨blocks, hblocks, h⟩ := bind_eq_ok.mp h
  cases h
  cases hstubArgs_eq ha
  have hdebug : Computes E O fuel call fcp [retPad, argPad] P none 1 (fun _ => none)
      (debugCode I info) (fun _ => none) := debugCode_run (by simp [hstubType, ptrsType, hgrt])
  obtain ⟨env₁, hargs, hfields⟩ : ∃ env', Computes E O fuel call fcp [retPad, argPad] P none _
      (fun _ => none) (argsCode f info (1 + (debugCode I info).length)) env' ∧ _ := argsCode_run harg hpads rfl
  have hentry := hdebug.append hargs
  obtain ⟨env₂, hrefs, hrefNames⟩ : ∃ env', Computes E O fuel call fcp [retPad, argPad] P none
      (1 + (debugCode I info ++ argsCode f info (1 + (debugCode I info).length)).length) env₁ _ env' ∧ _ :=
    tableEntries_run (grefUids_inTable hlaid huids)
  obtain ⟨env₃, hstubs, hstubNames⟩ : ∃ env', Computes E O fuel call fcp [retPad, argPad] P none _ env₂ _ env' ∧ _ :=
    tableEntries_run (cbStubUids_inTable hlaid huids')
  have hcode := hentry.append (hrefs.append hstubs)
  refine ⟨_, _, ⟨assign_isSome (Lookups.entryNames_keys _ _), hblocks, copyOf_own _ _ _ _⟩, rfl, env₃, ?_, ?_⟩
  · rw [List.append_assoc]
    exact hcode.run
  · refine matches_of_named rfl rfl hcode.off (hrefNames.off (Nat.le_refl _) hstubs.off) hstubNames (fun i hi => ?_)
    obtain ⟨hlt, hval⟩ := hfields i hi
    refine ⟨fun x hx => by cases hx; rfl, (off_entry ?_ (hrefs.append hstubs).off).trans hval⟩
    rw [List.length_append]
    omega

theorem copyOf_interface (self : HostSym) (blocks : List (HostBlock × HBlock)) :
    (copyOf g f f.type ⟨[] :: f.attributes.sets.tail⟩ self blocks).interface = f.interface := by
  have hattrs : (⟨[] :: f.attributes.sets.tail⟩ : AttributeList).getAttributes = f.attributes.getAttributes := by
    funext i
    cases hsets : f.attributes.sets <;> simp [AttributeList.getAttributes, hsets]
  simp only [Function.interface, copyOf, hattrs]

/-- In the fast call path the copy takes the arguments as they are. -/
theorem genFcp_run (h : genFcp I g f info = .ok gen) (hlaid : TablesLaid O I) :
    gen.stub = fcpStub I g f info ∧ ∃ X entry hf, gen.copy = some hf ∧ Made I g f info X entry hf ∧
      hf.type = f.type ∧ hf.interface = f.interface ∧ Enters E O fuel call fcp X P gargs gargs entry := by
  unfold genFcp at h
  split at h
  next =>
    obtain ⟨uids, huids, h⟩ := bind_eq_ok.mp h
    obtain ⟨uids', huids', h⟩ := bind_eq_ok.mp h
    obtain ⟨blocks, hblocks, h⟩ := bind_eq_ok.mp h
    cases h
    obtain ⟨env₁, hrefs, hrefNames⟩ : ∃ env', Computes E O fuel call fcp gargs P none 1 (fun _ => none) _ env' ∧ _ :=
      fcpTableEntries_run (grefUids_inTable hlaid huids)
    obtain ⟨env₂, hstubs, hstubNames⟩ : ∃ env', Computes E O fuel call fcp gargs P none _ env₁ _ env' ∧ _ :=
      fcpTableEntries_run (cbStubUids_inTable hlaid huids')
    have hcode := hrefs.append hstubs
    refine ⟨rfl, _, _, _, rfl, ⟨assign_isSome (Lookups.fcpEntryNames_keys _ _), hblocks, copyOf_own _ _ _ _⟩, rfl, ?_,
      env₂, hcode.run, ?_⟩
    · exact copyOf_interface _ _
    · refine matches_of_named rfl rfl hcode.off (hrefNames.off (Nat.le_refl _) hstubs.off) hstubNames (fun i hi => ?_)
      exact ⟨(fun x hx => by cases hx), rfl⟩
  next => cases h

end Tables

end Comulator.GeneratedRun
