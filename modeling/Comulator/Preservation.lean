import Comulator.Offloading

namespace Comulator.Preservation

open Fallible Types Ir TypeHash Symtbl HostIr TakeOut ChopOff Analyze AnalyzeSpec Lookups Exec Simulation ExecRules
  Compose CallbackRun InstRun BodyRun GeneratedRun StubRun CallerRun Visible Offloading

structure Conditions (H : HashOps) (m : Module) : Prop where
  signatures : CollisionFree H m
  convention : ∀ g f, m.function? g = some f → ∀ c ∈ Module.calls f, c.callingConv = 0
  visible : ∀ g f, Accepted H m .null g → m.function? g = some f → Visible m f

structure Passes (H : HashOps) (L : Layout) (m : Module) (uid : Nat) (config guestConfig : Config)
    (O : Offloaded) : Prop where
  host : takeOut (analyzed H L m config .null uid) = .ok O.host
  guest : chopOff m guestConfig .null (analyze H L m .null uid) = some O.guest
  grt : guestConfig.useGRT = config.useGRT

variable {H : HashOps} {L : Layout} {m : Module} {uid : Nat} {config guestConfig : Config} {O : Offloaded}
variable {g : Nat} {f : GFunction} {info : FuncInfo} {scan : Scan} {h : HashCode}

section Made

theorem Passes.unique {O' : Offloaded} (hp : Passes H L m uid config guestConfig O)
    (hp' : Passes H L m uid config guestConfig O') : O = O' := by
  obtain ⟨M, G⟩ := O
  obtain ⟨M', G'⟩ := O'
  cases hp.host.symm.trans hp'.host
  cases hp.guest.symm.trans hp'.guest
  rfl

theorem Conditions.suited (hc : Conditions H m) : Suited H m .null :=
  ⟨hc.signatures, hc.convention, hc.visible, noneCalled_null m⟩

theorem Passes.offloads (hp : Passes H L m uid config guestConfig O) : Offloads H L m .null uid config guestConfig O :=
  ⟨hp.host, hp.guest, hp.grt, fun _ _ => Option.some_ne_none false |>.symm⟩

theorem Passes.laid (hp : Passes H L m uid config guestConfig O) (hgrt : config.useGRT = true) :
    TablesLaid O (analyzed H L m config .null uid) := hp.offloads.laid hgrt

/-- A chopped function is one of the table. -/
theorem Passes.chopped (hp : Passes H L m uid config guestConfig O) {s : Stub}
    (hs : O.guest.chopped.lookup g = some s) : ∃ f info, m.function? g = some f ∧
      (analyze H L m .null uid).functbl.find? g = some info ∧
        chopGfunc guestConfig .null (analyze H L m .null uid) g f info = some s := by
  obtain ⟨f, info, hf, hinfo, hs, _⟩ := hp.offloads.chopped hs
  exact ⟨f, info, hf, hinfo, hs⟩

/-- Every function that is worth it is chopped. -/
theorem Passes.benefits (hp : Passes H L m uid config guestConfig O) :
    ∀ e ∈ calcBenefits m guestConfig .null (analyze H L m .null uid), (O.guest.chopped.lookup e.1).isSome :=
  hp.offloads.benefits

theorem Passes.filled (hp : Passes H L m uid config guestConfig O)
    (hinfo : (analyze H L m .null uid).functbl.find? g = some info) : ∃ f gen, m.function? g = some f ∧
      doHstubcvt (analyzed H L m config .null uid) g f info = .ok gen ∧
      O.host.hfunctbl[info.uid]? = some (.func (.hstub info.uid)) ∧
      O.host.functions.lookup (.hstub info.uid) = some gen.stub ∧
      ∀ copy, gen.copy = some copy → O.host.functions.lookup (.fcpFunc g) = some copy :=
  hp.offloads.filled (Option.some_ne_none false).symm hinfo

end Made

section Completes

theorem feasible_null (hfcp : config.useFCP = true → config.useGRT = true) (hcm : config.useFCPcm = false) :
    Feasible H m config .null := by
  intro g f _ _ _
  refine ⟨hfcp, fun h => ?_, fun _ h => ?_, fun c _ k callee hcall => ?_⟩
  · rw [hcm] at h
    cases h
  · cases h
  · cases hcall.listed

/-- Under the conditions both passes run to their end, with options they can follow. -/
theorem passes_of_feasible (hc : Conditions H m) (L : Layout) (uid : Nat) (hfeasible : Feasible H m config .null)
    (hgrt : guestConfig.useGRT = config.useGRT) : ∃ O, Passes H L m uid config guestConfig O := by
  obtain ⟨O, hp⟩ := offloads_of_feasible hc.suited L uid hfeasible hgrt (fun _ _ => (Option.some_ne_none false).symm)
  exact ⟨O, hp.host, hp.guest, hp.grt⟩

theorem passes_complete (hc : Conditions H m) (L : Layout) (uid : Nat)
    (hfcp : config.useFCP = true → config.useGRT = true) (hcm : config.useFCPcm = false)
    (hgrt : guestConfig.useGRT = config.useGRT) : ∃ O, Passes H L m uid config guestConfig O :=
  passes_of_feasible hc L uid (feasible_null hfcp hcm) hgrt

end Completes

section Entry

variable {Sc W : Type} {E : Setting Sc W} {k : Nat} {P : Pads Sc} {gargs args : List (Val Sc)} {oc call : Caller Sc W}
variable {fcp : Nat → Interface → List (Val Sc) → Run Sc W (Val Sc)} {retPad : Val Sc}

/-- A function and what is made of it do the same. -/
theorem made_sim (hp : Passes H L m uid config guestConfig O) (hc : Conditions H m) (hcm : config.useFCPcm = false)
    (he : Entry H m .null (analyze H L m .null uid) g info f scan h) {X : Copy} {entry : List HInst} {hf : HFunction}
    (hmade : Made (analyzed H L m config .null uid) g f info X entry hf)
    (henters : Enters E O k call fcp X P gargs args entry) (hfollow : Follows oc call fcp (analyzed H L m config .null uid))
    (hlen : gargs.length = f.type.params.length) (hhlen : args.length = hf.type.params.length)
    (hpad : RetReady (analyzed H L m config .null uid) args f.type P retPad) :
    Sim Machine.withPads P (Returned (analyzed H L m config .null uid) f.type P retPad)
      (execFunction E.sem (originalCtx E m oc) gargs f k)
      (execFunction E.sem (hostCtx E O k call fcp) args hf (k + 1)) :=
  Offloading.made_sim hp.offloads hc.suited hcm he hmade henters hfollow hlen hhlen hpad

variable {argPad refs stubs : Val Sc} {l : Level Sc W}

/-- The entry of the host table does what the function does, and stores the
result in the pad it was given. -/
theorem entry_sim (hp : Passes H L m uid config guestConfig O) (hc : Conditions H m) (hfcp : config.useFCP = false)
    (hcm : config.useFCPcm = false) (hinfo : (analyze H L m .null uid).functbl.find? g = some info)
    (hf : m.function? g = some f)
    (hfollow : Follows oc l.guest (callFcp E O k l) (analyzed H L m config .null uid))
    (hpads : EntryPads config.useGRT info P f.type gargs retPad argPad refs stubs) :
    Sim Machine.withPads P (fun a _ P' => Stored P retPad f.type a P')
      (execFunction E.sem (originalCtx E m oc) gargs f k)
      (callEntry E O k l info.uid (entryArgs config.useGRT retPad argPad refs stubs)) :=
  Offloading.entry_sim hp.offloads hc.suited hfcp hcm (Option.some_ne_none false).symm hinfo hf hfollow hpads

end Entry

section Runs

variable {Sc W : Type} (E : Setting Sc W) {k : Nat}

/-- One more level of calls, from what the entries of the table do. -/
theorem composed_follows (hp : Passes H L m uid config guestConfig O) (hc : Conditions H m) {oc : Caller Sc W}
    {l : Level Sc W} {n : Nat} (hoc : oc = originalCall E m k n)
    (hguest : ∀ P s v vs, Sim Machine.withPads P (Same P) (oc s v vs) (l.guest s v vs))
    (hentry : ∀ g f info args, m.function? g = some f → (analyze H L m .null uid).functbl.find? g = some info →
      ∀ Q retPad argPad refs stubs, EntryPads config.useGRT info Q f.type args retPad argPad refs stubs →
        Sim Machine.withPads Q (fun a _ Q' => Stored Q retPad f.type a Q')
          (execFunction E.sem (originalCtx E m oc) args f k)
          (callEntry E O k l info.uid (entryArgs config.useGRT retPad argPad refs stubs)))
    (P : Pads Sc) (s : Interface) (v : Val Sc) (vs : List (Val Sc)) :
    Sim Machine.withPads P (Same P) (originalCall E m k (n + 1) s v vs) (composedCall E m O k l s v vs) :=
  Offloading.composed_follows E hp.offloads hc.suited hoc hguest
    (fun g f info args hf hinfo _ => hentry g f info args hf hinfo) P s v vs

/-- Calls nested to any depth do what they did. -/
theorem level_follows (hp : Passes H L m uid config guestConfig O) (hc : Conditions H m)
    (hfcp : config.useFCP = false) (hcm : config.useFCPcm = false) (n : Nat) :
    ∀ P s v vs, Sim Machine.withPads P (Same P) (originalCall E m k n s v vs) ((level E m O k n).guest s v vs) :=
  Offloading.level_follows E hp.offloads hc.suited hfcp hcm n

end Runs

/-- Without the fast call path, calls of any guest address do after the passes
what they did before, nested to any depth and whatever the guest does that is
not run by its code: the same calls, the same result and the same world. -/
theorem offloading_preserves (H : HashOps) (L : Layout) (m : Module) (uid : Nat) (config guestConfig : Config)
    (hfcp : config.useFCP = false) (hcm : config.useFCPcm = false) (hgrt : guestConfig.useGRT = config.useGRT)
    (hc : Conditions H m) : ∃ O, Passes H L m uid config guestConfig O ∧
      (∀ e ∈ calcBenefits m guestConfig .null (analyze H L m .null uid), (O.guest.chopped.lookup e.1).isSome) ∧
      ∀ (S W : Type) (E : Setting S W) (k n : Nat) (s : Interface) (v : Val S) (args : List (Val S)) (st : Machine S W),
        outcome (originalCall E m k n s v args st) = outcome ((level E m O k n).guest s v args st) := by
  have htables : config.useFCP = true → config.useGRT = true := by
    rw [hfcp]
    intro h
    cases h
  obtain ⟨O, hp⟩ := passes_complete hc L uid htables hcm hgrt
  refine ⟨O, hp, hp.benefits, ?_⟩
  intro S W E k n s v args st
  exact outcome_eq (level_follows E hp hc hfcp hcm n st.pads s v args)

section Example

def wordType : FunctionType := ⟨.integer 32, [.integer 32], false⟩

def forward : GFunction :=
  ⟨wordType, 0, ⟨[]⟩, none, [(0, ⟨[], [⟨0, .call ⟨wordType, 0, ⟨[]⟩, .const (.global 1), [(.integer 32, .arg 0)]⟩⟩], 1,
    .ret (some (.integer 32, .inst 0))⟩)], [], none⟩

def forwardModule : Module := ⟨[.function forward, .function ⟨wordType, 0, ⟨[]⟩, none, [], [], none⟩], by decide⟩

def echo : Setting Unit Unit where
  sem := ⟨fun _ _ _ _ _ => none, fun _ _ _ _ => .undef, fun _ _ _ _ => none, fun _ => none, fun _ _ => false⟩
  guest := fun _ _ args w => .ret (args.headD .undef) w
  known := fun g => g == 0
  recorded := fun _ => true

theorem forward_conditions : Conditions HostTable.sumHash forwardModule where
  signatures := by
    have hall : ∀ s ∈ signatures forwardModule, s = (wordType, ⟨[]⟩) := by decide
    intro s hs t ht _ _ _
    rw [hall s hs, hall t ht]
    exact ⟨rfl, rfl⟩
  convention := by
    intro g f hf c hc
    have hall : ∀ g ∈ forwardModule.functions, ∀ f, forwardModule.function? g = some f →
        ∀ c ∈ Module.calls f, c.callingConv = 0 := by decide
    exact hall g (Module.mem_functions hf) f hf c hc
  visible := by
    intro g f _ hf
    have hvisible : ∀ h ∈ [0, 1].filterMap forwardModule.function?, Visible forwardModule h := by
      intro h hh
      rcases List.mem_cons.mp hh with rfl | hh
      · exact ⟨by decide, by decide, by decide, rfl⟩
      · obtain rfl := List.mem_singleton.mp hh
        exact ⟨by decide, by decide, by decide, rfl⟩
    exact hvisible f (List.mem_filterMap.mpr ⟨g, Module.mem_functions hf, hf⟩)

/-- The function is chopped, and the guest sees both calls. -/
theorem forward_preserved : ∃ O, Passes HostTable.sumHash HostTable.plainLayout forwardModule 7 HostTable.chopAll
      HostTable.chopAll O ∧ (O.guest.chopped.lookup 0).isSome ∧
    outcome ((level echo forwardModule O 1 2).guest forward.interface (.addr (.guest 0)) [.int 32 5] ⟨(), [], []⟩) =
      (.ok (.int 32 5), (), [⟨.addr (.guest 0), [.int 32 5]⟩, ⟨.addr (.guest 1), [.int 32 5]⟩]) := by
  obtain ⟨O, hp, hchopped, hsame⟩ := offloading_preserves HostTable.sumHash HostTable.plainLayout forwardModule 7
    HostTable.chopAll HostTable.chopAll rfl rfl rfl forward_conditions
  refine ⟨O, hp, hchopped (0, _) List.mem_cons_self, ?_⟩
  rw [← hsame]
  rfl

def ownBlock : GFunction :=
  ⟨⟨.pointer 0, [], false⟩, 0, ⟨[]⟩, none, [(0, ⟨[], [], 0, .br 1⟩),
    (1, ⟨[], [], 1, .ret (some (.pointer 0, .const (.wrapper (.blockAddress 1) 0)))⟩)], [], none⟩

def ownBlockModule : Module := ⟨[.function ownBlock], by decide⟩

/-- After the passes it returns the address of a block of the host's. -/
theorem ownBlock_moved : CollisionFree HostTable.sumHash ownBlockModule ∧
    (∀ g f, ownBlockModule.function? g = some f → f.callingConv = 0 ∧ Module.calls f = []) ∧
    ∃ O, Passes HostTable.sumHash HostTable.plainLayout ownBlockModule 7 HostTable.chopAll HostTable.chopAll O ∧
      (O.guest.chopped.lookup 0).isSome ∧
      outcome (originalCall echo ownBlockModule 2 1 ownBlock.interface (.addr (.guest 0)) [] ⟨(), [], []⟩) =
        (.ok (.addr (.wrapped (.blockAddress 1) 0)), (), [⟨.addr (.guest 0), []⟩]) ∧
      outcome ((level echo ownBlockModule O 2 1).guest ownBlock.interface (.addr (.guest 0)) [] ⟨(), [], []⟩) =
        (.ok (.addr (.hostBlock (.hstub 0) 1)), (), [⟨.addr (.guest 0), []⟩]) := by
  refine ⟨?_, ?_, ⟨_, _⟩, ⟨rfl, rfl, rfl⟩, rfl, rfl, rfl⟩
  · intro s hs t ht _ _ _
    rw [List.mem_singleton.mp hs, List.mem_singleton.mp ht]
    exact ⟨rfl, rfl⟩
  · intro g f hf
    obtain rfl := List.mem_singleton.mp (Module.mem_functions hf)
    cases hf
    exact ⟨rfl, rfl⟩

end Example

section Listed

open OperandRun SelfContained

theorem feasible_unlisted {bw : BwList} (hbw : NoneCalled m bw) (hfcp : config.useFCP = false) (hcm : config.useFCPcm = false) :
    Feasible H m config bw := by
  intro g f _ _ _
  rw [← Bool.not_eq_true] at hfcp hcm
  exact ⟨fun h => absurd h hfcp, fun h => absurd h hcm, fun h => absurd h hfcp,
    fun c _ k callee hcall => absurd hcall.listed (hbw k callee hcall.function hcall.plain)⟩

/-- With lists: whatever functions are kept out of the stages and whatever callees are
refused, both passes run to their end and calls do what they did, as long as no callee
is offered to the host and what is chopped off is taken out. -/
theorem listed_preserves (H : HashOps) (L : Layout) (m : Module) (bw : BwList) (uid : Nat) (config guestConfig : Config)
    (hfcp : config.useFCP = false) (hcm : config.useFCPcm = false) (hgrt : guestConfig.useGRT = config.useGRT)
    (hc : Suited H m bw)
    (htaken : ∀ e ∈ calcBenefits m guestConfig bw (analyze H L m bw uid), (bw.funcs e.1).bind FuncBw.takeOut ≠ some false) :
    ∃ O, Offloads H L m bw uid config guestConfig O ∧
      (∀ e ∈ calcBenefits m guestConfig bw (analyze H L m bw uid), (O.guest.chopped.lookup e.1).isSome) ∧
      ∀ (S W : Type) (E : Setting S W) (k n : Nat) (s : Interface) (v : Val S) (args : List (Val S)) (st : Machine S W),
        outcome (originalCall E m k n s v args st) = outcome ((level E m O k n).guest s v args st) := by
  obtain ⟨O, hp⟩ := offloads_of_feasible hc L uid (feasible_unlisted hc.called hfcp hcm) hgrt htaken
  refine ⟨O, hp, hp.benefits, ?_⟩
  intro S W E k n s v args st
  exact outcome_eq (Offloading.level_follows E hp hc hfcp hcm n st.pads s v args)

def pairModule : Module :=
  ⟨[.function forward, .function ⟨wordType, 0, ⟨[]⟩, none, [], [], none⟩,
    .function { forward with
      blocks := [(0, ⟨[], [⟨0, .call ⟨wordType, 0, ⟨[]⟩, .const (.global 3), [(.integer 32, .arg 0)]⟩⟩], 1,
        .ret (some (.integer 32, .inst 0))⟩)] }, .function ⟨wordType, 0, ⟨[]⟩, none, [], [], none⟩], by decide⟩

def pairList : BwList where
  funcs g := if g = 0 then some ⟨none, some true, some true, some true⟩ else none
  callees g := if g = 3 then some false else none
  fcpCmChop _ := false
  fcpCmChopOthers := false

theorem pair_suited : Suited HostTable.sumHash pairModule pairList where
  signatures := by
    have hall : ∀ s ∈ signatures pairModule, s = (wordType, ⟨[]⟩) := by decide
    intro s hs t ht _ _ _
    rw [hall s hs, hall t ht]
    exact ⟨rfl, rfl⟩
  convention := by
    intro g f hf c hc
    have hall : ∀ g ∈ pairModule.functions, ∀ f, pairModule.function? g = some f →
        ∀ c ∈ Module.calls f, c.callingConv = 0 := by decide
    exact hall g (Module.mem_functions hf) f hf c hc
  visible := by
    intro g f _ hf
    have hall : ∀ g ∈ pairModule.functions, ∀ f, pairModule.function? g = some f →
        (∀ v ∈ Module.operands f, ∀ c ∈ valueConsts v, noWrapper c = true) ∧
        (∀ k ∈ Module.calls f, ∀ c ∈ calledConsts k, noWrapper c = true) ∧
        (∀ c ∈ unseen pairModule f, ∀ r ∈ constRefs c, r ∈ registeredRefs pairModule f) ∧
        noSymbols (f.operands ++ f.prefixData.toList) = true := by decide
    obtain ⟨hplain, hcalled, hregistered, hown⟩ := hall g (Module.mem_functions hf) f hf
    exact ⟨hplain, hcalled, hregistered, hown⟩
  called := by
    intro k callee _ _ h
    unfold pairList at h
    dsimp only at h
    split at h <;> cases h

/-- The first function is chopped, the second is not, and both calls are as they were. -/
theorem pair_preserved : ∃ O, Offloads HostTable.sumHash HostTable.plainLayout pairModule pairList 7 HostTable.chopAll
      HostTable.chopAll O ∧ (O.guest.chopped.lookup 0).isSome ∧
    outcome ((level echo pairModule O 1 2).guest forward.interface (.addr (.guest 0)) [.int 32 5] ⟨(), [], []⟩) =
      (.ok (.int 32 5), (), [⟨.addr (.guest 0), [.int 32 5]⟩, ⟨.addr (.guest 1), [.int 32 5]⟩]) := by
  obtain ⟨O, hp, hchopped, hsame⟩ := listed_preserves HostTable.sumHash HostTable.plainLayout pairModule pairList 7
    HostTable.chopAll HostTable.chopAll rfl rfl rfl pair_suited (by decide)
  refine ⟨O, hp, hchopped (0, _) List.mem_cons_self, ?_⟩
  rw [← hsame]
  rfl

end Listed

end Comulator.Preservation
