import Comulator.CalleeList
import Comulator.CallerRun
import Comulator.StubRun
import Comulator.Visible

namespace Comulator.Offloading

open Fallible Types Ir TypeHash Symtbl HostIr TakeOut ChopOff Analyze AnalyzeSpec Lookups Exec Simulation ExecRules
  Compose CallbackRun InstRun BodyRun GeneratedRun StubRun CallerRun Visible

structure Suited (H : HashOps) (m : Module) (bw : BwList) : Prop where
  signatures : CollisionFree H m
  convention : ∀ g f, m.function? g = some f → ∀ c ∈ Module.calls f, c.callingConv = 0
  visible : ∀ g f, Accepted H m bw g → m.function? g = some f → Visible m f
  called : NoneCalled m bw

structure Offloads (H : HashOps) (L : Layout) (m : Module) (bw : BwList) (uid : Nat) (config guestConfig : Config)
    (O : Offloaded) : Prop where
  host : takeOut (analyzed H L m config bw uid) = .ok O.host
  guest : chopOff m guestConfig bw (analyze H L m bw uid) = some O.guest
  grt : guestConfig.useGRT = config.useGRT
  taken : ∀ e ∈ calcBenefits m guestConfig bw (analyze H L m bw uid), (bw.funcs e.1).bind FuncBw.takeOut ≠ some false

variable {H : HashOps} {L : Layout} {m : Module} {bw : BwList} {uid : Nat} {config guestConfig : Config} {O : Offloaded}
variable {g : Nat} {f : GFunction} {info : FuncInfo} {scan : Scan} {h : HashCode}

section Made

theorem chopOff_cbStubs {bw : BwList} {t : Symtbl} {G : GuestModule} (hG : chopOff m config bw t = some G) :
    G.cbStubs = genCbStubs config t := by
  obtain ⟨chopped, _, hguest⟩ := Option.bind_eq_some_iff.mp hG
  cases hguest
  rfl

theorem Offloads.laid (hp : Offloads H L m bw uid config guestConfig O) (hgrt : config.useGRT = true) :
    TablesLaid O (analyzed H L m config bw uid) := by
  have hwf := analyze_wellFormed H L m bw uid
  obtain ⟨chopped, _, hguest⟩ := Option.bind_eq_some_iff.mp hp.guest
  rw [hp.grt.trans hgrt] at hguest
  have hguest := Option.some.inj hguest
  have hrefs : O.guest.extreftbl = genExtreftbl (analyze H L m bw uid) := by rw [← hguest]; rfl
  have hstubs : O.guest.cbstubtbl = genCbstubtbl (analyze H L m bw uid) := by rw [← hguest]; rfl
  constructor
  · intro r i hi
    rw [hrefs]
    exact SymtblSpec.tableOf_get hwf.grefUids (OrderedMap.mem_entries.mpr hi)
  · intro k s hs
    rw [hstubs]
    exact SymtblSpec.tableOf_get hwf.callbackUids (OrderedMap.mem_entries.mpr hs)

/-- A chopped function is one of the table. -/
theorem Offloads.chopped (hp : Offloads H L m bw uid config guestConfig O) {s : Stub}
    (hs : O.guest.chopped.lookup g = some s) : ∃ f info, m.function? g = some f ∧
      (analyze H L m bw uid).functbl.find? g = some info ∧
        chopGfunc guestConfig bw (analyze H L m bw uid) g f info = some s ∧
          (bw.funcs g).bind FuncBw.takeOut ≠ some false := by
  obtain ⟨chopped, hchopped, hguest⟩ := Option.bind_eq_some_iff.mp hp.guest
  have hguest := Option.some.inj hguest
  rw [← hguest] at hs
  obtain ⟨e, he, hmade⟩ := (mapM_some_mem hchopped).2 _ (OrderedMap.mem_of_lookup hs)
  obtain ⟨f, hf, hmade⟩ := Option.bind_eq_some_iff.mp hmade
  obtain ⟨s', hs', hmade⟩ := Option.bind_eq_some_iff.mp hmade
  cases hmade
  exact ⟨f, e.2, hf, OrderedMap.mem_entries.mp (List.mem_filter.mp he).1, hs', hp.taken e he⟩

/-- Every function that is worth it is chopped. -/
theorem Offloads.benefits (hp : Offloads H L m bw uid config guestConfig O) :
    ∀ e ∈ calcBenefits m guestConfig bw (analyze H L m bw uid), (O.guest.chopped.lookup e.1).isSome := by
  intro e he
  obtain ⟨chopped, hchopped, hguest⟩ := Option.bind_eq_some_iff.mp hp.guest
  have hguest := Option.some.inj hguest
  obtain ⟨r, hr, hmade⟩ := (mapM_some_mem hchopped).1 e he
  obtain ⟨f, _, hmade⟩ := Option.bind_eq_some_iff.mp hmade
  obtain ⟨s, _, hmade⟩ := Option.bind_eq_some_iff.mp hmade
  cases hmade
  rw [← hguest]
  exact List.lookup_isSome_iff.mpr ⟨_, hr, beq_self_eq_true _⟩

theorem Offloads.filled (hp : Offloads H L m bw uid config guestConfig O)
    (htaken : (bw.funcs g).bind FuncBw.takeOut ≠ some false)
    (hinfo : (analyze H L m bw uid).functbl.find? g = some info) : ∃ f gen, m.function? g = some f ∧
      doHstubcvt (analyzed H L m config bw uid) g f info = .ok gen ∧
      O.host.hfunctbl[info.uid]? = some (.func (.hstub info.uid)) ∧
      O.host.functions.lookup (.hstub info.uid) = some gen.stub ∧
      ∀ copy, gen.copy = some copy → O.host.functions.lookup (.fcpFunc g) = some copy := by
  have hfilled := HostTable.genHfuncs_filled (HostTable.takeOut_genHfuncs hp.host)
    (analyze_wellFormed H L m bw uid).functionUids hinfo
  unfold HostTable.Filled at hfilled
  have hblack : (analyzed H L m config bw uid).blackList g ≠ true := fun h => htaken (of_decide_eq_true h)
  rwa [if_neg hblack] at hfilled

end Made

section Completes

theorem ok_of_failsOnly {α : Type} {x : Except Error α} (hx : FailsOnly (fun _ => False) x) : ∃ a, x = .ok a := by
  cases x with
  | ok a => exact ⟨a, rfl⟩
  | error e => exact absurd rfl (hx e)

theorem chopOff_completes (H : HashOps) (L : Layout) (m : Module) (bw : BwList) (uid : Nat) (config : Config) :
    ∃ G, chopOff m config bw (analyze H L m bw uid) = some G := by
  have hwf := analyze_wellFormed H L m bw uid
  have hall : ∀ e ∈ calcBenefits m config bw (analyze H L m bw uid), ∃ r : Nat × Stub, (do
      let f ← m.function? e.1
      let s ← chopGfunc config bw (analyze H L m bw uid) e.1 f e.2
      return (e.1, s)) = some r := by
    intro e he
    obtain ⟨f, scan, h, hentry⟩ := hwf.entries e.1 e.2 (OrderedMap.mem_entries.mp (List.mem_filter.mp he).1)
    have hstubs : e.2.cbStubArgs.all (fun h => ((analyze H L m bw uid).callbackStubs.find? h).isSome) = true := by
      apply List.all_eq_true.mpr
      intro k hk
      rw [hentry.stubs] at hk
      exact Option.isSome_iff_ne_none.mpr (hentry.callbacks k hk)
    rw [hentry.function]
    simp only [Option.bind_eq_bind, Option.bind_some, chopGfunc, hstubs, Bool.or_true, if_true]
    exact ⟨_, rfl⟩
  obtain ⟨chopped, hchopped⟩ := mapM_some_of_mem hall
  exact ⟨_, Option.bind_eq_some_iff.mpr ⟨chopped, hchopped, rfl⟩⟩

/-- Under the conditions both passes run to their end, with options they can follow. -/
theorem offloads_of_feasible (hc : Suited H m bw) (L : Layout) (uid : Nat) (hfeasible : Feasible H m config bw)
    (hgrt : guestConfig.useGRT = config.useGRT)
    (htaken : ∀ e ∈ calcBenefits m guestConfig bw (analyze H L m bw uid), (bw.funcs e.1).bind FuncBw.takeOut ≠ some false) :
    ∃ O, Offloads H L m bw uid config guestConfig O := by
  have hwf := analyze_wellFormed H L m bw uid
  obtain ⟨G, hG⟩ := chopOff_completes H L m bw uid guestConfig
  have hstubs : (⟨⟨[], none, []⟩, G⟩ : Offloaded).guest.cbStubs =
      genCbStubs guestConfig (analyze H L m bw uid) := chopOff_cbStubs hG
  obtain ⟨M, hM⟩ := ok_of_failsOnly (takeOut_fails (P := analyzed H L m config bw uid)
    (q := fun _ => False) (lookupsSucceed_iff.mpr hfeasible) (by
    intro g info hinfo
    obtain ⟨f, scan, h, he⟩ := hwf.entries g info hinfo
    have harg := (stubType_types hc.signatures he).2
    refine ⟨f, he.function, fun hfound => doHstubcvt_fails hfound ?_ (fun X hX => ?_)⟩
    · rw [harg, argType]
      cases f.type.params <;> simp
    · exact bodyFails_of_seen he.function he.defined (scanFunction_scanned he.scanned).accepted
        (functionSeen hc.signatures hc.called hstubs he (hc.convention g f he.function) (hc.visible g f he.accepted he.function)
          (fun r hr => Option.isSome_iff_ne_none.mpr (hX r hr)))))
  exact ⟨⟨M, G⟩, hM, hG, hgrt, htaken⟩

end Completes

section Entry

variable {Sc W : Type} {E : Setting Sc W} {k : Nat} {P : Pads Sc} {gargs args : List (Val Sc)} {oc call : Caller Sc W}
variable {fcp : Nat → Interface → List (Val Sc) → Run Sc W (Val Sc)} {retPad : Val Sc}

/-- A function and what is made of it do the same. -/
theorem made_sim (hp : Offloads H L m bw uid config guestConfig O) (hc : Suited H m bw) (hcm : config.useFCPcm = false)
    (he : Entry H m bw (analyze H L m bw uid) g info f scan h) {X : Copy} {entry : List HInst} {hf : HFunction}
    (hmade : Made (analyzed H L m config bw uid) g f info X entry hf)
    (henters : Enters E O k call fcp X P gargs args entry) (hfollow : Follows oc call fcp (analyzed H L m config bw uid))
    (hlen : gargs.length = f.type.params.length) (hhlen : args.length = hf.type.params.length)
    (hpad : RetReady (analyzed H L m config bw uid) args f.type P retPad) :
    Sim Machine.withPads P (Returned (analyzed H L m config bw uid) f.type P retPad)
      (execFunction E.sem (originalCtx E m oc) gargs f k)
      (execFunction E.sem (hostCtx E O k call fcp) args hf (k + 1)) := by
  have hvisible := hc.visible g f he.accepted he.function
  have hseen : FunctionSeen O (analyzed H L m config bw uid) X f :=
    functionSeen hc.signatures hc.called (chopOff_cbStubs hp.guest) he (hc.convention g f he.function) hvisible hmade.refs
  obtain ⟨env, hrun, hm⟩ := henters
  have hwhite : ∀ b ∈ f.blocks, ∀ i ∈ b.2.insts, ∀ c g, i.op = .call c → (analyzed H L m config bw uid).route c ≠ .white g :=
    fun b hb i hi c g hop => CalleeList.not_route_white he.accepted he.function (mem_calls hb hi hop)
  refine function_sim (I := analyzed H L m config bw uid) hcm hwhite he.function hfollow hseen hlen hhlen hpad
    hmade.body ?_ hrun hm
  obtain ⟨vs, hvs⟩ : ∃ vs, evalConsts E.sem hostSymbols (cloneConsts (g, X.hfunc) _) = some vs :=
    cloneConsts_evaluates E.sem _ hvisible.own
  rw [hmade.own, hvs]
  exact Option.some_ne_none _

variable {argPad refs stubs : Val Sc} {l : Level Sc W}

theorem callEntry_stub {uid : Nat} {hf : HFunction} (htbl : O.host.hfunctbl[uid]? = some (.func (.hstub uid)))
    (hstub : O.host.functions.lookup (.hstub uid) = some hf) :
    callEntry E O k l uid args = execFunction E.sem (hostCtx E O k l.guest (callFcp E O k l)) args hf (k + 1) := by
  unfold callEntry
  rw [htbl]
  simp only [hstub]

/-- The entry of the host table does what the function does, and stores the
result in the pad it was given. -/
theorem entry_sim (hp : Offloads H L m bw uid config guestConfig O) (hc : Suited H m bw) (hfcp : config.useFCP = false)
    (hcm : config.useFCPcm = false) (htaken : (bw.funcs g).bind FuncBw.takeOut ≠ some false)
    (hinfo : (analyze H L m bw uid).functbl.find? g = some info) (hf : m.function? g = some f)
    (hfollow : Follows oc l.guest (callFcp E O k l) (analyzed H L m config bw uid))
    (hpads : EntryPads config.useGRT info P f.type gargs retPad argPad refs stubs) :
    Sim Machine.withPads P (fun a _ P' => Stored P retPad f.type a P')
      (execFunction E.sem (originalCtx E m oc) gargs f k)
      (callEntry E O k l info.uid (entryArgs config.useGRT retPad argPad refs stubs)) := by
  obtain ⟨f', scan, h, he⟩ := (analyze_wellFormed H L m bw uid).entries g info hinfo
  cases hf.symm.trans he.function
  obtain ⟨f', gen, hf', hgen, htbl, hstub, _⟩ := hp.filled htaken hinfo
  cases hf.symm.trans hf'
  have harg := (stubType_types hc.signatures he).2
  have hentered : ∃ X entry, Made (analyzed H L m config bw uid) g f info X entry gen.stub ∧
      gen.stub.type = hstubType (analyzed H L m config bw uid) ∧
      Enters E O k l.guest (callFcp E O k l) X P gargs (entryArgs config.useGRT retPad argPad refs stubs) entry := by
    cases hgrt : config.useGRT with
    | true =>
        have hgen : genGrt (analyzed H L m config bw uid) g f info = .ok gen := by
          simpa [doHstubcvt, analyzed, hgrt, hfcp] using hgen
        exact genGrt_run hgrt harg hgen hpads.call (hp.laid hgrt)
    | false =>
        have hgen : genPlain (analyzed H L m config bw uid) g f info = .ok gen := by
          simpa [doHstubcvt, analyzed, hgrt, hfcp] using hgen
        exact genPlain_run hgrt harg hgen hpads.call (hpads.refs hgrt) (hpads.stubs hgrt)
  obtain ⟨X, entry, hmade, htype, henters⟩ := hentered
  have hready : RetReady (analyzed H L m config bw uid) (entryArgs config.useGRT retPad argPad refs stubs) f.type P
      retPad := fun _ hret => ⟨rfl, hpads.call.ret hret⟩
  have hhlen : (entryArgs config.useGRT retPad argPad refs stubs).length = gen.stub.type.params.length := by
    rw [htype]
    cases hgrt : config.useGRT <;> simp [hstubType, ptrsType, analyzed, entryArgs, hgrt]
  rw [callEntry_stub htbl hstub]
  refine (made_sim hp hc hcm he hmade henters hfollow hpads.call.length hhlen hready).mono ?_
  intro a b P' hreturned
  rwa [Returned, if_neg (by simp [analyzed, hfcp])] at hreturned

/-- A call with another number of arguments than the function has goes nowhere. -/
theorem execFunction_stuck {γ ι β : Type} [DecidableEq ι] [DecidableEq β] {C : Ctx γ Sc W} {f : Function γ ι β}
    (hlen : args.length ≠ f.type.params.length) (n : Nat) (s : Machine Sc W) :
    execFunction E.sem C args f n s = .error .stuck s := by
  unfold execFunction
  cases evalConsts E.sem C.toSymbols (f.operands ++ f.prefixData.toList) with
  | none => rfl
  | some vs =>
      rw [decide_eq_false hlen]
      rfl

/-- A chopped function does what the function did. -/
theorem chopped_follows (hp : Offloads H L m bw uid config guestConfig O) (hc : Suited H m bw)
    (hf : m.function? g = some f) (hinfo : (analyze H L m bw uid).functbl.find? g = some info) {s : Stub}
    (hs : chopGfunc guestConfig bw (analyze H L m bw uid) g f info = some s)
    (hentry : ∀ Q retPad argPad refs stubs, EntryPads config.useGRT info Q f.type args retPad argPad refs stubs →
      Sim Machine.withPads Q (fun a _ Q' => Stored Q retPad f.type a Q')
        (execFunction E.sem (originalCtx E m oc) args f k)
        (callEntry E O k l info.uid (entryArgs config.useGRT retPad argPad refs stubs))) (i : Interface) :
    Sim Machine.withPads P (Same P) (callFunction E (originalCtx E m oc) f k i args)
      (callFunction E (stubCtx l.guest (enterHost E O k l)) s (k + 1) i args) := by
  obtain ⟨f', scan, h, he⟩ := (analyze_wellFormed H L m bw uid).entries g info hinfo
  cases hf.symm.trans he.function
  obtain ⟨hret, harg⟩ := stubType_types hc.signatures he
  have hinterface : s.interface = f.interface := by rw [chopGfunc_eq hs]; rfl
  have htype : s.type = f.type := by rw [chopGfunc_eq hs]; rfl
  unfold callFunction
  rw [hinterface]
  refine Same.sim_bind (require_sim _) (fun _ => ?_)
  by_cases hlen : args.length = f.type.params.length
  · refine chopped_sim k hs hret harg hlen (fun _ _ _ hx hvoid => execFunction_void hf hvoid hx) ?_
    intro Q retPad argPad refs stubs hpads
    rw [hp.grt] at hpads ⊢
    exact hentry Q retPad argPad refs stubs hpads
  · intro t
    rw [execFunction_stuck hlen]
    exact ⟨P, execFunction_stuck (htype ▸ hlen) _ _⟩

end Entry

section Runs

variable {Sc W : Type} (E : Setting Sc W) {k : Nat}

theorem definedAt_eq_some {v : Val Sc} (hv : definedAt E m v = some (g, f)) :
    m.function? g = some f ∧ v = .addr (.guest g) ∧ E.known g = true := by
  unfold definedAt at hv
  split at hv
  next g' =>
    split at hv
    next f' hf' =>
      split at hv
      next hknown =>
        cases hv
        rw [Bool.and_eq_true] at hknown
        exact ⟨hf', rfl, hknown.1⟩
      next => cases hv
    next => cases hv
  next => cases hv

/-- One more level of calls, from what the entries of the table do. -/
theorem composed_follows (hp : Offloads H L m bw uid config guestConfig O) (hc : Suited H m bw) {oc : Caller Sc W}
    {l : Level Sc W} {n : Nat} (hoc : oc = originalCall E m k n)
    (hguest : ∀ P s v vs, Sim Machine.withPads P (Same P) (oc s v vs) (l.guest s v vs))
    (hentry : ∀ g f info args, m.function? g = some f → (analyze H L m bw uid).functbl.find? g = some info →
      (bw.funcs g).bind FuncBw.takeOut ≠ some false → ∀ Q retPad argPad refs stubs, EntryPads config.useGRT info Q f.type args retPad argPad refs stubs →
        Sim Machine.withPads Q (fun a _ Q' => Stored Q retPad f.type a Q')
          (execFunction E.sem (originalCtx E m oc) args f k)
          (callEntry E O k l info.uid (entryArgs config.useGRT retPad argPad refs stubs)))
    (P : Pads Sc) (s : Interface) (v : Val Sc) (vs : List (Val Sc)) :
    Sim Machine.withPads P (Same P) (originalCall E m k (n + 1) s v vs) (composedCall E m O k l s v vs) := by
  subst hoc
  refine Same.sim_bind (record_sim v vs) (fun _ => ?_)
  cases hv : definedAt E m v with
  | none => exact Same.sim_bind getWorld_sim (fun w => perform_sim hguest _)
  | some d =>
      obtain ⟨g, f⟩ := d
      have hf := (definedAt_eq_some E hv).1
      simp only
      cases hchopped : O.guest.chopped.lookup g with
      | none => exact callFunction_same hguest hf k s
      | some stub =>
          obtain ⟨f', info, hf', hinfo, hs, htaken⟩ := hp.chopped hchopped
          cases hf.symm.trans hf'
          exact chopped_follows hp hc hf hinfo hs (hentry g f info vs hf hinfo htaken) s

theorem hasFcpFunc_of_not (hfcp : config.useFCP = false) (g : Nat) :
    (analyzed H L m config bw uid).hasFcpFunc g = false := by
  simp [Input.hasFcpFunc, analyzed, hfcp]

/-- Calls nested to any depth do what they did. -/
theorem level_follows (hp : Offloads H L m bw uid config guestConfig O) (hc : Suited H m bw)
    (hfcp : config.useFCP = false) (hcm : config.useFCPcm = false) (n : Nat) :
    ∀ P s v vs, Sim Machine.withPads P (Same P) (originalCall E m k n s v vs) ((level E m O k n).guest s v vs) := by
  induction n with
  | zero => exact fun _ _ _ _ => .throw _ (.throw _)
  | succ n ih =>
      intro P s v vs
      refine composed_follows E hp hc rfl ih ?_ P s v vs
      intro g f info args hf hinfo htaken Q retPad argPad refs stubs hpads
      refine entry_sim hp hc hfcp hcm htaken hinfo hf ⟨ih, ?_⟩ hpads
      intro g' hg'
      rw [hasFcpFunc_of_not hfcp] at hg'
      cases hg'

theorem outcome_eq {α : Type} {x y : Run Sc W α} {s : Machine Sc W} (h : Sim Machine.withPads s.pads (Same s.pads) x y) :
    outcome (x s) = outcome (y s) := by
  have hs := h s
  rw [show s.withPads s.pads = s from rfl] at hs
  cases hx : x s with
  | ok a s' =>
      rw [hx] at hs
      obtain ⟨b, p', hy, rfl, _⟩ := hs
      rw [hy]
      rfl
  | error e s' =>
      rw [hx] at hs
      obtain ⟨p', hy⟩ := hs
      rw [hy]
      rfl

end Runs

end Comulator.Offloading
