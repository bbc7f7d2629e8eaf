import Comulator.CalleeList
import Comulator.Preservation

namespace Comulator.FastCalls

open Fallible Types Ir TypeHash Symtbl HostIr TakeOut Analyze AnalyzeSpec Lookups Exec Simulation ExecRules Compose
  CallbackRun OperandRun InstRun BodyRun GeneratedRun GuestSymbols SelfContained StubRun CallerRun Visible Preservation
open Offloading (execFunction_stuck callEntry_stub hasFcpFunc_of_not definedAt_eq_some outcome_eq)

def mode (config : Config) (fcp : Bool) : Config := { config with useGRT := true, useFCP := fcp, useFCPcm := false }

/-- What a module has to be. The stub of the fast call path calls the copy of a
function by the default convention and without attributes. -/
structure FastConditions (H : HashOps) (m : Module) : Prop extends Conditions H m where
  plain : ∀ g f, Accepted H m .null g → m.function? g = some f → f.callingConv = 0 ∧
    ∀ i ≤ f.type.params.length, (f.attributes.getAttributes i).filter Attribute.isAbi = []

def outside {S W : Type} (sem : Sem S W) (guest : Interface → Val S → List (Val S) → W → Behaviour S W) (t : Symtbl) :
    Setting S W where
  sem := sem
  guest := guest
  known := fun g => (t.functbl.find? g).isSome
  recorded
    | .addr (.guest g) => (t.functbl.find? g).isNone
    | _ => true

variable {H : HashOps} {L : Layout} {m : Module} {uid : Nat} {config guestConfig : Config} {O : Offloaded}
variable {g : Nat} {f : GFunction} {info : FuncInfo} {scan : Scan} {h : HashCode}

section Copies

variable {S W : Type} {E : Setting S W} {k : Nat} {P : Pads S} {args : List (Val S)} {oc : Caller S W} {l : Level S W}
variable {retPad argPad : Val S}

theorem forward_agrees (hc : FastConditions H m) (haccepted : Accepted H m .null g) (hf : m.function? g = some f)
    (I : Input) : (forwardCall I g f info).interface.agrees f.interface = true := by
  obtain ⟨hconv, hattrs⟩ := hc.plain g f haccepted hf
  have habi : (forwardCall I g f info).interface.abi = f.interface.abi := by
    apply List.map_congr_left
    intro i hi
    have hle : i ≤ f.type.params.length := Nat.lt_succ_iff.mp (List.mem_range.mp hi)
    exact (hattrs i hle).symm
  simp only [Interface.agrees, habi, Bool.and_eq_true, decide_eq_true_eq, beq_iff_eq, and_true]
  exact ⟨rfl, hconv.symm⟩

theorem generated_fcp {gen : Generated}
    (hgen : doHstubcvt (analyzed H L m (mode config true) .null uid) g f info = .ok gen) :
    genFcp (analyzed H L m (mode config true) .null uid) g f info = .ok gen := hgen

/-- A function and its copy do the same. -/
theorem copy_sim (hp : Passes H L m uid (mode config true) guestConfig O) (hc : Conditions H m)
    (he : Entry H m .null (analyze H L m .null uid) g info f scan h) {gen : Generated} {hf : HFunction}
    (hgen : doHstubcvt (analyzed H L m (mode config true) .null uid) g f info = .ok gen) (hcopy : gen.copy = some hf)
    (hfollow : Follows oc l.guest l.fcp (analyzed H L m (mode config true) .null uid))
    (hlen : args.length = f.type.params.length) :
    Sim Machine.withPads P (Same P) (execFunction E.sem (originalCtx E m oc) args f k)
      (execFunction E.sem (hostCtx E O k l.guest l.fcp) args hf (k + 1)) := by
  obtain ⟨_, X, entry, hf', hcopy', hmade, htype, _, henters⟩ := genFcp_run (generated_fcp hgen) (hp.laid rfl)
  cases hcopy.symm.trans hcopy'
  have hready : RetReady (analyzed H L m (mode config true) .null uid) args f.type P (.undef : Val S) := by
    intro hfcp
    cases hfcp
  exact made_sim hp hc rfl he hmade henters hfollow hlen (by rw [htype]; exact hlen) hready

/-- A call of a copy does what a call of the function does. -/
theorem callFcp_sim (hp : Passes H L m uid (mode config true) guestConfig O) (hc : Conditions H m)
    (hinfo : (analyze H L m .null uid).functbl.find? g = some info) (hf : m.function? g = some f)
    (hfollow : Follows oc l.guest l.fcp (analyzed H L m (mode config true) .null uid)) (s : Interface) :
    Sim Machine.withPads P (Same P) (callFunction E (originalCtx E m oc) f k s args) (callFcp E O k l g s args) := by
  obtain ⟨f', scan, h, he⟩ := (analyze_wellFormed H L m .null uid).entries g info hinfo
  cases hf.symm.trans he.function
  obtain ⟨f', gen, hf', hgen, _, _, hlookup⟩ := hp.filled hinfo
  cases hf.symm.trans hf'
  obtain ⟨_, _, _, copy, hcopy, _, htype, hinterface, _⟩ : _ ∧ ∃ X entry hf, gen.copy = some hf ∧
      Made _ g f info X entry hf ∧ hf.type = f.type ∧ hf.interface = f.interface ∧
        Enters E O k l.guest l.fcp X P args args entry := genFcp_run (generated_fcp hgen) (hp.laid rfl)
  unfold callFcp
  rw [hlookup copy hcopy]
  simp only [callFunction, hinterface]
  refine Same.sim_bind (require_sim _) (fun _ => ?_)
  by_cases hlen : args.length = f.type.params.length
  · exact copy_sim hp hc he hgen hcopy hfollow hlen
  · intro t
    rw [execFunction_stuck hlen]
    exact ⟨P, execFunction_stuck (htype ▸ hlen) _ _⟩

/-- The entry of the table forwards the call to the copy. -/
theorem forward_sim (hp : Passes H L m uid (mode config true) guestConfig O) (hc : FastConditions H m)
    (hinfo : (analyze H L m .null uid).functbl.find? g = some info) (hf : m.function? g = some f)
    (hfollow : Follows oc l.guest l.fcp (analyzed H L m (mode config true) .null uid))
    (hpads : CallPads P retPad argPad f.type args) :
    Sim Machine.withPads P (fun a _ P' => Stored P retPad f.type a P')
      (execFunction E.sem (originalCtx E m oc) args f k) (callEntry E O k l info.uid [retPad, argPad]) := by
  obtain ⟨f', scan, h, he⟩ := (analyze_wellFormed H L m .null uid).entries g info hinfo
  cases hf.symm.trans he.function
  obtain ⟨hret, harg⟩ := stubType_types hc.signatures he
  obtain ⟨f', gen, hf', hgen, htbl, hstub, _⟩ := hp.filled hinfo
  cases hf.symm.trans hf'
  obtain ⟨hforward, _⟩ : gen.stub = fcpStub _ g f info ∧ ∃ X entry hf, gen.copy = some hf ∧
      Made _ g f info X entry hf ∧ hf.type = f.type ∧ hf.interface = f.interface ∧
        Enters E O k l.guest l.fcp X P args args entry := genFcp_run (generated_fcp hgen) (hp.laid rfl)
  rw [callEntry_stub htbl hstub, hforward]
  refine fcpStub_sim k rfl hret harg hpads ?_
  have hcall : Sim Machine.withPads P (Same P)
      (callFunction E (originalCtx E m oc) f k (forwardCall _ g f info).interface args) (callFcp E O k l g _ args) :=
    callFcp_sim hp hc.toConditions hinfo hf hfollow
      (forwardCall (analyzed H L m (mode config true) .null uid) g f info).interface
  simp only [callFunction, forward_agrees hc he.accepted hf] at hcall
  exact hcall

end Copies

section Runs

variable {S W : Type} {sem : Sem S W} {guest : Interface → Val S → List (Val S) → W → Behaviour S W} {k : Nat}

theorem record_offloaded {t : Symtbl} (hinfo : t.functbl.find? g = some info) (args : List (Val S)) :
    record (outside sem guest t) (.addr (.guest g)) args = pure () := by
  have hrecorded : (outside sem guest t).recorded (.addr (.guest g)) = false := by
    simp [outside, hinfo]
  funext s
  rw [record_apply, hrecorded]
  rfl

/-- Calls nested to any depth do what they did, those between the copies too. -/
theorem levels_follow (hp : Passes H L m uid (mode config true) guestConfig O) (hc : FastConditions H m) (n : Nat) :
    Follows (originalCall (outside sem guest (analyze H L m .null uid)) m k n)
      (level (outside sem guest (analyze H L m .null uid)) m O k n).guest
      (level (outside sem guest (analyze H L m .null uid)) m O k n).fcp
      (analyzed H L m (mode config true) .null uid) := by
  induction n with
  | zero => exact ⟨fun _ _ _ _ => .throw _ (.throw _), fun _ _ _ _ _ => .throw _ (.throw _)⟩
  | succ n ih =>
      constructor
      · intro P s v vs
        refine composed_follows _ hp hc.toConditions rfl ih.guest ?_ P s v vs
        intro g f info args hf hinfo Q retPad argPad refs stubs hpads
        exact forward_sim hp hc hinfo hf ih hpads.call
      · intro g hg P s vs
        obtain ⟨_, haccepted, _⟩ := hasFcpFunc_iff.mp hg
        obtain ⟨info, hinfo⟩ := Option.ne_none_iff_exists'.mp
          (((analyze_wellFormed H L m .null uid).functions g).mpr haccepted)
        obtain ⟨f, scan, h, he⟩ := (analyze_wellFormed H L m .null uid).entries g info hinfo
        have hdefined : definedAt (outside sem guest (analyze H L m .null uid)) m (.addr (.guest g)) = some (g, f) := by
          simp [definedAt, he.function, outside, hinfo, he.defined]
        rw [originalCall, record_offloaded hinfo, hdefined]
        exact callFcp_sim hp hc.toConditions hinfo he.function ih s

end Runs

section Entries

variable {S W : Type}

def entryOutcome {α : Type} : EStateM.Result Halt (Machine S W) α → Except Halt (Pads S) × W × List (GuestCall S)
  | .ok _ s => (.ok s.pads, s.world, s.trace)
  | .error e s => (.error e, s.world, s.trace)

/-- Two entries that do what a function does cannot be told apart. -/
theorem entryOutcome_eq {α β : Type} {x : Run S W (Val S)} {y : Run S W α} {z : Run S W β} {s : Machine S W}
    {retPad : Val S} {t : FunctionType}
    (hy : Sim Machine.withPads s.pads (fun a _ Q => Stored s.pads retPad t a Q) x y)
    (hz : Sim Machine.withPads s.pads (fun a _ Q => Stored s.pads retPad t a Q) x z) :
    entryOutcome (y s) = entryOutcome (z s) := by
  have hy := hy s
  have hz := hz s
  rw [show s.withPads s.pads = s from rfl] at hy hz
  cases hx : x s with
  | ok a s' =>
      rw [hx] at hy hz
      obtain ⟨_, Q, hy, hQ⟩ := hy
      obtain ⟨_, R, hz, hR⟩ := hz
      rw [hy, hz, hQ.unique hR]
      rfl
  | error e s' =>
      rw [hx] at hy hz
      obtain ⟨Q, hy⟩ := hy
      obtain ⟨R, hz⟩ := hz
      rw [hy, hz]
      rfl

def EntriesAgree (m : Module) (t : Symtbl) (O O' : Offloaded) (f : GFunction) (info : FuncInfo) : Prop :=
  ∀ (S W : Type) (sem : Sem S W) (guest : Interface → Val S → List (Val S) → W → Behaviour S W) (k n : Nat)
    (retPad argPad : Val S) (args : List (Val S)) (s : Machine S W), CallPads s.pads retPad argPad f.type args →
    entryOutcome (callEntry (outside sem guest t) O k (level (outside sem guest t) m O k n) info.uid [retPad, argPad] s) =
      entryOutcome (callEntry (outside sem guest t) O' k (level (outside sem guest t) m O' k n) info.uid
        [retPad, argPad] s)

theorem entries_agree {guestConfig' : Config} {O' : Offloaded}
    (hp : Passes H L m uid (mode config false) guestConfig O)
    (hp' : Passes H L m uid (mode config true) guestConfig' O') (hc : FastConditions H m)
    (hinfo : (analyze H L m .null uid).functbl.find? g = some info) (hf : m.function? g = some f) :
    EntriesAgree m (analyze H L m .null uid) O O' f info := by
  intro S W sem guest k n retPad argPad args s hpads
  have hcallback : Follows (originalCall (outside sem guest (analyze H L m .null uid)) m k n)
      (level (outside sem guest (analyze H L m .null uid)) m O k n).guest
      (callFcp (outside sem guest (analyze H L m .null uid)) O k
        (level (outside sem guest (analyze H L m .null uid)) m O k n))
      (analyzed H L m (mode config false) .null uid) := by
    refine ⟨level_follows _ hp hc.toConditions rfl rfl n, fun g hg => ?_⟩
    rw [hasFcpFunc_of_not rfl] at hg
    cases hg
  have hentry : EntryPads (mode config false).useGRT info s.pads f.type args retPad argPad .null .null :=
    ⟨hpads, (fun h => by cases h), (fun h => by cases h)⟩
  have hslow := entry_sim hp hc.toConditions rfl rfl hinfo hf hcallback hentry
  have hfast := forward_sim (E := outside sem guest (analyze H L m .null uid)) (k := k)
    (l := level (outside sem guest (analyze H L m .null uid)) m O' k n) hp' hc hinfo hf (levels_follow hp' hc n) hpads
  exact entryOutcome_eq hslow hfast

end Entries

section Occurrences

/-- In the copy of `f`, which starts with its references laid out, an operand
that is not what is called has the value that it has in the guest, where the
value of a function is its guest address. -/
def OperandsKept (I : Input) (O : Offloaded) (g : Nat) (f : GFunction) (info : FuncInfo) : Prop :=
  ∀ (S W : Type) (E : Setting S W) (k : Nat) (call : Caller S W)
    (fcp : Nat → Interface → List (Val S) → Run S W (Val S)) (P : Pads S) (gargs : List (Val S)) (retPad argPad : Val S),
    CallPads P retPad argPad f.type gargs → ∃ X entry hf args, Made I g f info X entry hf ∧
      (O.host.functions.lookup (.hstub info.uid) = some hf ∨ O.host.functions.lookup (.fcpFunc g) = some hf) ∧
      Enters E O k call fcp X P gargs args entry ∧
      ∀ e env, Matches E X gargs args e env → ∀ v ∈ Module.operands f, (∀ md, v ≠ .metadata md) →
        ∀ n dbg i code v', doOperand (site I X n dbg) X.args (i + 1) v = .ok (code, v') →
          ∃ env', Silent Machine.withPads P env' P (execInsts E.sem (hostCtx E O k call fcp) args env code) ∧
            evalValue E.sem hostSymbols args env' v' = evalValue E.sem guestSymbols gargs e v

/-- In what is made for `f`, copies are called where `f` calls a function of the
table at its type, and by the stub that forwards to the copy of `f`. -/
def CalleesRedirected (I : Input) (O : Offloaded) (g : Nat) (f : GFunction) (info : FuncInfo) : Prop :=
  ∀ hf, O.host.functions.lookup (.hstub info.uid) = some hf ∨ O.host.functions.lookup (.fcpFunc g) = some hf →
    ∀ j, AnyInst.inst j ∈ instructions hf → ∀ r, called j.op = some (.fcpFunc r) →
      (∃ c ∈ Module.calls f, c.calledOperand = .const (.global r) ∧ ∃ callee, I.module.function? r = some callee ∧
        callee.type = c.functionType ∧ I.symtbl.functbl.find? r ≠ none) ∨ hf = fcpStub I g f info ∧ r = g

theorem operand_kept (hc : Conditions H m) (he : Entry H m .null (analyze H L m .null uid) g info f scan h)
    {X : Copy} (hrefs : ∀ r ∈ info.extRefArgs, (X.refs r).isSome) {S W : Type} {E : Setting S W} {k : Nat}
    {call : Caller S W} {fcp : Nat → Interface → List (Val S) → Run S W (Val S)} {P : Pads S}
    {gargs args : List (Val S)} (hlen : gargs.length = f.type.params.length) {e : Env Nat S} {env : Env HostId S}
    (hm : Matches E X gargs args e env) {v : GValue} (hv : v ∈ Module.operands f) (hmd : ∀ md, v ≠ .metadata md)
    {n i : Nat} {dbg : Bool} {code : List HInst} {v' : HValue}
    (hop : doOperand (site (analyzed H L m config .null uid) X n dbg) X.args (i + 1) v = .ok (code, v')) :
    ∃ env', Silent Machine.withPads P env' P (execInsts E.sem (hostCtx E O k call fcp) args env code) ∧
      evalValue E.sem hostSymbols args env' v' = evalValue E.sem guestSymbols gargs e v := by
  have hscanned := scanFunction_scanned he.scanned
  have hnone : ∀ c ∈ metadataConsts v, ∀ r ∈ constRefs c, r ∈ registeredRefs m f := by
    cases v with
    | metadata md => exact absurd rfl (hmd md)
    | const | arg | inst | inlineAsm =>
        intro c hc
        cases hc
  have hseen : Seen (site (analyzed H L m config .null uid) X n dbg) f.type.params.length v :=
    seen_of_visible he.function hscanned.accepted (hc.visible g f he.accepted he.function) (refs_registered (noneCalled_null m) he hrefs) hv
      (.inr hnone)
  rw [← hlen] at hseen
  obtain ⟨env', hcode, _, hval⟩ := doOperand_run O k call fcp P hm (Nat.succ_pos i) rfl hseen hop
  exact ⟨env', hcode.run, hval⟩

theorem callback_kept (hp : Passes H L m uid (mode config false) guestConfig O) (hc : Conditions H m)
    (hinfo : (analyze H L m .null uid).functbl.find? g = some info) (hf : m.function? g = some f) :
    OperandsKept (analyzed H L m (mode config false) .null uid) O g f info := by
  obtain ⟨f', scan, h, he⟩ := (analyze_wellFormed H L m .null uid).entries g info hinfo
  cases hf.symm.trans he.function
  obtain ⟨f', gen, hf', hgen, _, hstub, _⟩ := hp.filled hinfo
  cases hf.symm.trans hf'
  intro S W E k call fcp P gargs retPad argPad hpads
  have hgrt : genGrt (analyzed H L m (mode config false) .null uid) g f info = .ok gen := hgen
  obtain ⟨X, entry, hmade, _, henters⟩ := genGrt_run rfl (stubType_types hc.signatures he).2 hgrt hpads (hp.laid rfl)
  refine ⟨X, entry, gen.stub, [retPad, argPad], hmade, .inl hstub, henters, ?_⟩
  intro e env hm v hv hmd n dbg i code v' hop
  exact operand_kept hc he hmade.refs hpads.length hm hv hmd hop

theorem fast_kept (hp : Passes H L m uid (mode config true) guestConfig O) (hc : Conditions H m)
    (hinfo : (analyze H L m .null uid).functbl.find? g = some info) (hf : m.function? g = some f) :
    OperandsKept (analyzed H L m (mode config true) .null uid) O g f info := by
  obtain ⟨f', scan, h, he⟩ := (analyze_wellFormed H L m .null uid).entries g info hinfo
  cases hf.symm.trans he.function
  obtain ⟨f', gen, hf', hgen, _, _, hlookup⟩ := hp.filled hinfo
  cases hf.symm.trans hf'
  intro S W E k call fcp P gargs retPad argPad hpads
  obtain ⟨_, X, entry, copy, hcopy, hmade, _, _, henters⟩ := genFcp_run (generated_fcp hgen) (hp.laid rfl)
  refine ⟨X, entry, copy, gargs, hmade, .inr (hlookup copy hcopy), henters, ?_⟩
  intro e env hm v hv hmd n dbg i code v' hop
  exact operand_kept hc he hmade.refs hpads.length hm hv hmd hop

/-- A copy is called where a function of the table is called at its type. -/
theorem route_fcp {I : Input} {c : GCall} {r : Nat} (h : .fcpFunc r = CalleeList.target (I.route c)) :
    c.calledOperand = .const (.global r) ∧ I.hasFcpFunc r = true ∧
      ∃ callee, I.module.function? r = some callee ∧ callee.type = c.functionType := by
  have htarget : CalleeList.target (.fcp r) = CalleeList.target (I.route c) := h
  have hroute := (CalleeList.target_injective htarget).symm
  rcases route_cases _ hroute with ⟨_, _, _, _, hr⟩ | ⟨_, _, _, _, _, hr⟩ | ⟨k, callee, hcalled, _, hfcp, hr⟩ | hr
  case inr.inr.inl =>
    cases hr
    obtain ⟨hoperand, hcallee, htype⟩ := getCalledFunction_eq_some.mp hcalled
    exact ⟨hoperand, hfcp, callee, hcallee, htype⟩
  all_goals cases hr

theorem callees_redirected (hp : Passes H L m uid config guestConfig O)
    (hinfo : (analyze H L m .null uid).functbl.find? g = some info) (hf : m.function? g = some f) :
    CalleesRedirected (analyzed H L m config .null uid) O g f info := by
  obtain ⟨gen, hgen, hstub, hcopy⟩ := CalleeList.takenOut_functions hp.host hinfo hf (by simp [BwList.null])
  intro hf' hwhich j hj r hr
  rw [hstub, hcopy] at hwhich
  have hwhich : hf' = gen.stub ∨ gen.copy = some hf' := hwhich.imp_left (fun h => (Option.some.inj h).symm)
  rcases CalleeList.generated_calls hgen hwhich hj hr with h | ⟨c, hcall, h⟩ | ⟨_, hforward, h⟩
  · cases h
  · obtain ⟨hoperand, hfcp, callee, hcallee, htype⟩ := route_fcp h
    refine .inl ⟨c, hcall, hoperand, callee, hcallee, htype, ?_⟩
    exact ((analyze_wellFormed H L m .null uid).functions r).mpr (hasFcpFunc_iff.mp hfcp).2.1
  · cases h
    exact .inr ⟨hforward, rfl⟩

theorem genGrt_copy {I : Input} {gen : Generated} (h : genGrt I g f info = .ok gen) : gen.copy = none := by
  obtain ⟨_, _, h⟩ := bind_eq_ok.mp h
  obtain ⟨_, _, h⟩ := bind_eq_ok.mp h
  obtain ⟨_, _, h⟩ := bind_eq_ok.mp h
  obtain ⟨_, _, h⟩ := bind_eq_ok.mp h
  cases h
  rfl

/-- Without the fast call path no copy is called. -/
theorem not_redirected (hp : Passes H L m uid (mode config false) guestConfig O)
    (hinfo : (analyze H L m .null uid).functbl.find? g = some info) (hf : m.function? g = some f) {hf' : HFunction}
    (hwhich : O.host.functions.lookup (.hstub info.uid) = some hf' ∨ O.host.functions.lookup (.fcpFunc g) = some hf')
    {j : HInst} (hj : AnyInst.inst j ∈ instructions hf') (r : Nat) : called j.op ≠ some (.fcpFunc r) := by
  intro hr
  obtain ⟨gen, hgen, hstub, hcopy⟩ := CalleeList.takenOut_functions hp.host hinfo hf (by simp [BwList.null])
  have hnone : gen.copy = none := genGrt_copy (show genGrt _ g f info = .ok gen from hgen)
  rw [hstub, hcopy] at hwhich
  have hwhich : hf' = gen.stub ∨ gen.copy = some hf' := hwhich.imp_left (fun h => (Option.some.inj h).symm)
  rcases CalleeList.generated_calls hgen hwhich hj hr with h | ⟨c, _, h⟩ | ⟨hsome, _⟩
  · cases h
  · have hfcp := (route_fcp h).2.1
    rw [hasFcpFunc_of_not rfl] at hfcp
    cases hfcp
  · exact hsome hnone

end Occurrences

section Example

def relayModule : Module :=
  ⟨[.function forward, .function ⟨wordType, 0, ⟨[]⟩, none,
    [(0, ⟨[], [], 0, .ret (some (.integer 32, .arg 0))⟩)], [], none⟩], by decide⟩

theorem relay_conditions : FastConditions HostTable.sumHash relayModule where
  signatures := by
    have hall : ∀ s ∈ signatures relayModule, s = (wordType, ⟨[]⟩) := by decide
    intro s hs t ht _ _ _
    rw [hall s hs, hall t ht]
    exact ⟨rfl, rfl⟩
  convention := by
    intro g f hf c hc
    have hall : ∀ g ∈ relayModule.functions, ∀ f, relayModule.function? g = some f →
        ∀ c ∈ Module.calls f, c.callingConv = 0 := by decide
    exact hall g (Module.mem_functions hf) f hf c hc
  visible := by
    intro g f _ hf
    have hvisible : ∀ h ∈ [0, 1].filterMap relayModule.function?, Visible relayModule h := by
      intro h hh
      rcases List.mem_cons.mp hh with rfl | hh
      · exact ⟨by decide, by decide, by decide, rfl⟩
      · obtain rfl := List.mem_singleton.mp hh
        exact ⟨by decide, by decide, by decide, rfl⟩
    exact hvisible f (List.mem_filterMap.mpr ⟨g, Module.mem_functions hf, hf⟩)
  plain := by
    intro g f _ hf
    have hall : ∀ g ∈ relayModule.functions, ∀ f, relayModule.function? g = some f → f.callingConv = 0 ∧
        ∀ i ≤ f.type.params.length, (f.attributes.getAttributes i).filter Attribute.isAbi = [] := by decide
    exact hall g (Module.mem_functions hf) f hf

def wordPads (ret : Val Unit) : Pads Unit :=
  [(.integer 32, ret), (.struct [.integer 32] false, .agg [.int 32 5])]

def relayOutcome (O : Offloaded) : Except Halt (Pads Unit) × Unit × List (GuestCall Unit) :=
  entryOutcome (callEntry (outside echo.sem echo.guest
      (analyze HostTable.sumHash HostTable.plainLayout relayModule .null 7)) O 1
    (level (outside echo.sem echo.guest (analyze HostTable.sumHash HostTable.plainLayout relayModule .null 7))
      relayModule O 1 2) 0 [.addr (.pad 0), .addr (.pad 1)] ⟨(), [], wordPads .undef⟩)

theorem relay_fast : ∃ O, Passes HostTable.sumHash HostTable.plainLayout relayModule 7
      (mode HostTable.chopAll true) (mode HostTable.chopAll true) O ∧
    relayOutcome O = (.ok (wordPads (.int 32 5)), (), []) :=
  ⟨⟨_, _⟩, ⟨rfl, rfl, rfl⟩, rfl⟩

def byValue : GFunction :=
  ⟨⟨.void, [.pointer 0], false⟩, 0, ⟨[[], [], [.type .byVal (some (.integer 32))]]⟩, none,
    [(0, ⟨[], [], 0, .ret none⟩)], [], none⟩

def byValueModule : Module := ⟨[.function byValue], by decide⟩

def pointerPads : Pads Unit := [(.struct [.pointer 0] false, .agg [.null])]

def byValueOutcome (O : Offloaded) : Except Halt (Pads Unit) × Unit × List (GuestCall Unit) :=
  entryOutcome (callEntry (outside echo.sem echo.guest
      (analyze HostTable.sumHash HostTable.plainLayout byValueModule .null 7)) O 1
    (level (outside echo.sem echo.guest (analyze HostTable.sumHash HostTable.plainLayout byValueModule .null 7))
      byValueModule O 1 1) 0 [.null, .addr (.pad 0)] ⟨(), [], pointerPads⟩)

end Example

end Comulator.FastCalls
