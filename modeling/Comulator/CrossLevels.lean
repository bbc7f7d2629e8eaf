import Comulator.CrossBody

namespace Comulator.CrossLevels

open Fallible Types Ir TypeHash Symtbl HostIr TakeOut ChopOff Analyze AnalyzeSpec Lookups Exec Simulation ExecRules Compose
  CallbackRun OperandRun InstRun BodyRun GeneratedRun StubRun CallerRun Visible Preservation FastCalls CrossCalls CrossRun CrossBody
open Offloading (execFunction_stuck chopOff_cbStubs definedAt_eq_some)

def crossMode (config : Config) : Config := { config with useGRT := true, useFCP := true, useFCPcm := true }

variable {H : HashOps} {L : Layout} {m : Module} {uid : Nat} {config guestConfig : Config} {O : Offloaded}
variable {g : Nat} {f : GFunction} {info : FuncInfo} {scan : Scan} {h : HashCode}
variable {S W : Type} {E : Setting S W} {k : Nat} {P : Pads S} {args : List (Val S)} {copyAt : Val S → Option (Val S)}
variable {gl l : Calls S W} {retPad argPad : Val S}

section Direct

variable {γ ι β : Type} [DecidableEq ι] [DecidableEq β] {sem : Sem S W} {C C' : Ctx γ S W}

theorem execBlocks_direct (hsymbols : C'.toSymbols = C.toSymbols) (hcell : C'.cell = C.cell) (hdirect : C'.direct = C.direct)
    {f : Function γ ι β} (h : ∀ b ∈ f.blocks, Direct C b.2.insts) (n : Nat) (prev : Option β) (b : β) (env : Env ι S) :
    execBlocks sem C' args f n prev b env = execBlocks sem C args f n prev b env := by
  induction n generalizing prev b env with
  | zero => rfl
  | succ n ih =>
      cases hb : f.block? b with
      | none =>
          rw [execBlocks, execBlocks, hb]
          rfl
      | some blk =>
          have hcode : ∀ env, execInsts sem C' args env blk.insts = execInsts sem C args env blk.insts :=
            execInsts_direct hsymbols hcell hdirect (h _ (OrderedMap.mem_of_lookup hb))
          have hblock : execBlock sem C' args env prev blk = execBlock sem C args env prev blk := by
            simp only [execBlock, hcode, hsymbols]
          simp only [execBlocks, hb, need, pure_bind, hblock, ih]

theorem execFunction_direct (hsymbols : C'.toSymbols = C.toSymbols) (hcell : C'.cell = C.cell) (hdirect : C'.direct = C.direct)
    {f : Function γ ι β} (h : ∀ b ∈ f.blocks, Direct C b.2.insts) (n : Nat) :
    execFunction sem C' args f n = execFunction sem C args f n := by
  simp only [execFunction, hsymbols, execBlocks_direct hsymbols hcell hdirect h]

end Direct

section Entries

/-- The stub of the fast call path calls by symbol only. -/
theorem fcpStub_direct (I : Input) (call : Caller S W) (fcp : Nat → Interface → List (Val S) → Run S W (Val S)) :
    ∀ b ∈ (fcpStub I g f info).blocks, Direct (hostCtx E O k call fcp) b.2.insts := by
  have hdebug : Direct (hostCtx E O k call fcp) (debugCode I info) := by
    unfold debugCode
    split
    next =>
      intro i hi c hc
      rw [List.mem_singleton.mp hi] at hc
      cases hc
      exact ⟨.gyhDebug, rfl, rfl⟩
    next => exact direct_of_noCall (by simp)
  have hargs : ∀ pos, Direct (hostCtx E O k call fcp) (argsCode f info pos) := by
    intro pos
    apply direct_of_noCall
    intro i hi c hc
    unfold argsCode at hi
    split at hi
    next ty hty =>
      simp only [loadFields, place, List.mem_map] at hi
      obtain ⟨q, hq, rfl⟩ := hi
      have hop := List.fst_mem_of_mem_zipIdx hq
      rcases List.mem_cons.mp hop with hload | hop
      · rw [hload] at hc
        cases hc
      · obtain ⟨j, _, hj⟩ := List.mem_map.mp hop
        rw [← hj] at hc
        cases hc
    next => cases hi
  intro b hb
  rw [List.mem_singleton.mp hb]
  refine (hdebug.append (hargs _)).append ?_
  intro i hi c hc
  split at hi
  next =>
    rcases List.mem_cons.mp hi with rfl | hi
    · cases hc
      exact ⟨.fcpFunc g, rfl, rfl⟩
    · rw [List.mem_singleton.mp hi] at hc
      cases hc
  next =>
    rw [List.mem_singleton.mp hi] at hc
    cases hc
    exact ⟨.fcpFunc g, rfl, rfl⟩

abbrev counted (E : Setting S W) (k : Nat) : Runner S W := fun C args f => execCopy E.sem C args f (k + 1)

theorem execCopy_stuck {C : Ctx HostSym S W} {f : HFunction} (hlen : args.length ≠ f.type.params.length) (n : Nat)
    (s : Machine S W) : execCopy E.sem C args f n s = .error .stuck s := by
  rw [execCopy]
  cases evalConsts E.sem C.toSymbols (f.operands ++ f.prefixData.toList) with
  | none => rfl
  | some vs =>
      rw [decide_eq_false hlen]
      rfl

variable (hp : Passes H L m uid (crossMode config) guestConfig O) (hc : FastConditions H m) (hcalm : Calm E.sem)
variable (hfollow : CrossFollows gl l)

include hp hc hcalm hfollow

/-- A call of a copy does what a call of the function does that makes the checks. -/
theorem crossFcp_sim (hinfo : (analyze H L m .null uid).functbl.find? g = some info) (hf : m.function? g = some f)
    (s : Interface) : Sim Machine.withPads P (Same P)
      (callFunction E (guardedCtx E m (analyzed H L m (crossMode config) .null uid) O k copyAt gl) f k s args)
      (crossFcp E O k copyAt (counted E k) l g s args) := by
  obtain ⟨f', scan, h, he⟩ := (analyze_wellFormed H L m .null uid).entries g info hinfo
  cases hf.symm.trans he.function
  obtain ⟨f', gen, hf', hgen, _, _, hlookup⟩ := hp.filled hinfo
  cases hf.symm.trans hf'
  have hfcp : genFcp (analyzed H L m (crossMode config) .null uid) g f info = .ok gen := hgen
  obtain ⟨_, X, entry, copy, hcopy, hmade, htype, hinterface, env, hrun, hm⟩ : _ ∧ ∃ X entry hf, gen.copy = some hf ∧
      Made _ g f info X entry hf ∧ hf.type = f.type ∧ hf.interface = f.interface ∧
        Enters E O k l.guest l.fcp X P args args entry := genFcp_run hfcp (hp.laid rfl)
  rw [crossFcp, hlookup copy hcopy]
  simp only [callFunction, hinterface]
  refine Same.sim_bind (require_sim _) (fun _ => ?_)
  by_cases hlen : args.length = f.type.params.length
  · have hvisible := hc.visible g f he.accepted he.function
    have hseen : FunctionSeen O (analyzed H L m (crossMode config) .null uid) X f :=
      functionSeen hc.signatures (noneCalled_null m) (chopOff_cbStubs hp.guest) he (hc.convention g f he.function) hvisible hmade.refs
    have hops : evalConsts E.sem hostSymbols (copy.operands ++ copy.prefixData.toList) ≠ none := by
      obtain ⟨vs, hvs⟩ : ∃ vs, evalConsts E.sem hostSymbols (cloneConsts (g, X.hfunc) _) = some vs :=
        cloneConsts_evaluates E.sem _ hvisible.own
      rw [hmade.own, hvs]
      exact Option.some_ne_none _
    exact function_cross (I := analyzed H L m (crossMode config) .null uid) hcalm rfl rfl (fun _ => rfl) hfollow he.function
      hseen hlen (by rw [htype]; exact hlen) hmade.body hops hrun hm k
  · intro t
    rw [execFunction_stuck hlen]
    exact ⟨P, execCopy_stuck (htype ▸ hlen) _ _⟩

/-- The entry of the table forwards the call to the copy. -/
theorem crossEntry_sim (hinfo : (analyze H L m .null uid).functbl.find? g = some info) (hf : m.function? g = some f)
    (hpads : CallPads P retPad argPad f.type args) :
    Sim Machine.withPads P (fun a _ P' => Stored P retPad f.type a P')
      (execFunction E.sem (guardedCtx E m (analyzed H L m (crossMode config) .null uid) O k copyAt gl) args f k)
      (crossEntry E O k copyAt (counted E k) l info.uid [retPad, argPad]) := by
  obtain ⟨f', scan, h, he⟩ := (analyze_wellFormed H L m .null uid).entries g info hinfo
  cases hf.symm.trans he.function
  obtain ⟨hret, harg⟩ := stubType_types hc.signatures he
  obtain ⟨f', gen, hf', hgen, htbl, hstub, _⟩ := hp.filled hinfo
  cases hf.symm.trans hf'
  have hfcp : genFcp (analyzed H L m (crossMode config) .null uid) g f info = .ok gen := hgen
  obtain ⟨hforward, _⟩ : gen.stub = fcpStub _ g f info ∧ ∃ X entry hf, gen.copy = some hf ∧
      Made _ g f info X entry hf ∧ hf.type = f.type ∧ hf.interface = f.interface ∧
        Enters E O k l.guest l.fcp X P args args entry := genFcp_run hfcp (hp.laid rfl)
  have hentry : crossEntry E O k copyAt (counted E k) l info.uid [retPad, argPad] =
      execFunction E.sem (hostCtx E O k l.guest (crossFcp E O k copyAt (counted E k) l)) [retPad, argPad]
        (fcpStub (analyzed H L m (crossMode config) .null uid) g f info) (k + 1) := by
    rw [crossEntry, htbl]
    simp only [hstub, hforward]
    refine execFunction_direct ?_ ?_ ?_ (fcpStub_direct _ _ _) _ <;> rfl
  rw [hentry]
  refine fcpStub_sim k rfl hret harg hpads ?_
  have hcall : Sim Machine.withPads P (Same P)
      (callFunction E (guardedCtx E m (analyzed H L m (crossMode config) .null uid) O k copyAt gl) f k
        (forwardCall (analyzed H L m (crossMode config) .null uid) g f info).interface args)
      (crossFcp E O k copyAt (counted E k) l g _ args) := crossFcp_sim hp hc hcalm hfollow hinfo hf _
  simp only [callFunction, forward_agrees hc he.accepted hf] at hcall
  exact hcall

end Entries

section Runs

variable (hp : Passes H L m uid (crossMode config) guestConfig O) (hc : FastConditions H m) (hcalm : Calm E.sem)

include hp

/-- A chopped function does what the function does that makes the checks. -/
theorem choppedCross_sim (hc : FastConditions H m) (hcalm : Calm E.sem) (hfollow : CrossFollows gl l)
    (hf : m.function? g = some f) (hinfo : (analyze H L m .null uid).functbl.find? g = some info) {s : Stub}
    (hs : chopGfunc guestConfig .null (analyze H L m .null uid) g f info = some s) (i : Interface) :
    Sim Machine.withPads P (Same P)
      (callFunction E (guardedCtx E m (analyzed H L m (crossMode config) .null uid) O k copyAt gl) f k i args)
      (callFunction E (stubCtx l.guest (enterCross E O k copyAt (counted E k) l)) s (k + 1) i args) := by
  obtain ⟨f', scan, h, he⟩ := (analyze_wellFormed H L m .null uid).entries g info hinfo
  cases hf.symm.trans he.function
  obtain ⟨hret, harg⟩ := stubType_types hc.signatures he
  have hinterface : s.interface = f.interface := by rw [chopGfunc_eq hs]; rfl
  have htype : s.type = f.type := by rw [chopGfunc_eq hs]; rfl
  have hgrt : guestConfig.useGRT = true := hp.grt
  rw [callFunction, callFunction, hinterface]
  refine Same.sim_bind (require_sim _) (fun _ => ?_)
  by_cases hlen : args.length = f.type.params.length
  · refine chopped_sim k hs hret harg hlen (fun _ _ _ hx hvoid => execFunction_void hf hvoid hx) ?_
    intro Q retPad argPad refs stubs hpads
    rw [hgrt]
    exact crossEntry_sim hp hc hcalm hfollow hinfo hf hpads.call
  · intro t
    rw [execFunction_stuck hlen]
    exact ⟨P, execFunction_stuck (htype ▸ hlen) _ _⟩

/-- There are no other copies than those of the functions of the table. -/
theorem fcpFunc_lookup_none (hg : (analyzed H L m (crossMode config) .null uid).hasFcpFunc g ≠ true) :
    O.host.functions.lookup (.fcpFunc g) = none := by
  have hfuncs := HostTable.takeOut_genHfuncs hp.host
  refine CalleeList.foldlM_copy_other hfuncs ?_
  rintro ⟨g', info⟩ he rfl
  have hfound : (analyze H L m .null uid).functbl.find? g' = some info := OrderedMap.mem_entries.mp he
  have haccepted := ((analyze_wellFormed H L m .null uid).functions g').mp (by rw [hfound]; exact Option.some_ne_none _)
  exact hg (hasFcpFunc_iff.mpr ⟨rfl, haccepted, by simp [BwList.null], by simp [BwList.null]⟩)

/-- Calls nested to any depth do what they do in the program with the checks. -/
theorem crossLevel_follows (hc : FastConditions H m) (hcalm : Calm E.sem) (n : Nat) :
    CrossFollows (guardedLevel E m (analyzed H L m (crossMode config) .null uid) O k copyAt n)
      (crossLevel E m O k copyAt (counted E k) n) := by
  induction n with
  | zero => exact ⟨fun _ _ _ _ => .throw _ (.throw _), fun _ _ _ _ => .throw _ (.throw _), fun _ _ _ _ => .throw _ (.throw _)⟩
  | succ n ih =>
      constructor
      · intro P s v vs
        refine Same.sim_bind (record_sim v vs) (fun _ => ?_)
        cases hv : definedAt E m v with
        | none => exact Same.sim_bind getWorld_sim (fun w => perform_sim ih.guest _)
        | some d =>
            obtain ⟨g, f⟩ := d
            have hf := (definedAt_eq_some E hv).1
            simp only
            cases hchopped : O.guest.chopped.lookup g with
            | none => exact callFunction_same ih.guest hf k s
            | some stub =>
                obtain ⟨f', info, hf', hinfo, hs⟩ := hp.chopped hchopped
                cases hf.symm.trans hf'
                exact choppedCross_sim hp hc hcalm ih hf hinfo hs s
      · intro P g s vs
        change Sim _ _ _ (guardedFcp _ _ _ _ _ _ _ _ _ _) (crossFcp _ _ _ _ _ _ _ _ _)
        by_cases hg : (analyzed H L m (crossMode config) .null uid).hasFcpFunc g = true
        · obtain ⟨_, haccepted, _⟩ := hasFcpFunc_iff.mp hg
          obtain ⟨info, hinfo⟩ := Option.ne_none_iff_exists'.mp
            (((analyze_wellFormed H L m .null uid).functions g).mpr haccepted)
          obtain ⟨f, scan, h, he⟩ := (analyze_wellFormed H L m .null uid).entries g info hinfo
          rw [guardedFcp, if_pos hg, he.function]
          exact crossFcp_sim hp hc hcalm ih hinfo he.function s
        · rw [guardedFcp, if_neg hg, crossFcp, fcpFunc_lookup_none hp hg]
          exact .throw _ (.throw _)
      · intro P s v vs
        exact Same.sim_bind getWorld_sim (fun w => perform_sim ih.guest _)

end Runs

end Comulator.CrossLevels
