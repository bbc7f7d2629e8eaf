import Comulator.ExecRules
import Comulator.Compose

namespace Comulator.CallbackRun

open Types Ir TypeHash Symtbl HostIr ChopOff Exec Simulation ExecRules Compose

variable {S W : Type} {P P' : Pads S}

structure CallPads (P : Pads S) (retPad argPad : Val S) (t : FunctionType) (vs : List (Val S)) : Prop where
  ret : t.ret ≠ .void → ∃ i old, retPad = .addr (.pad i) ∧ P[i]? = some (t.ret, old)
  arg : t.params ≠ [] → ∃ i, argPad = .addr (.pad i) ∧ P[i]? = some (.struct t.params false, .agg vs)
  length : vs.length = t.params.length

structure Stored (P : Pads S) (retPad : Val S) (t : FunctionType) (v : Val S) (P' : Pads S) : Prop where
  void : t.ret = .void → P' = P
  value : t.ret ≠ .void → ∃ i, retPad = .addr (.pad i) ∧ i < P.length ∧ P' = P.set i (t.ret, v)

theorem Stored.unique {P'' : Pads S} {retPad v : Val S} {t : FunctionType} (h : Stored P retPad t v P')
    (h' : Stored P retPad t v P'') : P' = P'' := by
  by_cases ht : t.ret = .void
  · rw [h.void ht, h'.void ht]
  · obtain ⟨i, hi, _, rfl⟩ := h.value ht
    obtain ⟨j, hj, _, rfl⟩ := h'.value ht
    cases hi.symm.trans hj
    rfl

theorem Stored.length {retPad v : Val S} {t : FunctionType} (h : Stored P retPad t v P') :
    P'.length = P.length := by
  by_cases ht : t.ret = .void
  · rw [h.void ht]
  · obtain ⟨i, _, _, rfl⟩ := h.value ht
    exact List.length_set

section CbStub

variable {E : Setting S W} {call : Caller S W} {enter : List (Val S) → Run S W (Val S)}
variable {st : StubInfo} {h : HashCode} {debug : Bool} {retPad argPad v : Val S} {vs : List (Val S)}

def cbStubPrologue (debug : Bool) (h : HashCode) (st : StubInfo) : List SInst :=
  (if debug then
      [⟨1, ChopOff.debugCall .callbackDebugFmt
        [(.integer 64, .const (.int 64 h)), pointer (.arg 2), pointer (.arg 0), pointer (.arg 1)]⟩]
    else []) ++
  match st.arg with
  | some ty => ⟨2, .load ty (.arg 1)⟩ ::
      (List.range (structFields ty)).map (fun i => ⟨4 + i, .extractValue (.inst 2) i⟩)
  | none => []

variable (E call enter h debug v) in
theorem cbStubPrologue_run (harg : st.arg = argType st.func) (hpads : CallPads P retPad argPad st.func vs) :
    ∃ env, Silent Machine.withPads P env P
        (execInsts E.sem (stubCtx call enter) [retPad, argPad, v] (fun _ => none) (cbStubPrologue debug h st)) ∧
      ∀ i, i < vs.length → env (4 + i) = vs[i]? := by
  have hdebug : Silent Machine.withPads P (fun _ => none) P
      (execInsts E.sem (stubCtx call enter) [retPad, argPad, v] (fun _ => none)
        (if debug then
          [(⟨1, ChopOff.debugCall .callbackDebugFmt
            [(.integer 64, .const (.int 64 h)), pointer (.arg 2), pointer (.arg 0), pointer (.arg 1)]⟩ : SInst)]
        else [])) := by
    split
    next => exact Silent.single (Silent.void (execCall_silent rfl (callee_direct rfl rfl) (.pure Val.undef)) rfl)
    next => exact .pure _
  by_cases hps : st.func.params = []
  · have hnone : st.arg = none := by simp [harg, argType, hps]
    refine ⟨fun _ => none, ?_, ?_⟩
    · unfold cbStubPrologue
      rw [hnone]
      exact Silent.append hdebug (.pure _)
    · intro i hi
      have := hpads.length
      rw [hps] at this
      simp [this] at hi
  · have hsome : st.arg = some (.struct st.func.params false) := by simp [harg, argType, hps]
    obtain ⟨j, rfl, hj⟩ := hpads.arg hps
    have hload : Silent Machine.withPads P (Function.update (fun _ => none) 2 (some (.agg vs))) P
        (execInst E.sem (stubCtx call enter) [retPad, .addr (.pad j), v] (fun _ => none)
          (⟨2, .load (.struct st.func.params false) (.arg 1)⟩ : SInst)) := Silent.inst (load_silent rfl hj) rfl
    have hname : Function.Injective (fun i : Nat => 4 + i) := fun a b hab => by simpa using hab
    obtain ⟨env, hrun, _, _, hfields⟩ := extract_run (P := P) (C := stubCtx call enter) hname (fun i => by omega)
      (Function.update_self 2 _ _) vs.length (Nat.le_refl _)
    refine ⟨env, ?_, hfields⟩
    unfold cbStubPrologue
    rw [hsome]
    simp only [structFields, ← hpads.length]
    exact Silent.append hdebug (Silent.cons hload hrun)

def stubCall (st : StubInfo) : CallBase GuestSym Nat :=
  ⟨st.func, 0, st.attrs, .arg 2, st.func.params.zipIdx.map (fun p => (p.1, .inst (4 + p.2)))⟩

theorem stubCall_args {env : Env Nat S} {args : List (Val S)} (hlen : vs.length = st.func.params.length)
    (hfields : ∀ i, i < vs.length → env (4 + i) = vs[i]?) :
    evalValues E.sem stubSymbols args env ((stubCall st).args.map Prod.snd) = some vs := by
  rw [stubCall, List.map_map]
  exact evalValues_names hlen hfields

/-- A callback stub makes the call it stands for, with the arguments from their
pad, and stores the result. -/
theorem cbStub_sim {x : Run S W (Val S)} (k : Nat) (hret : st.ret = retType st.func)
    (harg : st.arg = argType st.func) (hpads : CallPads P retPad argPad st.func vs)
    (hx : Sim Machine.withPads P (Same P) x (call (stubCall st).interface v vs)) :
    Sim Machine.withPads P (fun a _ P' => Stored P retPad st.func a P') x
      (execFunction E.sem (stubCtx call enter) [retPad, argPad, v] (cbStubFunction debug h st) (k + 1)) := by
  obtain ⟨env, hrun, hfields⟩ := cbStubPrologue_run E call enter h debug v harg hpads
  have hcall := Sim.call (i := 3) hrun (execCall_sim (stubCall_args hpads.length hfields)
    (callee_indirect rfl (fun g hg => by cases hg)) hx)
  refine single_sim (Q := fun a _ P' => Stored P retPad st.func a P') k rfl (by simp [cbStubFunction, stub, evalConsts])
    rfl ?_ ?_
  · change Sim _ _ _ _ (execInsts _ _ _ _ ((cbStubPrologue debug h st ++ [⟨3, .call (stubCall st)⟩]) ++ _))
    rw [execInsts_append]
    refine hcall.silent ?_
    rintro a _ _ ⟨w, ⟨hw, hP⟩, rfl⟩
    subst hw hP
    by_cases hvoid : st.func.ret = .void
    · have hnone : st.ret = none := by simp [hret, retType, hvoid]
      rw [hnone]
      exact ⟨_, _, .pure _, fun _ => rfl, fun h => absurd hvoid h⟩
    · have hsome : st.ret = some st.func.ret := by simp [hret, retType, hvoid]
      obtain ⟨i, old, rfl, hi⟩ := hpads.ret hvoid
      rw [hsome, if_neg (show ¬ (stubCall st).functionType.ret = .void from hvoid)]
      have hvalue : Function.update env 3 (some w) 3 = some w := Function.update_self _ _ _
      refine ⟨_, _, Silent.single (Silent.inst (store_silent hvalue rfl hi) rfl), ?_, ?_⟩
      · exact fun h => absurd h hvoid
      · exact fun _ => ⟨i, rfl, (List.getElem?_eq_some_iff.mp hi).1, rfl⟩
  · intro a env' P' hstored
    exact ⟨.undef, rfl, by rw [List.take_of_length_le (Nat.le_of_eq hstored.length)]; exact hstored⟩

end CbStub

section Host

variable {sem : Sem S W} {H : Ctx HostSym S W} {args : List (Val S)} {env : Env HostId S} {n k : Nat}

def callName (n : Option Nat) (k i : Nat) : HostId := ⟨n, k + i⟩

theorem callName_injective (n : Option Nat) (k : Nat) : Function.Injective (callName n k) := by
  intro i j h
  simpa [callName] using h

def retPads (P : Pads S) (t : Ty) : Pads S := if t = .void then P else P ++ [(t, .undef)]

def retPtr (n k : Nat) (t : Ty) : HValue := if t = .void then .const .nullPtr else .inst (callName n k 1)

def retAddr (P : Pads S) (t : Ty) : Val S := if t = .void then .null else .addr (.pad P.length)

variable (sem H args env n k) in
theorem retCode_run (t : Ty) : ∃ env', Silent Machine.withPads P env' (retPads P t)
      (execInsts sem H args env ([⟨callName n k 0, .stackSave⟩] ++
        (if t = .void then [] else [⟨callName n k 1, .alloca t⟩]))) ∧
    Off (callName n k) env env' ∧ env' (callName n k 0) = some (.addr (.stack P.length)) ∧
      evalValue sem H.toSymbols args env' (retPtr n k t) = some (retAddr P t) := by
  have hsave : Silent Machine.withPads P (Function.update env (callName n k 0) (some (.addr (.stack P.length)))) P
      (execInsts sem H args env [⟨callName n k 0, .stackSave⟩]) := Silent.single (Silent.inst stackSave_silent rfl)
  by_cases ht : t = .void
  · refine ⟨_, Silent.append hsave ?_, Off.update 0 _, Function.update_self _ _ _, ?_⟩
    · rw [if_pos ht, retPads, if_pos ht]
      exact .pure _
    · rw [retPtr, if_pos ht, retAddr, if_pos ht]
      rfl
  · rw [if_neg ht, retPads, if_neg ht, retPtr, if_neg ht, retAddr, if_neg ht]
    refine ⟨_, Silent.append hsave (Silent.single (Silent.inst (alloca_silent t) rfl)),
      (Off.update 0 _).trans (Off.update 1 _), ?_, Function.update_self _ _ _⟩
    rw [Function.update_of_ne (fun h => absurd (callName_injective n k h) (by omega)), Function.update_self]

variable {vs : List HValue} {tys : List Ty}

def argPads (P : Pads S) (tys : List Ty) (ws : List (Val S)) : Pads S :=
  if ws.isEmpty then P else P ++ [(.struct tys false, .agg ws)]

def argPtr (n k : Nat) (vs : List HValue) : HValue := if vs.isEmpty then .const .nullPtr else .inst (callName n k 5)

def argAddr (P : Pads S) (ws : List (Val S)) : Val S := if ws.isEmpty then .null else .addr (.pad P.length)

theorem off_argName {env env' : Env HostId S} (h : Off (fun i => callName n k (5 + i)) env env') :
    Off (callName n k) env env' := Off.of_comp h

variable (tys) in
theorem argCode_run (hstable : ∀ v ∈ vs, Stable sem H.toSymbols args (callName n k) env v) :
    (evalValues sem H.toSymbols args env vs = none → Raises Machine.withPads P .stuck (execInsts sem H args env
        (if vs.isEmpty then [] else packCode (fun i => callName n k (5 + i)) (.struct tys false) vs))) ∧
    ∀ ws, evalValues sem H.toSymbols args env vs = some ws → ∃ env',
      Silent Machine.withPads P env' (argPads P tys ws) (execInsts sem H args env
        (if vs.isEmpty then [] else packCode (fun i => callName n k (5 + i)) (.struct tys false) vs)) ∧
      Off (fun i => callName n k (5 + i)) env env' ∧
        evalValue sem H.toSymbols args env' (argPtr n k vs) = some (argAddr P ws) := by
  by_cases hvs : vs = []
  · subst hvs
    refine ⟨(fun h => by cases h), fun ws hws => ?_⟩
    cases hws
    exact ⟨env, .pure _, Off.refl, rfl⟩
  · have hempty : vs.isEmpty = false := by simpa using hvs
    have hname : Function.Injective (fun i => callName n k (5 + i)) := by
      intro i j h
      have := callName_injective n k h
      omega
    obtain ⟨hnone, hsome⟩ := packCode_run (P := P) (.struct tys false) hname
      (fun v hv env' hoff => hstable v hv env' (off_argName hoff)) hvs
    simp only [hempty, Bool.false_eq_true, if_false]
    refine ⟨hnone, fun ws hws => ?_⟩
    have hws' : ws.isEmpty = false := by
      have hlen := (evalValues_eq_some.mp hws).length_eq
      cases ws with
      | nil => simp_all
      | cons => rfl
    obtain ⟨env', hrun, hoff, hptr⟩ := hsome ws hws
    refine ⟨env', ?_, hoff, ?_⟩
    · simpa [argPads, hws'] using hrun
    · simp only [argPtr, hempty, argAddr, hws', Bool.false_eq_true, if_false]
      exact hptr

theorem callPads_of_args {t : FunctionType} {ws : List (Val S)} (hlen : ws.length = t.params.length) :
    CallPads (argPads (retPads P t.ret) t.params ws) (retAddr P t.ret) (argAddr (retPads P t.ret) ws) t ws where
  ret := by
    intro ht
    refine ⟨P.length, .undef, if_neg ht, ?_⟩
    simp only [argPads, retPads, if_neg ht]
    split <;> simp
  arg := by
    intro hps
    have hws : ws.isEmpty = false := by
      cases ws with
      | nil => exact absurd (List.length_eq_zero_iff.mp hlen.symm) hps
      | cons => rfl
    refine ⟨(retPads P t.ret).length, by simp [argAddr, hws], ?_⟩
    simp [argPads, hws]
  length := hlen

/-- The pads that were there before a call are left once its own are gone. -/
theorem Stored.take {t : FunctionType} {R : Pads S} {v : Val S} (h : Stored (P ++ R) (retAddr P t.ret) t v P') :
    P'.take P.length = P := by
  by_cases ht : t.ret = .void
  · rw [h.void ht]
    exact List.take_left
  · obtain ⟨i, hi, _, rfl⟩ := h.value ht
    rw [retAddr, if_neg ht] at hi
    cases hi
    rw [List.set_append_right _ _ (Nat.le_refl _)]
    exact List.take_left

theorem Stored.load {t : FunctionType} {Q : Pads S} {v : Val S} (h : Stored Q (retAddr P t.ret) t v P')
    (ht : t.ret ≠ .void) : retAddr P t.ret = .addr (.pad P.length) ∧ P'[P.length]? = some (t.ret, v) := by
  obtain ⟨i, hi, hlt, rfl⟩ := h.value ht
  have haddr : retAddr P t.ret = .addr (.pad P.length) := if_neg ht
  rw [haddr] at hi
  cases hi
  exact ⟨haddr, List.getElem?_set_self hlt⟩

theorem argPads_append (P : Pads S) (t : FunctionType) (ws : List (Val S)) :
    ∃ R, argPads (retPads P t.ret) t.params ws = P ++ R := by
  unfold argPads retPads
  split <;> split
  · exact ⟨[], (List.append_nil _).symm⟩
  · exact ⟨_, rfl⟩
  · exact ⟨_, rfl⟩
  · exact ⟨_, List.append_assoc _ _ _⟩

end Host

section Callback

variable {E : Setting S W} {O : Offloaded} {call : Caller S W}
variable {fcp : Nat → Interface → List (Val S) → Run S W (Val S)} {args : List (Val S)} {env : Env HostId S}
variable {n k fuel : Nat} {t : FunctionType} {hargs : List (Ty × HValue)} {cbStub callee : HValue}

def callbackEpilogue (n k : Nat) (result : HostId) (t : Ty) : List HInst :=
  (if t = .void then [] else [⟨result, .load t (retPtr n k t)⟩]) ++
    [⟨callName n k 2, .stackRestore (.inst (callName n k 0))⟩]

structure Called (n k : Nat) (result : HostId) (t : Ty) (env : Env HostId S) (a : Val S) (env' : Env HostId S) :
    Prop where
  frame : ∀ x, x ≠ result → (∀ i, x ≠ callName n k i) → env' x = env x
  value : t ≠ .void → env' result = some a
  void : t = .void → env' result = env result

variable (E O call fcp args fuel) in
theorem callbackEpilogue_run {result : HostId} {ws : List (Val S)} {v : Val S}
    (h : Stored (argPads (retPads P t.ret) t.params ws) (retAddr P t.ret) t v P')
    (hptr : evalValue E.sem hostSymbols args env (retPtr n k t.ret) = some (retAddr P t.ret))
    (hsave : env (callName n k 0) = some (.addr (.stack P.length))) (hresult : ∀ i, result ≠ callName n k i) :
    ∃ env', Silent Machine.withPads P' env' P
        (execInsts E.sem (hostCtx E O fuel call fcp) args env (callbackEpilogue n k result t.ret)) ∧
      Called n k result t.ret env v env' := by
  have htake : P'.take P.length = P := by
    obtain ⟨R, hR⟩ := argPads_append P t ws
    rw [hR] at h
    exact h.take
  by_cases ht : t.ret = .void
  · have hrestore : Silent Machine.withPads P' (Function.update env (callName n k 2) (some .undef)) P
        (execInst E.sem (hostCtx E O fuel call fcp) args env
          ⟨callName n k 2, .stackRestore (.inst (callName n k 0))⟩) := by
      rw [← htake]
      exact Silent.inst (stackRestore_silent hsave) rfl
    refine ⟨Function.update env (callName n k 2) (some .undef), ?_, ?_, fun h => absurd ht h,
      fun _ => Function.update_of_ne (hresult 2) _ _⟩
    · rw [callbackEpilogue, if_pos ht]
      exact Silent.single hrestore
    · intro x _ hx
      exact Function.update_of_ne (hx 2) _ _
  · obtain ⟨haddr, hload⟩ := h.load ht
    rw [haddr] at hptr
    have hstep : Silent Machine.withPads P' (Function.update env result (some v)) P'
        (execInst E.sem (hostCtx E O fuel call fcp) args env ⟨result, .load t.ret (retPtr n k t.ret)⟩) :=
      Silent.inst (load_silent hptr hload) rfl
    have hsave' : Function.update env result (some v) (callName n k 0) = some (.addr (.stack P.length)) := by
      rw [Function.update_of_ne (hresult 0).symm, hsave]
    have hrestore : Silent Machine.withPads P'
        (Function.update (Function.update env result (some v)) (callName n k 2) (some .undef)) P
        (execInst E.sem (hostCtx E O fuel call fcp) args (Function.update env result (some v))
          ⟨callName n k 2, .stackRestore (.inst (callName n k 0))⟩) := by
      rw [← htake]
      exact Silent.inst (stackRestore_silent hsave') rfl
    refine ⟨Function.update (Function.update env result (some v)) (callName n k 2) (some .undef), ?_, ?_, ?_,
      fun h => absurd h ht⟩
    · rw [callbackEpilogue, if_neg ht]
      exact Silent.cons hstep (Silent.single hrestore)
    · intro x hx hx'
      rw [Function.update_of_ne (hx' 2), Function.update_of_ne hx]
    · intro _
      rw [Function.update_of_ne (hresult 2), Function.update_self]

def callbackArgs (n k : Nat) (t : Ty) (vs : List HValue) (cbStub callee : HValue) : List (Ty × HValue) :=
  [TakeOut.pointer cbStub, TakeOut.pointer callee, TakeOut.pointer (retPtr n k t), TakeOut.pointer (argPtr n k vs)]

def gyhCallbackCall (as : List (Ty × HValue)) : CallBase HostSym HostId :=
  ⟨ptrsType 4, 0, ⟨[]⟩, .const (.global .gyhCallback), as⟩

theorem callbackCode_eq (debug : Bool) (result : HostId) (t : Ty) :
    TakeOut.callbackCode debug n k result cbStub callee t hargs =
      (([⟨callName n k 0, .stackSave⟩] ++ (if t = .void then [] else [⟨callName n k 1, .alloca t⟩])) ++
        (if (hargs.map Prod.snd).isEmpty then []
          else packCode (fun i => callName n k (5 + i)) (.struct (hargs.map Prod.fst) false) (hargs.map Prod.snd))) ++
      (((if debug then [⟨callName n k 4, TakeOut.debugCall .callbackDebugFmt
            (callbackArgs n k t (hargs.map Prod.snd) cbStub callee)⟩] else []) ++
          [⟨callName n k 3, .call (gyhCallbackCall (callbackArgs n k t (hargs.map Prod.snd) cbStub callee))⟩]) ++
        callbackEpilogue n k result t) := by
  simp only [TakeOut.callbackCode, callbackArgs, retPtr, argPtr, gyhCallbackCall, callbackEpilogue, List.isEmpty_map,
    List.append_assoc]
  rfl

variable (fcp fuel P) in
/-- A callback makes the call it replaces. -/
theorem callbackCode_sim {st : StubInfo} {h : HashCode} {result : HostId} (debug : Bool) {debug' : Bool}
    (oc : Val S → List (Val S) → Run S W (Val S))
    (hcb : evalValue E.sem hostSymbols args env cbStub = some (.addr (.cbStub h)))
    (hstables : ∀ v ∈ cbStub :: callee :: hargs.map Prod.snd,
      Stable E.sem (hostCtx E O fuel call fcp).toSymbols args (callName n k) env v)
    (hlookup : O.guest.cbStubs.lookup h = some (cbStubFunction debug' h st)) (hret : st.ret = retType st.func)
    (harg : st.arg = argType st.func) (htys : hargs.map Prod.fst = st.func.params)
    (hresult : ∀ i, result ≠ callName n k i)
    (hoc : ∀ P v ws, Sim Machine.withPads P (Same P) (oc v ws) (call (stubCall st).interface v ws)) :
    Sim Machine.withPads P (fun a env' P' => Called n k result st.func.ret env a env' ∧ P' = P)
      (do
        let ws ← need (evalValues E.sem hostSymbols args env (hargs.map Prod.snd))
        let v ← need (evalValue E.sem hostSymbols args env callee)
        oc v ws)
      (execInsts E.sem (hostCtx E O fuel call fcp) args env
        (TakeOut.callbackCode debug n k result cbStub callee st.func.ret hargs)) := by
  have hlen : hargs.length = st.func.params.length := by rw [← htys, List.length_map]
  rw [callbackCode_eq, execInsts_append, htys]
  obtain ⟨env₁, hrun₁, hoff₁, hsave, hretPtr⟩ :=
    retCode_run E.sem (hostCtx E O fuel call fcp) args env n k (P := P) st.func.ret
  have hvs : ∀ env', Off (callName n k) env env' → evalValues E.sem hostSymbols args env' (hargs.map Prod.snd) =
      evalValues E.sem hostSymbols args env (hargs.map Prod.snd) := fun env' hoff =>
    evalValues_congr (List.forall₂_same.mpr (fun v hv => hstables v (by simp [hv]) env' hoff))
  obtain ⟨hnone, hsome⟩ := argCode_run (P := retPads P st.func.ret) (n := n) (k := k) st.func.params
    (fun v hv => (hstables v (List.mem_cons_of_mem _ (List.mem_cons_of_mem _ hv))).off hoff₁)
  refine need_left ?_ ?_
  · intro hws
    exact Raises.bind (Silent.raises_append hrun₁ (hnone ((hvs env₁ hoff₁).trans hws)))
  intro ws hws
  obtain ⟨env₂, hrun₂, hoff₂, hargPtr⟩ := hsome ws ((hvs env₁ hoff₁).trans hws)
  have hoff : Off (callName n k) env env₂ := hoff₁.trans (off_argName hoff₂)
  have hname : ∀ i, i < 5 → env₂ (callName n k i) = env₁ (callName n k i) := by
    intro i hi
    refine hoff₂ _ (fun j h => ?_)
    have := callName_injective n k h
    omega
  have hretPtr₂ : evalValue E.sem hostSymbols args env₂ (retPtr n k st.func.ret) = some (retAddr P st.func.ret) := by
    rw [← hretPtr]
    unfold retPtr
    split
    next => rfl
    next => exact hname 1 (by omega)
  have hcb₂ : evalValue E.sem hostSymbols args env₂ cbStub = some (.addr (.cbStub h)) :=
    (hstables cbStub (by simp) env₂ hoff).trans hcb
  refine (Silent.append hrun₁ hrun₂).sim (need_left ?_ ?_)
  · intro hv
    have hv₂ : evalValue E.sem hostSymbols args env₂ callee = none := (hstables callee (by simp) env₂ hoff).trans hv
    have hargs₂ : evalValues E.sem hostSymbols args env₂ ((callbackArgs n k st.func.ret (hargs.map Prod.snd) cbStub
        callee).map Prod.snd) = none := by
      change evalValues _ _ _ _ [cbStub, callee, _, _] = none
      rw [evalValues_cons, hcb₂, evalValues_cons, hv₂]
      rfl
    cases debug with
    | false => exact Raises.inst (need_raises hargs₂).bind
    | true =>
        refine Raises.inst (need_raises ?_).bind
        change evalValues E.sem hostSymbols args env₂ (_ :: (callbackArgs n k _ _ cbStub callee).map Prod.snd) = none
        rw [evalValues_cons, hargs₂]
        rfl
  intro v hv
  have hv₂ := (hstables callee (by simp) env₂ hoff).trans hv
  have hargs₂ : evalValues E.sem hostSymbols args env₂ ((callbackArgs n k st.func.ret (hargs.map Prod.snd) cbStub
      callee).map Prod.snd) = some [.addr (.cbStub h), v, retAddr P st.func.ret, argAddr (retPads P st.func.ret) ws] :=
    evalValues_eq_some.mpr (.cons hcb₂ (.cons hv₂ (.cons hretPtr₂ (.cons hargPtr .nil))))
  have hdebug : Silent Machine.withPads (argPads (retPads P st.func.ret) st.func.params ws) env₂
      (argPads (retPads P st.func.ret) st.func.params ws)
      (execInsts E.sem (hostCtx E O fuel call fcp) args env₂
        (if debug then [⟨callName n k 4, TakeOut.debugCall .callbackDebugFmt
            (callbackArgs n k st.func.ret (hargs.map Prod.snd) cbStub callee)⟩] else [])) := by
    split
    next =>
      have hfmt := evalValues_eq_some.mpr (.cons (show evalValue E.sem hostSymbols args env₂
        (.const (.global .callbackDebugFmt)) = some _ from rfl) (evalValues_eq_some.mp hargs₂))
      exact Silent.single (Silent.void (execCall_silent hfmt (callee_direct rfl rfl) (.pure Val.undef)) rfl)
    next => exact .pure _
  have hpads : CallPads (argPads (retPads P st.func.ret) st.func.params ws) (retAddr P st.func.ret)
      (argAddr (retPads P st.func.ret) ws) st.func ws := by
    refine callPads_of_args ?_
    rw [← (evalValues_eq_some.mp hws).length_eq, List.length_map, hlen]
  have hcallback : Sim Machine.withPads (argPads (retPads P st.func.ret) st.func.params ws)
      (fun a _ P' => Stored (argPads (retPads P st.func.ret) st.func.params ws) (retAddr P st.func.ret) st.func a P')
      (oc v ws) (callback E O fuel call
        [.addr (.cbStub h), v, retAddr P st.func.ret, argAddr (retPads P st.func.ret) ws]) := by
    simp only [callback, hlookup]
    exact cbStub_sim fuel hret harg hpads (hoc _ v ws)
  rw [execInsts_append]
  refine Sim.silent (Sim.call hdebug (execCall_sim hargs₂ (callee_direct rfl rfl) hcallback)) ?_
  rintro a _ P' ⟨_, hstored, rfl⟩
  obtain ⟨env', hrun, hcalled⟩ := callbackEpilogue_run E O call fcp args fuel hstored hretPtr₂
    ((hname 0 (by omega)).trans hsave) hresult
  refine ⟨env', P, hrun, ⟨?_, hcalled.value, ?_⟩, rfl⟩
  · intro x hx hx'
    exact (hcalled.frame x hx hx').trans (hoff x hx')
  · intro ht
    exact (hcalled.void ht).trans (hoff result hresult)

end Callback

end Comulator.CallbackRun
