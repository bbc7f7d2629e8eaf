import Comulator.GeneratedRun

namespace Comulator.StubRun

open Fallible Types Ir TypeHash Symtbl HostIr ChopOff Exec Simulation ExecRules Compose CallbackRun BodyRun GeneratedRun

variable {S W : Type} {E : Setting S W} {call : Caller S W} {enter : List (Val S) → Run S W (Val S)}
variable {P P' : Pads S} {args : List (Val S)} {env env' : Env Nat S} {t : FunctionType}

section Pads

theorem CallPads.append {retPad argPad : Val S} {vs : List (Val S)} (h : CallPads P retPad argPad t vs) (R : Pads S) :
    CallPads (P ++ R) retPad argPad t vs where
  ret := by
    intro ht
    obtain ⟨i, old, hi, hval⟩ := h.ret ht
    refine ⟨i, old, hi, ?_⟩
    rw [List.getElem?_append_left (List.getElem?_eq_some_iff.mp hval).1, hval]
  arg := by
    intro hps
    obtain ⟨i, hi, hval⟩ := h.arg hps
    refine ⟨i, hi, ?_⟩
    rw [List.getElem?_append_left (List.getElem?_eq_some_iff.mp hval).1, hval]
  length := h.length

theorem RefPad.append {ptr : Val S} {vs : List (Val S)} (h : RefPad P ptr vs) (R : Pads S) :
    RefPad (P ++ R) ptr vs := by
  intro hvs
  obtain ⟨j, hj, hval⟩ := h hvs
  refine ⟨j, hj, ?_⟩
  rw [List.getElem?_append_left (List.getElem?_eq_some_iff.mp hval).1, hval]

def refPads (P : Pads S) (vs : List (Val S)) : Pads S :=
  if vs.isEmpty then P else P ++ [(.array ptrTy vs.length, .agg vs)]

def refAddr (P : Pads S) (vs : List (Val S)) : Val S := if vs.isEmpty then .null else .addr (.pad P.length)

theorem refPads_append (P : Pads S) (vs : List (Val S)) : ∃ R, refPads P vs = P ++ R := by
  unfold refPads
  split
  · exact ⟨[], (List.append_nil P).symm⟩
  · exact ⟨_, rfl⟩

theorem refPad_of_refs (P : Pads S) (vs : List (Val S)) : RefPad (refPads P vs) (refAddr P vs) vs := by
  intro hvs
  have hempty : vs.isEmpty = false := by simpa using hvs
  refine ⟨P.length, ?_, ?_⟩
  · simp [refAddr, hempty]
  · simp [refPads, hempty]

end Pads

section Packing

theorem packName_injective (i : Nat) : Function.Injective (packName i) := by
  intro a b h
  simp only [packName] at h
  omega

/-- A value that names no instruction is the same in every environment. -/
theorem stable_of_no_inst {name : Nat → Nat} {v : SValue} (hv : ∀ x, v ≠ .inst x) :
    Stable E.sem stubSymbols args name env v := by
  intro env' _
  cases v with
  | inst x => exact absurd rfl (hv x)
  | metadata md => cases md <;> rfl
  | const | arg | inlineAsm => rfl

variable (E args) in
theorem padPtr_off {i name : Nat} (present : Bool) (hne : ∀ k, name ≠ packName i k) (hoff : Off (packName i) env env') :
    evalValue E.sem stubSymbols args env' (padPtr present name) =
      evalValue E.sem stubSymbols args env (padPtr present name) := by
  cases present with
  | false => rfl
  | true => exact hoff name hne

theorem packName_ne {i j : Nat} (hi : i < 4) (hj : j < 4) (hij : i ≠ j) (k : Nat) : packName i 0 ≠ packName j k := by
  simp only [packName]
  omega

theorem retName_ne (i k : Nat) : 1 ≠ packName i k := by
  simp only [packName]
  omega

variable (E call enter env) in
theorem pack_guest (i : Nat) (ty : Ty) {vs : List SValue} {ws : List (Val S)} (hvs : ∀ v ∈ vs, ∀ x, v ≠ .inst x)
    (hne : vs ≠ []) (hws : evalValues E.sem stubSymbols args env vs = some ws) :
    ∃ env', Silent Machine.withPads P env' (P ++ [(ty, .agg ws)])
        (execInsts E.sem (stubCtx call enter) args env (packCode (packName i) ty vs)) ∧
      Off (packName i) env env' ∧ env' (packName i 0) = some (.addr (.pad P.length)) :=
  (packCode_run ty (packName_injective i) (fun v hv => stable_of_no_inst (hvs v hv)) hne).2 ws hws

variable (E call enter args) in
theorem retCode_guest (t : FunctionType) : ∃ env, Silent Machine.withPads P env (retPads P t.ret)
      (execInsts E.sem (stubCtx call enter) args (fun _ => none)
        (match retType t with | some ty => [(⟨1, .alloca ty⟩ : SInst)] | none => [])) ∧
    evalValue E.sem stubSymbols args env (padPtr (retType t).isSome 1) = some (retAddr P t.ret) := by
  by_cases ht : t.ret = .void
  · rw [retType, if_pos ht, retPads, if_pos ht, retAddr, if_pos ht]
    exact ⟨_, .pure _, rfl⟩
  · rw [retType, if_neg ht, retPads, if_neg ht, retAddr, if_neg ht]
    exact ⟨_, Silent.single (Silent.inst (alloca_silent t.ret) rfl), by simp [padPtr, evalValue]⟩

theorem evalValues_args : evalValues E.sem stubSymbols args env ((List.range args.length).map Value.arg) = some args := by
  refine evalValues_eq_some.mpr (List.forall₂_iff_get.mpr ⟨by simp, ?_⟩)
  intro i h₁ h₂
  simp [evalValue]

variable (E call enter) in
theorem argCode_guest (env : Env Nat S) (hlen : args.length = t.params.length) :
    ∃ env', Silent Machine.withPads P env' (argPads P t.params args) (execInsts E.sem (stubCtx call enter) args env
        (match argType t with
          | some ty => packCode (packName 0) ty ((List.range t.params.length).map (Value.arg : Nat → SValue))
          | none => [])) ∧
      Off (packName 0) env env' ∧
      evalValue E.sem stubSymbols args env' (padPtr (argType t).isSome (packName 0 0)) = some (argAddr P args) := by
  by_cases hps : t.params = []
  · have hargs : args = [] := List.length_eq_zero_iff.mp (by rw [hlen, hps]; rfl)
    subst hargs
    rw [argType, hps]
    exact ⟨env, .pure _, Off.refl, rfl⟩
  · have hne : t.params.isEmpty = false := by simpa using hps
    have hargs : args.isEmpty = false := by
      cases args with
      | nil => exact absurd (List.length_eq_zero_iff.mp hlen.symm) hps
      | cons => rfl
    rw [argType, hne, ← hlen]
    have hvs : (List.range args.length).map (Value.arg : Nat → SValue) ≠ [] := by
      intro h
      simp only [List.map_eq_nil_iff, List.range_eq_nil, List.length_eq_zero_iff] at h
      rw [h] at hargs
      cases hargs
    have hplain : ∀ v ∈ (List.range args.length).map (Value.arg : Nat → SValue), ∀ x, v ≠ .inst x := by
      intro v hv x hx
      obtain ⟨i, _, rfl⟩ := List.mem_map.mp hv
      cases hx
    obtain ⟨env', hrun, hoff, hptr⟩ := pack_guest E call enter (P := P) env 0 (.struct t.params false)
      hplain hvs evalValues_args
    refine ⟨env', ?_, hoff, ?_⟩
    · simpa [argPads, hargs] using hrun
    · simp only [argAddr, hargs]
      exact hptr

variable (E call enter args) in
theorem refCode_guest {K : Type} (i : Nat) (env : Env Nat S) (keys : List K) (sym : K → GuestSym) {val : K → Val S}
    (hval : ∀ k, stubSymbols.global (sym k) = some (val k)) :
    ∃ env', Silent Machine.withPads P env' (refPads P (keys.map val)) (execInsts E.sem (stubCtx call enter) args env
        (refPad i (keys.map (fun k => .const (.global (sym k)))))) ∧
      Off (packName i) env env' ∧
      evalValue E.sem stubSymbols args env'
        (padPtr (!(keys.map (fun k => (.const (.global (sym k)) : SValue))).isEmpty) (packName i 0)) =
          some (refAddr P (keys.map val)) := by
  cases keys with
  | nil => exact ⟨env, .pure _, Off.refl, rfl⟩
  | cons k keys =>
      have hvals : evalValues E.sem stubSymbols args env
          ((k :: keys).map (fun k => (.const (.global (sym k)) : SValue))) = some ((k :: keys).map val) := by
        apply evalValues_eq_some.mpr
        rw [List.forall₂_map_left_iff, List.forall₂_map_right_iff, List.forall₂_same]
        exact fun k _ => hval k
      have hplain : ∀ u ∈ (k :: keys).map (fun k => (.const (.global (sym k)) : SValue)), ∀ x, u ≠ .inst x := by
        intro u hu x hx
        obtain ⟨k, _, rfl⟩ := List.mem_map.mp hu
        cases hx
      obtain ⟨env', hrun, hoff, hptr⟩ := pack_guest E call enter (P := P) env i
        (.array ptrTy ((k :: keys).map val).length) hplain (by simp) hvals
      refine ⟨env', ?_, hoff, hptr⟩
      rw [List.length_map] at hrun
      simp only [refPads, refPad, List.length_map]
      exact hrun

end Packing

section Chopped

variable {config : Config} {bw : BwList} {symtbl : Symtbl} {g : Nat} {f : GFunction} {info : FuncInfo}
variable {retPad argPad refs stubs : Val S}

structure EntryPads (grt : Bool) (info : FuncInfo) (P : Pads S) (t : FunctionType) (args : List (Val S))
    (retPad argPad refs stubs : Val S) : Prop where
  call : CallPads P retPad argPad t args
  refs : grt = false → RefPad P refs (info.extRefArgs.map (fun r => .addr (.guest r)))
  stubs : grt = false → RefPad P stubs (info.cbStubArgs.map (fun h => .addr (.cbStub h)))

def entryArgs (grt : Bool) (retPad argPad refs stubs : Val S) : List (Val S) :=
  [retPad, argPad] ++ if grt then [] else [refs, stubs]

def enterArgs (grt : Bool) (uid : Nat) (retPad argPad refs stubs : Val S) : List (Val S) :=
  .addr (.guestSym .gyhQlibUid) :: .int 32 uid :: entryArgs grt retPad argPad refs stubs

def choppedArgs (config : Config) (info : FuncInfo) : List (Ty × SValue) :=
  let uidArgs := [pointer (.const (.global .gyhQlibUid)), (.integer 32, .const (.int 32 info.uid)),
    pointer (padPtr info.stubType.ret.isSome 1), pointer (padPtr info.stubType.arg.isSome (packName 0 0))]
  if config.useGRT then uidArgs else uidArgs ++
    [pointer (padPtr (!(info.extRefArgs.map (fun r => (.const (.global (.user r)) : SValue))).isEmpty) (packName 1 0)),
      pointer (padPtr (!(info.cbStubArgs.map (fun h => (.const (.global (.cbStub h)) : SValue))).isEmpty) (packName 2 0))]

def choppedPacks (config : Config) (f : GFunction) (info : FuncInfo) : List SInst :=
  (match info.stubType.ret with | some ty => [⟨1, .alloca ty⟩] | none => []) ++
    (match info.stubType.arg with
      | some ty => packCode (packName 0) ty ((List.range f.type.params.length).map Value.arg)
      | none => []) ++
    if config.useGRT then [] else
      refPad 1 (info.extRefArgs.map (fun r => .const (.global (.user r)))) ++
        refPad 2 (info.cbStubArgs.map (fun h => .const (.global (.cbStub h))))

def choppedCall (config : Config) (info : FuncInfo) : CallBase GuestSym Nat :=
  ⟨⟨.void, (choppedArgs config info).map Prod.fst, false⟩, 0, ⟨[]⟩,
    .const (.global (if config.useGRT then .gyhCallGrt else .gyhCall)), choppedArgs config info⟩

theorem chopGfunc_eq {s : Stub} (h : chopGfunc config bw symtbl g f info = some s) :
    s = stub f.type f.callingConv f.attributes (choppedPacks config f info ++
      (if config.debug then [⟨2, debugCall .callDebugFmt (choppedArgs config info)⟩] else []) ++
      [⟨3, .call (choppedCall config info)⟩] ++
      (match info.stubType.ret with
        | some ty => [⟨4, .load ty (padPtr info.stubType.ret.isSome 1)⟩]
        | none => []))
      (info.stubType.ret.map (fun ty => (ty, .inst 4))) ((prefixData config bw g f info).map guestConst) := by
  unfold chopGfunc at h
  simp only at h
  split at h
  next => exact (Option.some.inj h).symm
  next => cases h

def refsPtr (info : FuncInfo) : SValue :=
  padPtr (!(info.extRefArgs.map (fun r => (.const (.global (.user r)) : SValue))).isEmpty) (packName 1 0)

def stubsPtr (info : FuncInfo) : SValue :=
  padPtr (!(info.cbStubArgs.map (fun h => (.const (.global (.cbStub h)) : SValue))).isEmpty) (packName 2 0)

variable (E call enter args P info env) in
/-- The references and the callback stubs are packed. -/
theorem refCodes_run : ∃ env' R refs stubs, Silent Machine.withPads P env' (P ++ R)
      (execInsts E.sem (stubCtx call enter) args env
        (refPad 1 (info.extRefArgs.map (fun r => .const (.global (.user r)))) ++
          refPad 2 (info.cbStubArgs.map (fun h => .const (.global (.cbStub h)))))) ∧
    (∀ x, (∀ k, x ≠ packName 1 k) → (∀ k, x ≠ packName 2 k) → env' x = env x) ∧
    RefPad (P ++ R) refs (info.extRefArgs.map (fun r => .addr (.guest r))) ∧
    RefPad (P ++ R) stubs (info.cbStubArgs.map (fun h => .addr (.cbStub h))) ∧
    evalValue E.sem stubSymbols args env' (refsPtr info) = some refs ∧
    evalValue E.sem stubSymbols args env' (stubsPtr info) = some stubs := by
  obtain ⟨env₁, hrun₁, hoff₁, hptr₁⟩ := refCode_guest E call enter args (P := P) 1 env info.extRefArgs
    GuestSym.user (fun r => rfl)
  obtain ⟨R₁, hR₁⟩ := refPads_append P (info.extRefArgs.map (fun r => .addr (.guest r)))
  have hrefs := refPad_of_refs P (info.extRefArgs.map (fun r => .addr (.guest r)))
  rw [hR₁] at hrun₁ hrefs
  obtain ⟨env₂, hrun₂, hoff₂, hptr₂⟩ := refCode_guest E call enter args (P := P ++ R₁) 2 env₁ info.cbStubArgs
    GuestSym.cbStub (fun h => rfl)
  obtain ⟨R₂, hR₂⟩ := refPads_append (P ++ R₁) (info.cbStubArgs.map (fun h => .addr (.cbStub h)))
  have hstubs := refPad_of_refs (P ++ R₁) (info.cbStubArgs.map (fun h => .addr (.cbStub h)))
  rw [hR₂] at hrun₂ hstubs
  have hkept := padPtr_off E args (!(info.extRefArgs.map (fun r => (.const (.global (.user r)) : SValue))).isEmpty)
    (packName_ne (i := 1) (j := 2) (by omega) (by omega) (by omega)) hoff₂
  rw [List.append_assoc] at hrun₂ hstubs
  refine ⟨env₂, R₁ ++ R₂, _, _, Silent.append hrun₁ hrun₂, ?_, ?_, hstubs, hkept.trans hptr₁, hptr₂⟩
  · intro x hx₁ hx₂
    exact (hoff₂ x hx₂).trans (hoff₁ x hx₁)
  · rw [← List.append_assoc]
    exact RefPad.append hrefs R₂

variable (E call enter P config) in
theorem choppedPacks_run (hret : info.stubType.ret = retType f.type) (harg : info.stubType.arg = argType f.type)
    (hlen : args.length = f.type.params.length) :
    ∃ env R argPad refs stubs, Silent Machine.withPads P env (P ++ R)
        (execInsts E.sem (stubCtx call enter) args (fun _ => none) (choppedPacks config f info)) ∧
      EntryPads config.useGRT info (P ++ R) f.type args (retAddr P f.type.ret) argPad refs stubs ∧
      evalValue E.sem stubSymbols args env (padPtr info.stubType.ret.isSome 1) = some (retAddr P f.type.ret) ∧
      evalValues E.sem stubSymbols args env ((choppedArgs config info).map Prod.snd) =
        some (enterArgs config.useGRT info.uid (retAddr P f.type.ret) argPad refs stubs) := by
  obtain ⟨env₁, hrun₁, hptr₁⟩ := retCode_guest E call enter args (P := P) f.type
  obtain ⟨env₂, hrun₂, hoff₂, hptr₂⟩ := argCode_guest E call enter (P := retPads P f.type.ret) env₁ hlen
  have hcall : CallPads (argPads (retPads P f.type.ret) f.type.params args) (retAddr P f.type.ret)
      (argAddr (retPads P f.type.ret) args) f.type args := callPads_of_args hlen
  obtain ⟨R, hR⟩ := argPads_append P f.type args
  rw [← hret] at hrun₁ hptr₁
  rw [← harg] at hrun₂ hptr₂
  rw [hR] at hrun₂ hcall
  have hretPtr := (padPtr_off E args _ (retName_ne 0) hoff₂).trans hptr₁
  cases hgrt : config.useGRT with
  | true =>
      refine ⟨env₂, R, argAddr (retPads P f.type.ret) args, .null, .null, ?_, ⟨hcall, ?_, ?_⟩, hretPtr, ?_⟩
      · rw [choppedPacks, hgrt]
        exact Silent.append (Silent.append hrun₁ hrun₂) (.pure _)
      · intro h
        cases h
      · intro h
        cases h
      · rw [choppedArgs, hgrt]
        exact evalValues_eq_some.mpr (.cons rfl (.cons rfl (.cons hretPtr (.cons hptr₂ .nil))))
  | false =>
      obtain ⟨env₃, R', refs, stubs, hrun₃, hkept, hrefs, hstubs, hrefsPtr, hstubsPtr⟩ :=
        refCodes_run E call enter (P ++ R) args env₂ info
      have hptr : ∀ present x, (∀ k, x ≠ packName 1 k) → (∀ k, x ≠ packName 2 k) →
          evalValue E.sem stubSymbols args env₃ (padPtr present x) =
            evalValue E.sem stubSymbols args env₂ (padPtr present x) := by
        intro present x hx₁ hx₂
        cases present with
        | false => rfl
        | true => exact hkept x hx₁ hx₂
      have hretPtr' := (hptr _ 1 (retName_ne 1) (retName_ne 2)).trans hretPtr
      have hargPtr' := (hptr _ (packName 0 0) (packName_ne (by omega) (by omega) (by omega))
        (packName_ne (by omega) (by omega) (by omega))).trans hptr₂
      rw [List.append_assoc] at hrun₃ hrefs hstubs
      refine ⟨env₃, R ++ R', argAddr (retPads P f.type.ret) args, refs, stubs, ?_, ⟨?_, fun _ => hrefs, fun _ => hstubs⟩,
        hretPtr', ?_⟩
      · rw [choppedPacks, hgrt]
        exact Silent.append (Silent.append hrun₁ hrun₂) hrun₃
      · rw [← List.append_assoc]
        exact CallPads.append hcall R'
      · rw [choppedArgs, hgrt]
        exact evalValues_eq_some.mpr
          (.cons rfl (.cons rfl (.cons hretPtr' (.cons hargPtr' (.cons hrefsPtr (.cons hstubsPtr .nil))))))

mutual

theorem evalConst_guestConst (sem : Sem S W) (c : Const Nat) :
    evalConst sem stubSymbols (guestConst c) = evalConst sem guestSymbols c := by
  cases c with
  | aggregate kind ops => rw [guestConst, evalConst, evalConst, evalConsts_guestConsts sem ops]
  | expr opcode ty is ops => rw [guestConst, evalConst, evalConst, evalConsts_guestConsts sem ops]
  | undef n => cases n <;> rfl
  | int | nullPtr | poison | data | global | wrapper => rfl

theorem evalConsts_guestConsts (sem : Sem S W) (cs : List (Const Nat)) :
    evalConsts sem stubSymbols (guestConsts cs) = evalConsts sem guestSymbols cs := by
  cases cs with
  | nil => rfl
  | cons c cs => rw [guestConsts, evalConsts, evalConsts, evalConst_guestConst sem c, evalConsts_guestConsts sem cs]

end

theorem prefix_evaluates (sem : Sem S W) (o : Option (Const Nat)) :
    evalConsts sem stubSymbols ([] ++ (o.map guestConst).toList) ≠ none := by
  cases o with
  | none => exact Option.some_ne_none _
  | some c =>
      obtain ⟨v, hv⟩ := evalConst_guest sem c
      have hc : evalConst sem stubSymbols (guestConst c) = some v := (evalConst_guestConst sem c).trans hv
      change evalConsts sem stubSymbols [guestConst c] ≠ none
      rw [evalConsts, hc]
      exact Option.some_ne_none _

/-- A chopped function does what the host does that it enters. -/
theorem chopped_sim {x : Run S W (Val S)} {s : Stub} (k : Nat) (hs : chopGfunc config bw symtbl g f info = some s)
    (hret : info.stubType.ret = retType f.type) (harg : info.stubType.arg = argType f.type)
    (hlen : args.length = f.type.params.length) (hvoid : ∀ s a s', x s = .ok a s' → f.type.ret = .void → a = .undef)
    (henter : ∀ Q retPad argPad refs stubs, EntryPads config.useGRT info Q f.type args retPad argPad refs stubs →
      Sim Machine.withPads Q (fun a _ Q' => Stored Q retPad f.type a Q') x
        (enter (enterArgs config.useGRT info.uid retPad argPad refs stubs))) :
    Sim Machine.withPads P (Same P) x (execFunction E.sem (stubCtx call enter) args s (k + 1)) := by
  obtain ⟨env, R, argPad, refs, stubs, hrun, hpads, hptr, hvals⟩ :=
    choppedPacks_run E call enter P config hret harg hlen
  have hdebug : Silent Machine.withPads (P ++ R) env (P ++ R) (execInsts E.sem (stubCtx call enter) args env
      (if config.debug then [⟨2, debugCall .callDebugFmt (choppedArgs config info)⟩] else [])) := by
    split
    next =>
      have hfmt := evalValues_eq_some.mpr (.cons (show evalValue E.sem stubSymbols args env
        (.const (.global .callDebugFmt)) = some _ from rfl) (evalValues_eq_some.mp hvals))
      exact Silent.single (Silent.void (execCall_silent hfmt (callee_direct rfl rfl) (.pure Val.undef)) rfl)
    next => exact .pure _
  have hdirect : callee E.sem (stubCtx call enter) args env (choppedCall config info) = some enter := by
    have hop : (choppedCall config info).calledOperand =
        .const (.global (if config.useGRT then .gyhCallGrt else .gyhCall)) := rfl
    have henters : (stubCtx call enter).direct (if config.useGRT then .gyhCallGrt else .gyhCall) =
        some (fun _ => enter) := by cases config.useGRT <;> rfl
    exact callee_direct hop henters
  have hentered := (henter _ _ _ _ _ hpads).post (T := fun a => f.type.ret = .void → a = .undef) hvoid
  have hvals' : evalValues E.sem stubSymbols args env ((choppedCall config info).args.map Prod.snd) = _ := hvals
  have hcall := Sim.call (i := 3) (Silent.append hrun hdebug) (execCall_sim hvals' hdirect hentered)
  rw [chopGfunc_eq hs]
  refine single_sim (Q := fun a env' P' => (f.type.ret = .void → a = .undef) ∧ P'.take P.length = P ∧
    (f.type.ret ≠ .void → env' 4 = some a)) k rfl (prefix_evaluates E.sem _) hlen ?_ ?_
  · rw [execInsts_append]
    refine hcall.silent ?_
    rintro a env' P' ⟨w, ⟨hstored, hundef⟩, henv⟩
    obtain rfl : env' = env := henv
    by_cases ht : f.type.ret = .void
    · have hnone : info.stubType.ret = none := by rw [hret, retType, if_pos ht]
      rw [hnone]
      exact ⟨_, P', .pure _, hundef, hstored.take, fun hne => absurd ht hne⟩
    · have hsome : info.stubType.ret = some f.type.ret := by rw [hret, retType, if_neg ht]
      obtain ⟨haddr, hload⟩ := hstored.load ht
      rw [haddr] at hptr
      refine ⟨Function.update env' 4 (some a), P', ?_, hundef, hstored.take, fun _ => Function.update_self _ _ _⟩
      rw [hsome]
      rw [hsome] at hptr
      exact Silent.single (Silent.inst (load_silent hptr hload) rfl)
  · rintro a env' P' ⟨hundef, htake, hvalue⟩
    by_cases ht : f.type.ret = .void
    · refine ⟨.undef, ?_, (hundef ht).symm, htake⟩
      rw [hret, retType, if_pos ht]
      rfl
    · refine ⟨a, ?_, rfl, htake⟩
      rw [hret, retType, if_neg ht]
      exact hvalue ht

end Chopped

section Forward

open TakeOut EntryRun OperandRun

variable {O : Offloaded} {fuel : Nat} {fcp : Nat → Interface → List (Val S) → Run S W (Val S)} {I : Input} {g : Nat}
variable {f : GFunction} {info : FuncInfo} {retPad argPad : Val S} {gargs : List (Val S)}

def forwardCall (I : Input) (g : Nat) (f : GFunction) (info : FuncInfo) : CallBase HostSym HostId :=
  ⟨f.type, 0, ⟨[]⟩, .const (.global (.fcpFunc g)),
    f.type.params.zipIdx.map (fun p => (p.1, .inst (entryName (1 + (TakeOut.debugCode I info).length + 1 + p.2))))⟩

/-- The stub of the fast call path makes the call and stores the result. -/
theorem fcpStub_sim {x : Run S W (Val S)} (k : Nat) (hgrt : I.config.useGRT = true)
    (hret : info.stubType.ret = retType f.type) (harg : info.stubType.arg = argType f.type)
    (hpads : CallPads P retPad argPad f.type gargs)
    (hx : Sim Machine.withPads P (Same P) x (fcp g (forwardCall I g f info).interface gargs)) :
    Sim Machine.withPads P (fun a _ P' => Stored P retPad f.type a P') x
      (execFunction E.sem (hostCtx E O fuel call fcp) [retPad, argPad] (fcpStub I g f info) (k + 1)) := by
  have hdebug : Computes E O fuel call fcp [retPad, argPad] P none 1 (fun _ => none)
      (TakeOut.debugCode I info) (fun _ => none) := debugCode_run (by simp [hstubType, ptrsType, hgrt])
  obtain ⟨env, hargs, hfields⟩ : ∃ env', Computes E O fuel call fcp [retPad, argPad] P none _
      (fun _ => none) (argsCode f info (1 + (TakeOut.debugCode I info).length)) env' ∧ _ := argsCode_run harg hpads rfl
  have hvals : evalValues E.sem hostSymbols [retPad, argPad] env ((forwardCall I g f info).args.map Prod.snd) =
      some gargs := by
    rw [forwardCall, List.map_map]
    exact evalValues_names hpads.length (fun i hi => (hfields i hi).2)
  have hcall := Sim.call (i := entryName (1 + (TakeOut.debugCode I info ++
      argsCode f info (1 + (TakeOut.debugCode I info).length)).length)) (hdebug.append hargs).run
    (execCall_sim hvals (callee_direct rfl rfl) hx)
  refine single_sim (Q := fun a _ P' => Stored P retPad f.type a P') k rfl (Option.some_ne_none _)
    (by simp [fcpStub, hstubType, ptrsType, hgrt]) ?_ ?_
  · by_cases ht : f.type.ret = .void
    · have hnone : info.stubType.ret = none := by rw [hret, retType, if_pos ht]
      simp only [hnone, Option.isSome_none, Bool.false_eq_true, if_false, place_cons]
      refine hcall.mono ?_
      rintro a env' P' ⟨w, ⟨_, rfl⟩, _⟩
      exact ⟨fun _ => rfl, fun hne => absurd ht hne⟩
    · have hsome : info.stubType.ret = some f.type.ret := by rw [hret, retType, if_neg ht]
      obtain ⟨i, old, rfl, hi⟩ := hpads.ret ht
      simp only [hsome, Option.isSome_some, if_true, place_cons]
      rw [List.append_cons, execInsts_append]
      refine hcall.silent ?_
      rintro a env' P' ⟨w, ⟨rfl, rfl⟩, henv⟩
      rw [if_neg (show ¬ (forwardCall I g f info).functionType.ret = .void from ht)] at henv
      subst henv
      refine ⟨_, _, Silent.single (Silent.inst (store_silent (Function.update_self _ _ _) rfl hi) rfl), ?_, ?_⟩
      · exact fun h => absurd h ht
      · exact fun _ => ⟨i, rfl, (List.getElem?_eq_some_iff.mp hi).1, rfl⟩
  · intro a env' P' hstored
    refine ⟨.undef, rfl, ?_⟩
    rw [List.take_of_length_le (Nat.le_of_eq hstored.length)]
    exact hstored

end Forward

end Comulator.StubRun
