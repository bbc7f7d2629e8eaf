import Comulator.CrossCalls
import Comulator.WalkShape

namespace Comulator.CrossRun

open Fallible Types Ir TypeHash Symtbl HostIr TakeOut ChopOff Exec Simulation ExecRules Compose CallbackRun OperandRun
  InstRun PhiRun BodyRun Approximation ExecApprox FcpCmSplit CrossCalls

section Contexts

variable {γ ι S W : Type} [DecidableEq ι] {sem : Sem S W} {C C' : Ctx γ S W} {args : List (Val S)}

def Direct (C : Ctx γ S W) (l : List (Inst γ ι)) : Prop :=
  ∀ i ∈ l, ∀ c, i.op = .call c → ∃ g, c.calledOperand = .const (.global g) ∧ (C.direct g).isSome

omit [DecidableEq ι] in
theorem Direct.append {l l' : List (Inst γ ι)} (h : Direct C l) (h' : Direct C l') : Direct C (l ++ l') := by
  intro i hi
  rcases List.mem_append.mp hi with hi | hi
  · exact h i hi
  · exact h' i hi

omit [DecidableEq ι] in
theorem direct_of_noCall {l : List (Inst γ ι)} (h : ∀ i ∈ l, ∀ c, i.op ≠ .call c) : Direct C l :=
  fun i hi c hc => absurd hc (h i hi c)

theorem execInst_direct (hsymbols : C'.toSymbols = C.toSymbols) (hcell : C'.cell = C.cell) (hdirect : C'.direct = C.direct)
    {i : Inst γ ι} (h : Direct C [i]) (env : Env ι S) : execInst sem C' args env i = execInst sem C args env i := by
  have hop : execOp sem C' args env i.op = execOp sem C args env i.op := by
    by_cases hcall : ∃ c, i.op = .call c
    · obtain ⟨c, hc⟩ := hcall
      obtain ⟨g, hg, hsome⟩ := h i (List.mem_singleton.mpr rfl) c hc
      obtain ⟨d, hd⟩ := Option.isSome_iff_exists.mp hsome
      rw [hc]
      change execCall sem C' args env c = execCall sem C args env c
      rw [execCall, execCall, callee_direct hg (hdirect ▸ hd), callee_direct hg hd, hsymbols]
    · exact execOp_congr hsymbols hcell env (fun c hc => hcall ⟨c, hc⟩)
  rw [execInst, hop]
  rfl

theorem execInsts_direct (hsymbols : C'.toSymbols = C.toSymbols) (hcell : C'.cell = C.cell) (hdirect : C'.direct = C.direct)
    {l : List (Inst γ ι)} (h : Direct C l) (env : Env ι S) : execInsts sem C' args env l = execInsts sem C args env l := by
  induction l generalizing env with
  | nil => rfl
  | cons i l ih =>
      have hi : Direct C [i] := fun j hj => h j (List.mem_cons.mpr (.inl (List.mem_singleton.mp hj)))
      have hl : Direct C l := fun j hj => h j (List.mem_cons_of_mem _ hj)
      rw [execInsts_cons, execInsts_cons, execInst_direct hsymbols hcell hdirect hi]
      congr 1
      funext env'
      exact ih hl env'

end Contexts

variable {Sc W : Type} {E : Setting Sc W} {O : Offloaded} {k : Nat} {copyAt : Val Sc → Option (Val Sc)} {l gl : Calls Sc W}
variable {I : Input} {X : Copy} {P P' : Pads Sc} {gargs args : List (Val Sc)} {e : Env Nat Sc} {env env' : Env HostId Sc}

section Host

theorem execInsts_cross {code : List HInst} (h : Direct (hostCtx E O k l.guest l.fcp) code) :
    execInsts E.sem (crossCtx E O k copyAt l) args env code = execInsts E.sem (hostCtx E O k l.guest l.fcp) args env code := by
  refine execInsts_direct ?_ ?_ ?_ h env <;> rfl

/-- Code that runs through without a jump does so in any case. -/
theorem Silent.cross {code : List HInst} (h : Silent Machine.withPads P env' P'
    (execInsts E.sem (hostCtx E O k l.guest l.fcp) args env code)) : Silent Machine.withPads P env' P'
      (execInsts E.sem (crossCtx E O k copyAt l) args env code) := by
  have hbelow : CtxBelow (· = .stuck) (fun _ => False) (hostCtx E O k l.guest l.fcp) (crossCtx E O k copyAt l) := by
    refine ⟨rfl, rfl, fun s => ?_, fun _ _ _ => .of_out rfl⟩
    change Option.Rel _ ((hostCtx E O k l.guest l.fcp).direct s) ((hostCtx E O k l.guest l.fcp).direct s)
    cases (hostCtx E O k l.guest l.fcp).direct s with
    | none => exact .none
    | some d => exact .some (fun i vs => .refl (fun _ hf => hf))
  intro s
  have hcode : Below (· = .stuck) (fun _ => False) (execInsts E.sem (hostCtx E O k l.guest l.fcp) args env code)
      (execInsts E.sem (crossCtx E O k copyAt l) args env code) :=
    execInsts_below (List.forall₂_same.mpr (fun i _ env => hbelow.inst env i)) env
  rcases hcode.agrees (s.withPads P) with hgone | hsame
  · rw [h s] at hgone
    exact absurd hgone id
  · exact hsame.trans (h s)

/-- A step of both sides that gives a value. -/
theorem Sim.inst_cons {γ ι α : Type} [DecidableEq ι] {sem : Sem Sc W} {C : Ctx γ Sc W} {env : Env ι Sc} {x : ι}
    {op : InstOp γ ι} {rest : List (Inst γ ι)} {y : Run Sc W (Val Sc)} {f : Val Sc → Run Sc W α}
    {T : Val Sc → Prop} {R : α → Env ι Sc → Pads Sc → Prop}
    (h : Sim Machine.withPads P (fun a b P' => Same P a b P' ∧ T a) y (execOp sem C args env op))
    (hop : isVoidCall op = false)
    (hrest : ∀ v, T v → Sim Machine.withPads P R (f v) (execInsts sem C args (Function.update env x (some v)) rest)) :
    Sim Machine.withPads P R (y >>= f) (execInsts sem C args env (⟨x, op⟩ :: rest)) := by
  have hinst : execInst sem C args env ⟨x, op⟩ =
      execOp sem C args env op >>= fun v => pure (Function.update env x (some v)) := by
    rw [execInst]
    simp only [hop, Bool.false_eq_true, if_false]
  rw [execInsts_cons, hinst, bind_assoc]
  refine h.bind ?_
  rintro _ v _ ⟨⟨rfl, rfl⟩, hv⟩
  rw [pure_bind]
  exact hrest v hv

theorem evalValue_update {x : HostId} {v : Val Sc} :
    evalValue E.sem hostSymbols args (Function.update env x (some v)) (.inst x) = some v := Function.update_self ..

theorem Same.true {α : Type} {x y : Run Sc W α} (h : Sim Machine.withPads P (Same P) x y) :
    Sim Machine.withPads P (fun a b P' => Same P a b P' ∧ True) x y := h.mono (fun _ _ _ hs => ⟨hs, trivial⟩)

end Host

section Check

theorem loadFrom_sim {C C' : Ctx HostSym Sc W} (hcell : C'.cell = C.cell) {p : Val Sc} (hp : ∀ i, p ≠ .addr (.pad i)) (ty : Ty) :
    Sim Machine.withPads P (Same P) (loadFrom E.sem C ty p) (loadFrom E.sem C' ty p) := by
  unfold loadFrom
  split
  next i => exact absurd rfl (hp i)
  next a _ =>
    rw [hcell]
    split
    next => split <;> first | exact .pure ⟨rfl, rfl⟩ | exact .throw _ (.throw _)
    next => exact onWorld_sim _
  next => exact onWorld_sim _

theorem elementOf_sim (j : Int) (v : Val Sc) :
    Sim Machine.withPads P (Same P) (elementOf E.sem j v) (elementOf E.sem j v) := by
  unfold elementOf
  split
  next => exact .pure ⟨rfl, rfl⟩
  next => exact onWorld_sim _

theorem elementOf_ne_pad (hcalm : Calm E.sem) {j : Int} {v p : Val Sc} {s s' : Machine Sc W}
    (h : elementOf E.sem j v s = .ok p s') : ∀ i, p ≠ .addr (.pad i) := by
  rintro i rfl
  unfold elementOf at h
  split at h
  next => cases h
  next =>
    unfold onWorld at h
    split at h
    next hop =>
      cases h
      exact hcalm.pads _ _ _ _ _ _ hop
    next => cases h

/-- The two instructions that read a word, and what follows. -/
theorem readWord_sim {α : Type} {C : Ctx HostSym Sc W} (hcalm : Calm E.sem) (hcell : C.cell = hostCell O) {x y : HostId}
    {ptr : HValue} {v : Val Sc} (hptr : evalValue E.sem hostSymbols args env ptr = some v) (j : Int) {rest : List HInst}
    {f : Val Sc → Run Sc W α} {R : α → Env HostId Sc → Pads Sc → Prop}
    (hrest : ∀ p a, Sim Machine.withPads P R (f a) (execInsts E.sem (crossCtx E O k copyAt l) args
      (Function.update (Function.update env x (some p)) y (some a)) rest)) :
    Sim Machine.withPads P R (readWord E.sem C j v >>= f) (execInsts E.sem (crossCtx E O k copyAt l) args env
      (⟨x, .elementPtr ptr j⟩ :: ⟨y, .load (.integer 64) (.inst x)⟩ :: rest)) := by
  rw [readWord, bind_assoc]
  refine Sim.inst_cons (T := fun p => ∀ i, p ≠ .addr (.pad i)) ?_ rfl (fun p hp => ?_)
  · refine (need_silent hptr).sim ?_
    exact (elementOf_sim j v).post (fun _ _ _ h => elementOf_ne_pad hcalm h)
  · refine Sim.inst_cons (Same.true ?_) rfl (fun a _ => hrest p a)
    refine (need_silent evalValue_update).sim (loadFrom_sim ?_ hp _)
    rw [hcell]
    rfl

variable {n j : Nat} {c : GCall} {callee : HValue} {hargs : List (Ty × HValue)} {s : Split}

/-- The code of the check reads what is before the called address. -/
theorem check_sim {C : Ctx HostSym Sc W} (hcalm : Calm E.sem) (hcell : C.cell = hostCell O)
    (hs : doFcpCm I X n j c callee hargs = .ok s) {v : Val Sc} (hcallee : evalValue E.sem hostSymbols args env callee = some v)
    (hstable : Stable E.sem hostSymbols args (callName n j) env callee) :
    Sim Machine.withPads P (fun r env' P' => Off (callName n j) env env' ∧ env' (callName n j 5) = some r.1 ∧
        env' (callName n j 3) = some r.2 ∧ P' = P)
      (readPrefix E.sem C v) (execInsts E.sem (crossCtx E O k copyAt l) args env s.check) := by
  obtain ⟨right, _, hs⟩ := bind_eq_ok.mp hs
  cases hs
  refine readWord_sim hcalm hcell hcallee (-2) (fun p a => ?_)
  have hoff₁ : Off (callName n j) env (Function.update (Function.update env (callName n j 0) (some p)) (callName n j 1) (some a)) :=
    (Off.update 0 _).trans (Off.update 1 _)
  refine readWord_sim hcalm hcell ((hstable _ hoff₁).trans hcallee) (-1) (fun q b => ?_)
  refine Sim.inst_cons (Same.true ((need_silent evalValue_update).sim (onWorld_sim _))) rfl (fun x _ => ?_)
  refine Sim.inst_cons (Same.true ?_) rfl (fun c _ => .pure ⟨?_, ?_, ?_, rfl⟩)
  · refine (need_silent (a := a) ?_).sim ((need_silent evalValue_update).sim (onWorld_sim _))
    simp [evalValue, callName]
  · exact ((((hoff₁.trans (Off.update 2 _)).trans (Off.update 3 _)).trans (Off.update 4 _)).trans (Off.update 5 _))
  · exact Function.update_self ..
  · simp [callName]

end Check

section Idle

variable {α β δ : Type}

def Idle (x : Run Sc W α) : Prop := ∀ s, (∃ a, x s = .ok a s) ∨ x s = .error .stuck s

theorem Idle.pure (a : α) : Idle (Pure.pure a : Run Sc W α) := fun _ => .inl ⟨a, rfl⟩

theorem Idle.throw : Idle (MonadExcept.throw .stuck : Run Sc W α) := fun _ => .inr rfl

theorem Idle.bind {x : Run Sc W α} {f : α → Run Sc W β} (hx : Idle x) (hf : ∀ a, Idle (f a)) : Idle (x >>= f) := by
  intro s
  rcases hx s with ⟨a, ha⟩ | hstuck
  · rw [bind_ok ha]
    exact hf a s
  · exact .inr (bind_error hstuck)

theorem need_idle (o : Option α) : Idle (need o : Run Sc W α) := by
  cases o with
  | none => exact .throw
  | some a => exact .pure a

theorem onWorld_idle {f : W → Option (Val Sc × W)} (h : ∀ w v w', f w = some (v, w') → w' = w) : Idle (onWorld f) := by
  intro s
  unfold onWorld
  cases hf : f s.world with
  | none => exact .inr rfl
  | some r =>
      obtain ⟨v, w⟩ := r
      cases h _ _ _ hf
      exact .inl ⟨v, rfl⟩

variable (hcalm : Calm E.sem)

include hcalm

theorem calm_idle {opcode : Opcode} (h : opcode ∈ [Opcode.getElementPtr, .load, .xor, .icmp, .intToPtr]) (ty : Ty)
    (is : List Nat) (vs : List (Val Sc)) : Idle (onWorld (E.sem.op opcode ty is vs)) :=
  onWorld_idle (fun _ _ _ hop => hcalm.world opcode h _ _ _ _ _ _ hop)

theorem readWord_idle (C : Ctx HostSym Sc W) (j : Int) (v : Val Sc) : Idle (readWord E.sem C j v) := by
  have helement : Idle (elementOf E.sem j v) := by
    unfold elementOf
    split
    next => exact .pure _
    next => exact calm_idle hcalm (by simp) _ _ _
  refine helement.bind (fun p => ?_)
  unfold loadFrom
  split
  next i =>
    refine Idle.bind (fun s => .inl ⟨s.pads, rfl⟩) (fun pads => ?_)
    split
    next => split <;> first | exact .pure _ | exact .throw
    next => exact .throw
  next a _ =>
    split
    next => split <;> first | exact .pure _ | exact .throw
    next => exact calm_idle hcalm (by simp) _ _ _
  next => exact calm_idle hcalm (by simp) _ _ _

theorem readPrefix_idle (C : Ctx HostSym Sc W) (v : Val Sc) : Idle (readPrefix E.sem C v) := by
  refine (readWord_idle hcalm C _ v).bind (fun a => (readWord_idle hcalm C _ v).bind (fun b => ?_))
  refine (calm_idle hcalm (by simp) _ _ _).bind (fun x => (calm_idle hcalm (by simp) _ _ _).bind (fun c => .pure _))

omit hcalm in
/-- What is needed may be asked for later. -/
theorem need_comm {y : Run Sc W β} (hy : Idle y) (o : Option α) (f : α → β → Run Sc W δ) :
    (need o >>= fun a => y >>= f a) = y >>= fun b => need o >>= fun a => f a b := by
  funext s
  cases o with
  | some a => rfl
  | none =>
      rcases hy s with ⟨b, hb⟩ | hstuck
      · rw [bind_ok hb]
        rfl
      · rw [bind_error hstuck]
        rfl

/-- The arguments of a call are needed once it is known where it goes. -/
theorem guarded_args (o : Option (List (Val Sc))) (v : Val Sc) (i : Interface) :
    (need o >>= fun ws => guarded E O k copyAt gl i v ws) =
      readPrefix E.sem (hostCtx E O k gl.guest gl.fcp) v >>= fun r => need (E.sem.truth r.1) >>= fun t =>
        if t then onWorld (E.sem.op .intToPtr ptrTy [] [r.2]) >>= fun h => need o >>= fun ws => hostCall copyAt gl i h ws
        else need o >>= fun ws => gl.guest i v ws := by
  unfold guarded
  rw [need_comm (readPrefix_idle hcalm _ v)]
  congr 1
  funext r
  rw [need_comm (need_idle _)]
  congr 1
  funext t
  cases t with
  | false => rfl
  | true => exact need_comm (calm_idle hcalm (by simp) _ _ _) o _

end Idle

section Ways

variable {n j : Nat} {c : GCall} {callee : HValue} {hargs : List (Ty × HValue)} {s : Split}

structure CrossFollows (gl l : Calls Sc W) : Prop where
  guest : ∀ P i v vs, Sim Machine.withPads P (Same P) (gl.guest i v vs) (l.guest i v vs)
  fcp : ∀ P g i vs, Sim Machine.withPads P (Same P) (gl.fcp g i vs) (l.fcp g i vs)
  cross : ∀ P i v vs, Sim Machine.withPads P (Same P) (gl.cross i v vs) (l.cross i v vs)

theorem hostCall_sim (hf : CrossFollows gl l) (i : Interface) (h : Val Sc) (vs : List (Val Sc)) :
    Sim Machine.withPads P (Same P) (hostCall copyAt gl i h vs) (hostCall copyAt l i h vs) := by
  unfold hostCall
  split
  next g => exact hf.fcp P g i vs
  next =>
    split
    next v _ => exact hf.cross P i v vs
    next => exact .throw _ (.throw _)

def Went (n j i : Nat) (t : Ty) (P : Pads Sc) (env : Env HostId Sc) (r : Val Sc) (env' : Env HostId Sc) (P' : Pads Sc) : Prop :=
  Off (callName n j) env env' ∧ (t ≠ .void → env' (callName n j i) = some r) ∧ P' = P

theorem left_sim (hf : CrossFollows gl l) (hs : doFcpCm I X n j c callee hargs = .ok s) {word : Val Sc}
    (hword : env (callName n j 3) = some word)
    (hstable : ∀ v ∈ hargs.map Prod.snd, Stable E.sem hostSymbols args (callName n j) env v) :
    Sim Machine.withPads P (Went n j 7 c.functionType.ret P env)
      (onWorld (E.sem.op .intToPtr ptrTy [] [word]) >>= fun h =>
        need (evalValues E.sem hostSymbols args env (hargs.map Prod.snd)) >>= fun ws => hostCall copyAt gl c.interface h ws)
      (execInsts E.sem (crossCtx E O k copyAt l) args env s.left) := by
  obtain ⟨right, _, hs⟩ := bind_eq_ok.mp hs
  cases hs
  refine Sim.inst_cons (Same.true ((need_silent hword).sim (onWorld_sim _))) rfl (fun h _ => ?_)
  have hargs' : evalValues E.sem hostSymbols args (Function.update env (callName n j 6) (some h)) (hargs.map Prod.snd) =
      evalValues E.sem hostSymbols args env (hargs.map Prod.snd) :=
    evalValues_congr (List.forall₂_same.mpr (fun v hv => hstable v hv _ (Off.update 6 _)))
  have hcall : Sim Machine.withPads P (Same P)
      (need (evalValues E.sem hostSymbols args env (hargs.map Prod.snd)) >>= fun ws => hostCall copyAt gl c.interface h ws)
      (execOp E.sem (crossCtx E O k copyAt l) args (Function.update env (callName n j 6) (some h))
        (.call ⟨c.functionType, c.callingConv, c.attributes, .inst (callName n j 6), hargs⟩)) := by
    rw [← hargs']
    refine Same.sim_bind (need_sim _) (fun ws => ?_)
    refine (need_silent (a := hostCall copyAt l c.interface h) ?_).sim (hostCall_sim hf _ _ _)
    rw [callee_indirect evalValue_update (fun g hg => by cases hg)]
    rfl
  refine (Sim.call (l := []) (i := callName n j 7) (.pure _) hcall).mono ?_
  rintro r env' _ ⟨v, ⟨rfl, rfl⟩, rfl⟩
  refine ⟨?_, ?_, rfl⟩
  · split
    next => exact Off.update 6 _
    next => exact (Off.update 6 _).trans (Off.update 7 _)
  · intro hne
    rw [if_neg hne]
    exact Function.update_self ..

theorem direct_callbackCode (debug : Bool) (result : HostId) (cbStub : HValue) (t : Ty) :
    Direct (hostCtx E O k l.guest l.fcp) (callbackCode debug n j result cbStub callee t hargs) := by
  have hpack : ∀ (name : Nat → HostId) (ty : Ty) (vs : List HValue), ∀ i ∈ packCode name ty vs, ∀ c, i.op ≠ .call c := by
    intro name ty vs i hi c hc
    rcases List.mem_append.mp hi with hi | hi
    · obtain ⟨q, _, rfl⟩ := List.mem_map.mp hi
      cases hc
    · simp only [List.mem_cons, List.not_mem_nil, or_false] at hi
      rcases hi with rfl | rfl <;> cases hc
  intro i hi c hc
  simp only [callbackCode, List.mem_append, List.mem_cons, List.not_mem_nil, or_false] at hi
  rcases hi with (((((rfl | hi) | hi) | hi) | rfl) | hi) | rfl
  · cases hc
  · split at hi
    next => cases hi
    next =>
      cases List.mem_singleton.mp hi
      cases hc
  · split at hi
    next => cases hi
    next => exact absurd hc (hpack _ _ _ i hi c)
  · split at hi
    next =>
      cases List.mem_singleton.mp hi
      cases hc
      exact ⟨.gyhDebug, rfl, rfl⟩
    next => cases hi
  · cases hc
    exact ⟨.gyhCallback, rfl, rfl⟩
  · split at hi
    next => cases hi
    next =>
      cases List.mem_singleton.mp hi
      cases hc
  · cases hc

theorem right_sim (hf : CrossFollows gl l) (hm : Matches E X gargs args e env) (hstub : HasStub I O c)
    (htypes : hargs.map Prod.fst = c.functionType.params) (hs : doFcpCm I X n j c callee hargs = .ok s) {v : Val Sc}
    (hcallee : evalValue E.sem hostSymbols args env callee = some v)
    (hstable : ∀ v ∈ callee :: hargs.map Prod.snd, Stable E.sem hostSymbols args (callName n j) env v) :
    Sim Machine.withPads P (Went n j 8 c.functionType.ret P env)
      (need (evalValues E.sem hostSymbols args env (hargs.map Prod.snd)) >>= fun ws => gl.guest c.interface v ws)
      (execInsts E.sem (crossCtx E O k copyAt l) args env s.right) := by
  obtain ⟨right, hright, hs⟩ := bind_eq_ok.mp hs
  cases hs
  obtain ⟨hash, stub, hhash, hX, rfl⟩ := CallCopy.doCallback_eq_ok.mp hright
  obtain ⟨hash', st, debug, hhash', hlookup, hret, harg, hiface⟩ := hstub
  cases hhash.symm.trans hhash'
  obtain ⟨howner, hcb⟩ := hm.cbStubs hash stub hX
  have hcb : evalValue E.sem hostSymbols args env (.inst stub) = some (.addr (.cbStub hash)) := hcb
  have hfunc : st.func = c.functionType := congrArg Interface.type hiface
  have hstables : ∀ u ∈ (.inst stub : HValue) :: callee :: hargs.map Prod.snd,
      Stable E.sem hostSymbols args (callName n (j + 9)) env u := by
    intro u hu
    rcases List.mem_cons.mp hu with rfl | hu
    · exact stable_inst (entry_ne_callName howner _ _)
    · exact Stable.later _ (hstable u hu)
  have hresult : ∀ i, (callName n j 8 : HostId) ≠ callName n (j + 9) i := by
    intro i h
    have := congrArg HostId.index h
    simp only [callName] at this
    omega
  have hcode := callbackCode_sim P l.fcp k I.config.debug (gl.guest c.interface) hcb hstables hlookup hret harg
    (by rw [htypes, hfunc]) hresult (fun P v ws => by rw [hiface]; exact hf.guest P c.interface v ws)
  rw [execInsts_cross (direct_callbackCode _ _ _ _), ← hfunc]
  simp only [hcallee, need, pure_bind] at hcode
  refine hcode.mono ?_
  rintro r env' _ ⟨hcalled, rfl⟩
  refine ⟨fun x hx => hcalled.frame x (hx 8) (fun i => ?_), hcalled.value, rfl⟩
  rw [callName_add]
  exact hx (9 + i)

end Ways

section Instruction

variable {n : Nat} {c : GCall}

/-- A call that goes through the check. -/
theorem callee_guarded (hroute : I.route c = .callback) (hwhite : ∀ g, I.isWhite g = false)
    (hplain : ∀ g callee, c.calledOperand = .const (.global g) → I.module.function? g = some callee →
      callee.intrinsicId = none) : callee E.sem (guardedCtx E I.module I O k copyAt gl) gargs e c =
        (evalValue E.sem guestSymbols gargs e c.calledOperand).map (guarded E O k copyAt gl c.interface) := by
  unfold Exec.callee
  split
  next g hg =>
    rw [hg]
    simp only [guardedCtx]
    cases hfun : I.module.function? g with
    | none => rfl
    | some f =>
        simp only [hplain g f hg hfun]
        by_cases hfcp : I.hasFcpFunc g = true
        · have htype : c.interface.type ≠ f.type := by
            intro htype
            have hcalled : getCalledFunction I.module c = some (g, f) := getCalledFunction_eq_some.mpr ⟨hg, hfun, htype.symm⟩
            rw [Input.route, hcalled] at hroute
            simp [hwhite g, hplain g f hg hfun, hfcp] at hroute
          simp only [hfcp, if_true, if_neg htype]
          rfl
        · simp only [hfcp, Bool.false_eq_true, if_false]
          rfl
  next => rfl

theorem execInst_callee {γ ι : Type} [DecidableEq ι] {sem : Sem Sc W} {C C' : Ctx γ Sc W} {env : Env ι Sc} {x : ι}
    {c : CallBase γ ι} (hsymbols : C'.toSymbols = C.toSymbols) (h : callee sem C' args env c = callee sem C args env c) :
    execInst sem C' args env ⟨x, .call c⟩ = execInst sem C args env ⟨x, .call c⟩ := by
  have hcall : execCall sem C' args env c = execCall sem C args env c := by
    rw [execCall, execCall, h, hsymbols]
  change execCall sem C' args env c >>= _ = execCall sem C args env c >>= _
  rw [hcall]

theorem direct_of_expansions {C : Ctx HostSym Sc W} {code : List HInst} (h : ∀ i ∈ code, ConstExpand.isExpansion i.op = true) :
    Direct C code := by
  refine direct_of_noCall (fun i hi c hc => ?_)
  have hexpansion := h i hi
  rw [hc] at hexpansion
  cases hexpansion

def fcpCaller (gl : Calls Sc W) : Caller Sc W := fun i v vs =>
  match v with
  | .addr (.guest g) => gl.fcp g i vs
  | _ => throw .stuck

/-- An instruction that is not split, and its copy. -/
theorem code_sim {i : GInst} {code : List HInst} (hcm : I.config.useFCPcm = true) (hwhite : ∀ g, I.isWhite g = false)
    (hf : CrossFollows gl l) (hm : Matches E X gargs args e env) (hseen : InstSeen O I X gargs.length i)
    (h : doInstruction I X i = .ok (.code code)) :
    Sim Machine.withPads P (After E X gargs args P i.id env)
      (execInst E.sem (guardedCtx E I.module I O k copyAt gl) gargs e i)
      (execInsts E.sem (crossCtx E O k copyAt l) args env code) := by
  obtain ⟨n, op⟩ := i
  unfold InstSeen at hseen
  cases CallCopy.doInstruction_made h with
  | @op opcode ty is ops code vs hop hops =>
      cases hop
      have hdirect : Direct (hostCtx E O k l.guest l.fcp) (code ++ [⟨bodyId n, .op opcode ty is vs⟩]) :=
        (direct_of_expansions (ConstExpand.doOperands_expansions hops)).append
          (direct_of_noCall (fun i hi c hc => by cases List.mem_singleton.mp hi; cases hc))
      have hinst : execInst E.sem (guardedCtx E I.module I O k copyAt gl) gargs e ⟨n, .op opcode ty is ops⟩ =
          execInst E.sem (originalCtx E I.module gl.guest) gargs e ⟨n, .op opcode ty is ops⟩ := rfl
      rw [execInsts_cross hdirect, hinst]
      exact doOp_sim hm hseen hops
  | @direct c d code vs hop hargs hd =>
      cases hop
      have hcode := direct_of_expansions (C := hostCtx E O k l.guest l.fcp) (ConstExpand.doOperands_expansions hargs)
      have hsingle : ∀ {s : HostSym}, d.calledOperand = .const (.global s) →
          ((hostCtx E O k l.guest l.fcp).direct s).isSome → Direct (hostCtx E O k l.guest l.fcp) [⟨bodyId n, .call d⟩] := by
        intro s hs hsome i hi c hc
        cases List.mem_singleton.mp hi
        cases hc
        exact ⟨s, hs, hsome⟩
      rcases route_cases (c := c) _ rfl with ⟨g, f, hg, hw, heq⟩ | ⟨g, f, id, hg, hid, heq⟩ | ⟨g, f, hg, hid, hfcp, heq⟩ | heq
      · rw [hwhite g] at hw
        cases hw
      · rw [heq] at hd
        cases hd
        obtain ⟨hop, hfun, _⟩ := getCalledFunction_eq_some.mp hg
        have hleft : callee E.sem (originalCtx E I.module gl.guest) gargs e c = some (runIntrinsic E id c.interface) := by
          refine callee_direct hop ?_
          change ((I.module.function? g).bind Function.intrinsicId).map (runIntrinsic E) = _
          rw [hfun, Option.bind_some, hid]
          rfl
        have hguarded : callee E.sem (guardedCtx E I.module I O k copyAt gl) gargs e c = some (runIntrinsic E id c.interface) := by
          refine callee_direct hop ?_
          simp only [guardedCtx, hfun, hid]
        have hinst : execInst E.sem (guardedCtx E I.module I O k copyAt gl) gargs e ⟨n, .call c⟩ =
            execInst E.sem (originalCtx E I.module gl.guest) gargs e ⟨n, .call c⟩ := by
          refine execInst_callee ?_ (hguarded.trans hleft.symm)
          rfl
        rw [execInsts_cross (hcode.append (hsingle rfl rfl)), hinst]
        exact doDirect_sim hm hseen.1 hargs hleft rfl (fun P ws => onWorld_sim _)
      · rw [heq] at hd
        cases hd
        obtain ⟨hop, hfun, htype⟩ := getCalledFunction_eq_some.mp hg
        have hleft : callee E.sem (originalCtx E I.module (fcpCaller gl)) gargs e c = some (gl.fcp g c.interface) := by
          have hnone : (originalCtx E I.module (fcpCaller gl)).direct g = none := by
            change ((I.module.function? g).bind Function.intrinsicId).map (runIntrinsic E) = _
            rw [hfun, Option.bind_some, hid]
            rfl
          simp only [Exec.callee, hop, hnone]
          rfl
        have hguarded : callee E.sem (guardedCtx E I.module I O k copyAt gl) gargs e c = some (gl.fcp g c.interface) := by
          rw [callee_direct hop (h := fun i vs => if i.type = f.type then gl.fcp g i vs
            else guarded E O k copyAt gl i (.addr (.guest g)) vs) (by simp only [guardedCtx, hfun, hid, hfcp, if_true])]
          simp only [if_pos (show c.interface.type = f.type from htype.symm)]
        have hinst : execInst E.sem (guardedCtx E I.module I O k copyAt gl) gargs e ⟨n, .call c⟩ =
            execInst E.sem (originalCtx E I.module (fcpCaller gl)) gargs e ⟨n, .call c⟩ := by
          refine execInst_callee ?_ (hguarded.trans hleft.symm)
          rfl
        rw [execInsts_cross (hcode.append (hsingle rfl rfl)), hinst]
        exact doDirect_sim hm hseen.1 hargs hleft rfl (fun P ws => hf.fcp P g c.interface ws)
      · exact absurd heq (CallCopy.directCall_route hd)
  | callback _ _ _ _ hno _ =>
      rw [hcm] at hno
      cases hno

end Instruction

section Split

variable {n j : Nat} {c : GCall} {callee : HValue} {hargs : List (Ty × HValue)} {s : Split}

theorem check_raises (hs : doFcpCm I X n j c callee hargs = .ok s)
    (hcallee : evalValue E.sem hostSymbols args env callee = none) :
    Raises Machine.withPads P .stuck (execInsts E.sem (crossCtx E O k copyAt l) args env s.check) := by
  obtain ⟨right, _, hs⟩ := bind_eq_ok.mp hs
  cases hs
  exact Raises.inst (need_raises hcallee).bind

theorem doFcpCm_cond (hs : doFcpCm I X n j c callee hargs = .ok s) : s.cond = .inst (callName n j 5) := by
  obtain ⟨right, _, hs⟩ := bind_eq_ok.mp hs
  cases hs
  rfl

def Way (n : Nat) (prev : HostBlock) (i : Nat) : Prop := prev = .left n ∧ i = 7 ∨ prev = .right n ∧ i = 8

/-- The phi that joins the two ways takes the value of the call. -/
theorem phi_silent (hs : doFcpCm I X n j c callee hargs = .ok s) (hne : c.functionType.ret ≠ .void) {prev : HostBlock}
    {i : Nat} (hway : Way n prev i) {r : Val Sc} (hr : env (callName n j i) = some r) :
    Silent Machine.withPads P (Function.update env (bodyId n) (some r)) P
      (execPhis E.sem hostSymbols args env (some prev) s.phi.toList : Run Sc W (Env HostId Sc)) := by
  rw [doFcpCm_phi hs, if_neg hne]
  refine (need_silent (a := [r]) ?_).bind (.pure _)
  have hr : env ⟨some n, j + i⟩ = some r := hr
  rcases hway with ⟨rfl, rfl⟩ | ⟨rfl, rfl⟩
  · simp [phiValue, evalValue, hr]
  · simp [phiValue, evalValue, hr]

/-- A call that is split: the operands, the check, and one of the two ways. -/
theorem split_sim {α : Type} {i : GInst} {pre : List HInst} {R : α → Val Sc → Pads Sc → Prop}
    {rest : Env Nat Sc → Run Sc W α} {next : HostBlock → Env HostId Sc → Run Sc W (Val Sc)}
    {cont : Next HostBlock Sc → Env HostId Sc → Run Sc W (Val Sc)} (hcalm : Calm E.sem) (hwhite : ∀ g, I.isWhite g = false)
    (hf : CrossFollows gl l) (hm : Matches E X gargs args e env) (hseen : InstSeen O I X gargs.length i)
    (h : doInstruction I X i = .ok (.split pre s))
    (hleft : ∀ env', cont (.goto (.left i.id)) env' =
      execInsts E.sem (crossCtx E O k copyAt l) args env' s.left >>= next (.left i.id))
    (hright : ∀ env', cont (.goto (.right i.id)) env' =
      execInsts E.sem (crossCtx E O k copyAt l) args env' s.right >>= next (.right i.id))
    (hnext : ∀ c j callee hargs, i.op = .call c → doFcpCm I X i.id j c callee hargs = .ok s → ∀ prev w, Way i.id prev w →
      ∀ r env', Off (callName i.id 1) env env' → (c.functionType.ret ≠ .void → env' (callName i.id j w) = some r) →
        Sim Machine.withPads P R (rest (if isVoidCall i.op then e else Function.update e i.id (some r))) (next prev env')) :
    Sim Machine.withPads P R (execInst E.sem (guardedCtx E I.module I O k copyAt gl) gargs e i >>= rest)
      (execInsts E.sem (crossCtx E O k copyAt l) args env (pre ++ s.check) >>= fun env' =>
        execTerm E.sem hostSymbols args env' (.condBr s.cond (.left i.id) (.right i.id)) >>= fun nx => cont nx env') := by
  obtain ⟨n, op⟩ := i
  unfold InstSeen at hseen
  cases CallCopy.doInstruction_made h with
  | @split c code code' vs callee s hop hargs hroute hcallee hcm hs =>
      cases hop
      obtain ⟨hcalled, htypes, hstub, hplain⟩ := hseen.2 hroute
      obtain ⟨env₁, hcode₁, hstable₁, hvals⟩ := doOperands_run O k l.guest l.fcp P hm Nat.one_pos rfl hseen.1 hargs
      have hm₁ := hm.off Nat.one_pos hcode₁.off
      obtain ⟨env₂, hcode₂, hstable₂, hval⟩ := doOperand_run O k l.guest l.fcp P hm₁ (by omega) rfl hcalled hcallee
      have hm₂ := hm₁.off (by omega) hcode₂.off
      have hoff₂ : Off (callName n 1) env env₂ := hcode₁.off.trans (Off.later _ hcode₂.off)
      have hlen : vs.length ≤ (c.args.map Prod.fst).length := by
        rw [← hvals.length_eq, List.length_map, List.length_map]
      have hlen' : (c.args.map Prod.fst).length ≤ vs.length := by
        rw [← hvals.length_eq, List.length_map, List.length_map]
      have hfst : ((c.args.map Prod.fst).zip vs).map Prod.fst = c.functionType.params := by
        rw [List.map_fst_zip hlen', htypes]
      have hstables : ∀ u ∈ callee :: ((c.args.map Prod.fst).zip vs).map Prod.snd,
          Stable E.sem hostSymbols args (callName n (1 + code.length + code'.length)) env₂ u := by
        intro u hu
        rw [List.map_snd_zip hlen] at hu
        rcases List.mem_cons.mp hu with rfl | hu
        · exact hstable₂
        · exact Stable.later _ ((hstable₁ u hu).off hcode₂.off)
      have hvals₂ : ∀ env', Off (callName n (1 + code.length + code'.length)) env₂ env' →
          evalValues E.sem hostSymbols args env' (((c.args.map Prod.fst).zip vs).map Prod.snd) =
            evalValues E.sem guestSymbols gargs e (c.args.map Prod.snd) := by
        intro env' hoff
        rw [← evalValues_congr hvals, List.map_snd_zip hlen]
        refine evalValues_congr (List.forall₂_same.mpr (fun u hu => ?_))
        rw [hstables u (by rw [List.map_snd_zip hlen]; exact List.mem_cons_of_mem _ hu) env' hoff]
        exact hstable₁ u hu env₂ hcode₂.off
      -- the program needs the arguments once the check is made
      have hinst : execInst E.sem (guardedCtx E I.module I O k copyAt gl) gargs e ⟨n, .call c⟩ =
          need (evalValue E.sem guestSymbols gargs e c.calledOperand) >>= fun v =>
            readPrefix E.sem (hostCtx E O k gl.guest gl.fcp) v >>= fun r => need (E.sem.truth r.1) >>= fun t =>
              (if t then onWorld (E.sem.op .intToPtr ptrTy [] [r.2]) >>= fun h =>
                  need (evalValues E.sem guestSymbols gargs e (c.args.map Prod.snd)) >>= fun ws =>
                    hostCall copyAt gl c.interface h ws
                else need (evalValues E.sem guestSymbols gargs e (c.args.map Prod.snd)) >>= fun ws =>
                  gl.guest c.interface v ws) >>= fun r =>
                pure (if isVoidCall (.call c : InstOp Nat Nat) then e else Function.update e n (some r)) := by
        change execCall _ _ _ _ _ >>= _ = _
        rw [execCall, callee_guarded hroute hwhite hplain]
        simp only [need_map_bind]
        rw [need_comm (need_idle _)]
        simp only [bind_assoc]
        congr 1
        funext v
        rw [← bind_assoc, guarded_args hcalm]
        simp only [bind_assoc]
        rfl
      have hpre : Silent Machine.withPads P env₂ P
          (execInsts E.sem (crossCtx E O k copyAt l) args env (code ++ code')) :=
        Silent.cross (Silent.append hcode₁.run hcode₂.run)
      rw [hinst, bind_assoc]
      refine need_left ?_ (fun v hv => ?_)
      · intro hnone
        exact Raises.bind (Silent.raises_append hpre (check_raises hs (hval.trans hnone)))
      simp only [execInsts_append (code ++ code'), bind_assoc]
      refine hpre.sim ?_
      refine (check_sim hcalm rfl hs (hval.trans hv) (hstables callee List.mem_cons_self)).bind ?_
      rintro r env₃ _ ⟨hoff, hcond, hword, rfl⟩
      have hm₃ := hm₂.off (by omega) hoff
      have hlater : ∀ {env'}, Off (callName n (1 + code.length + code'.length)) env₃ env' → Off (callName n 1) env env' := by
        intro env' hoff'
        refine hoff₂.trans (Off.later (code.length + code'.length) ?_)
        rw [← Nat.add_assoc]
        exact hoff.trans hoff'
      have hstables₃ : ∀ u ∈ callee :: ((c.args.map Prod.fst).zip vs).map Prod.snd,
          Stable E.sem hostSymbols args (callName n (1 + code.length + code'.length)) env₃ u :=
        fun u hu => (hstables u hu).off hoff
      have hcallee₃ := (hstables callee List.mem_cons_self env₃ hoff).trans (hval.trans hv)
      simp only [execTerm, bind_assoc, pure_bind]
      rw [doFcpCm_cond hs]
      refine (need_silent hcond).sim (Same.sim_bind (need_sim _) (fun t => ?_))
      cases t with
      | true =>
          simp only [if_true]
          rw [hleft, ← hvals₂ env₃ hoff]
          refine (left_sim hf hs hword (fun u hu => hstables₃ u (List.mem_cons_of_mem _ hu))).bind ?_
          rintro r env₄ _ ⟨hoff', hres, rfl⟩
          exact hnext c _ _ _ rfl hs (.left n) 7 (.inl ⟨rfl, rfl⟩) r env₄ (hlater hoff') hres
      | false =>
          simp only [Bool.false_eq_true, if_false]
          rw [hright, ← hvals₂ env₃ hoff]
          refine (right_sim hf hm₃ hstub hfst hs hcallee₃ hstables₃).bind ?_
          rintro r env₄ _ ⟨hoff', hres, rfl⟩
          exact hnext c _ _ _ rfl hs (.right n) 8 (.inr ⟨rfl, rfl⟩) r env₄ (hlater hoff') hres

end Split

section Blocks

variable {f : GFunction} {ps : List (Phi Nat Nat Nat)}

def NextCross (I : Input) (f : GFunction) (P : Pads Sc) : Next Nat Sc → Next HostBlock Sc → Pads Sc → Prop
  | .ret v, .ret v', P' => Same P v v' P'
  | .goto d, .goto d', P' => d' = entryLabel I f d ∧ P' = P
  | _, _, _ => False

theorem find?_labels {sem : Sem Sc W} (label : Nat → HostBlock) (dests : List (Nat × Nat)) (v : Val Sc) (d : Nat) :
    (((dests.map (fun p => (p.1, label p.2))).find? (fun p => sem.isCase v p.1)).map Prod.snd).getD (label d) =
      label (((dests.find? (fun p => sem.isCase v p.1)).map Prod.snd).getD d) := by
  rw [List.find?_map]
  change Option.getD (((dests.find? (fun p => sem.isCase v p.1)).map _).map Prod.snd) _ = _
  cases dests.find? (fun p => sem.isCase v p.1) <;> rfl

theorem term_cross {n : Nat} {t : Term Nat Nat Nat} {code : List HInst} {t' : HTerm} (hfcp : I.config.useFCP = true)
    (hready : Ready E I X gargs args ps e env) (hn : ∀ p ∈ ps, n ≠ p.id)
    (hseen : ∀ v ∈ Module.termOperands t, Seen (site I X n false) gargs.length v)
    (h : doTerminator I X f n t = .ok (code, t')) :
    Sim Machine.withPads P (fun next r P' => NextCross I f P next r.2 P' ∧ Ready E I X gargs args ps e r.1)
      (execTerm E.sem guestSymbols gargs e t)
      (execInsts E.sem (crossCtx E O k copyAt l) args env code >>= fun env =>
        execTerm E.sem hostSymbols args env t' >>= fun next => pure (env, next)) := by
  -- the operand of a terminator that has one
  have operand : ∀ {v : GValue} {code₁ : List HInst} {v' : HValue}, v ∈ Module.termOperands t →
      doOperand (site I X n false) X.args 1 v = .ok (code₁, v') → ∃ env',
        Silent Machine.withPads P env' P (execInsts E.sem (crossCtx E O k copyAt l) args env code₁) ∧
        Ready E I X gargs args ps e env' ∧
        evalValue E.sem hostSymbols args env' v' = evalValue E.sem guestSymbols gargs e v := by
    intro v code₁ v' hv ho
    obtain ⟨env', hcode, _, hval⟩ := doOperand_run O k l.guest l.fcp P hready.envs Nat.one_pos rfl (hseen v hv) ho
    exact ⟨env', Silent.cross hcode.run, hready.frame (hready.envs.off Nat.one_pos hcode.off) (Frame.of_off hcode.off) hn, hval⟩
  cases t with
  | ret r =>
      cases r with
      | none =>
          cases h
          exact .pure ⟨⟨rfl, rfl⟩, hready⟩
      | some r =>
          obtain ⟨ty, v⟩ := r
          obtain ⟨⟨code₁, v'⟩, ho, h⟩ := bind_eq_ok.mp h
          obtain ⟨env', hrun, hready', hval⟩ := operand List.mem_cons_self ho
          simp only [hfcp, if_true] at h
          cases h
          refine hrun.sim ?_
          simp only [execTerm, hval, bind_assoc, pure_bind]
          exact Same.sim_bind (need_sim _) (fun w => .pure ⟨⟨rfl, rfl⟩, hready'⟩)
  | br d =>
      cases h
      exact .pure ⟨⟨rfl, rfl⟩, hready⟩
  | condBr v a b =>
      obtain ⟨⟨code₁, v'⟩, ho, h⟩ := bind_eq_ok.mp h
      cases h
      obtain ⟨env', hrun, hready', hval⟩ := operand List.mem_cons_self ho
      refine hrun.sim ?_
      simp only [execTerm, hval, bind_assoc, pure_bind]
      refine Same.sim_bind (need_sim _) (fun w => Same.sim_bind (need_sim _) (fun t => .pure ⟨⟨?_, rfl⟩, hready'⟩))
      cases t <;> rfl
  | switch v d dests =>
      obtain ⟨⟨code₁, v'⟩, ho, h⟩ := bind_eq_ok.mp h
      cases h
      obtain ⟨env', hrun, hready', hval⟩ := operand List.mem_cons_self ho
      refine hrun.sim ?_
      simp only [execTerm, hval, bind_assoc, pure_bind]
      exact Same.sim_bind (need_sim _) (fun w => .pure ⟨⟨find?_labels _ _ _ _, rfl⟩, hready'⟩)
  | unreachable =>
      cases h
      exact Sim.throw _ (Raises.throw _)
  | indirectBr | callBr | invoke | resume | catchSwitch | catchReturn | cleanupReturn => cases h

def leave (go : Nat → Env Nat Sc → Run Sc W (Val Sc)) (e : Env Nat Sc) : Next Nat Sc → Run Sc W (Val Sc)
  | .ret v => pure v
  | .goto d => go d e

theorem execBlocks_succ {sem : Sem Sc W} {C : Ctx Nat Sc W} {d : Nat} {prev : Option Nat} :
    execBlocks sem C gargs f (k + 1) prev d e = need (f.block? d) >>= fun blk =>
      execPhis sem C.toSymbols gargs e prev blk.phis >>= fun e => execInsts sem C gargs e blk.insts >>= fun e =>
        execTerm sem C.toSymbols gargs e blk.term >>= leave (execBlocks sem C gargs f k (some d)) e := by
  rw [execBlocks]
  congr 1
  funext blk
  rw [execBlock]
  simp only [bind_assoc, pure_bind]
  congr 1
  funext e₁
  congr 1
  funext e₂
  congr 1
  funext next
  cases next <;> rfl

variable {hf : HFunction} {rest : Option HostBlock → HostBlock → Env HostId Sc → Run Sc W (Val Sc)}
variable {go : Nat → Env Nat Sc → Run Sc W (Val Sc)}

def follow (sem : Sem Sc W) (C : Ctx HostSym Sc W) (args : List (Val Sc)) (hf : HFunction)
    (rest : Option HostBlock → HostBlock → Env HostId Sc → Run Sc W (Val Sc)) (w : Nat) (b : HostBlock) (env : Env HostId Sc) :
    Next HostBlock Sc → Run Sc W (Val Sc)
  | .ret v => pure v
  | .goto d => if isWhole b then rest (some b) d env else execWhole sem C args hf rest w (some b) d env

theorem execWhole_block {sem : Sem Sc W} {C : Ctx HostSym Sc W} {b : HostBlock} {blk : HBlock} (hb : hf.block? b = some blk)
    (w : Nat) (prev : Option HostBlock) :
    execWhole sem C args hf rest (w + 1) prev b env = execPhis sem C.toSymbols args env prev blk.phis >>= fun env =>
      execInsts sem C args env blk.insts >>= fun env =>
        execTerm sem C.toSymbols args env blk.term >>= follow sem C args hf rest w b env := by
  rw [execWhole, hb, need, pure_bind, execBlock]
  simp only [bind_assoc, pure_bind]
  rfl

theorem execPhis_nil {sem : Sem Sc W} {A : Symbols HostSym Sc} (prev : Option HostBlock) :
    (execPhis sem A args env prev [] : Run Sc W (Env HostId Sc)) = pure env := rfl

def goOn (sem : Sem Sc W) (C : Ctx HostSym Sc W) (args : List (Val Sc)) (hf : HFunction)
    (rest : Option HostBlock → HostBlock → Env HostId Sc → Run Sc W (Val Sc)) (w : Nat) (next prev : HostBlock)
    (env : Env HostId Sc) : Run Sc W (Val Sc) := execWhole sem C args hf rest w (some prev) next env

/-- A way of a call that is split is a block of its own. -/
theorem way_block {sem : Sem Sc W} {C : Ctx HostSym Sc W} {b next : HostBlock} {code : List HInst} {x : HostId}
    (hb : hf.block? b = some ⟨[], code, x, .br next⟩) (hside : isWhole b = false) (w : Nat) (prev : Option HostBlock) :
    execWhole sem C args hf rest (w + 1) prev b env = execInsts sem C args env code >>=
      goOn sem C args hf rest w next b := by
  rw [execWhole_block hb, execPhis_nil, pure_bind]
  simp only [execTerm, pure_bind, follow, hside, Bool.false_eq_true, if_false]
  rfl

/-- Both ways of a split call come to the same state. -/
theorem joined_ready {n j : Nat} {c : GCall} {callee : HValue} {hargs : List (Ty × HValue)} {s : Split} {prev : HostBlock} {i : Nat}
    {r : Val Sc} (hready : Ready E I X gargs args ps e env) (hn : ∀ p ∈ ps, n ≠ p.id)
    (hs : doFcpCm I X n j c callee hargs = .ok s) (hway : Way n prev i) (hoff : Off (callName n 1) env env')
    (hres : c.functionType.ret ≠ .void → env' (callName n j i) = some r) :
    Sim Machine.withPads P (fun e env P' => Ready E I X gargs args ps e env ∧ P' = P)
      (pure (if isVoidCall (.call c : InstOp Nat Nat) then e else Function.update e n (some r)) : Run Sc W (Env Nat Sc))
      (execPhis E.sem hostSymbols args env' (some prev) s.phi.toList) := by
  have hready' := hready.frame (hready.envs.off Nat.one_pos hoff) (Frame.of_off hoff) hn
  by_cases hvoid : c.functionType.ret = .void
  · rw [doFcpCm_phi hs, if_pos hvoid, if_pos (show isVoidCall (.call c : InstOp Nat Nat) = true from decide_eq_true hvoid)]
    exact .pure ⟨hready', rfl⟩
  · rw [if_neg (show ¬ isVoidCall (.call c : InstOp Nat Nat) = true from fun h => hvoid (of_decide_eq_true h))]
    rw [← bind_pure (execPhis _ _ _ _ _ _)]
    refine (phi_silent hs hvoid hway (hres hvoid)).sim (.pure ⟨?_, rfl⟩)
    exact hready'.frame (Matches.update hready'.envs r) (Frame.update _) hn

/-- What is left of a block, and the blocks of the copy from the one that is being
run on: its phis and the code so far have done what `x` did. -/
theorem pieces_sim {d n : Nat} {t : Term Nat Nat Nat} {tcode : List HInst} {t' : HTerm} {termId : HostId}
    (hcalm : Calm E.sem) (hcm : I.config.useFCPcm = true) (hfcp : I.config.useFCP = true)
    (hwhite : ∀ g, I.isWhite g = false) (hfollow : CrossFollows gl l) (hn : ∀ p ∈ ps, n ≠ p.id)
    (hterm : doTerminator I X f n t = .ok (tcode, t'))
    (hseenTerm : ∀ v ∈ Module.termOperands t, Seen (site I X n false) gargs.length v)
    (hgo : ∀ d' e env, Ready E I X gargs args ps e env →
      Sim Machine.withPads P (Same P) (go d' e) (rest (some (.body d)) (entryLabel I f d') env))
    {is : List GInst} {pieces : List Piece} (hpieces : List.Forall₂ (fun i p => doInstruction I X i = .ok p) is pieces)
    (hseen : ∀ i ∈ is, InstSeen O I X gargs.length i) (hne : ∀ i ∈ is, ∀ p ∈ ps, i.id ≠ p.id)
    {phis : List HPhi} {code : List HInst} {prev : Option HostBlock} {env₀ : Env HostId Sc} {x : Run Sc W (Env Nat Sc)} {w : Nat}
    (hw : 2 * (BlockWalk.splitIds pieces).length < w)
    (hblocks : ∀ q ∈ assemble d termId t' phis code (pieces ++ [.code tcode]), hf.block? q.1 = some q.2)
    (hx : Sim Machine.withPads P (fun e env P' => Ready E I X gargs args ps e env ∧ P' = P) x
      (execPhis E.sem hostSymbols args env₀ prev phis >>= fun env =>
        execInsts E.sem (crossCtx E O k copyAt l) args env code)) :
    Sim Machine.withPads P (Same P)
      (x >>= fun e => execInsts E.sem (guardedCtx E I.module I O k copyAt gl) gargs e is >>= fun e =>
        execTerm E.sem guestSymbols gargs e t >>= leave go e)
      (execWhole E.sem (crossCtx E O k copyAt l) args hf rest w prev (nextLabel d (pieces ++ [.code tcode])) env₀) := by
  induction hpieces generalizing phis code prev env₀ x w with
  | nil =>
      obtain ⟨w, rfl⟩ := Nat.exists_eq_add_one_of_ne_zero (Nat.ne_of_gt (Nat.zero_lt_of_lt hw))
      have hblock : hf.block? (.body d) = some ⟨phis, code ++ tcode, termId, t'⟩ := hblocks _ (List.mem_singleton.mpr rfl)
      have hhost : execWhole E.sem (crossCtx E O k copyAt l) args hf rest (w + 1) prev (.body d) env₀ =
          (execPhis E.sem hostSymbols args env₀ prev phis >>= fun env =>
            execInsts E.sem (crossCtx E O k copyAt l) args env code) >>= fun env =>
          (execInsts E.sem (crossCtx E O k copyAt l) args env tcode >>= fun env =>
            execTerm E.sem hostSymbols args env t' >>= fun next => pure (env, next)) >>= fun r =>
              follow E.sem (crossCtx E O k copyAt l) args hf rest w (.body d) r.1 r.2 := by
        rw [execWhole_block hblock]
        simp only [execInsts_append, bind_assoc, pure_bind]
        rfl
      change Sim _ _ _ _ (execWhole _ _ _ _ _ _ _ (.body d) _)
      rw [hhost]
      refine hx.bind ?_
      rintro e env _ ⟨hready, rfl⟩
      change Sim _ _ _ (pure e >>= _) _
      rw [pure_bind]
      refine (term_cross hfcp hready hn hseenTerm hterm).bind ?_
      rintro next ⟨env', next'⟩ P' ⟨hnext, hready'⟩
      cases next with
      | ret v =>
          cases next' with
          | ret v' => exact .pure hnext
          | goto d' => exact absurd hnext id
      | goto d₁ =>
          cases next' with
          | ret v' => exact absurd hnext id
          | goto d' =>
              obtain ⟨rfl, rfl⟩ := hnext
              exact hgo d₁ e env' hready'
  | @cons i p is pieces hi hpieces ih =>
      have hseen' : ∀ i ∈ is, InstSeen O I X gargs.length i := fun i hi => hseen i (List.mem_cons_of_mem _ hi)
      have hne' : ∀ i ∈ is, ∀ p ∈ ps, i.id ≠ p.id := fun i hi => hne i (List.mem_cons_of_mem _ hi)
      cases p with
      | code c =>
          have hx' : Sim Machine.withPads P (fun e env P' => Ready E I X gargs args ps e env ∧ P' = P)
              (x >>= fun e => execInst E.sem (guardedCtx E I.module I O k copyAt gl) gargs e i)
              (execPhis E.sem hostSymbols args env₀ prev phis >>= fun env =>
                execInsts E.sem (crossCtx E O k copyAt l) args env (code ++ c)) := by
            simp only [execInsts_append]
            rw [← bind_assoc]
            refine hx.bind ?_
            rintro e env _ ⟨hready, rfl⟩
            refine (code_sim hcm hwhite hfollow hready.envs (hseen i List.mem_cons_self) hi).mono ?_
            rintro e' env' _ ⟨hm, hframe, rfl⟩
            exact ⟨hready.frame hm hframe (hne i List.mem_cons_self), rfl⟩
          have hrest := ih hseen' hne' hw hblocks hx'
          simp only [execInsts_cons, bind_assoc] at hrest ⊢
          exact hrest
      | split pre s =>
          have hcall := split_call hi
          obtain ⟨w, rfl⟩ : ∃ w', w = w' + 1 + 1 := ⟨w - 2, by
            simp only [BlockWalk.splitIds, List.length_cons] at hw
            omega⟩
          have hw' : 2 * (BlockWalk.splitIds pieces).length < w := by
            simp only [BlockWalk.splitIds, List.length_cons] at hw
            omega
          simp only [List.cons_append, assemble, hcall] at hblocks
          have htop := hblocks _ List.mem_cons_self
          have hleft := hblocks _ (List.mem_cons_of_mem _ List.mem_cons_self)
          have hright := hblocks _ (List.mem_cons_of_mem _ (List.mem_cons_of_mem _ List.mem_cons_self))
          have hrest : ∀ q ∈ assemble d termId t' s.phi.toList [] (pieces ++ [.code tcode]), hf.block? q.1 = some q.2 :=
            fun q hq => hblocks q (List.mem_cons_of_mem _ (List.mem_cons_of_mem _ (List.mem_cons_of_mem _ hq)))
          have hhost : execWhole E.sem (crossCtx E O k copyAt l) args hf rest (w + 1 + 1) prev (.top i.id) env₀ =
              (execPhis E.sem hostSymbols args env₀ prev phis >>= fun env =>
                execInsts E.sem (crossCtx E O k copyAt l) args env code) >>= fun env =>
              execInsts E.sem (crossCtx E O k copyAt l) args env (pre ++ s.check) >>= fun env =>
                execTerm E.sem hostSymbols args env (.condBr s.cond (.left i.id) (.right i.id)) >>= fun next =>
                  follow E.sem (crossCtx E O k copyAt l) args hf rest (w + 1) (.top i.id) env next := by
            rw [execWhole_block htop]
            simp only [List.append_assoc, execInsts_append code, bind_assoc]
            rfl
          rw [List.cons_append, nextLabel, hcall, hhost]
          refine hx.bind ?_
          rintro e env P' ⟨hready, hP⟩
          obtain rfl : P = P' := hP.symm
          rw [execInsts_cons, bind_assoc]
          have hleftWay : ∀ env', follow E.sem (crossCtx E O k copyAt l) args hf rest (w + 1) (.top i.id) env'
              (.goto (.left i.id)) = execInsts E.sem (crossCtx E O k copyAt l) args env' s.left >>=
                goOn E.sem (crossCtx E O k copyAt l) args hf rest w (nextLabel d (pieces ++ [.code tcode])) (.left i.id) :=
            fun env' => way_block hleft rfl w _
          have hrightWay : ∀ env', follow E.sem (crossCtx E O k copyAt l) args hf rest (w + 1) (.top i.id) env'
              (.goto (.right i.id)) = execInsts E.sem (crossCtx E O k copyAt l) args env' s.right >>=
                goOn E.sem (crossCtx E O k copyAt l) args hf rest w (nextLabel d (pieces ++ [.code tcode])) (.right i.id) :=
            fun env' => way_block hright rfl w _
          refine split_sim hcalm hwhite hfollow hready.envs (hseen i List.mem_cons_self) hi hleftWay hrightWay ?_
          intro c j callee hargs hop hs prev' i' hway r env' hoff hres
          have hjoin := joined_ready (P := P) hready (hne i List.mem_cons_self) hs hway hoff hres
          rw [← hop, ← bind_pure (execPhis _ _ _ _ _ _)] at hjoin
          have hnext := ih hseen' hne' hw' hrest hjoin
          rw [pure_bind] at hnext
          exact hnext

end Blocks

end Comulator.CrossRun
