import Comulator.CallCopy
import Comulator.OperandRun

namespace Comulator.InstRun

open Fallible Types Ir TypeHash Symtbl HostIr TakeOut ChopOff Exec Simulation ExecRules Compose CallbackRun OperandRun

variable {Sc W : Type} {E : Setting Sc W} {O : Offloaded} {fuel : Nat} {oc call : Caller Sc W}
variable {fcp : Nat → Interface → List (Val Sc) → Run Sc W (Val Sc)} {I : Input} {X : Copy}

def HasStub (I : Input) (O : Offloaded) (c : GCall) : Prop :=
  ∃ h st debug, callSiteHash I.hash c = some h ∧ O.guest.cbStubs.lookup h = some (cbStubFunction debug h st) ∧
    st.ret = retType st.func ∧ st.arg = argType st.func ∧ (stubCall st).interface = c.interface

variable (I O X) in
def InstSeen (numArgs : Nat) (i : GInst) : Prop :=
  match i.op with
  | .call c => (∀ v ∈ c.args.map Prod.snd, Seen (site I X i.id (isDbgValueInst I.module c)) numArgs v) ∧
      (I.route c = .callback → Seen (site I X i.id (isDbgValueInst I.module c)) numArgs c.calledOperand ∧
        c.args.map Prod.fst = c.functionType.params ∧ HasStub I O c ∧ ∀ g callee, c.calledOperand = .const (.global g) → I.module.function? g = some callee →
          callee.intrinsicId = none)
  | .op _ _ _ ops => ∀ v ∈ ops, Seen (site I X i.id false) numArgs v
  | _ => True

variable (E I oc call fcp) in
structure Follows : Prop where
  guest : ∀ P s v vs, Sim Machine.withPads P (Same P) (oc s v vs) (call s v vs)
  fcp : ∀ g, I.hasFcpFunc g = true → ∀ P s vs, Sim Machine.withPads P (Same P) (oc s (.addr (.guest g)) vs) (fcp g s vs)

variable {P : Pads Sc} {gargs args : List (Val Sc)} {e : Env Nat Sc} {env env' : Env HostId Sc} {n : Nat}

def Frame (n : Nat) (env env' : Env HostId Sc) : Prop := ∀ x, x.owner ≠ some n → env' x = env x

theorem Frame.of_off {k : Nat} (h : Off (callName n k) env env') : Frame n env env' := by
  intro x hx
  refine h x (fun i hi => hx ?_)
  rw [hi]
  rfl

theorem Frame.trans {env'' : Env HostId Sc} (h : Frame n env env') (h' : Frame n env' env'') : Frame n env env'' :=
  fun x hx => (h' x hx).trans (h x hx)

theorem Frame.update (v : Option (Val Sc)) : Frame n env (Function.update env (bodyId n) v) := by
  intro x hx
  refine Function.update_of_ne (fun h => hx ?_) _ _
  rw [h]
  rfl

/-- The value of the instruction `n` is set on both sides. -/
theorem Matches.set (h : Matches E X gargs args e env) {e' : Env Nat Sc} (hother : ∀ j, j ≠ n → e' j = e j)
    (hn : env' (bodyId n) = e' n) (hframe : Frame n env env') (hbody : ∀ j, j ≠ n → env' (bodyId j) = env (bodyId j)) :
    Matches E X gargs args e' env' := by
  have hentry : ∀ x : HostId, x.owner = none → env' x = env x := fun x hx => hframe x (by rw [hx]; simp)
  refine ⟨?_, ?_, ?_, ?_⟩
  · intro j
    by_cases hj : j = n
    · subst hj
      exact hn
    · rw [hbody j hj, h.body, hother j hj]
  · intro g x hx
    obtain ⟨howner, hval⟩ := h.refs g x hx
    exact ⟨howner, (hentry x howner).trans hval⟩
  · intro c x hx
    obtain ⟨howner, hval⟩ := h.cbStubs c x hx
    exact ⟨howner, (hentry x howner).trans hval⟩
  · intro i hi
    obtain ⟨howner, hval⟩ := h.args i hi
    refine ⟨howner, ?_⟩
    rw [← hval]
    cases hv : X.args i with
    | inst x => exact hentry x (howner x hv)
    | metadata md => cases md <;> rfl
    | const | arg | inlineAsm => rfl

theorem Matches.update (h : Matches E X gargs args e env) (v : Val Sc) :
    Matches E X gargs args (Function.update e n (some v)) (Function.update env (bodyId n) (some v)) := by
  refine Matches.set h (n := n) (fun j hj => Function.update_of_ne hj _ _) ?_ (Frame.update _) ?_
  · rw [Function.update_self, Function.update_self]
  · intro j hj
    exact Function.update_of_ne (by simpa [bodyId] using hj) _ _

def After (E : Setting Sc W) (X : Copy) (gargs args : List (Val Sc)) (P : Pads Sc) (n : Nat) (env : Env HostId Sc)
    (e' : Env Nat Sc) (env' : Env HostId Sc) (P' : Pads Sc) : Prop :=
  Matches E X gargs args e' env' ∧ Frame n env env' ∧ P' = P

/-- The same value is given to the instruction and to its copy. -/
theorem set_sim {op : InstOp Nat Nat} {hop : HOp} (hm : Matches E X gargs args e env')
    (hframe : Frame n env env')
    (hvoid : isVoidCall hop = isVoidCall op)
    (h : Sim Machine.withPads P (Same P) (execOp E.sem (originalCtx E I.module oc) gargs e op)
      (execOp E.sem (hostCtx E O fuel call fcp) args env' hop)) :
    Sim Machine.withPads P (After E X gargs args P n env)
      (execInst E.sem (originalCtx E I.module oc) gargs e ⟨n, op⟩)
      (execInsts E.sem (hostCtx E O fuel call fcp) args env' [⟨bodyId n, hop⟩]) := by
  rw [execInsts_cons]
  refine Sim.silent (Q := After E X gargs args P n env) (Same.sim_bind h ?_) ?_
  · intro v
    refine Sim.pure ?_
    simp only [hvoid]
    split
    next => exact ⟨hm, hframe, rfl⟩
    next => exact ⟨Matches.update hm v, hframe.trans (Frame.update _), rfl⟩
  · intro e' env'' P' hq
    exact ⟨env'', P', .pure _, hq⟩

theorem direct_eq_none {c : GCall} (h : ∀ g callee, c.calledOperand = .const (.global g) →
    I.module.function? g = some callee → callee.intrinsicId = none) :
    ∀ g, c.calledOperand = .const (.global g) → (originalCtx E I.module oc).direct g = none := by
  intro g hg
  change ((I.module.function? g).bind Function.intrinsicId).map (runIntrinsic E) = none
  cases hf : I.module.function? g with
  | none => rfl
  | some callee =>
      rw [Option.bind_some, h g callee hg hf]
      rfl

theorem doOp_sim {opcode : Opcode} {ty : Ty} {is : List Nat} {ops : List GValue} {code : List HInst}
    {vs : List HValue} (hm : Matches E X gargs args e env) (hseen : ∀ v ∈ ops, Seen (site I X n false) gargs.length v)
    (h : doOperands (site I X n false) X.args 1 ops = .ok (code, vs)) :
    Sim Machine.withPads P (After E X gargs args P n env)
      (execInst E.sem (originalCtx E I.module oc) gargs e ⟨n, .op opcode ty is ops⟩)
      (execInsts E.sem (hostCtx E O fuel call fcp) args env (code ++ [⟨bodyId n, .op opcode ty is vs⟩])) := by
  obtain ⟨env₁, hcode, _, hvals⟩ := doOperands_run O fuel call fcp P hm Nat.one_pos rfl hseen h
  rw [execInsts_append]
  refine hcode.run.sim (set_sim (hm.off Nat.one_pos hcode.off) (Frame.of_off hcode.off) rfl ?_)
  change Sim _ _ _ (need (evalValues E.sem guestSymbols gargs e ops) >>= _)
    (need (evalValues E.sem hostSymbols args env₁ vs) >>= _)
  rw [evalValues_congr hvals]
  exact Same.sim_bind (need_sim _) (fun ws => onWorld_sim _)

/-- A call that is copied with another called operand. -/
theorem doDirect_sim {c : GCall} {s : HostSym} {cc : Nat} {attrs : AttributeList} {code : List HInst}
    {vs : List HValue} (hm : Matches E X gargs args e env) {dbg : Bool}
    (hseen : ∀ v ∈ c.args.map Prod.snd, Seen (site I X n dbg) gargs.length v)
    (h : doOperands (site I X n dbg) X.args 1 (c.args.map Prod.snd) = .ok (code, vs))
    {g : List (Val Sc) → Run Sc W (Val Sc)} {d : Interface → List (Val Sc) → Run Sc W (Val Sc)}
    (hg : callee E.sem (originalCtx E I.module oc) gargs e c = some g)
    (hd : (hostCtx E O fuel call fcp).direct s = some d)
    (hfollow : ∀ P ws, Sim Machine.withPads P (Same P) (g ws) (d ⟨c.functionType, cc, attrs.getAttributes⟩ ws)) :
    Sim Machine.withPads P (After E X gargs args P n env)
      (execInst E.sem (originalCtx E I.module oc) gargs e ⟨n, .call c⟩)
      (execInsts E.sem (hostCtx E O fuel call fcp) args env (code ++ [⟨bodyId n,
        .call ⟨c.functionType, cc, attrs, .const (.global s), (c.args.map Prod.fst).zip vs⟩⟩])) := by
  obtain ⟨env₁, hcode, _, hvals⟩ := doOperands_run O fuel call fcp P hm Nat.one_pos rfl hseen h
  have hlen : vs.length ≤ (c.args.map Prod.fst).length := by
    rw [← hvals.length_eq, List.length_map, List.length_map]
  rw [execInsts_append]
  refine hcode.run.sim (set_sim (hm.off Nat.one_pos hcode.off) (Frame.of_off hcode.off) rfl ?_)
  have hargs : Sim Machine.withPads P (Same P)
      (need (evalValues E.sem guestSymbols gargs e (c.args.map Prod.snd)) : Run Sc W (List (Val Sc)))
      (need (evalValues E.sem hostSymbols args env₁ (((c.args.map Prod.fst).zip vs).map Prod.snd))) := by
    rw [List.map_snd_zip hlen, evalValues_congr hvals]
    exact need_sim _
  refine Same.sim_bind hargs (fun ws => ?_)
  refine (need_silent (callee_direct rfl hd)).sim (need_left ?_ ?_)
  · intro hnone
    rw [hg] at hnone
    cases hnone
  · intro g' hg'
    rw [hg] at hg'
    cases hg'
    exact hfollow P ws

theorem need_map_bind {α β γ : Type} (o : Option α) (g : α → β) (k : β → Run Sc W γ) :
    (need (o.map g) >>= k) = need o >>= fun a => k (g a) := by
  cases o <;> rfl

theorem doCallback_sim {c : GCall} {code code' code'' : List HInst} {vs : List HValue} {v : HValue} {dbg : Bool}
    (hm : Matches E X gargs args e env)
    (hseen : ∀ v ∈ c.args.map Prod.snd, Seen (site I X n dbg) gargs.length v)
    (hcallee : Seen (site I X n dbg) gargs.length c.calledOperand) (hstub : HasStub I O c)
    (htypes : c.args.map Prod.fst = c.functionType.params)
    (hplain : ∀ g callee, c.calledOperand = .const (.global g) → I.module.function? g = some callee →
      callee.intrinsicId = none)
    (hfollow : ∀ P s v vs, Sim Machine.withPads P (Same P) (oc s v vs) (call s v vs))
    (h : doOperands (site I X n dbg) X.args 1 (c.args.map Prod.snd) = .ok (code, vs))
    (h' : doOperand (site I X n dbg) X.args (1 + code.length) c.calledOperand = .ok (code', v))
    (h'' : doCallback I X n (1 + code.length + code'.length) (bodyId n) c v ((c.args.map Prod.fst).zip vs) = .ok code'') :
    Sim Machine.withPads P (After E X gargs args P n env)
      (execInst E.sem (originalCtx E I.module oc) gargs e ⟨n, .call c⟩)
      (execInsts E.sem (hostCtx E O fuel call fcp) args env (code ++ code' ++ code'')) := by
  obtain ⟨env₁, hcode₁, hstable₁, hvals⟩ := doOperands_run O fuel call fcp P hm Nat.one_pos rfl hseen h
  have hm₁ := hm.off Nat.one_pos hcode₁.off
  obtain ⟨env₂, hcode₂, hstable₂, hval⟩ := doOperand_run O fuel call fcp P hm₁ (by omega) rfl hcallee h'
  have hm₂ := hm₁.off (by omega) hcode₂.off
  obtain ⟨hash, st, debug, hhash, hlookup, hret, harg, hiface⟩ := hstub
  have hlen : vs.length ≤ (c.args.map Prod.fst).length := by
    rw [← hvals.length_eq, List.length_map, List.length_map]
  have hlen' : (c.args.map Prod.fst).length ≤ vs.length := by
    rw [← hvals.length_eq, List.length_map, List.length_map]
  have hfunc : st.func = c.functionType := congrArg Interface.type hiface
  -- the callback found for the call
  unfold doCallback at h''
  rw [hhash] at h''
  simp only at h''
  split at h''
  next => cases h''
  next x hx =>
    cases h''
    obtain ⟨howner, hcb⟩ := hm₂.cbStubs hash x hx
    have hvals₂ : evalValues E.sem hostSymbols args env₂ (((c.args.map Prod.fst).zip vs).map Prod.snd) =
        evalValues E.sem guestSymbols gargs e (c.args.map Prod.snd) := by
      rw [List.map_snd_zip hlen, ← evalValues_congr hvals]
      exact evalValues_congr (List.forall₂_same.mpr (fun u hu => hstable₁ u hu env₂ hcode₂.off))
    have hstables : ∀ u ∈ (.inst x : HValue) :: v :: ((c.args.map Prod.fst).zip vs).map Prod.snd,
        Stable E.sem hostSymbols args (callName n (1 + code.length + code'.length)) env₂ u := by
      intro u hu
      rw [List.map_snd_zip hlen] at hu
      rcases List.mem_cons.mp hu with rfl | hu
      · exact stable_inst (entry_ne_callName howner _ _)
      · rcases List.mem_cons.mp hu with rfl | hu
        · exact hstable₂
        · exact Stable.later _ ((hstable₁ u hu).off hcode₂.off)
    have hcb : evalValue E.sem hostSymbols args env₂ (.inst x) = some (.addr (.cbStub hash)) := hcb
    have hsim := callbackCode_sim P fcp fuel I.config.debug (oc c.interface) hcb hstables hlookup hret harg
      (by rw [List.map_fst_zip hlen', htypes, hfunc]) (bodyId_ne_callName (by omega) n n)
      (fun P v ws => by rw [hiface]; exact hfollow P c.interface v ws)
    rw [execInsts_append, execInsts_append, bind_assoc]
    refine hcode₁.run.sim (hcode₂.run.sim ?_)
    have hcall : execOp E.sem (originalCtx E I.module oc) gargs e (.call c) =
        need (evalValues E.sem guestSymbols gargs e (c.args.map Prod.snd)) >>= fun ws =>
          need (evalValue E.sem guestSymbols gargs e c.calledOperand) >>= fun v => oc c.interface v ws := by
      change execCall _ _ _ _ _ = _
      unfold execCall
      rw [callee_indirect rfl (direct_eq_none hplain)]
      simp only [need_map_bind]
      rfl
    rw [hvals₂, hval, ← hcall, hfunc] at hsim
    refine Sim.map_left hsim ?_
    rintro a env₃ _ ⟨hcalled, rfl⟩
    have hframe : Frame n env₂ env₃ := by
      intro y hy
      refine hcalled.frame y (fun h => hy (by rw [h]; rfl)) (fun i h => hy (by rw [h]; rfl))
    refine ⟨Matches.set hm₂ (n := n) ?_ ?_ hframe ?_, ((Frame.of_off hcode₁.off).trans
      (Frame.of_off hcode₂.off)).trans hframe, rfl⟩
    · intro j hj
      split
      next => rfl
      next => exact Function.update_of_ne hj _ _
    · by_cases hvoid : c.functionType.ret = .void
      · rw [hcalled.void hvoid, hm₂.body, if_pos (by simpa [isVoidCall] using hvoid)]
      · rw [hcalled.value hvoid, if_neg (by simpa [isVoidCall] using hvoid), Function.update_self]
    · intro j hj
      exact hcalled.frame _ (by simpa [bodyId] using hj) (bodyId_ne_callName (by omega) j n)

theorem getCalledFunction_eq_some {m : Module} {c : GCall} {g : Nat} {f : GFunction} :
    getCalledFunction m c = some (g, f) ↔
      c.calledOperand = .const (.global g) ∧ m.function? g = some f ∧ f.type = c.functionType := by
  unfold getCalledFunction
  split
  next k hk =>
    rw [hk]
    split
    next f' hf' =>
      split
      next ht =>
        simp only [Option.some.injEq, Prod.mk.injEq, Value.const.injEq, Const.global.injEq]
        constructor
        · rintro ⟨rfl, rfl⟩
          exact ⟨rfl, hf', ht⟩
        · rintro ⟨rfl, hf, _⟩
          exact ⟨rfl, Option.some.inj (hf'.symm.trans hf)⟩
      next ht =>
        simp only [reduceCtorEq, Value.const.injEq, Const.global.injEq, false_iff]
        rintro ⟨rfl, hf, ht'⟩
        cases hf'.symm.trans hf
        exact ht ht'
    next hnone =>
      simp only [reduceCtorEq, Value.const.injEq, Const.global.injEq, false_iff]
      rintro ⟨rfl, hf, _⟩
      rw [hnone] at hf
      cases hf
  next hother =>
    simp only [reduceCtorEq, false_iff]
    rintro ⟨hg, _⟩
    exact hother g hg

theorem route_cases {c : GCall} (r : Route) (h : I.route c = r) :
    (∃ g f, getCalledFunction I.module c = some (g, f) ∧ I.isWhite g = true ∧ r = .white g) ∨
    (∃ g f id, getCalledFunction I.module c = some (g, f) ∧ f.intrinsicId = some id ∧ r = .intrinsic id) ∨
    (∃ g f, getCalledFunction I.module c = some (g, f) ∧ f.intrinsicId = none ∧ I.hasFcpFunc g = true ∧ r = .fcp g) ∨
    r = .callback := by
  subst h
  unfold Input.route
  split
  next g f hcalled =>
    split
    next hw => exact .inl ⟨g, f, hcalled, hw, rfl⟩
    next =>
      split
      next id hid => exact .inr (.inl ⟨g, f, id, hcalled, hid, rfl⟩)
      next hid =>
        split
        next hfcp => exact .inr (.inr (.inl ⟨g, f, hcalled, hid, hfcp, rfl⟩))
        next => exact .inr (.inr (.inr rfl))
  next => exact .inr (.inr (.inr rfl))

/-- An instruction and what it is copied to do the same. -/
theorem doInstruction_sim {i : GInst} {l : List HInst}
    (hwhite : ∀ c g, i.op = .call c → I.route c ≠ .white g) (hf : Follows oc call fcp I) (hm : Matches E X gargs args e env)
    (hseen : InstSeen O I X gargs.length i) (h : doInstruction I X i = .ok (.code l)) :
    Sim Machine.withPads P (After E X gargs args P i.id env)
      (execInst E.sem (originalCtx E I.module oc) gargs e i)
      (execInsts E.sem (hostCtx E O fuel call fcp) args env l) := by
  obtain ⟨n, op⟩ := i
  unfold InstSeen at hseen
  cases CallCopy.doInstruction_made h with
  | op hop hops =>
      cases hop
      exact doOp_sim hm hseen hops
  | @direct c d code vs hop hargs hd =>
      cases hop
      rcases route_cases (c := c) _ rfl with ⟨k, f, hk, hw, heq⟩ | ⟨k, f, id, hk, hid, heq⟩ | ⟨k, f, hk, hid, hfcp, heq⟩ | heq
      · exact absurd heq (hwhite c k rfl)
      · rw [heq] at hd
        cases hd
        obtain ⟨hop, hfun, _⟩ := getCalledFunction_eq_some.mp hk
        have hdirect : (originalCtx E I.module oc).direct k = some (runIntrinsic E id) := by
          change ((I.module.function? k).bind Function.intrinsicId).map (runIntrinsic E) = _
          rw [hfun, Option.bind_some, hid]
          rfl
        exact doDirect_sim hm hseen.1 hargs (callee_direct hop hdirect) rfl (fun P ws => onWorld_sim _)
      · rw [heq] at hd
        cases hd
        obtain ⟨hop, hfun, _⟩ := getCalledFunction_eq_some.mp hk
        have hdirect : (originalCtx E I.module oc).direct k = none := by
          change ((I.module.function? k).bind Function.intrinsicId).map (runIntrinsic E) = _
          rw [hfun, Option.bind_some, hid]
          rfl
        have hcallee : callee E.sem (originalCtx E I.module oc) gargs e c =
            some (oc c.interface (.addr (.guest k))) := by
          simp only [callee, hop, hdirect]
          rfl
        exact doDirect_sim hm hseen.1 hargs hcallee rfl (fun P ws => hf.fcp k hfcp P c.interface ws)
      · exact absurd heq (CallCopy.directCall_route hd)
  | callback hop hargs hroute hv _ hcb =>
      cases hop
      obtain ⟨hcallee, htypes, hstub, hplain⟩ := hseen.2 hroute
      exact doCallback_sim hm hseen.1 hcallee hstub htypes hplain hf.guest hargs hv hcb

end Comulator.InstRun
