import Comulator.ExecApprox
import Comulator.OutlineValid
import Comulator.Preservation

namespace Comulator.OutlineRun

open Types Ir TypeHash HostIr Exec ExecRules Simulation Compose Approximation ExecApprox Outline Offloadable OutlineValid

variable {H : HashOps} {names : Nat → GValue → String} {m : Module} {bw : BwList}

section Run

variable {S W : Type}

def isNew (m : Module) : Val S → Bool
  | .addr (.guest g) => decide (m.symbols.length ≤ g)
  | _ => false

def Strays (m : Module) (tr : List (GuestCall S)) : Prop := ∃ c ∈ tr, isNew m c.callee = true

def outlinedSetting (E : Setting S W) (m : Module) : Setting S W :=
  { E with known := fun g => E.known g || decide (m.symbols.length ≤ g)
           recorded := fun v => E.recorded v && !isNew m v }

section Calls

variable {E : Setting S W} {k n : Nat} {st st' : Machine S W} {s : Interface} {v : Val S} {args ws : List (Val S)}

/-- Calls in a program do not depend on the pads, and leave them alone. -/
theorem originalCall_same (E : Setting S W) (m : Module) (k n : Nat) :
    ∀ P s v vs, Sim Machine.withPads P (Same P) (originalCall E m k n s v vs) (originalCall E m k n s v vs) := by
  induction n with
  | zero => exact fun _ _ _ _ => .throw _ (.throw _)
  | succ n ih =>
      intro P s v vs
      refine Same.sim_bind (CallerRun.record_sim v vs) (fun _ => ?_)
      cases hv : definedAt E m v with
      | none => exact Same.sim_bind CallerRun.getWorld_sim (fun w => CallerRun.perform_sim ih _)
      | some d =>
          obtain ⟨g, f⟩ := d
          exact CallerRun.callFunction_same ih (Offloading.definedAt_eq_some E hv).1 k s

theorem originalCall_pads {r : Val S} (h : originalCall E m k n s v args st = .ok r st') : st'.pads = st.pads := by
  have hsame := originalCall_same E m k n st.pads s v args st
  rw [h] at hsame
  obtain ⟨r', P', h', _, rfl⟩ := hsame
  have hstate : st' = st'.withPads st.pads := (EStateM.Result.ok.inj (h.symm.trans h')).2
  rw [hstate]
  rfl

theorem framed_eq {x : Run S W (Val S)} (ret : Ty) (hx : ∀ st r st', x st = .ok r st' → st'.pads = st.pads) :
    framed ret x = x >>= fun r => pure (if ret = .void then .undef else r) := by
  funext st
  cases hres : x st with
  | ok r st' =>
      have hpads := hx st r st' hres
      have hrun : framed ret x st = .ok (if ret = .void then .undef else r)
          (st'.withPads (st'.pads.take st.pads.length)) := by
        rw [framed, bind_ok (show getPads st = .ok st.pads st from rfl), bind_ok hres]
        rfl
      rw [hrun, bind_ok hres, ← hpads, List.take_length]
      rfl
  | error e st' =>
      rw [framed, bind_ok (show getPads st = .ok st.pads st from rfl), bind_error hres, bind_error hres]

theorem evalValues_concat {γ ι : Type} {sem : Sem S W} {A : Symbols γ S} {env : Env ι S} (vs : List (Value γ ι))
    (v : Value γ ι) : evalValues sem A args env (vs ++ [v]) = (evalValues sem A args env vs).bind (fun ws =>
      (evalValue sem A args env v).map (fun w => ws ++ [w])) := by
  induction vs with
  | nil =>
      rw [List.nil_append, evalValues_cons, evalValues_nil]
      cases evalValue sem A args env v <;> rfl
  | cons u vs ih =>
      rw [List.cons_append, evalValues_cons, evalValues_cons, ih]
      cases evalValue sem A args env u with
      | none => rfl
      | some w =>
          cases evalValues sem A args env vs with
          | none => rfl
          | some ws => cases evalValue sem A args env v <;> rfl

/-- A call that is no call of an intrinsic. -/
theorem execCall_indirect {γ ι : Type} {sem : Sem S W} {C : Ctx γ S W} {env : Env ι S} {c : CallBase γ ι}
    (hdirect : ∀ g, c.calledOperand = .const (.global g) → C.direct g = none) :
    execCall sem C args env c = need (evalValues sem C.toSymbols args env (c.args.map Prod.snd)) >>= fun ws =>
      need (evalValue sem C.toSymbols args env c.calledOperand) >>= fun v => C.indirect c.interface v ws := by
  unfold execCall
  rw [callee_indirect rfl hdirect]
  simp only [InstRun.need_map_bind]

end Calls

section Outliner

variable {E : Setting S W} {k n : Nat} {args : List (Val S)} {env : Env Nat S} (ha : Agreeing H names m bw)

/-- The pass makes functions after the old symbols only. -/
theorem function?_outlined_none {g : Nat} (hf : m.function? g = none) (hlt : g < m.symbols.length) :
    (outlined ha).function? g = none := by
  refine Option.eq_none_iff_forall_ne_some.mpr (fun f' hf' => ?_)
  have hget : (outline H names m bw)[g]? = some (.function f') := Module.function?_eq_some.mp hf'
  obtain ⟨v', hv', hchanged⟩ := outline_symbol H names bw (List.getElem?_eq_getElem hlt)
  cases hget.symm.trans hv'
  cases hsymbol : m.symbols[g] with
  | function f =>
      rw [Module.function?_eq_some.mpr (by rw [List.getElem?_eq_getElem hlt, hsymbol])] at hf
      cases hf
  | _ =>
      rw [hsymbol] at hchanged
      cases hchanged

variable (H names bw) in
theorem function?_outlined {g : Nat} {f : GFunction} (hf : m.function? g = some f) :
    ∃ blocks, (outlined ha).function? g = some { f with blocks } ∧
      List.Forall₂ (BlockOutcome H names m bw) f.blocks blocks := by
  obtain ⟨blocks, hget, hblocks⟩ := outline_blocks H names bw hf
  exact ⟨blocks, Module.function?_eq_some.mpr hget, hblocks⟩

theorem intrinsic_outlined (g : Nat) :
    ((outlined ha).function? g).bind Function.intrinsicId = (m.function? g).bind Function.intrinsicId := by
  cases hf : m.function? g with
  | some f =>
      obtain ⟨blocks, hf', _⟩ := function?_outlined H names bw ha hf
      rw [hf']
      rfl
  | none =>
      by_cases hlt : g < m.symbols.length
      · rw [function?_outlined_none ha hf hlt]
      · obtain ⟨j, rfl⟩ := Nat.exists_eq_add_of_le (Nat.le_of_not_lt hlt)
        cases hf' : (outlined ha).function? (m.symbols.length + j) with
        | none => rfl
        | some f' =>
            have hget : (outline H names m bw)[m.symbols.length + j]? = some (.function f') :=
              Module.function?_eq_some.mp hf'
            rw [outline_above, Option.map_eq_some_iff] at hget
            obtain ⟨e, he, hfun⟩ := hget
            obtain ⟨c, _, hc⟩ := (outline_spec H names m bw).1.calls e (List.mem_of_getElem? he)
            cases hfun
            rw [hc]
            rfl

/-- The call of an outliner makes the call it stands for, one level further down. -/
theorem outlinerCall_run {c : GCall} {h : HashCode} (hc : Outlined H names m bw c h) {j : Nat} {fo : GFunction}
    (hj : (outliners H names m bw)[j]? = some (h, fo)) :
    execCall E.sem (originalCtx (outlinedSetting E m) (outlined ha)
        (originalCall (outlinedSetting E m) (outlined ha) (k + 1) (n + 1))) args env
        (outlinerCall (m.symbols.length + j) fo c) =
      need (evalValues E.sem guestSymbols args env (c.args.map Prod.snd)) >>= fun ws =>
        need (evalValue E.sem guestSymbols args env c.calledOperand) >>= fun v =>
          originalCall (outlinedSetting E m) (outlined ha) (k + 1) n c.interface v ws >>= fun r =>
            pure (if c.functionType.ret = .void then .undef else r) := by
  obtain ⟨c₀, rfl, htype, hinterface⟩ := ha.outliner hc hj
  have hfun : (outlined ha).function? (m.symbols.length + j) = some (outlinerFunction c₀) := by
    refine Module.function?_eq_some.mpr ?_
    change (outline H names m bw)[m.symbols.length + j]? = _
    rw [outline_above, hj]
    rfl
  have hdirect : ∀ g, (outlinerCall (m.symbols.length + j) (outlinerFunction c₀) c).calledOperand = .const (.global g) →
      (originalCtx (outlinedSetting E m) (outlined ha)
        (originalCall (outlinedSetting E m) (outlined ha) (k + 1) (n + 1))).direct g = none := by
    intro g hg
    cases hg
    change (((outlined ha).function? _).bind Function.intrinsicId).map _ = none
    rw [hfun]
    rfl
  -- the callee runs the outliner, which is not put on record
  have hcall : ∀ v ws, ws.length = c.args.length →
      originalCall (outlinedSetting E m) (outlined ha) (k + 1) (n + 1)
        (outlinerCall (m.symbols.length + j) (outlinerFunction c₀) c).interface
        (.addr (.guest (m.symbols.length + j))) (ws ++ [v]) =
      originalCall (outlinedSetting E m) (outlined ha) (k + 1) n c.interface v ws >>= fun r =>
        pure (if c.functionType.ret = .void then .undef else r) := by
    intro v ws hlen
    have hrecord : record (outlinedSetting E m) (.addr (.guest (m.symbols.length + j))) (ws ++ [v]) = pure () := by
      funext st
      rw [record_apply]
      simp [outlinedSetting, isNew]
      rfl
    have hdefined : definedAt (outlinedSetting E m) (outlined ha) (.addr (.guest (m.symbols.length + j))) =
        some (m.symbols.length + j, outlinerFunction c₀) := by
      simp [definedAt, hfun, outlinedSetting, Function.isDeclaration, outlinerFunction]
    have hagrees : (outlinerCall (m.symbols.length + j) (outlinerFunction c₀) c).interface.agrees
        (outlinerFunction c₀).interface = true := by
      simp [Interface.agrees, outlinerCall, CallBase.interface, Function.interface, Interface.abi, outlinerFunction]
    have hlen₀ : ws.length = c₀.args.length := hlen.trans (length_of_outlinerType htype).symm
    have hret : c₀.functionType.ret = c.functionType.ret :=
      show (outlinerType c₀).ret = (outlinerType c).ret from congrArg FunctionType.ret htype
    rw [originalCall, hrecord, hdefined]
    simp only [pure_bind, callFunction, hagrees, require, if_true]
    rw [outliner_run k hlen₀, hret, hinterface, framed_eq]
    · rfl
    · exact fun st r st' h => originalCall_pads h
  rw [execCall_indirect hdirect]
  have hvalues : evalValues E.sem guestSymbols args env
      ((outlinerCall (m.symbols.length + j) (outlinerFunction c₀) c).args.map Prod.snd) =
      (evalValues E.sem guestSymbols args env (c.args.map Prod.snd)).bind (fun ws =>
        (evalValue E.sem guestSymbols args env c.calledOperand).map (fun w => ws ++ [w])) := by
    rw [outlinerCall, operands, List.map_append]
    exact evalValues_concat _ _
  change need (evalValues E.sem guestSymbols args env _) >>= _ = _
  rw [hvalues]
  cases hws : evalValues E.sem guestSymbols args env (c.args.map Prod.snd) with
  | none => rfl
  | some ws =>
      cases hv : evalValue E.sem guestSymbols args env c.calledOperand with
      | none => rfl
      | some v =>
          have hlen : ws.length = c.args.length := by
            rw [(evalValues_eq_some.mp hws).length_eq.symm, List.length_map]
          exact hcall v ws hlen

end Outliner

section Levels

variable {E : Setting S W} {k n : Nat} (ha : Agreeing H names m bw)

abbrev Kept (m : Module) (x y : Run S W (Val S)) : Prop := Below (· = .fuel) (Strays m) x y

variable {oc : Caller S W}

theorem intrinsic_below (o : Option IntrinsicId) :
    Option.Rel (fun h h' => ∀ s vs, Kept m (h s vs) (h' s vs)) (o.map (runIntrinsic E)) (o.map (runIntrinsic E)) := by
  cases o with
  | none => exact .none
  | some id => exact .some (fun s vs => (onWorld_quiet _).below)

theorem ctx_below {call : Caller S W} (h : ∀ s v vs, Kept m (oc s v vs) (call s v vs)) :
    CtxBelow (· = .fuel) (Strays m) (originalCtx E m oc) (originalCtx (outlinedSetting E m) (outlined ha) call) where
  symbols := rfl
  cell := rfl
  direct := by
    intro g
    change Option.Rel _ (((m.function? g).bind Function.intrinsicId).map (runIntrinsic E))
      ((((outlined ha).function? g).bind Function.intrinsicId).map (runIntrinsic E))
    rw [intrinsic_outlined ha g]
    exact intrinsic_below _
  indirect := h

/-- An instruction and what the pass makes of it. -/
theorem inst_below (h : ∀ n', n ≤ n' → ∀ s v vs,
      Kept m (oc s v vs) (originalCall (outlinedSetting E m) (outlined ha) (k + 1) n' s v vs)) {i i' : GInst}
    (hi : Outcome H names m bw i i') (args : List (Val S)) :
    InstBelow (· = .fuel) (Strays m) E.sem (originalCtx E m oc) (originalCtx (outlinedSetting E m) (outlined ha)
      (originalCall (outlinedSetting E m) (outlined ha) (k + 1) (n + 1))) args i i' := by
  intro env
  cases hi with
  | kept => exact (ctx_below ha (h (n + 1) (Nat.le_succ n))).inst env i
  | @replaced c h' j fo hop hc hj =>
      have hdirect : ∀ g, c.calledOperand = .const (.global g) → (originalCtx E m oc).direct g = none := by
        intro g hg
        have hplain := ha.callee c h' hc
        change ((m.function? g).bind Function.intrinsicId).map (runIntrinsic E) = none
        unfold callsIntrinsic isIntrinsicAt at hplain
        rw [hg] at hplain
        cases hf : m.function? g with
        | none => rfl
        | some f =>
            simp only [hf] at hplain
            have hnone : f.intrinsicId = none := by simpa [Function.isIntrinsic] using hplain
            rw [Option.bind_some, hnone]
            rfl
      obtain ⟨n₀, op⟩ := i
      obtain rfl : op = .call c := hop
      have hvoid : isVoidCall (.call (outlinerCall (m.symbols.length + j) fo c) : InstOp Nat Nat) =
          isVoidCall (.call c : InstOp Nat Nat) := by
        obtain ⟨c₀, rfl, htype, _⟩ := ha.outliner hc hj
        have hret : (outlinerType c₀).ret = (outlinerType c).ret := congrArg FunctionType.ret htype
        simp only [isVoidCall, outlinerCall, outlinerFunction, hret]
        rfl
      unfold execInst
      simp only [execOp, hvoid]
      rw [execCall_indirect hdirect, outlinerCall_run ha hc hj]
      simp only [bind_assoc, pure_bind]
      refine (need_quiet _).below.bind (fun ws => (need_quiet _).below.bind (fun v => ?_))
      refine (h n le_rfl c.interface v ws).bind (fun r => ?_)
      by_cases hret : c.functionType.ret = .void
      · simp only [isVoidCall, hret, decide_true, if_true]
        exact .pure _
      · simp only [hret, if_false]
        exact .pure _

theorem blocks_below (h : ∀ n', n ≤ n' → ∀ s v vs,
      Kept m (oc s v vs) (originalCall (outlinedSetting E m) (outlined ha) (k + 1) n' s v vs))
    {bs bs' : List (Nat × GBlock)} (hbs : List.Forall₂ (BlockOutcome H names m bw) bs bs') (args : List (Val S)) :
    List.Forall₂ (BlockBelow (· = .fuel) (Strays m) E.sem (originalCtx E m oc) (originalCtx (outlinedSetting E m)
      (outlined ha) (originalCall (outlinedSetting E m) (outlined ha) (k + 1) (n + 1))) args) bs bs' := by
  refine hbs.imp ?_
  rintro b _ ⟨insts, rfl, hinsts⟩
  exact ⟨rfl, rfl, rfl, hinsts.imp (fun i i' hi => inst_below ha h hi args)⟩

theorem known_outlinedSetting {g : Nat} (hnew : isNew m (.addr (.guest g) : Val S) = false) :
    (outlinedSetting E m).known g = E.known g := by
  simp only [isNew] at hnew
  simp [outlinedSetting, hnew]

variable (E) in
/-- What is run at an address of the module. -/
theorem definedAt_outlined {v : Val S} (hv : isNew m v = false) :
    Option.Rel (fun d d' => ∃ blocks, d' = (d.1, { d.2 with blocks }) ∧
        List.Forall₂ (BlockOutcome H names m bw) d.2.blocks blocks)
      (definedAt E m v) (definedAt (outlinedSetting E m) (outlined ha) v) := by
  unfold definedAt
  cases v with
  | addr a =>
      cases a with
      | guest g =>
          have hknown := known_outlinedSetting (E := E) hv
          dsimp only
          cases hf : m.function? g with
          | some f =>
              obtain ⟨blocks, hf', hblocks⟩ := function?_outlined H names bw ha hf
              have hdeclared : Function.isDeclaration { f with blocks } = f.isDeclaration := by
                unfold Function.isDeclaration
                rw [Bool.eq_iff_iff, List.isEmpty_iff_length_eq_zero, List.isEmpty_iff_length_eq_zero, hblocks.length_eq]
              rw [hf']
              dsimp only
              rw [hknown, hdeclared]
              split
              next => exact .some ⟨blocks, rfl, hblocks⟩
              next => exact .none
          | none =>
              rw [function?_outlined_none ha hf (Nat.lt_of_not_le (of_decide_eq_false hv))]
              exact .none
      | _ => exact .none
  | _ => exact .none

theorem Strays.append {tr tr' : List (GuestCall S)} (h : Strays m tr) : Strays m (tr ++ tr') := by
  obtain ⟨c, hc, hnew⟩ := h
  exact ⟨c, List.mem_append_left _ hc, hnew⟩

theorem definedAt_new {v : Val S} (hnew : isNew m v = true) : definedAt E m v = none := by
  refine Option.eq_none_iff_forall_ne_some.mpr ?_
  rintro ⟨g, f⟩ hd
  obtain ⟨hf, rfl, _⟩ := Offloading.definedAt_eq_some E hd
  have hlt := (List.getElem?_eq_some_iff.mp (Module.function?_eq_some.mp hf)).1
  exact absurd hlt (Nat.not_lt.mpr (of_decide_eq_true hnew))

theorem record_outlinedSetting {v : Val S} (hnew : isNew m v = false) (vs : List (Val S)) :
    record (outlinedSetting E m) v vs = record E v vs := by
  funext st
  rw [record_apply, record_apply]
  simp [outlinedSetting, hnew]

/-- A call of a place where the module has nothing is a stray one. -/
theorem call_strays {v : Val S} (hnew : isNew m v = true) (hrecorded : E.recorded v = true)
    (hcalls : ∀ s v vs, ∃ y, Kept m (originalCall E m k n s v vs) y) (s : Interface) (vs : List (Val S))
    (y : Run S W (Val S)) : Kept m (originalCall E m k (n + 1) s v vs) y := by
  choose call hcall using hcalls
  rw [originalCall, definedAt_new hnew]
  refine .of_lost (lost_of_record hrecorded (fun tr => ?_) ?_)
  · exact ⟨_, List.mem_append_right _ List.mem_cons_self, hnew⟩
  · exact (getWorld_quiet.below.bind (fun w => perform_below hcall _)).stays

/-- Calls nested to any depth, where the outlined program nests twice as deep. -/
theorem calls_below (hE : ∀ v : Val S, isNew m v = true → E.recorded v = true) (n : Nat) :
    ∀ n', 2 * n ≤ n' → ∀ s v vs, Kept m (originalCall E m k n s v vs)
      (originalCall (outlinedSetting E m) (outlined ha) (k + 1) n' s v vs) := by
  induction n with
  | zero => exact fun _ _ _ _ _ => .of_out rfl
  | succ n ih =>
      intro n' hn' s v vs
      obtain ⟨p, rfl⟩ : ∃ p, n' = p + 2 := ⟨n' - 2, by omega⟩
      have hp : 2 * n ≤ p := by omega
      have hcalls : ∀ n', p ≤ n' → ∀ s v vs, Kept m (originalCall E m k n s v vs)
          (originalCall (outlinedSetting E m) (outlined ha) (k + 1) n' s v vs) :=
        fun n' hn' => ih n' (hp.trans hn')
      cases hnew : isNew m v with
      | true => exact call_strays hnew (hE v hnew) (fun s v vs => ⟨_, hcalls p le_rfl s v vs⟩) s vs _
      | false =>
          rw [originalCall, originalCall, record_outlinedSetting hnew]
          refine (record_below (fun tr hs => hs.append)).bind (fun _ => ?_)
          have hdefined := definedAt_outlined E ha hnew
          generalize definedAt E m v = d, definedAt (outlinedSetting E m) (outlined ha) v = d' at hdefined
          cases hdefined with
          | none => exact getWorld_quiet.below.bind (fun w => perform_below (hcalls (p + 1) (Nat.le_succ p)) _)
          | some h =>
              obtain ⟨blocks, rfl, hblocks⟩ := h
              refine (require_quiet _).below.bind (fun _ => ?_)
              exact execFunction_below rfl rfl (blocks_below ha hcalls hblocks vs) (Nat.le_succ k) rfl rfl rfl

theorem definedAt_outlinedSetting {v : Val S} (hnew : isNew m v = false) :
    definedAt (outlinedSetting E m) m v = definedAt E m v := by
  unfold definedAt
  cases v with
  | addr a =>
      cases a with
      | guest g =>
          dsimp only
          rw [known_outlinedSetting hnew]
      | _ => rfl
  | _ => rfl

/-- The program itself, in what an outlined one runs in. -/
theorem plain_below (hE : ∀ v : Val S, isNew m v = true → E.recorded v = true) (n : Nat) :
    ∀ n', n ≤ n' → ∀ s v vs, Kept m (originalCall E m k n s v vs)
      (originalCall (outlinedSetting E m) m (k + 1) n' s v vs) := by
  induction n with
  | zero => exact fun _ _ _ _ _ => .of_out rfl
  | succ n ih =>
      intro n' hn' s v vs
      obtain ⟨p, rfl⟩ : ∃ p, n' = p + 1 := ⟨n' - 1, by omega⟩
      have hcalls := ih p (Nat.le_of_succ_le_succ hn')
      cases hnew : isNew m v with
      | true => exact call_strays hnew (hE v hnew) (fun s v vs => ⟨_, hcalls s v vs⟩) s vs _
      | false =>
          rw [originalCall, originalCall, record_outlinedSetting hnew, definedAt_outlinedSetting hnew]
          refine (record_below (fun tr hs => hs.append)).bind (fun _ => ?_)
          cases definedAt E m v with
          | none => exact getWorld_quiet.below.bind (fun w => perform_below hcalls _)
          | some d =>
              refine (require_quiet _).below.bind (fun _ => ?_)
              have hctx : CtxBelow (· = .fuel) (Strays m) (originalCtx E m (originalCall E m k n))
                  (originalCtx (outlinedSetting E m) m (originalCall (outlinedSetting E m) m (k + 1) p)) :=
                ⟨rfl, rfl, fun g => intrinsic_below _, hcalls⟩
              exact hctx.function rfl (Nat.le_succ k)

end Levels

end Run

section Example

def soloModule : Module :=
  ⟨[.function (variadicCaller (variadicCall 1 [ptrTy])), .function (variadicDeclaration [ptrTy])], by decide⟩

theorem solo_outlined {H : HashOps} {bw : BwList} {c : GCall} {h : HashCode}
    (hc : Outlined H (fun _ _ => "") soloModule bw c h) : c = variadicCall 1 [ptrTy] := by
  obtain ⟨g, b, i, inst, hsite⟩ := hc
  have hop := ((outlined?_eq_some _).mp hsite.outlined).1
  have hplace : inst = ⟨0, .call (variadicCall 1 [ptrTy])⟩ := by
    have hplace := hsite.place
    rcases g with _ | _ | g
    · rcases b with _ | b
      · rcases i with _ | i
        · exact (Option.some.inj hplace).symm
        · cases hplace
      · cases hplace
    · cases hplace
    · cases hplace
  rw [hplace] at hop
  exact (InstOp.call.inj hop).symm

theorem solo_agreeing (H : HashOps) (bw : BwList) : Agreeing H (fun _ _ => "") soloModule bw where
  callee := by
    intro c h hc
    rw [solo_outlined hc]
    decide
  calls := by
    intro c c' h hc hc'
    rw [solo_outlined hc, solo_outlined hc']
    exact ⟨rfl, rfl⟩

theorem solo_run : outcome (originalCall Preservation.echo soloModule 1 2 (variadicCaller (variadicCall 1 [ptrTy])).interface
    (.addr (.guest 0)) [] ⟨(), [], []⟩) =
      (.ok .undef, (), [⟨.addr (.guest 0), []⟩, ⟨.addr (.guest 1), [.null, .int 32 7]⟩]) := rfl

theorem solo_stays : ¬ Strays soloModule [⟨.addr (.guest 0), []⟩, (⟨.addr (.guest 1), [.null, .int 32 7]⟩ : GuestCall Unit)] := by
  rintro ⟨c, hc, hnew⟩
  rcases List.mem_cons.mp hc with rfl | hc
  · cases hnew
  · cases List.mem_singleton.mp hc
    cases hnew

end Example

end Comulator.OutlineRun
