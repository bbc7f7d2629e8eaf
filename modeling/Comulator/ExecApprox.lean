import Comulator.Approximation
import Comulator.Compose
import Comulator.ExecRules

namespace Comulator.ExecApprox

open Types Ir HostIr Exec ExecRules Simulation Compose Approximation

variable {γ ι β S W α : Type} (out : Halt → Prop) (lost : List (GuestCall S) → Prop)

abbrev Below (x y : Run S W α) : Prop := Approx out (fun s : Machine S W => lost s.trace) x y

def Quiet (x : Run S W α) : Prop := ∀ s, (lastState (x s)).trace = s.trace

section Quiet

variable {out lost} {x : Run S W α}

theorem Quiet.below (h : Quiet x) : Below out lost x x := by
  refine .refl (fun s hs => ?_)
  rw [h s]
  exact hs

theorem Quiet.bind {δ : Type} {f : α → Run S W δ} (hx : Quiet x) (hf : ∀ a, Quiet (f a)) : Quiet (x >>= f) := by
  intro s
  have hs := hx s
  cases hres : x s with
  | ok a s' =>
      rw [hres] at hs
      rw [bind_ok hres, hf a s']
      exact hs
  | error e s' =>
      rw [hres] at hs
      rw [bind_error hres]
      exact hs

theorem Quiet.pure (a : α) : Quiet (Pure.pure a : Run S W α) := fun _ => rfl

theorem Quiet.throw (e : Halt) : Quiet (MonadExcept.throw e : Run S W α) := fun _ => rfl

theorem need_quiet (o : Option α) : Quiet (need o : Run S W α) := by
  cases o with
  | none => exact .throw _
  | some a => exact .pure a

theorem require_quiet (b : Bool) : Quiet (require b : Run S W Unit) := by
  cases b with
  | false => exact .throw _
  | true => exact .pure ()

theorem onWorld_quiet (f : W → Option (Val S × W)) : Quiet (onWorld f) := by
  intro s
  unfold onWorld
  cases f s.world <;> rfl

theorem getPads_quiet : Quiet (getPads : Run S W (Pads S)) := fun _ => rfl

theorem setPads_quiet (P : Pads S) : Quiet (setPads P : Run S W Unit) := fun _ => rfl

variable (sem : Sem S W) (C : Ctx γ S W)

theorem loadFrom_quiet (ty : Ty) (v : Val S) : Quiet (loadFrom sem C ty v) := by
  unfold loadFrom
  split
  next i =>
    refine getPads_quiet.bind (fun pads => ?_)
    split
    next => split <;> first | exact .pure _ | exact .throw _
    next => exact .throw _
  next a _ =>
    split
    next => split <;> first | exact .pure _ | exact .throw _
    next => exact onWorld_quiet _
  next => exact onWorld_quiet _

theorem storeTo_quiet (ty : Ty) (v p : Val S) : Quiet (storeTo ty v p : Run S W (Val S)) := by
  unfold storeTo
  split
  next i =>
    refine getPads_quiet.bind (fun pads => ?_)
    split
    next => split <;> first | exact (setPads_quiet _).bind (fun _ => .pure _) | exact .throw _
    next => exact .throw _
  next => exact .throw _

theorem elementOf_quiet (k : Int) (v : Val S) : Quiet (elementOf sem k v) := by
  unfold elementOf
  split
  next => exact .pure _
  next => exact onWorld_quiet _

theorem insertAt_quiet (i : Nat) (v a : Val S) : Quiet (insertAt i v a : Run S W (Val S)) := by
  unfold insertAt
  split
  next => split <;> first | exact .pure _ | exact .throw _
  next => exact .throw _

theorem extractAt_quiet (i : Nat) (a : Val S) : Quiet (extractAt i a : Run S W (Val S)) := by
  unfold extractAt
  split
  next => exact need_quiet _
  next => exact .throw _

theorem restoreTo_quiet (v : Val S) : Quiet (restoreTo v : Run S W (Val S)) := by
  unfold restoreTo
  split
  next => exact getPads_quiet.bind (fun _ => (setPads_quiet _).bind (fun _ => .pure _))
  next => exact .throw _

variable (args : List (Val S)) (env : Env ι S)

/-- Only a call puts calls on record. -/
theorem execOp_quiet {op : InstOp γ ι} (h : ∀ c, op ≠ .call c) : Quiet (execOp sem C args env op) := by
  cases op with
  | call c => exact absurd rfl (h c)
  | op opcode ty is ops => exact (need_quiet _).bind (fun vs => onWorld_quiet _)
  | landingPad | catchPad | cleanupPad => exact .throw _
  | alloca ty => exact getPads_quiet.bind (fun _ => (setPads_quiet _).bind (fun _ => .pure _))
  | load ty ptr => exact (need_quiet _).bind (fun p => loadFrom_quiet sem C ty p)
  | store ty v ptr => exact (need_quiet _).bind (fun v => (need_quiet _).bind (fun p => storeTo_quiet ty v p))
  | elementPtr ptr k => exact (need_quiet _).bind (fun p => elementOf_quiet sem k p)
  | insertValue a v i => exact (need_quiet _).bind (fun a => (need_quiet _).bind (fun v => insertAt_quiet i v a))
  | extractValue a i => exact (need_quiet _).bind (fun a => extractAt_quiet i a)
  | expand opcode ty is ops => exact (need_quiet _).bind (fun vs => .pure _)
  | stackSave => exact getPads_quiet.bind (fun _ => .pure _)
  | stackRestore v => exact (need_quiet _).bind (fun p => restoreTo_quiet p)
  | intToPtr v => exact (need_quiet _).bind (fun v => onWorld_quiet _)
  | xorMagic magic v => exact (need_quiet _).bind (fun v => onWorld_quiet _)
  | icmpEq a b => exact (need_quiet _).bind (fun a => (need_quiet _).bind (fun b => onWorld_quiet _))

theorem execTerm_quiet (A : Symbols γ S) (t : Term γ ι β) :
    Quiet (execTerm sem A args env t : Run S W (Next β S)) := by
  cases t with
  | ret r =>
      cases r with
      | none => exact .pure _
      | some r => exact (need_quiet _).bind (fun v => .pure _)
  | br d => exact .pure _
  | condBr v a b => exact (need_quiet _).bind (fun v => (need_quiet _).bind (fun t => .pure _))
  | switch v d cases => exact (need_quiet _).bind (fun v => .pure _)
  | _ => exact .throw _

theorem execPhis_quiet [DecidableEq ι] [DecidableEq β] (A : Symbols γ S) (prev : Option β) (l : List (Phi γ ι β)) :
    Quiet (execPhis sem A args env prev l : Run S W (Env ι S)) :=
  (need_quiet _).bind (fun _ => .pure _)

end Quiet

structure CtxBelow (C C' : Ctx γ S W) : Prop where
  symbols : C'.toSymbols = C.toSymbols
  cell : C'.cell = C.cell
  direct : ∀ g, Option.Rel (fun h h' => ∀ s vs, Below out lost (h s vs) (h' s vs)) (C.direct g) (C'.direct g)
  indirect : ∀ s v vs, Below out lost (C.indirect s v vs) (C'.indirect s v vs)

variable {out lost} {sem : Sem S W} {C C' : Ctx γ S W} {args : List (Val S)}

theorem CtxBelow.callee (h : CtxBelow out lost C C') (env : Env ι S) (c : CallBase γ ι) :
    Option.Rel (fun f f' => ∀ vs, Below out lost (f vs) (f' vs)) (callee sem C args env c) (callee sem C' args env c) := by
  have hindirect : ∀ o : Option (Val S), Option.Rel (fun f f' => ∀ vs, Below out lost (f vs) (f' vs))
      (o.map (C.indirect c.interface)) (o.map (C'.indirect c.interface)) := by
    intro o
    cases o with
    | none => exact .none
    | some v => exact .some (h.indirect c.interface v)
  unfold Exec.callee
  split
  next g _ =>
    have hdirect := h.direct g
    generalize C.direct g = d, C'.direct g = d' at hdirect
    cases hdirect with
    | none =>
        have hglobal : C'.global g = C.global g := congrArg (fun A => A.global g) h.symbols
        dsimp only
        rw [hglobal]
        exact hindirect _
    | some hd => exact .some (hd c.interface)
  next =>
    rw [h.symbols]
    exact hindirect _

theorem need_rel {o o' : Option (List (Val S) → Run S W (Val S))} (vs : List (Val S))
    (h : Option.Rel (fun f f' => ∀ vs, Below out lost (f vs) (f' vs)) o o') :
    Below out lost (need o >>= fun f => f vs) (need o' >>= fun f => f vs) := by
  cases h with
  | none => exact .throw _
  | some hf => exact hf vs

/-- What is no call depends on the symbols and the memory only. -/
theorem execOp_congr (hsymbols : C'.toSymbols = C.toSymbols) (hcell : C'.cell = C.cell) (env : Env ι S)
    {op : InstOp γ ι} (hop : ∀ c, op ≠ .call c) : execOp sem C' args env op = execOp sem C args env op := by
  cases op with
  | call c => exact absurd rfl (hop c)
  | load ty ptr =>
      have hload : loadFrom sem C' ty = loadFrom sem C ty := by
        funext v
        simp only [loadFrom, hcell]
      simp only [execOp, hsymbols, hload]
  | _ => simp only [execOp, hsymbols]

theorem CtxBelow.call (h : CtxBelow out lost C C') (env : Env ι S) (c : CallBase γ ι) :
    Below out lost (execCall sem C args env c) (execCall sem C' args env c) := by
  unfold execCall
  rw [h.symbols]
  exact (need_quiet _).below.bind (fun vs => need_rel vs (h.callee env c))

theorem CtxBelow.op (h : CtxBelow out lost C C') (env : Env ι S) (op : InstOp γ ι) :
    Below out lost (execOp sem C args env op) (execOp sem C' args env op) := by
  by_cases hop : ∃ c, op = .call c
  · obtain ⟨c, rfl⟩ := hop
    exact h.call env c
  · have hop : ∀ c, op ≠ .call c := fun c hc => hop ⟨c, hc⟩
    rw [execOp_congr h.symbols h.cell env hop]
    exact (execOp_quiet sem C args env hop).below

section Code

variable [DecidableEq ι] [DecidableEq β]

theorem CtxBelow.inst (h : CtxBelow out lost C C') (env : Env ι S) (i : Inst γ ι) :
    Below out lost (execInst sem C args env i) (execInst sem C' args env i) :=
  (h.op env i.op).bind (fun _ => .pure _)

variable (out lost sem C C' args) in
def InstBelow (i i' : Inst γ ι) : Prop :=
  ∀ env, Below out lost (execInst sem C args env i) (execInst sem C' args env i')

variable (out lost sem C C' args) in
structure BlockBelow (b b' : β × Block γ ι β) : Prop where
  label : b'.1 = b.1
  phis : b'.2.phis = b.2.phis
  term : b'.2.term = b.2.term
  insts : List.Forall₂ (InstBelow out lost sem C C' args) b.2.insts b'.2.insts

theorem execInsts_below {l l' : List (Inst γ ι)} (h : List.Forall₂ (InstBelow out lost sem C C' args) l l') (env : Env ι S) :
    Below out lost (execInsts sem C args env l) (execInsts sem C' args env l') := by
  induction h generalizing env with
  | nil => exact .pure env
  | cons hi _ ih =>
      rw [execInsts_cons, execInsts_cons]
      exact (hi env).bind ih

theorem execBlock_below (hsymbols : C'.toSymbols = C.toSymbols) {b b' : β × Block γ ι β}
    (h : BlockBelow out lost sem C C' args b b') (env : Env ι S) (prev : Option β) :
    Below out lost (execBlock sem C args env prev b.2) (execBlock sem C' args env prev b'.2) := by
  unfold execBlock
  rw [h.phis, h.term, hsymbols]
  refine (execPhis_quiet sem args env _ prev _).below.bind (fun env₁ => ?_)
  refine (execInsts_below h.insts env₁).bind (fun env₂ => ?_)
  exact (execTerm_quiet sem args env₂ _ _).below.bind (fun next => .pure _)

theorem lookup_below {l l' : List (β × Block γ ι β)} (h : List.Forall₂ (BlockBelow out lost sem C C' args) l l') (d : β) :
    Option.Rel (fun b b' => BlockBelow out lost sem C C' args (d, b) (d, b')) (l.lookup d) (l'.lookup d) := by
  induction h with
  | nil => exact .none
  | @cons b b' l l' hb _ ih =>
      obtain ⟨label, blk⟩ := b
      obtain ⟨label', blk'⟩ := b'
      obtain rfl : label' = label := hb.label
      rw [List.lookup_cons, List.lookup_cons]
      by_cases hd : d = label'
      · subst hd
        rw [beq_self_eq_true]
        exact .some hb
      · rw [beq_eq_false_iff_ne.mpr hd]
        exact ih

variable {f f' : Function γ ι β} {k k' : Nat}

theorem execBlocks_below (hsymbols : C'.toSymbols = C.toSymbols) (hfuel : out .fuel)
    (h : List.Forall₂ (BlockBelow out lost sem C C' args) f.blocks f'.blocks) (hk : k ≤ k') (prev : Option β) (d : β)
    (env : Env ι S) : Below out lost (execBlocks sem C args f k prev d env) (execBlocks sem C' args f' k' prev d env) := by
  induction k generalizing k' prev d env with
  | zero => exact .of_out hfuel
  | succ k ih =>
      obtain ⟨k', rfl⟩ := Nat.exists_eq_add_of_lt hk
      have hblock := lookup_below h d
      unfold execBlocks Function.block?
      generalize f.blocks.lookup d = o, f'.blocks.lookup d = o' at hblock
      cases hblock with
      | none => exact .throw _
      | some hb =>
          simp only [need, pure_bind]
          refine (execBlock_below hsymbols hb env prev).bind (fun r => ?_)
          cases r.2 with
          | ret v => exact .pure v
          | goto d' => exact ih (Nat.le_add_right k k') (some d) d' r.1

/-- A function and the one in its place, from what their instructions do. -/
theorem execFunction_below (hsymbols : C'.toSymbols = C.toSymbols) (hfuel : out .fuel)
    (h : List.Forall₂ (BlockBelow out lost sem C C' args) f.blocks f'.blocks) (hk : k ≤ k')
    (htype : f'.type = f.type) (hoperands : f'.operands = f.operands) (hdata : f'.prefixData = f.prefixData) :
    Below out lost (execFunction sem C args f k) (execFunction sem C' args f' k') := by
  have hentry : f'.blocks.head?.map Prod.fst = f.blocks.head?.map Prod.fst := by
    generalize f.blocks = l, f'.blocks = l' at h
    cases h with
    | nil => rfl
    | cons hb _ => exact congrArg some hb.label
  unfold execFunction
  rw [hsymbols, htype, hoperands, hdata, hentry]
  refine (need_quiet _).below.bind (fun _ => (require_quiet _).below.bind (fun _ => ?_))
  refine getPads_quiet.below.bind (fun pads => (need_quiet _).below.bind (fun entry => ?_))
  refine (execBlocks_below hsymbols hfuel h hk none entry _).bind (fun v => ?_)
  exact (getPads_quiet.bind (fun pads' => (setPads_quiet _).bind (fun _ => .pure v))).below

/-- More fuel, and calls that do more. -/
theorem CtxBelow.function (h : CtxBelow out lost C C') (hfuel : out .fuel) (hk : k ≤ k') :
    Below out lost (execFunction sem C args f k) (execFunction sem C' args f k') := by
  refine execFunction_below h.symbols hfuel (List.forall₂_same.mpr (fun b _ => ?_)) hk rfl rfl rfl
  exact ⟨rfl, rfl, rfl, List.forall₂_same.mpr (fun i _ env => h.inst env i)⟩

end Code

section Guest

variable {oc call : Caller S W} {E : Setting S W} {v : Val S} {vs : List (Val S)}

theorem setWorld_quiet (w : W) : Quiet (setWorld w : Run S W Unit) := fun _ => rfl

theorem getWorld_quiet : Quiet (getWorld : Run S W W) := fun _ => rfl

theorem perform_below (h : ∀ s v vs, Below out lost (oc s v vs) (call s v vs)) (b : Behaviour S W) :
    Below out lost (perform oc b) (perform call b) := by
  induction b with
  | ret v w => exact (setWorld_quiet w).below.bind (fun _ => .pure v)
  | stop w => exact (setWorld_quiet w).below.bind (fun _ => .throw _)
  | call s v vs w resume ih =>
      refine (setWorld_quiet w).below.bind (fun _ => (h s v vs).bind (fun r => ?_))
      exact getWorld_quiet.below.bind (fun w => ih r w)

/-- What is lost stays so when a call is put on record. -/
theorem record_below (hlost : ∀ tr, lost tr → lost (tr ++ [⟨v, vs⟩])) : Below out lost (record E v vs) (record E v vs) := by
  refine .refl (fun st h => ?_)
  rw [record_apply]
  change lost (if E.recorded v then _ else st).trace
  split
  next => exact hlost _ h
  next => exact h

/-- A call that is lost as soon as it is on record. -/
theorem lost_of_record (hrecorded : E.recorded v = true) (hlost : ∀ tr, lost (tr ++ [⟨v, vs⟩])) {x : Run S W α}
    (hx : ∀ st, lost st.trace → lost (lastState (x st)).trace) (st : Machine S W) :
    lost (lastState ((record E v vs >>= fun _ => x) st)).trace := by
  have hrecord : record E v vs st = .ok () { st with trace := st.trace ++ [⟨v, vs⟩] } := by
    rw [record_apply, hrecorded]
    rfl
  rw [bind_ok hrecord]
  exact hx _ (hlost _)

theorem Below.eq_of_outcome {x y : Run S W α} (h : Below (· = .fuel) lost x y) {st : Machine S W}
    (hends : (outcome (x st)).1 ≠ .error .fuel) (hlost : ¬ lost (outcome (x st)).2.2) : y st = x st := by
  refine h.eq_of_not_gone (fun hgone => ?_)
  cases hr : x st with
  | ok r st' =>
      rw [hr] at hgone hlost
      exact hlost hgone
  | error e st' =>
      rw [hr] at hgone hends hlost
      rcases hgone with rfl | hgone
      · exact hends rfl
      · exact hlost hgone

end Guest

end Comulator.ExecApprox
