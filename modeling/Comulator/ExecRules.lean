import Comulator.Exec
import Comulator.Simulation

namespace Comulator.ExecRules

open Types Ir HostIr Exec Simulation

variable {γ ι β S W α α' : Type}

abbrev Pads (S : Type) := List (Ty × Val S)

def Same (P : Pads S) (a b : α) (P' : Pads S) : Prop := b = a ∧ P' = P

variable {P P' P'' : Pads S}

section Basic

theorem need_silent {o : Option α} {a : α} (h : o = some a) :
    Silent Machine.withPads P a P (need o : Run S W α) := by
  subst h
  exact .pure a

theorem need_raises {o : Option α} (h : o = none) : Raises Machine.withPads P .stuck (need o : Run S W α) := by
  subst h
  exact .throw _

theorem getPads_silent : Silent Machine.withPads P P P (getPads : Run S W (Pads S)) := fun _ => rfl

theorem setPads_silent : Silent Machine.withPads P () P' (setPads P' : Run S W Unit) := fun _ => rfl

theorem need_sim (o : Option α) : Sim Machine.withPads P (Same P) (need o : Run S W α) (need o) := by
  cases o with
  | none => exact .throw _ (.throw _)
  | some a => exact .pure ⟨rfl, rfl⟩

theorem require_sim (b : Bool) : Sim Machine.withPads P (Same P) (require b : Run S W Unit) (require b) := by
  cases b with
  | false => exact .throw _ (.throw _)
  | true => exact .pure ⟨rfl, rfl⟩

theorem onWorld_sim (f : W → Option (Val S × W)) : Sim Machine.withPads P (Same P) (onWorld f) (onWorld f) := by
  intro s
  unfold onWorld
  cases hf : f s.world with
  | none =>
      refine ⟨P, ?_⟩
      simp only [Machine.withPads, hf]
  | some r =>
      refine ⟨r.1, P, ?_, rfl, rfl⟩
      simp only [Machine.withPads, hf]

variable {Q : α' → α → Pads S → Prop} {y : Run S W α}

/-- A value that is needed on the left only. -/
theorem need_left {o : Option β} {f : β → Run S W α'} (hnone : o = none → Raises Machine.withPads P .stuck y)
    (hsome : ∀ a, o = some a → Sim Machine.withPads P Q (f a) y) : Sim Machine.withPads P Q (need o >>= f) y := by
  cases o with
  | none => exact .throw _ (hnone rfl)
  | some a => exact hsome a rfl

theorem Same.sim_bind {x x' : Run S W α} {f : α → Run S W α'} {g : α → Run S W β} {R : α' → β → Pads S → Prop}
    (h : Sim Machine.withPads P (Same P) x x') (hfg : ∀ a, Sim Machine.withPads P R (f a) (g a)) :
    Sim Machine.withPads P R (x >>= f) (x' >>= g) := by
  refine h.bind ?_
  rintro a _ _ ⟨rfl, rfl⟩
  exact hfg _

end Basic

section Values

variable {sem : Sem S W} {A : Symbols γ S} {args : List (Val S)} {env env' : Env ι S}

theorem evalValues_nil : evalValues sem A args env [] = some [] := rfl

theorem evalValues_cons (v : Value γ ι) (vs : List (Value γ ι)) : evalValues sem A args env (v :: vs) =
    (evalValue sem A args env v).bind (fun w => (evalValues sem A args env vs).map (fun ws => w :: ws)) := by
  rw [evalValues, List.mapM_cons]
  cases evalValue sem A args env v with
  | none => rfl
  | some w =>
      change (vs.mapM (evalValue sem A args env)).bind _ = (vs.mapM (evalValue sem A args env)).map _
      cases vs.mapM (evalValue sem A args env) <;> rfl

theorem evalValues_congr {ι' γ' : Type} {A' : Symbols γ' S} {args' : List (Val S)} {env' : Env ι' S}
    {vs : List (Value γ ι)} {vs' : List (Value γ' ι')}
    (h : List.Forall₂ (fun v v' => evalValue sem A' args' env' v' = evalValue sem A args env v) vs vs') :
    evalValues sem A' args' env' vs' = evalValues sem A args env vs := by
  induction h with
  | nil => rfl
  | cons hv _ ih => rw [evalValues_cons, evalValues_cons, hv, ih]

theorem evalValues_eq_some {vs : List (Value γ ι)} {ws : List (Val S)} :
    evalValues sem A args env vs = some ws ↔ List.Forall₂ (fun v w => evalValue sem A args env v = some w) vs ws := by
  induction vs generalizing ws with
  | nil =>
      rw [evalValues_nil, List.forall₂_nil_left_iff, Option.some.injEq, eq_comm]
  | cons v vs ih =>
      rw [evalValues_cons]
      constructor
      · intro h
        obtain ⟨w, hw, h⟩ := Option.bind_eq_some_iff.mp h
        obtain ⟨us, hus, rfl⟩ := Option.map_eq_some_iff.mp h
        exact .cons hw (ih.mp hus)
      · intro h
        cases h with
        | cons hw hus => rw [hw, ih.mpr hus]; rfl

/-- The values of names that stand for the elements of a list. -/
theorem evalValues_names {τ : Type} {ts : List τ} {vs : List (Val S)} {name : Nat → ι}
    (hlen : vs.length = ts.length) (h : ∀ i, i < vs.length → env (name i) = vs[i]?) :
    evalValues sem A args env (ts.zipIdx.map (fun p => (.inst (name p.2) : Value γ ι))) = some vs := by
  refine evalValues_eq_some.mpr (List.forall₂_iff_get.mpr ⟨by simp [hlen], ?_⟩)
  intro i h₁ h₂
  have hi : env (name i) = some vs[i] := by rw [h i h₂, List.getElem?_eq_getElem h₂]
  simpa [evalValue] using hi

end Values

section Insts

variable [DecidableEq ι] {sem : Sem S W} {C : Ctx γ S W} {args : List (Val S)} {env env' : Env ι S}

theorem execInsts_cons (i : Inst γ ι) (l : List (Inst γ ι)) :
    execInsts sem C args env (i :: l) = execInst sem C args env i >>= fun env => execInsts sem C args env l := by
  simp only [execInsts, List.foldlM_cons]

theorem execInsts_append (l l' : List (Inst γ ι)) :
    execInsts sem C args env (l ++ l') = execInsts sem C args env l >>= fun env => execInsts sem C args env l' := by
  simp only [execInsts, List.foldlM_append]

theorem Silent.inst {x : ι} {op : InstOp γ ι} {v : Val S}
    (h : Silent Machine.withPads P v P' (execOp sem C args env op)) (hop : isVoidCall op = false) :
    Silent Machine.withPads P (Function.update env x (some v)) P' (execInst sem C args env ⟨x, op⟩) := by
  refine h.bind ?_
  simp only [hop]
  exact .pure _

theorem Silent.void {x : ι} {op : InstOp γ ι} {v : Val S}
    (h : Silent Machine.withPads P v P' (execOp sem C args env op)) (hop : isVoidCall op = true) :
    Silent Machine.withPads P env P' (execInst sem C args env ⟨x, op⟩) := by
  refine h.bind ?_
  simp only [hop]
  exact .pure _

theorem Silent.cons {i : Inst γ ι} {l : List (Inst γ ι)} {env'' : Env ι S}
    (h : Silent Machine.withPads P env' P' (execInst sem C args env i))
    (hl : Silent Machine.withPads P' env'' P'' (execInsts sem C args env' l)) :
    Silent Machine.withPads P env'' P'' (execInsts sem C args env (i :: l)) := by
  rw [execInsts_cons]
  exact h.bind hl

theorem Silent.append {l l' : List (Inst γ ι)} {env'' : Env ι S}
    (h : Silent Machine.withPads P env' P' (execInsts sem C args env l))
    (hl : Silent Machine.withPads P' env'' P'' (execInsts sem C args env' l')) :
    Silent Machine.withPads P env'' P'' (execInsts sem C args env (l ++ l')) := by
  rw [execInsts_append]
  exact h.bind hl

theorem Silent.single {i : Inst γ ι} (h : Silent Machine.withPads P env' P' (execInst sem C args env i)) :
    Silent Machine.withPads P env' P' (execInsts sem C args env [i]) := Silent.cons h (.pure _)

theorem Raises.inst {i : Inst γ ι} {l : List (Inst γ ι)}
    (h : Raises Machine.withPads P .stuck (execOp sem C args env i.op)) :
    Raises Machine.withPads P .stuck (execInsts sem C args env (i :: l)) := by
  rw [execInsts_cons]
  exact h.bind.bind

theorem Silent.raises_append {l l' : List (Inst γ ι)}
    (h : Silent Machine.withPads P env' P' (execInsts sem C args env l))
    (hl : Raises Machine.withPads P' .stuck (execInsts sem C args env' l')) :
    Raises Machine.withPads P .stuck (execInsts sem C args env (l ++ l')) := by
  rw [execInsts_append]
  exact h.raises hl

theorem Raises.append {l l' : List (Inst γ ι)}
    (h : Raises Machine.withPads P .stuck (execInsts sem C args env l)) :
    Raises Machine.withPads P .stuck (execInsts sem C args env (l ++ l')) := by
  rw [execInsts_append]
  exact h.bind

end Insts

section Ops

variable {sem : Sem S W} {C : Ctx γ S W} {args : List (Val S)} {env : Env ι S}

theorem alloca_silent (ty : Ty) :
    Silent Machine.withPads P (.addr (.pad P.length)) (P ++ [(ty, .undef)])
      (execOp sem C args env (.alloca ty : InstOp γ ι)) :=
  getPads_silent.bind (setPads_silent.bind (.pure _))

theorem store_silent {ty : Ty} {value ptr : Value γ ι} {v old : Val S} {i : Nat}
    (hv : evalValue sem C.toSymbols args env value = some v)
    (hp : evalValue sem C.toSymbols args env ptr = some (.addr (.pad i))) (hi : P[i]? = some (ty, old)) :
    Silent Machine.withPads P .undef (P.set i (ty, v)) (execOp sem C args env (.store ty value ptr)) := by
  refine (need_silent hv).bind ((need_silent hp).bind (getPads_silent.bind ?_))
  simp only [hi, if_true]
  exact setPads_silent.bind (.pure _)

theorem load_silent {ty : Ty} {ptr : Value γ ι} {v : Val S} {i : Nat}
    (hp : evalValue sem C.toSymbols args env ptr = some (.addr (.pad i))) (hi : P[i]? = some (ty, v)) :
    Silent Machine.withPads P v P (execOp sem C args env (.load ty ptr)) := by
  refine (need_silent hp).bind (getPads_silent.bind ?_)
  simp only [hi, if_true]
  exact .pure _

theorem insertValue_silent {aggregate value : Value γ ι} {i : Nat} {v : Val S} {fields : List (Val S)}
    (ha : evalValue sem C.toSymbols args env aggregate = some (.agg fields))
    (hv : evalValue sem C.toSymbols args env value = some v) (hi : i < fields.length) :
    Silent Machine.withPads P (.agg (fields.set i v)) P (execOp sem C args env (.insertValue aggregate value i)) := by
  refine (need_silent ha).bind ((need_silent hv).bind ?_)
  simp only [insertAt, if_pos hi]
  exact .pure _

theorem extractValue_silent {aggregate : Value γ ι} {i : Nat} {v : Val S} {fields : List (Val S)}
    (ha : evalValue sem C.toSymbols args env aggregate = some (.agg fields)) (hi : fields[i]? = some v) :
    Silent Machine.withPads P v P (execOp sem C args env (.extractValue aggregate i)) :=
  (need_silent ha).bind (need_silent hi)

theorem expand_silent {opcode : Opcode} {ty : Ty} {is : List Nat} {ops : List (Value γ ι)} {vs : List (Val S)}
    (hvs : evalValues sem C.toSymbols args env ops = some vs) :
    Silent Machine.withPads P (sem.expr opcode ty is vs) P (execOp sem C args env (.expand opcode ty is ops)) :=
  (need_silent hvs).bind (.pure _)

theorem stackSave_silent :
    Silent Machine.withPads P (.addr (.stack P.length)) P (execOp sem C args env (.stackSave : InstOp γ ι)) :=
  getPads_silent.bind (.pure _)

theorem stackRestore_silent {saved : Value γ ι} {n : Nat}
    (hs : evalValue sem C.toSymbols args env saved = some (.addr (.stack n))) :
    Silent Machine.withPads P .undef (P.take n) (execOp sem C args env (.stackRestore saved)) :=
  (need_silent hs).bind (getPads_silent.bind (setPads_silent.bind (.pure _)))

end Ops

section Chain

variable {sem : Sem S W} {C : Ctx γ S W} {args : List (Val S)} {env env' env'' : Env ι S} {name : Nat → ι}

def Off (name : Nat → ι) (env env' : Env ι S) : Prop := ∀ x, (∀ i, x ≠ name i) → env' x = env x

theorem Off.refl : Off name env env := fun _ _ => rfl

theorem Off.trans (h : Off name env env') (h' : Off name env' env'') : Off name env env'' :=
  fun x hx => (h' x hx).trans (h x hx)

theorem Off.update [DecidableEq ι] (i : Nat) (v : Option (Val S)) : Off name env (Function.update env (name i) v) :=
  fun _ hx => Function.update_of_ne (hx i) _ _

theorem Off.of_comp {f : Nat → Nat} (h : Off (fun i => name (f i)) env env') : Off name env env' :=
  fun x hx => h x (fun i => hx (f i))

def Stable (sem : Sem S W) (A : Symbols γ S) (args : List (Val S)) (name : Nat → ι) (env : Env ι S)
    (v : Value γ ι) : Prop :=
  ∀ env', Off name env env' → evalValue sem A args env' v = evalValue sem A args env v

theorem Stable.off {A : Symbols γ S} {v : Value γ ι} (h : Stable sem A args name env v) (hoff : Off name env env') :
    Stable sem A args name env' v :=
  fun env'' h' => (h env'' (hoff.trans h')).trans (h env' hoff).symm

def chainFrom (name : Nat → ι) (n j : Nat) (vs : List (Value γ ι)) : List (Inst γ ι) :=
  (vs.zipIdx j).map (fun p => ⟨name p.2, .insertValue (chainValue name n p.2) p.1 p.2⟩)

theorem chainFrom_cons (n j : Nat) (v : Value γ ι) (vs : List (Value γ ι)) :
    chainFrom name n j (v :: vs) =
      ⟨name j, .insertValue (chainValue name n j) v j⟩ :: chainFrom name n (j + 1) vs := rfl

theorem chainFrom_run [DecidableEq ι] {n : Nat} (vs : List (Value γ ι)) {j : Nat} {done : List (Val S)}
    (hstable : ∀ v ∈ vs, Stable sem C.toSymbols args name env v) (hdone : done.length = j)
    (hchain : evalValue sem C.toSymbols args env (chainValue name n j : Value γ ι) =
      some (.agg (done ++ List.replicate vs.length .undef))) :
    (evalValues sem C.toSymbols args env vs = none →
      Raises Machine.withPads P .stuck (execInsts sem C args env (chainFrom name n j vs))) ∧
    ∀ ws, evalValues sem C.toSymbols args env vs = some ws → ∃ env',
      Silent Machine.withPads P env' P (execInsts sem C args env (chainFrom name n j vs)) ∧ Off name env env' ∧
        evalValue sem C.toSymbols args env' (chainValue name n (j + vs.length) : Value γ ι) = some (.agg (done ++ ws)) := by
  induction vs generalizing env j done with
  | nil =>
      refine ⟨fun h => by simp [evalValues_nil] at h, fun ws hws => ?_⟩
      cases hws
      exact ⟨env, .pure _, Off.refl, by simpa using hchain⟩
  | cons v vs ih =>
      rw [chainFrom_cons, evalValues_cons]
      cases hv : evalValue sem C.toSymbols args env v with
      | none =>
          refine ⟨fun _ => Raises.inst ((need_silent hchain).raises (need_raises hv).bind), fun ws hws => ?_⟩
          cases hws
      | some w =>
          have hset : (done ++ List.replicate (vs.length + 1) Val.undef).set j w =
              (done ++ [w]) ++ List.replicate vs.length .undef := by
            rw [List.set_append_right _ _ (by omega), hdone, Nat.sub_self]
            simp [List.replicate_succ]
          have hstep : Silent Machine.withPads P
              (Function.update env (name j) (some (.agg ((done ++ [w]) ++ List.replicate vs.length .undef)))) P
              (execInst sem C args env ⟨name j, .insertValue (chainValue name n j) v j⟩) := by
            rw [← hset]
            exact Silent.inst (insertValue_silent hchain hv (by simp; omega)) rfl
          generalize hnext : Function.update env (name j)
            (some (.agg ((done ++ [w]) ++ List.replicate vs.length .undef))) = next at hstep
          have hoff : Off name env next := hnext ▸ Off.update j _
          have hvs : evalValues sem C.toSymbols args next vs = evalValues sem C.toSymbols args env vs :=
            evalValues_congr (List.forall₂_same.mpr (fun u hu => hstable u (List.mem_cons_of_mem _ hu) next hoff))
          obtain ⟨hnone, hsome⟩ := @ih next (j + 1) (done ++ [w])
            (fun u hu => (hstable u (List.mem_cons_of_mem _ hu)).off hoff) (by simp [hdone])
            (by
              rw [← hnext]
              exact Function.update_self _ _ _)
          refine ⟨fun h => ?_, fun ws hws => ?_⟩
          · rw [execInsts_cons]
            refine hstep.raises (hnone ?_)
            rw [hvs]
            simpa using h
          · obtain ⟨us, hus, rfl⟩ := Option.map_eq_some_iff.mp hws
            obtain ⟨env', hrun, hoff', hval⟩ := hsome us (hvs.trans hus)
            refine ⟨env', Silent.cons hstep hrun, hoff.trans hoff', ?_⟩
            rw [List.length_cons, show j + (vs.length + 1) = j + 1 + vs.length by omega, hval]
            simp

variable [DecidableEq ι]

theorem insertChain_run {vs : List (Value γ ι)} (hstable : ∀ v ∈ vs, Stable sem C.toSymbols args name env v)
    (hvs : vs ≠ []) :
    (evalValues sem C.toSymbols args env vs = none →
      Raises Machine.withPads P .stuck (execInsts sem C args env (insertChain name vs))) ∧
    ∀ ws, evalValues sem C.toSymbols args env vs = some ws → ∃ env',
      Silent Machine.withPads P env' P (execInsts sem C args env (insertChain name vs)) ∧ Off name env env' ∧
        evalValue sem C.toSymbols args env' (chainValue name vs.length vs.length : Value γ ι) = some (.agg ws) := by
  obtain ⟨v, us, rfl⟩ := List.exists_cons_of_ne_nil hvs
  have hrun := chainFrom_run (P := P) (n := (v :: us).length) (j := 0) (v :: us) hstable List.length_nil rfl
  rw [Nat.zero_add] at hrun
  exact hrun

theorem packCode_run {vs : List (Value γ ι)} (ty : Ty) (hname : Function.Injective name)
    (hstable : ∀ v ∈ vs, Stable sem C.toSymbols args name env v) (hvs : vs ≠ []) :
    (evalValues sem C.toSymbols args env vs = none →
      Raises Machine.withPads P .stuck (execInsts sem C args env (packCode name ty vs))) ∧
    ∀ ws, evalValues sem C.toSymbols args env vs = some ws → ∃ env',
      Silent Machine.withPads P env' (P ++ [(ty, .agg ws)]) (execInsts sem C args env (packCode name ty vs)) ∧
        Off name env env' ∧ env' (name 0) = some (.addr (.pad P.length)) := by
  have hstable' : ∀ v ∈ vs, Stable sem C.toSymbols args (fun i => name (2 + i)) env v :=
    fun v hv env' hoff => hstable v hv env' (Off.of_comp hoff)
  obtain ⟨hnone, hsome⟩ := insertChain_run (P := P) hstable' hvs
  refine ⟨fun h => Raises.append (hnone h), fun ws hws => ?_⟩
  obtain ⟨env₁, hrun, hoff, hval⟩ := hsome ws hws
  have halloc : Silent Machine.withPads P (Function.update env₁ (name 0) (some (.addr (.pad P.length))))
      (P ++ [(ty, .undef)]) (execInst sem C args env₁ ⟨name 0, .alloca ty⟩) := Silent.inst (alloca_silent ty) rfl
  have hchain : evalValue sem C.toSymbols args (Function.update env₁ (name 0) (some (.addr (.pad P.length))))
      (chainValue (fun i => name (2 + i)) vs.length vs.length : Value γ ι) = some (.agg ws) := by
    obtain ⟨v, us, rfl⟩ := List.exists_cons_of_ne_nil hvs
    rw [← hval]
    refine Function.update_of_ne (fun h => ?_) _ _
    have := hname h
    omega
  generalize henv₂ : Function.update env₁ (name 0) (some (.addr (.pad P.length))) = env₂ at *
  have hptr : env₂ (name 0) = some (.addr (.pad P.length)) := by rw [← henv₂, Function.update_self]
  have hstore : Silent Machine.withPads (P ++ [(ty, .undef)]) (Function.update env₂ (name 1) (some .undef))
      (P ++ [(ty, .agg ws)]) (execInst sem C args env₂
        ⟨name 1, .store ty (chainValue (fun i => name (2 + i)) vs.length vs.length) (.inst (name 0))⟩) := by
    have hset : (P ++ [(ty, Val.undef)]).set P.length (ty, .agg ws) = P ++ [(ty, .agg ws)] := by simp
    rw [← hset]
    exact Silent.inst (store_silent hchain hptr (by simp; rfl)) rfl
  refine ⟨_, Silent.append hrun (Silent.cons halloc (Silent.single hstore)), ?_, ?_⟩
  · exact (Off.of_comp hoff).trans (Off.trans (henv₂ ▸ Off.update 0 _) (Off.update 1 _))
  · rw [Function.update_of_ne (fun h => absurd (hname h) (by omega)), hptr]

/-- The fields of an aggregate, one by one. -/
theorem extract_run {x : ι} {ws : List (Val S)} (hname : Function.Injective name) (hx : ∀ i, x ≠ name i)
    (henv : env x = some (.agg ws)) (n : Nat) (hn : n ≤ ws.length) : ∃ env',
      Silent Machine.withPads P env' P (execInsts sem C args env
        ((List.range n).map (fun i => (⟨name i, .extractValue (.inst x) i⟩ : Inst γ ι)))) ∧
      Off name env env' ∧ (∀ i, n ≤ i → env' (name i) = env (name i)) ∧ ∀ i, i < n → env' (name i) = ws[i]? := by
  induction n with
  | zero => exact ⟨env, .pure _, Off.refl, fun _ _ => rfl, fun i hi => absurd hi (Nat.not_lt_zero i)⟩
  | succ n ih =>
      obtain ⟨env₁, hrun, hoff, hrest, hfields⟩ := ih (by omega)
      obtain ⟨w, hw⟩ : ∃ w, ws[n]? = some w := ⟨ws[n], List.getElem?_eq_getElem (by omega)⟩
      have hstep : Silent Machine.withPads P (Function.update env₁ (name n) (some w)) P
          (execInst sem C args env₁ ⟨name n, .extractValue (.inst x) n⟩) :=
        Silent.inst (extractValue_silent ((hoff x hx).trans henv) hw) rfl
      rw [List.range_succ, List.map_append]
      refine ⟨_, Silent.append hrun (Silent.single hstep), hoff.trans (Off.update n _), ?_, ?_⟩
      · intro i hi
        rw [Function.update_of_ne (fun h => absurd (hname h) (by omega)), hrest i (by omega)]
      · intro i hi
        by_cases hin : i = n
        · subst hin
          rw [Function.update_self, hw]
        · rw [Function.update_of_ne (fun h => hin (hname h)), hfields i (by omega)]

end Chain

section Calls

variable {sem : Sem S W} {C : Ctx γ S W} {args : List (Val S)} {env : Env ι S} {c : CallBase γ ι}

theorem callee_direct {g : γ} {h : Interface → List (Val S) → Run S W (Val S)}
    (hc : c.calledOperand = .const (.global g)) (hg : C.direct g = some h) :
    callee sem C args env c = some (h c.interface) := by
  simp only [callee, hc, hg]

theorem callee_indirect {o : Option (Val S)} (ho : evalValue sem C.toSymbols args env c.calledOperand = o)
    (hdirect : ∀ g, c.calledOperand = .const (.global g) → C.direct g = none) :
    callee sem C args env c = o.map (C.indirect c.interface) := by
  subst ho
  unfold callee
  split
  next g hg =>
    rw [hdirect g hg, hg]
    rfl
  next => rfl

variable {ws : List (Val S)} {f : List (Val S) → Run S W (Val S)}

theorem execCall_silent {v : Val S} (hargs : evalValues sem C.toSymbols args env (c.args.map Prod.snd) = some ws)
    (hcallee : callee sem C args env c = some f) (h : Silent Machine.withPads P v P' (f ws)) :
    Silent Machine.withPads P v P' (execOp sem C args env (.call c)) :=
  (need_silent hargs).bind ((need_silent hcallee).bind h)

theorem execCall_sim {x : Run S W α} {Q : α → Val S → Pads S → Prop}
    (hargs : evalValues sem C.toSymbols args env (c.args.map Prod.snd) = some ws)
    (hcallee : callee sem C args env c = some f) (h : Sim Machine.withPads P Q x (f ws)) :
    Sim Machine.withPads P Q x (execOp sem C args env (.call c)) :=
  (need_silent hargs).sim ((need_silent hcallee).sim h)

variable [DecidableEq ι]

/-- A call that the computation `x` is like, as the last instruction of some. -/
theorem Sim.call {x : Run S W α} {Q : α → Val S → Pads S → Prop} {i : ι} {l : List (Inst γ ι)} {env₀ : Env ι S}
    (hl : Silent Machine.withPads P env P' (execInsts sem C args env₀ l))
    (h : Sim Machine.withPads P' Q x (execOp sem C args env (.call c))) :
    Sim Machine.withPads P (fun a env' P'' => ∃ v, Q a v P'' ∧
        env' = if c.functionType.ret = .void then env else Function.update env i (some v)) x
      (execInsts sem C args env₀ (l ++ [⟨i, .call c⟩])) := by
  rw [execInsts_append]
  refine hl.sim ?_
  rw [execInsts_cons]
  refine Sim.silent (h.silent ?_) ?_ (Q := fun a env' P'' => ∃ v, Q a v P'' ∧
    env' = if c.functionType.ret = .void then env else Function.update env i (some v))
  · intro a v P'' hq
    refine ⟨_, P'', .pure _, v, hq, ?_⟩
    simp only [isVoidCall, decide_eq_true_eq]
  · intro a env' P'' hq
    exact ⟨env', P'', .pure env', hq⟩

end Calls

section Single

variable {sem : Sem S W} {C : Ctx γ S W} {args : List (Val S)}

def evalRet (sem : Sem S W) (A : Symbols γ S) (args : List (Val S)) (env : Env ι S) :
    Option (Ty × Value γ ι) → Option (Val S)
  | none => some .undef
  | some (_, v) => evalValue sem A args env v

theorem ret_silent {env : Env ι S} {r : Option (Ty × Value γ ι)} {v : Val S}
    (h : evalRet sem C.toSymbols args env r = some v) :
    Silent Machine.withPads P (.ret v) P (execTerm sem C.toSymbols args env (.ret r : Term γ ι β)) := by
  cases r with
  | none =>
      cases h
      exact .pure _
  | some r => exact (need_silent h).bind (.pure _)

variable [DecidableEq ι] [DecidableEq β]

theorem phis_nil_silent {env : Env ι S} (prev : Option β) :
    Silent Machine.withPads P env P (execPhis sem C.toSymbols args env prev ([] : List (Phi γ ι β))) :=
  Silent.bind (need_silent rfl) (.pure _)

variable {f : Function γ ι β} {b : β} {code : List (Inst γ ι)} {t : ι} {r : Option (Ty × Value γ ι)}

/-- A function that can run does what its blocks do, and its pads go. -/
theorem execFunction_sim {R : α → Val S → Pads S → Prop} {x : Run S W α} {k : Nat}
    (hops : evalConsts sem C.toSymbols (f.operands ++ f.prefixData.toList) ≠ none)
    (hargs : args.length = f.type.params.length) (hentry : f.blocks.head?.map Prod.fst = some b)
    (h : Sim Machine.withPads P (fun a v P' => R a v (P'.take P.length)) x
      (execBlocks sem C args f k none b (fun _ => none))) :
    Sim Machine.withPads P R x (execFunction sem C args f k) := by
  obtain ⟨vs, hvs⟩ := Option.ne_none_iff_exists'.mp hops
  have hrequire : Silent Machine.withPads P () P
      (require (decide (args.length = f.type.params.length)) : Run S W Unit) := by
    rw [decide_eq_true hargs]
    exact .pure _
  refine (need_silent hvs).sim (hrequire.sim (getPads_silent.sim ((need_silent hentry).sim (h.silent ?_))))
  intro a v P' hr
  exact ⟨v, P'.take P.length, getPads_silent.bind (setPads_silent.bind (.pure v)), hr⟩

/-- A function with a single block does what the code of its block does. -/
theorem single_sim {Q : α → Env ι S → Pads S → Prop} {R : α → Val S → Pads S → Prop} {x : Run S W α} (k : Nat)
    (hblocks : f.blocks = [(b, ⟨[], code, t, .ret r⟩)])
    (hops : evalConsts sem C.toSymbols (f.operands ++ f.prefixData.toList) ≠ none)
    (hargs : args.length = f.type.params.length)
    (h : Sim Machine.withPads P Q x (execInsts sem C args (fun _ => none) code))
    (hret : ∀ a env P', Q a env P' → ∃ v, evalRet sem C.toSymbols args env r = some v ∧ R a v (P'.take P.length)) :
    Sim Machine.withPads P R x (execFunction sem C args f (k + 1)) := by
  have hentry : f.blocks.head?.map Prod.fst = some b := by rw [hblocks]; rfl
  have hblock : f.block? b = some ⟨[], code, t, .ret r⟩ := by
    rw [Function.block?, hblocks, List.lookup_cons, beq_self_eq_true]
  refine execFunction_sim hops hargs hentry ((need_silent hblock).sim ?_)
  refine Sim.silent (Q := fun a p P' => ∃ env v, p = (env, .ret v) ∧ R a v (P'.take P.length)) ?_ ?_
  · refine (phis_nil_silent none).sim (h.silent ?_)
    intro a env P' hq
    obtain ⟨v, hv, hr⟩ := hret a env P' hq
    exact ⟨(env, .ret v), P', (ret_silent hv).bind (.pure _), env, v, rfl, hr⟩
  · rintro a _ P' ⟨env, v, rfl, hr⟩
    exact ⟨v, P', .pure v, hr⟩

end Single

end Comulator.ExecRules
