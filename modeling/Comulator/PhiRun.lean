import Comulator.InstRun

namespace Comulator.PhiRun

open Fallible Types Ir TypeHash Symtbl HostIr TakeOut Exec Simulation ExecRules Compose CallbackRun OperandRun InstRun

variable {Sc W : Type} {E : Setting Sc W} {O : Offloaded} {fuel : Nat} {oc call : Caller Sc W}
variable {fcp : Nat → Interface → List (Val Sc) → Run Sc W (Val Sc)} {I : Input} {X : Copy} {f : GFunction}
variable {P : Pads Sc} {gargs args : List (Val Sc)} {e : Env Nat Sc} {env env' : Env HostId Sc}

section Phis

def Early (n : Nat) (x : HostId) : Prop := x.owner = none ∨ x.owner = some n ∧ 0 < x.index

theorem doConst_early {S : Site} {k : Nat} {c : Const Nat} {code : List HInst} {ov : Option HValue}
    (hk : 0 < k) (hloaded : Loaded S.refs env) (h : doConst S k c = .ok (code, ov)) :
    ∀ x, ov.getD (.const (cloneConst S.self c)) = .inst x → Early S.owner x := by
  intro x hx
  cases doConst_cases h with
  | loaded href =>
      cases hx
      exact .inl (hloaded _ _ href).1
  | inserted hops =>
      obtain ⟨v, us, rfl⟩ := List.exists_cons_of_ne_nil (doConsts_new hops)
      cases hx
      exact .inr ⟨rfl, Nat.add_pos_left (Nat.add_pos_left hk _) _⟩
  | expanded =>
      cases hx
      exact .inr ⟨rfl, Nat.add_pos_left hk _⟩
  | dropped | named | wrapper | aggregate | expr | int | nullPtr | undef | poison | data => cases hx

variable (E X gargs args) in
def PhiOperand (n : Nat) (env : Env HostId Sc) (v : GValue) (v' : HValue) : Prop :=
  (∃ c, v = .const c ∧ (∀ x, v' = .inst x → Early n x) ∧
    evalValue E.sem hostSymbols args env v' = evalConst E.sem guestSymbols c) ∨
  ∀ e env, Matches E X gargs args e env →
    evalValue E.sem hostSymbols args env v' = evalValue E.sem guestSymbols gargs e v

theorem PhiOperand.eval {n : Nat} {v : GValue} {v' : HValue} (h : PhiOperand E X gargs args n env v v')
    (hm : Matches E X gargs args e env) :
    evalValue E.sem hostSymbols args env v' = evalValue E.sem guestSymbols gargs e v := by
  rcases h with ⟨c, rfl, _, heval⟩ | hall
  · exact heval
  · exact hall e env hm

theorem PhiOperand.keep {n : Nat} {v : GValue} {v' : HValue} (h : PhiOperand E X gargs args n env v v')
    (hkeep : ∀ x, Early n x → env' x = env x) : PhiOperand E X gargs args n env' v v' := by
  rcases h with ⟨c, rfl, hearly, heval⟩ | hall
  · refine .inl ⟨c, rfl, hearly, ?_⟩
    rw [← heval]
    cases v' with
    | inst x => exact hkeep x (hearly x rfl)
    | metadata md => cases md <;> rfl
    | const | arg | inlineAsm => rfl
  · exact .inr hall

theorem doOperand_phi {n k : Nat} {v : GValue} {code : List HInst} {v' : HValue} (hk : 0 < k)
    (hm : Matches E X gargs args e env) (hseen : Seen (site I X n false) gargs.length v)
    (h : doOperand (site I X n false) X.args k v = .ok (code, v'))
    (heval : evalValue E.sem hostSymbols args env' v' = evalValue E.sem guestSymbols gargs e v) :
    PhiOperand E X gargs args n env' v v' := by
  cases v with
  | const c =>
      obtain ⟨⟨code₁, ov⟩, hc, h⟩ := bind_eq_ok.mp h
      cases h
      exact .inl ⟨c, rfl, doConst_early hk hm.refs hc, heval⟩
  | arg i =>
      cases h
      exact .inr (fun e env hm => (hm.args i hseen).2)
  | inst x =>
      cases h
      exact .inr (fun e env hm => hm.body x)
  | metadata md =>
      obtain ⟨⟨code₁, md₁⟩, hmd, h⟩ := bind_eq_ok.mp h
      cases h
      refine .inr (fun e₁ env₁ _ => ?_)
      cases md with
      | value v =>
          obtain ⟨_, _, hmd⟩ := bind_eq_ok.mp hmd
          cases hmd
          rfl
      | argList vs =>
          obtain ⟨_, _, hmd⟩ := bind_eq_ok.mp hmd
          cases hmd
          rfl
      | node m =>
          cases hmd
          rfl
  | inlineAsm m =>
      cases h
      exact .inr (fun _ _ _ => rfl)

theorem doOperands_phi {n k : Nat} {vs : List GValue} {code : List HInst} {vs' : List HValue} (hk : 0 < k)
    (hm : Matches E X gargs args e env) (hseen : ∀ v ∈ vs, Seen (site I X n false) gargs.length v)
    (h : doOperands (site I X n false) X.args k vs = .ok (code, vs'))
    (heval : List.Forall₂ (fun v v' => evalValue E.sem hostSymbols args env' v' =
      evalValue E.sem guestSymbols gargs e v) vs vs') :
    List.Forall₂ (PhiOperand E X gargs args n env') vs vs' := by
  induction vs generalizing k code vs' with
  | nil =>
      cases h
      exact .nil
  | cons v vs ih =>
      obtain ⟨⟨code₁, v₁⟩, hv, h⟩ := bind_eq_ok.mp h
      obtain ⟨⟨code₂, vs₂⟩, hvs, h⟩ := bind_eq_ok.mp h
      cases h
      cases heval with
      | cons hv₁ hvs₁ =>
          exact .cons (doOperand_phi hk hm (hseen v List.mem_cons_self) hv hv₁)
            (ih (Nat.add_pos_left hk _) (fun u hu => hseen u (List.mem_cons_of_mem _ hu)) hvs hvs₁)

variable (E I X gargs args) in
def PhiReady (env : Env HostId Sc) (p : Phi Nat Nat Nat) : Prop :=
  ∀ r, doPhi I X p = .ok r → ∃ vs, r.2 = ⟨bodyId p.id, p.ty, vs.zip (p.incoming.map (fun q => .body q.2))⟩ ∧
    List.Forall₂ (PhiOperand E X gargs args p.id env) (p.incoming.map Prod.fst) vs

theorem PhiReady.keep {p : Phi Nat Nat Nat} (h : PhiReady E I X gargs args env p)
    (hkeep : ∀ x, Early p.id x → env' x = env x) : PhiReady E I X gargs args env' p := by
  intro r hr
  obtain ⟨vs, hphi, hvs⟩ := h r hr
  exact ⟨vs, hphi, hvs.imp (fun _ _ hv => hv.keep hkeep)⟩

variable (O fuel call fcp P) in
/-- The code of phis in the entry block. -/
theorem doPhis_run {ps : List (Phi Nat Nat Nat)} {rs : List (List HInst × HPhi)}
    (hm : Matches E X gargs args e env) (hnodup : (ps.map Phi.id).Nodup)
    (hseen : ∀ p ∈ ps, ∀ v ∈ p.incoming.map Prod.fst, Seen (site I X p.id false) gargs.length v)
    (h : List.Forall₂ (fun p r => doPhi I X p = .ok r) ps rs) :
    ∃ env', Silent Machine.withPads P env' P
        (execInsts E.sem (hostCtx E O fuel call fcp) args env (rs.flatMap Prod.fst)) ∧
      Matches E X gargs args e env' ∧ (∀ x, (∀ p ∈ ps, x.owner ≠ some p.id) → env' x = env x) ∧
      ∀ p ∈ ps, PhiReady E I X gargs args env' p := by
  induction h generalizing env with
  | nil => exact ⟨env, .pure _, hm, fun _ _ => rfl, by simp⟩
  | @cons p r ps rs hp hps ih =>
      rw [List.map_cons, List.nodup_cons] at hnodup
      have hp₀ := hp
      obtain ⟨⟨code, vs⟩, hvs, hp⟩ := bind_eq_ok.mp hp
      cases hp
      have hseen₁ := hseen p List.mem_cons_self
      obtain ⟨env₁, hcode, _, heval⟩ := doOperands_run O fuel call fcp P hm Nat.one_pos rfl hseen₁ hvs
      have hm₁ := hm.off Nat.one_pos hcode.off
      obtain ⟨env₂, hrun, hm₂, hframe, hready⟩ := ih hm₁ hnodup.2 (fun q hq => hseen q (List.mem_cons_of_mem _ hq))
      have hne : ∀ q ∈ ps, q.id ≠ p.id := fun q hq heq => hnodup.1 (heq ▸ List.mem_map_of_mem hq)
      refine ⟨env₂, Silent.append hcode.run hrun, hm₂, ?_, ?_⟩
      · intro x hx
        rw [hframe x (fun q hq => hx q (List.mem_cons_of_mem _ hq))]
        exact Frame.of_off hcode.off x (hx p List.mem_cons_self)
      · intro q hq
        rcases List.mem_cons.mp hq with rfl | hq
        · have hready₁ : PhiReady E I X gargs args env₁ q := by
            intro r hr
            cases hp₀.symm.trans hr
            exact ⟨vs, rfl, doOperands_phi Nat.one_pos hm hseen₁ hvs heval⟩
          refine hready₁.keep (fun x hx => hframe x (fun q' hq' howner => ?_))
          rcases hx with hx | ⟨hx, _⟩
          · rw [hx] at howner
            cases howner
          · rw [hx] at howner
            exact hne q' hq' (Option.some.inj howner).symm
        · exact hready q hq

end Phis

section Runs

variable (E I X gargs args) in
structure Ready (ps : List (Phi Nat Nat Nat)) (e : Env Nat Sc) (env : Env HostId Sc) : Prop where
  envs : Matches E X gargs args e env
  phis : ∀ p ∈ ps, PhiReady E I X gargs args env p

variable {ps : List (Phi Nat Nat Nat)}

theorem Ready.frame {n : Nat} {e' : Env Nat Sc} (h : Ready E I X gargs args ps e env)
    (hm : Matches E X gargs args e' env') (hframe : Frame n env env') (hn : ∀ p ∈ ps, n ≠ p.id) :
    Ready E I X gargs args ps e' env' := by
  refine ⟨hm, fun p hp => (h.phis p hp).keep (fun x hx => hframe x (fun howner => ?_))⟩
  rcases hx with hx | ⟨hx, _⟩
  · rw [hx] at howner
    cases howner
  · rw [hx] at howner
    exact hn p hp (Option.some.inj howner).symm

theorem find?_copied {vs : List HValue} {incoming : List (GValue × Nat)} (prev : Option Nat)
    (h : List.Forall₂ (fun v v' => evalValue E.sem hostSymbols args env v' = evalValue E.sem guestSymbols gargs e v)
      (incoming.map Prod.fst) vs) :
    ((vs.zip (incoming.map (fun q => HostBlock.body q.2))).find? (fun q => prev.map HostBlock.body = some q.2)).bind
        (fun q => evalValue E.sem hostSymbols args env q.1) =
      (incoming.find? (fun q => prev = some q.2)).bind (fun q => evalValue E.sem guestSymbols gargs e q.1) := by
  induction incoming generalizing vs with
  | nil =>
      cases h
      rfl
  | cons q incoming ih =>
      cases h with
      | @cons _ v' _ vs hv hvs =>
          rw [List.map_cons, List.zip_cons_cons, List.find?_cons, List.find?_cons]
          by_cases hq : prev = some q.2
          · subst hq
            simpa using hv
          · have hq' : prev.map HostBlock.body ≠ some (.body q.2) := by
              cases prev with
              | none => simp
              | some b => simpa using hq
            simp only [hq, hq', decide_false]
            exact ih hvs

theorem phis_copied {l : List (Phi Nat Nat Nat)} {rs : List (List HInst × HPhi)} (prev : Option Nat)
    (hready : Ready E I X gargs args ps e env) (hl : ∀ p ∈ l, p ∈ ps)
    (h : List.Forall₂ (fun p r => doPhi I X p = .ok r) l rs) :
    (rs.map Prod.snd).mapM (phiValue E.sem hostSymbols args env (prev.map HostBlock.body)) =
        l.mapM (phiValue E.sem guestSymbols gargs e prev) ∧
      rs.map (fun r => r.2.id) = (l.map Phi.id).map bodyId := by
  induction h with
  | nil => exact ⟨rfl, rfl⟩
  | @cons p r l rs hp _ ih =>
      obtain ⟨hvals, hids⟩ := ih (fun q hq => hl q (List.mem_cons_of_mem _ hq))
      obtain ⟨vs, hr, hvs⟩ := hready.phis p (hl p List.mem_cons_self) r hp
      have hval : phiValue E.sem hostSymbols args env (prev.map HostBlock.body) r.2 =
          phiValue E.sem guestSymbols gargs e prev p := by
        rw [hr]
        exact find?_copied prev (hvs.imp (fun _ _ hv => hv.eval hready.envs))
      refine ⟨?_, ?_⟩
      · rw [List.map_cons, List.mapM_cons, List.mapM_cons, hval, hvals]
      · rw [List.map_cons, List.map_cons, List.map_cons, hids, hr]

theorem Matches.assignAll {l : List (Nat × Val Sc)} (h : Matches E X gargs args e env) :
    Matches E X gargs args (Exec.assignAll e l) (Exec.assignAll env (l.map (fun q => (bodyId q.1, q.2)))) := by
  induction l generalizing e env with
  | nil => exact h
  | cons q l ih => exact ih (Matches.update h q.2)

theorem assignAll_early {l : List (Nat × Val Sc)} {n : Nat} {x : HostId} (hx : Early n x) :
    Exec.assignAll env (l.map (fun q => (bodyId q.1, q.2))) x = env x := by
  induction l generalizing env with
  | nil => rfl
  | cons q l ih =>
      refine ih.trans (Function.update_of_ne ?_ _ _)
      rintro rfl
      rcases hx with hx | ⟨_, hx⟩
      · cases hx
      · cases hx

theorem execPhis_sim {l : List (Phi Nat Nat Nat)} {rs : List (List HInst × HPhi)} {prev : Option Nat}
    {prev' : Option HostBlock} (hprev : l ≠ [] → prev' = prev.map HostBlock.body)
    (hready : Ready E I X gargs args ps e env) (hl : ∀ p ∈ l, p ∈ ps)
    (h : List.Forall₂ (fun p r => doPhi I X p = .ok r) l rs) :
    Sim Machine.withPads P (fun e' env' P' => Ready E I X gargs args ps e' env' ∧ P' = P)
      (execPhis E.sem guestSymbols gargs e prev l : Run Sc W (Env Nat Sc))
      (execPhis E.sem hostSymbols args env prev' (rs.map Prod.snd)) := by
  cases h with
  | nil => exact .pure ⟨hready, rfl⟩
  | @cons p r l rs hp hps =>
      rw [hprev (by simp)]
      obtain ⟨hvals, hids⟩ := phis_copied prev hready hl (.cons hp hps)
      unfold execPhis
      rw [hvals]
      refine Same.sim_bind (need_sim _) (fun vs => .pure ⟨?_, rfl⟩)
      have hnames : (((r :: rs).map Prod.snd).map Phi.id).zip vs =
          (((p :: l).map Phi.id).zip vs).map (fun q => (bodyId q.1, q.2)) := by
        rw [List.map_map]
        refine (congrArg (List.zip · vs) hids).trans ?_
        rw [List.zip_map_left]
        rfl
      rw [hnames]
      exact ⟨Matches.assignAll hready.envs, fun q hq => (hready.phis q hq).keep (fun x hx => assignAll_early hx)⟩

end Runs

end Comulator.PhiRun
