import Comulator.BodyRun

namespace Comulator.CallerRun

open Types Ir Exec Simulation ExecRules Compose BodyRun

variable {Sc W : Type} {E : Setting Sc W} {m : Module} {oc call : Caller Sc W} {P : Pads Sc}
variable {args : List (Val Sc)} {e : Env Nat Sc} {g : Nat} {f : GFunction}

section Guest

theorem setWorld_sim (w : W) : Sim Machine.withPads P (Same P) (setWorld w : Run Sc W Unit) (setWorld w) :=
  fun _ => ⟨(), P, rfl, rfl, rfl⟩

theorem getWorld_sim : Sim Machine.withPads P (Same P) (getWorld : Run Sc W W) getWorld :=
  fun s => ⟨s.world, P, rfl, rfl, rfl⟩

theorem record_sim (v : Val Sc) (vs : List (Val Sc)) :
    Sim Machine.withPads P (Same P) (record E v vs) (record E v vs) := by
  intro s
  refine ⟨(), P, ?_, rfl, rfl⟩
  rw [record_apply]
  cases E.recorded v <;> rfl

/-- A guest function goes on in the same way as long as its calls do the same. -/
theorem perform_sim (h : ∀ P s v vs, Sim Machine.withPads P (Same P) (oc s v vs) (call s v vs)) (b : Behaviour Sc W) :
    Sim Machine.withPads P (Same P) (perform oc b) (perform call b) := by
  induction b with
  | ret v w => exact Same.sim_bind (setWorld_sim w) (fun _ => .pure ⟨rfl, rfl⟩)
  | stop w => exact Same.sim_bind (setWorld_sim w) (fun _ => .throw _ (.throw _))
  | call s v vs w resume ih =>
      refine Same.sim_bind (setWorld_sim w) (fun _ => Same.sim_bind (h P s v vs) (fun r => ?_))
      exact Same.sim_bind getWorld_sim (fun w => ih r w)

end Guest

section Code

variable (h : ∀ P s v vs, Sim Machine.withPads P (Same P) (oc s v vs) (call s v vs))

include h

/-- A call in guest code, under callers that do the same. -/
theorem execCall_same (c : GCall) :
    Sim Machine.withPads P (Same P) (execCall E.sem (originalCtx E m oc) args e c)
      (execCall E.sem (originalCtx E m call) args e c) := by
  refine Same.sim_bind (need_sim _) (fun vs => ?_)
  have hindirect : ∀ o : Option (Val Sc),
      Sim Machine.withPads P (Same P) (need (o.map (oc c.interface)) >>= fun f => f vs)
        (need (o.map (call c.interface)) >>= fun f => f vs) := by
    intro o
    cases o with
    | none => exact .throw _ (.throw _)
    | some v => exact h P c.interface v vs
  unfold callee
  split
  next k hk =>
    have hdirect : ∀ caller, (originalCtx E m caller).direct k =
        ((m.function? k).bind Function.intrinsicId).map (runIntrinsic E) := fun _ => rfl
    rw [hdirect, hdirect]
    cases (m.function? k).bind Function.intrinsicId with
    | some id => exact onWorld_sim _
    | none => exact hindirect _
  next => exact hindirect _

theorem execOp_same {op : InstOp Nat Nat} (hop : Module.isProgramOp op = true) :
    Sim Machine.withPads P (Same P) (execOp E.sem (originalCtx E m oc) args e op)
      (execOp E.sem (originalCtx E m call) args e op) := by
  cases op with
  | call c => exact execCall_same h c
  | op opcode ty is ops => exact Same.sim_bind (need_sim _) (fun vs => onWorld_sim _)
  | landingPad | catchPad | cleanupPad => exact .throw _ (.throw _)
  | _ => cases hop

theorem execInsts_same {l : List GInst} (hl : ∀ i ∈ l, Module.isProgramOp i.op = true) :
    Sim Machine.withPads P (Same P) (execInsts E.sem (originalCtx E m oc) args e l)
      (execInsts E.sem (originalCtx E m call) args e l) := by
  induction l generalizing e with
  | nil => exact .pure ⟨rfl, rfl⟩
  | cons i l ih =>
      rw [execInsts_cons, execInsts_cons]
      refine Same.sim_bind ?_ (fun e' => ih (fun j hj => hl j (List.mem_cons_of_mem _ hj)))
      exact Same.sim_bind (execOp_same h (hl i List.mem_cons_self)) (fun v => .pure ⟨rfl, rfl⟩)

omit h in
theorem execTerm_same (t : Term Nat Nat Nat) :
    Sim Machine.withPads P (Same P) (execTerm E.sem guestSymbols args e t : Run Sc W (Next Nat Sc))
      (execTerm E.sem guestSymbols args e t) := by
  cases t with
  | ret r =>
      cases r with
      | none => exact .pure ⟨rfl, rfl⟩
      | some r => exact Same.sim_bind (need_sim _) (fun v => .pure ⟨rfl, rfl⟩)
  | br d => exact .pure ⟨rfl, rfl⟩
  | condBr v a b =>
      exact Same.sim_bind (need_sim _) (fun v => Same.sim_bind (need_sim _) (fun t => .pure ⟨rfl, rfl⟩))
  | switch v d cases => exact Same.sim_bind (need_sim _) (fun v => .pure ⟨rfl, rfl⟩)
  | _ => exact .throw _ (.throw _)

theorem execBlock_same {b : GBlock} (hb : ∀ i ∈ b.insts, Module.isProgramOp i.op = true) (prev : Option Nat) :
    Sim Machine.withPads P (Same P) (execBlock E.sem (originalCtx E m oc) args e prev b)
      (execBlock E.sem (originalCtx E m call) args e prev b) := by
  refine Same.sim_bind (Same.sim_bind (need_sim _) (fun vs => .pure ⟨rfl, rfl⟩)) (fun e₁ => ?_)
  refine Same.sim_bind (execInsts_same h hb) (fun e₂ => ?_)
  exact Same.sim_bind (execTerm_same b.term) (fun next => .pure ⟨rfl, rfl⟩)

theorem execBlocks_same (hfun : m.function? g = some f) (k : Nat) (prev : Option Nat) (b : Nat) :
    Sim Machine.withPads P (Same P) (execBlocks E.sem (originalCtx E m oc) args f k prev b e)
      (execBlocks E.sem (originalCtx E m call) args f k prev b e) := by
  induction k generalizing prev b e with
  | zero => exact .throw _ (.throw _)
  | succ k ih =>
      cases hblk : f.block? b with
      | none =>
          simp only [execBlocks, hblk]
          exact .throw _ (.throw _)
      | some blk =>
          have hmem : (b, blk) ∈ f.blocks := OrderedMap.mem_of_lookup hblk
          simp only [execBlocks, hblk]
          refine (need_silent rfl).sim (need_left (fun hnone => by cases hnone) (fun blk' hblk' => ?_))
          cases hblk'
          refine Same.sim_bind (execBlock_same h (Module.verify_block hfun hmem).1 prev) (fun r => ?_)
          cases r.2 with
          | ret v => exact .pure ⟨rfl, rfl⟩
          | goto d => exact ih (some b) d

/-- A guest function does the same under callers that do. -/
theorem callFunction_same (hfun : m.function? g = some f) (k : Nat) (s : Interface) :
    Sim Machine.withPads P (Same P) (callFunction E (originalCtx E m oc) f k s args)
      (callFunction E (originalCtx E m call) f k s args) := by
  refine Same.sim_bind (require_sim _) (fun _ => Same.sim_bind (need_sim _) (fun _ => ?_))
  refine Same.sim_bind (require_sim _) (fun _ => getPads_left (fun pads => getPads_silent.sim ?_))
  refine Same.sim_bind (need_sim _) (fun b => Same.sim_bind (execBlocks_same h hfun k none b) (fun v => ?_))
  refine getPads_left (fun pads' => getPads_silent.sim ?_)
  rw [List.take_length]
  exact fun _ => ⟨v, P, rfl, rfl, rfl⟩

end Code

section Void

variable {C : Ctx Nat Sc W}

/-- A function without a result returns none. -/
theorem execBlocks_void (hfun : m.function? g = some f) (hvoid : f.type.ret = .void) {k : Nat} {prev : Option Nat}
    {b : Nat} {s s' : Machine Sc W} {v : Val Sc} (h : execBlocks E.sem C args f k prev b e s = .ok v s') : v = .undef := by
  induction k generalizing prev b e s with
  | zero => cases h
  | succ k ih =>
      obtain ⟨blk, s₁, hblk, h⟩ := bind_eq_ok h
      obtain ⟨⟨e', next⟩, s₂, hblock, h⟩ := bind_eq_ok h
      cases next with
      | goto d => exact ih h
      | ret w =>
          cases h
          obtain ⟨e₁, _, _, hblock⟩ := bind_eq_ok hblock
          obtain ⟨e₂, _, _, hblock⟩ := bind_eq_ok hblock
          obtain ⟨next, _, hterm, hblock⟩ := bind_eq_ok hblock
          cases hblock
          have hmem : (b, blk) ∈ f.blocks := by
            refine OrderedMap.mem_of_lookup ?_
            change (need (f.block? b) : Run Sc W GBlock) s = _ at hblk
            cases hb : f.block? b with
            | none =>
                rw [hb] at hblk
                cases hblk
            | some blk' =>
                rw [hb] at hblk
                cases hblk
                exact hb
          have hret := (Module.verify_block hfun hmem).2
          rw [hvoid] at hret
          cases ht : blk.term with
          | ret r =>
              rw [ht] at hterm hret
              cases r with
              | none =>
                  cases hterm
                  rfl
              | some r => simp [Module.verifyRet] at hret
          | br d =>
              rw [ht] at hterm
              cases hterm
          | condBr c a d =>
              rw [ht] at hterm
              obtain ⟨_, _, _, hterm⟩ := bind_eq_ok hterm
              obtain ⟨_, _, _, hterm⟩ := bind_eq_ok hterm
              cases hterm
          | switch c d cases =>
              rw [ht] at hterm
              obtain ⟨_, _, _, hterm⟩ := bind_eq_ok hterm
              cases hterm
          | _ =>
              rw [ht] at hterm
              cases hterm

theorem execFunction_void (hfun : m.function? g = some f) (hvoid : f.type.ret = .void) {k : Nat}
    {s s' : Machine Sc W} {v : Val Sc} (h : execFunction E.sem C args f k s = .ok v s') : v = .undef := by
  obtain ⟨_, _, _, h⟩ := bind_eq_ok h
  obtain ⟨_, _, _, h⟩ := bind_eq_ok h
  obtain ⟨_, _, _, h⟩ := bind_eq_ok h
  obtain ⟨_, _, _, h⟩ := bind_eq_ok h
  obtain ⟨w, _, hw, h⟩ := bind_eq_ok h
  obtain ⟨_, _, _, h⟩ := bind_eq_ok h
  obtain ⟨_, _, _, h⟩ := bind_eq_ok h
  cases h
  exact execBlocks_void hfun hvoid hw

end Void

end Comulator.CallerRun
