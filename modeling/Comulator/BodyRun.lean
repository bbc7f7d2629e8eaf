import Comulator.CallCopy
import Comulator.PhiRun

namespace Comulator.BodyRun

open Fallible Types Ir TypeHash Symtbl HostIr TakeOut Exec Simulation ExecRules Compose CallbackRun OperandRun InstRun
  PhiRun

variable {Sc W : Type} {E : Setting Sc W} {O : Offloaded} {fuel : Nat} {oc call : Caller Sc W}
variable {fcp : Nat → Interface → List (Val Sc) → Run Sc W (Val Sc)} {I : Input} {X : Copy} {f : GFunction}
variable {P : Pads Sc} {gargs args : List (Val Sc)} {e : Env Nat Sc} {env env' : Env HostId Sc}
variable {ps : List (Phi Nat Nat Nat)}

section Blocks

theorem doInstruction_code {i : GInst} {r : Piece} (hcm : I.config.useFCPcm = false)
    (h : doInstruction I X i = .ok r) : ∃ l, r = .code l := by
  cases CallCopy.doInstruction_made h with
  | split _ _ _ _ hsplit _ =>
      rw [hcm] at hsplit
      cases hsplit
  | op | direct | callback => exact ⟨_, rfl⟩

theorem insts_sim {l : List GInst} {ls : List (List HInst)}
    (hwhite : ∀ i ∈ l, ∀ c g, i.op = .call c → I.route c ≠ .white g) (hf : Follows oc call fcp I)
    (hready : Ready E I X gargs args ps e env)
    (hseen : ∀ i ∈ l, InstSeen O I X gargs.length i) (hne : ∀ i ∈ l, ∀ p ∈ ps, i.id ≠ p.id)
    (h : List.Forall₂ (fun i c => doInstruction I X i = .ok (.code c)) l ls) :
    Sim Machine.withPads P (fun e' env' P' => Ready E I X gargs args ps e' env' ∧ P' = P)
      (execInsts E.sem (originalCtx E I.module oc) gargs e l)
      (execInsts E.sem (hostCtx E O fuel call fcp) args env ls.flatten) := by
  induction h generalizing e env with
  | nil => exact .pure ⟨hready, rfl⟩
  | @cons i c l ls hi _ ih =>
      rw [execInsts_cons, List.flatten_cons, execInsts_append]
      refine (doInstruction_sim (hwhite i List.mem_cons_self) hf hready.envs (hseen i List.mem_cons_self) hi).bind ?_
      rintro e' env' _ ⟨hm, hframe, rfl⟩
      exact ih (fun j hj => hwhite j (List.mem_cons_of_mem _ hj)) (hready.frame hm hframe (hne i List.mem_cons_self))
        (fun j hj => hseen j (List.mem_cons_of_mem _ hj)) (fun j hj => hne j (List.mem_cons_of_mem _ hj))

variable {retPad : Val Sc}

def Returned (I : Input) (t : FunctionType) (P : Pads Sc) (retPad v v' : Val Sc) (P' : Pads Sc) : Prop :=
  if I.config.useFCP then Same P v v' P' else Stored P retPad t v P'

variable (I args) in
def RetReady (t : FunctionType) (P : Pads Sc) (retPad : Val Sc) : Prop :=
  I.config.useFCP = false → t.ret ≠ .void →
    args[0]? = some retPad ∧ ∃ i old, retPad = .addr (.pad i) ∧ P[i]? = some (t.ret, old)

def NextCopied (I : Input) (t : FunctionType) (P : Pads Sc) (retPad : Val Sc) :
    Next Nat Sc → Next HostBlock Sc → Pads Sc → Prop
  | .ret v, .ret v', P' => Returned I t P retPad v v' P'
  | .goto d, .goto d', P' => d' = .body d ∧ P' = P
  | _, _, _ => False

theorem entryLabel_body (hcm : I.config.useFCPcm = false) (b : Nat) : entryLabel I f b = .body b := by
  unfold entryLabel
  split
  next => rfl
  next blk _ =>
    split
    next i hi =>
      have hfound := List.find?_some hi
      simp only [hcm] at hfound
      split at hfound <;> simp at hfound
    next => rfl

theorem find?_cases {dests : List (Nat × Nat)} {v : Val Sc} (d : Nat) :
    (((dests.map (fun p => (p.1, HostBlock.body p.2))).find? (fun p => E.sem.isCase v p.1)).map Prod.snd).getD (.body d) =
      .body (((dests.find? (fun p => E.sem.isCase v p.1)).map Prod.snd).getD d) := by
  induction dests with
  | nil => rfl
  | cons p dests ih =>
      rw [List.map_cons, List.find?_cons, List.find?_cons]
      cases hp : E.sem.isCase v p.1 with
      | true => rfl
      | false => exact ih

theorem returned_void {v : Val Sc} (hvoid : f.type.ret = .void) : Returned I f.type P retPad v v P := by
  unfold Returned
  split
  next => exact ⟨rfl, rfl⟩
  next => exact ⟨fun _ => rfl, fun hne => absurd hvoid hne⟩

def TermSim (E : Setting Sc W) (I : Input) (X : Copy) (gargs args : List (Val Sc)) (ps : List (Phi Nat Nat Nat))
    (t : FunctionType) (P : Pads Sc) (retPad : Val Sc) (e : Env Nat Sc) (x : Run Sc W (Next Nat Sc))
    (y : Run Sc W (Env HostId Sc × Next HostBlock Sc)) : Prop :=
  Sim Machine.withPads P (fun next r P' => NextCopied I t P retPad next r.2 P' ∧ Ready E I X gargs args ps e r.1) x y

theorem branch_sim {t : Term Nat Nat Nat} {t' : HTerm} (hready : Ready E I X gargs args ps e env)
    (h : Sim Machine.withPads P (NextCopied I f.type P retPad) (execTerm E.sem guestSymbols gargs e t : Run Sc W _)
      (execTerm E.sem hostSymbols args env t')) :
    TermSim E I X gargs args ps f.type P retPad e (execTerm E.sem guestSymbols gargs e t)
      (execTerm E.sem hostSymbols args env t' >>= fun next => pure (env, next)) :=
  h.silent (fun _ b P' hnext => ⟨(env, b), P', .pure _, hnext, hready⟩)

theorem ret_sim {v : GValue} {v' : HValue} {ty : Ty} (hfcp : I.config.useFCP = true)
    (hval : evalValue E.sem hostSymbols args env v' = evalValue E.sem guestSymbols gargs e v) :
    Sim Machine.withPads P (NextCopied I f.type P retPad)
      (execTerm E.sem guestSymbols gargs e (.ret (some (ty, v))) : Run Sc W (Next Nat Sc))
      (execTerm E.sem hostSymbols args env (.ret (some (ty, v')))) := by
  simp only [execTerm, hval]
  refine Same.sim_bind (need_sim _) (fun w => .pure ?_)
  change Returned I f.type P retPad w w P
  rw [Returned, if_pos hfcp]
  exact ⟨rfl, rfl⟩

theorem condBr_sim {v : GValue} {v' : HValue} (a b : Nat)
    (hval : evalValue E.sem hostSymbols args env v' = evalValue E.sem guestSymbols gargs e v) :
    Sim Machine.withPads P (NextCopied I f.type P retPad)
      (execTerm E.sem guestSymbols gargs e (.condBr v a b) : Run Sc W (Next Nat Sc))
      (execTerm E.sem hostSymbols args env (.condBr v' (.body a) (.body b))) := by
  simp only [execTerm, hval]
  refine Same.sim_bind (need_sim _) (fun w => Same.sim_bind (need_sim _) (fun t => .pure ⟨?_, rfl⟩))
  cases t <;> rfl

theorem switch_sim {v : GValue} {v' : HValue} (d : Nat) (dests : List (Nat × Nat))
    (hval : evalValue E.sem hostSymbols args env v' = evalValue E.sem guestSymbols gargs e v) :
    Sim Machine.withPads P (NextCopied I f.type P retPad)
      (execTerm E.sem guestSymbols gargs e (.switch v d dests) : Run Sc W (Next Nat Sc))
      (execTerm E.sem hostSymbols args env (.switch v' (.body d) (dests.map (fun p => (p.1, .body p.2))))) := by
  simp only [execTerm, hval]
  exact Same.sim_bind (need_sim _) (fun w => .pure ⟨find?_cases d, rfl⟩)

/-- The value of a return is stored through `retPad`. -/
theorem retStore_sim {v : GValue} {v' : HValue} {n k : Nat} (hfcp : I.config.useFCP = false)
    (hne : f.type.ret ≠ .void) (hready : Ready E I X gargs args ps e env) (hn : ∀ p ∈ ps, n ≠ p.id) (hk : 0 < k)
    (hval : evalValue E.sem hostSymbols args env v' = evalValue E.sem guestSymbols gargs e v)
    (hpad : RetReady I args f.type P retPad) :
    TermSim E I X gargs args ps f.type P retPad e (execTerm E.sem guestSymbols gargs e (.ret (some (f.type.ret, v))))
      (execInsts E.sem (hostCtx E O fuel call fcp) args env [⟨⟨some n, k⟩, .store f.type.ret v' (.arg 0)⟩] >>=
        fun env => execTerm E.sem hostSymbols args env (.ret none) >>= fun next => pure (env, next)) := by
  obtain ⟨harg, i, old, rfl, hi⟩ := hpad hfcp hne
  refine need_left ?_ ?_
  · intro hnone
    exact Raises.bind (Raises.inst (need_raises (hval.trans hnone)).bind)
  · intro w hw
    have hstore : Silent Machine.withPads P .undef (P.set i (f.type.ret, w))
        (execOp E.sem (hostCtx E O fuel call fcp) args env (.store f.type.ret v' (.arg 0))) :=
      store_silent (hval.trans hw) harg hi
    refine (Silent.single (Silent.inst hstore rfl)).sim (.pure ⟨?_, ?_⟩)
    · change Returned I f.type P _ w .undef _
      rw [Returned, if_neg (by simp [hfcp])]
      exact ⟨fun h => absurd h hne, fun _ => ⟨i, rfl, (List.getElem?_eq_some_iff.mp hi).1, rfl⟩⟩
    · have hoff : Off (callName n k) env (Function.update env ⟨some n, k⟩ (some .undef)) := Off.update 0 _
      exact hready.frame (hready.envs.off hk hoff) (Frame.of_off hoff) hn

theorem term_sim {n : Nat} {t : Term Nat Nat Nat} {code : List HInst} {t' : HTerm} (hcm : I.config.useFCPcm = false)
    (hready : Ready E I X gargs args ps e env) (hn : ∀ p ∈ ps, n ≠ p.id)
    (hseen : ∀ v ∈ Module.termOperands t, Seen (site I X n false) gargs.length v)
    (hret : Module.verifyRet f.type.ret t = true) (hpad : RetReady I args f.type P retPad)
    (h : doTerminator I X f n t = .ok (code, t')) :
    TermSim E I X gargs args ps f.type P retPad e (execTerm E.sem guestSymbols gargs e t)
      (execInsts E.sem (hostCtx E O fuel call fcp) args env code >>= fun env =>
        execTerm E.sem hostSymbols args env t' >>= fun next => pure (env, next)) := by
  -- the operand of a terminator that has one
  have operand : ∀ {v : GValue} {code₁ : List HInst} {v' : HValue}, v ∈ Module.termOperands t →
      doOperand (site I X n false) X.args 1 v = .ok (code₁, v') → ∃ env',
        Silent Machine.withPads P env' P (execInsts E.sem (hostCtx E O fuel call fcp) args env code₁) ∧
        Ready E I X gargs args ps e env' ∧
        evalValue E.sem hostSymbols args env' v' = evalValue E.sem guestSymbols gargs e v := by
    intro v code₁ v' hv ho
    obtain ⟨env', hcode, _, hval⟩ := doOperand_run O fuel call fcp P hready.envs Nat.one_pos rfl (hseen v hv) ho
    exact ⟨env', hcode.run, hready.frame (hready.envs.off Nat.one_pos hcode.off) (Frame.of_off hcode.off) hn, hval⟩
  cases t with
  | ret r =>
      cases r with
      | none =>
          cases h
          exact .pure ⟨returned_void (by simpa [Module.verifyRet] using hret), hready⟩
      | some r =>
          obtain ⟨ty, v⟩ := r
          obtain ⟨⟨code₁, v'⟩, ho, h⟩ := bind_eq_ok.mp h
          obtain ⟨env', hrun, hready', hval⟩ := operand List.mem_cons_self ho
          obtain ⟨rfl, hne⟩ : ty = f.type.ret ∧ f.type.ret ≠ .void := by simpa [Module.verifyRet] using hret
          simp only at h
          split at h
          next hfcp =>
            cases h
            exact hrun.sim (branch_sim hready' (ret_sim hfcp hval))
          next hfcp =>
            cases h
            rw [execInsts_append, bind_assoc]
            exact hrun.sim (retStore_sim (by simpa using hfcp) hne hready' hn (Nat.add_pos_left Nat.one_pos _) hval hpad)
  | br d =>
      cases h
      exact .pure ⟨⟨entryLabel_body hcm d, rfl⟩, hready⟩
  | condBr v a b =>
      obtain ⟨⟨code₁, v'⟩, ho, h⟩ := bind_eq_ok.mp h
      cases h
      obtain ⟨env', hrun, hready', hval⟩ := operand List.mem_cons_self ho
      simp only [entryLabel_body hcm]
      exact hrun.sim (branch_sim hready' (condBr_sim a b hval))
  | switch v d dests =>
      obtain ⟨⟨code₁, v'⟩, ho, h⟩ := bind_eq_ok.mp h
      cases h
      obtain ⟨env', hrun, hready', hval⟩ := operand List.mem_cons_self ho
      simp only [entryLabel_body hcm]
      exact hrun.sim (branch_sim hready' (switch_sim d dests hval))
  | unreachable =>
      cases h
      exact Sim.throw _ (Raises.throw _)
  | indirectBr | callBr | invoke | resume | catchSwitch | catchReturn | cleanupReturn => cases h

end Blocks

section Function

variable {retPad : Val Sc}

def phisOf (f : GFunction) : List (Phi Nat Nat Nat) := f.blocks.flatMap (fun b => b.2.phis)

theorem ids_perm (f : GFunction) : ((phisOf f).map Phi.id ++
    f.blocks.flatMap (fun b => b.2.insts.map Inst.id ++ [b.2.termId])).Perm (Module.ids f) := by
  unfold phisOf Module.ids
  rw [List.map_flatMap]
  simp only [List.append_assoc]
  exact List.flatMap_append_perm _ _ _

theorem phis_nodup (h : (Module.ids f).Nodup) : ((phisOf f).map Phi.id).Nodup :=
  (List.nodup_append.mp ((ids_perm f).nodup_iff.mpr h)).1

theorem id_ne_phi (h : (Module.ids f).Nodup) {b : Nat × GBlock} (hb : b ∈ f.blocks) {n : Nat}
    (hn : n ∈ b.2.insts.map Inst.id ++ [b.2.termId]) : ∀ p ∈ phisOf f, n ≠ p.id := by
  intro p hp heq
  have hdisjoint := (List.nodup_append.mp ((ids_perm f).nodup_iff.mpr h)).2.2
  exact hdisjoint _ (List.mem_map_of_mem hp) _ (List.mem_flatMap.mpr ⟨b, hb, hn⟩) heq.symm

variable (I X f) in
def Copied (b : Nat × GBlock) (rs : List (List HInst × HPhi)) (blk : HBlock) : Prop :=
  ∃ ls code term, List.Forall₂ (fun p r => doPhi I X p = .ok r) b.2.phis rs ∧
    List.Forall₂ (fun i c => doInstruction I X i = .ok (.code c)) b.2.insts ls ∧
    doTerminator I X f b.2.termId b.2.term = .ok (code, term) ∧
    blk = ⟨rs.map Prod.snd, ls.flatten ++ code, bodyId b.2.termId, term⟩

theorem assemble_code (b : Nat) (t : HostId) (term : HTerm) (phis : List HPhi) (code : List HInst)
    (ls : List (List HInst)) :
    assemble b t term phis code (ls.map Piece.code) = [(.body b, ⟨phis, code ++ ls.flatten, t, term⟩)] := by
  induction ls generalizing code with
  | nil => simp [assemble]
  | cons l ls ih => rw [List.map_cons, assemble, ih, List.flatten_cons, List.append_assoc]

theorem pieces_code {l : List GInst} {pieces : List Piece} (hcm : I.config.useFCPcm = false)
    (h : List.Forall₂ (fun i r => doInstruction I X i = .ok r) l pieces) :
    ∃ ls, pieces = ls.map Piece.code ∧ List.Forall₂ (fun i c => doInstruction I X i = .ok (.code c)) l ls := by
  induction h with
  | nil => exact ⟨[], rfl, .nil⟩
  | cons hi _ ih =>
      obtain ⟨ls, rfl, hls⟩ := ih
      obtain ⟨c, rfl⟩ := doInstruction_code hcm hi
      exact ⟨c :: ls, rfl, .cons hi hls⟩

theorem doBlock_copied {b : Nat × GBlock} {r : List HInst × List (HostBlock × HBlock)}
    (hcm : I.config.useFCPcm = false) (h : doBlock I X f b = .ok r) :
    ∃ rs blk, Copied I X f b rs blk ∧ r = (rs.flatMap Prod.fst, [(.body b.1, blk)]) := by
  obtain ⟨rs, hphis, h⟩ := bind_eq_ok.mp h
  obtain ⟨pieces, hpieces, h⟩ := bind_eq_ok.mp h
  obtain ⟨⟨code, term⟩, hterm, h⟩ := bind_eq_ok.mp h
  cases h
  obtain ⟨ls, rfl, hls⟩ := pieces_code hcm (mapM_eq_ok.mp hpieces)
  refine ⟨rs, _, ⟨ls, code, term, mapM_eq_ok.mp hphis, hls, hterm, rfl⟩, ?_⟩
  have happend : ls.map Piece.code ++ [.code code] = (ls ++ [code]).map Piece.code := by simp
  rw [happend, assemble_code]
  simp

variable (I X f) in
abbrev CopiedAll (bs : List (Nat × GBlock)) (cs : List (List (List HInst × HPhi) × HBlock)) : Prop :=
  List.Forall₂ (fun b c => Copied I X f b c.1 c.2) bs cs

theorem doBlocks_copied {bs : List (Nat × GBlock)} {rs : List (List HInst × List (HostBlock × HBlock))}
    (hcm : I.config.useFCPcm = false) (h : List.Forall₂ (fun b r => doBlock I X f b = .ok r) bs rs) :
    ∃ cs, CopiedAll I X f bs cs ∧ rs.flatMap Prod.fst = (cs.flatMap Prod.fst).flatMap Prod.fst ∧
      rs.flatMap Prod.snd = (bs.zip cs).map (fun q => (.body q.1.1, q.2.2)) := by
  induction h with
  | nil => exact ⟨[], .nil, rfl, rfl⟩
  | cons hb _ ih =>
      obtain ⟨cs, hcs, hcode, hblocks⟩ := ih
      obtain ⟨c, blk, hc, rfl⟩ := doBlock_copied hcm hb
      refine ⟨(c, blk) :: cs, .cons hc hcs, ?_, ?_⟩
      · rw [List.flatMap_cons, List.flatMap_cons, List.flatMap_append, hcode]
      · rw [List.flatMap_cons, hblocks]
        rfl

theorem copied_lookup {bs : List (Nat × GBlock)} {cs : List (List (List HInst × HPhi) × HBlock)}
    (h : CopiedAll I X f bs cs) (b : Nat) :
    (bs.lookup b = none ∧ ((bs.zip cs).map (fun q => (HostBlock.body q.1.1, q.2.2))).lookup (.body b) = none) ∨
    ∃ blk, ∃ c : List (List HInst × HPhi) × HBlock, (b, blk) ∈ bs ∧ bs.lookup b = some blk ∧ Copied I X f (b, blk) c.1 c.2 ∧
      ((bs.zip cs).map (fun q => (HostBlock.body q.1.1, q.2.2))).lookup (.body b) = some c.2 := by
  induction h with
  | nil => exact .inl ⟨rfl, rfl⟩
  | @cons a c bs cs hc _ ih =>
      rw [List.zip_cons_cons, List.map_cons, List.lookup_cons, List.lookup_cons]
      by_cases hb : b = a.1
      · subst hb
        exact .inr ⟨a.2, c, List.mem_cons_self, by simp, hc, by simp⟩
      · have hb' : (HostBlock.body b == HostBlock.body a.1) = false := by simpa using hb
        have hb'' : (b == a.1) = false := by simpa using hb
        rw [hb', hb'']
        rcases ih with ih | ⟨blk, c', hmem, ih⟩
        · exact .inl ih
        · exact .inr ⟨blk, c', List.mem_cons_of_mem _ hmem, ih⟩

variable (O I X f) in
structure FunctionSeen : Prop where
  phis : ∀ b ∈ f.blocks, ∀ p ∈ b.2.phis, ∀ v ∈ p.incoming.map Prod.fst,
    Seen (site I X p.id false) f.type.params.length v
  insts : ∀ b ∈ f.blocks, ∀ i ∈ b.2.insts, InstSeen O I X f.type.params.length i
  terms : ∀ b ∈ f.blocks, ∀ v ∈ Module.termOperands b.2.term,
    Seen (site I X b.2.termId false) f.type.params.length v

variable {g : Nat}

theorem block_sim {b : Nat × GBlock} {rs : List (List HInst × HPhi)} {blk : HBlock} {prev : Option Nat}
    {prev' : Option HostBlock} (hcm : I.config.useFCPcm = false)
    (hwhite : ∀ b ∈ f.blocks, ∀ i ∈ b.2.insts, ∀ c g, i.op = .call c → I.route c ≠ .white g)
    (hfun : I.module.function? g = some f) (hf : Follows oc call fcp I) (hseen : FunctionSeen O I X f)
    (hlen : gargs.length = f.type.params.length) (hb : b ∈ f.blocks) (hpad : RetReady I args f.type P retPad)
    (hprev : b.2.phis ≠ [] → prev' = prev.map HostBlock.body)
    (hready : Ready E I X gargs args (phisOf f) e env) (h : Copied I X f b rs blk) :
    Sim Machine.withPads P (fun r r' P' => NextCopied I f.type P retPad r.2 r'.2 P' ∧
        Ready E I X gargs args (phisOf f) r.1 r'.1)
      (execBlock E.sem (originalCtx E I.module oc) gargs e prev b.2)
      (execBlock E.sem (hostCtx E O fuel call fcp) args env prev' blk) := by
  obtain ⟨ls, code, term, hphis, hls, hterm, rfl⟩ := h
  have hnodup := Module.ids_nodup hfun
  have hbphis : ∀ p ∈ b.2.phis, p ∈ phisOf f := fun p hp => List.mem_flatMap.mpr ⟨b, hb, hp⟩
  refine Sim.bind (execPhis_sim hprev hready hbphis hphis) ?_
  rintro e₁ env₁ _ ⟨hready₁, rfl⟩
  simp only [execInsts_append, bind_assoc]
  refine Sim.bind (insts_sim (hwhite b hb) hf hready₁ (fun i hi => hlen ▸ hseen.insts b hb i hi)
    (fun i hi => id_ne_phi hnodup hb (List.mem_append_left _ (List.mem_map_of_mem hi))) hls) ?_
  rintro e₂ env₂ _ ⟨hready₂, rfl⟩
  have hsim : TermSim E I X gargs args (phisOf f) f.type _ retPad e₂ _
      (execInsts E.sem (hostCtx E O fuel call fcp) args env₂ code >>= _) :=
    term_sim hcm hready₂ (id_ne_phi hnodup hb (List.mem_append_right _ (List.mem_singleton.mpr rfl)))
      (fun v hv => hlen ▸ hseen.terms b hb v hv) (Module.verify_block hfun hb).2 hpad hterm
  exact Sim.map_left hsim (fun _ _ _ hq => hq)

theorem blocks_sim {hf : HFunction} {cs : List (List (List HInst × HPhi) × HBlock)} {b : HBlock}
    (hcm : I.config.useFCPcm = false)
    (hwhite : ∀ b ∈ f.blocks, ∀ i ∈ b.2.insts, ∀ c g, i.op = .call c → I.route c ≠ .white g)
    (hfun : I.module.function? g = some f) (hfollow : Follows oc call fcp I) (hseen : FunctionSeen O I X f)
    (hlen : gargs.length = f.type.params.length) (hpad : RetReady I args f.type P retPad)
    (hcs : CopiedAll I X f f.blocks cs)
    (hblocks : hf.blocks = (.entry, b) :: (f.blocks.zip cs).map (fun q => (.body q.1.1, q.2.2)))
    (k : Nat) {d : Nat} {prev : Option Nat} {prev' : Option HostBlock}
    (hprev : ∀ blk, (d, blk) ∈ f.blocks → blk.phis ≠ [] → prev' = prev.map HostBlock.body)
    (hready : Ready E I X gargs args (phisOf f) e env) :
    Sim Machine.withPads P (Returned I f.type P retPad)
      (execBlocks E.sem (originalCtx E I.module oc) gargs f k prev d e)
      (execBlocks E.sem (hostCtx E O fuel call fcp) args hf k prev' (.body d) env) := by
  induction k generalizing d prev prev' e env with
  | zero => exact Sim.throw _ (Raises.throw _)
  | succ k ih =>
      have hblock : hf.block? (.body d) =
          ((f.blocks.zip cs).map (fun q => (HostBlock.body q.1.1, q.2.2))).lookup (.body d) := by
        rw [Function.block?, hblocks, List.lookup_cons]
        rfl
      rcases copied_lookup hcs d with ⟨hnone, hnone'⟩ | ⟨blk, c, hmem, hsome, hcopied, hsome'⟩
      · refine need_left (fun _ => (need_raises (hblock.trans hnone')).bind) (fun blk hblk => ?_)
        cases hnone.symm.trans hblk
      · refine need_left (fun hnone => by cases hsome.symm.trans hnone) (fun blk' hblk' => ?_)
        cases hsome.symm.trans hblk'
        refine (need_silent (hblock.trans hsome')).sim ?_
        refine (block_sim hcm hwhite hfun hfollow hseen hlen hmem hpad (hprev blk hmem) hready hcopied).bind ?_
        rintro ⟨e₁, next⟩ ⟨env₁, next'⟩ P' ⟨hnext, hready₁⟩
        cases next with
        | ret v =>
            cases next' with
            | ret v' => exact .pure hnext
            | goto d' => exact absurd hnext id
        | goto d₁ =>
            cases next' with
            | ret v' => exact absurd hnext id
            | goto d' =>
                obtain ⟨rfl, rfl⟩ := hnext
                exact ih (fun _ _ _ => rfl) hready₁

theorem doBody_copied {entry : List HInst} {blocks : List (HostBlock × HBlock)} (hcm : I.config.useFCPcm = false)
    (h : doBody I X f entry = .ok blocks) :
    ∃ b bs cs, f.blocks = b :: bs ∧ CopiedAll I X f f.blocks cs ∧
      blocks = (.entry, ⟨[], entry ++ (cs.flatMap Prod.fst).flatMap Prod.fst, ⟨none, 0⟩, .br (.body b.1)⟩) ::
        (f.blocks.zip cs).map (fun q => (.body q.1.1, q.2.2)) := by
  obtain ⟨rs, hrs, h⟩ := bind_eq_ok.mp h
  obtain ⟨cs, hcs, hcode, hblocks⟩ := doBlocks_copied hcm (mapM_eq_ok.mp hrs)
  cases hf : f.blocks with
  | nil =>
      rw [hf] at h
      cases h
  | cons b bs =>
      rw [hf] at h
      cases h
      rw [hcode, hblocks, entryLabel_body hcm, hf]
      exact ⟨b, bs, cs, rfl, hf ▸ hcs, rfl⟩

theorem copied_phis {bs : List (Nat × GBlock)} {cs : List (List (List HInst × HPhi) × HBlock)}
    (h : CopiedAll I X f bs cs) :
    List.Forall₂ (fun p r => doPhi I X p = .ok r) (bs.flatMap (fun b => b.2.phis)) (cs.flatMap Prod.fst) := by
  induction h with
  | nil => exact .nil
  | cons hc _ ih =>
      obtain ⟨_, _, _, hphis, _⟩ := hc
      exact List.rel_append hphis ih

variable (O fuel call fcp) in
/-- The entry block of a copy, from the code that loads what the body uses. -/
theorem entry_run {entry : List HInst} {cs : List (List (List HInst × HPhi) × HBlock)}
    (hfun : I.module.function? g = some f) (hseen : FunctionSeen O I X f)
    (hlen : gargs.length = f.type.params.length) (hcs : CopiedAll I X f f.blocks cs)
    (hrun : Silent Machine.withPads P env P
      (execInsts E.sem (hostCtx E O fuel call fcp) args (fun _ => none) entry))
    (hm : Matches E X gargs args e env) : ∃ env', Silent Machine.withPads P env' P
        (execInsts E.sem (hostCtx E O fuel call fcp) args (fun _ => none)
          (entry ++ (cs.flatMap Prod.fst).flatMap Prod.fst)) ∧
      Ready E I X gargs args (phisOf f) e env' := by
  have hphis : ∀ p ∈ phisOf f, ∀ v ∈ p.incoming.map Prod.fst, Seen (site I X p.id false) gargs.length v := by
    intro p hp v hv
    obtain ⟨b, hb, hp⟩ := List.mem_flatMap.mp hp
    exact hlen ▸ hseen.phis b hb p hp v hv
  obtain ⟨env', hrun', hm', _, hready⟩ :=
    doPhis_run O fuel call fcp P hm (phis_nodup (Module.ids_nodup hfun)) hphis (copied_phis hcs)
  exact ⟨env', Silent.append hrun hrun', hm', hready⟩

end Function

section Calls

mutual

theorem evalConst_guest (sem : Sem Sc W) (c : Const Nat) : ∃ v, evalConst sem guestSymbols c = some v := by
  cases c with
  | aggregate kind ops =>
      obtain ⟨vs, hvs⟩ := evalConsts_guest sem ops
      exact ⟨_, by rw [evalConst, hvs]; rfl⟩
  | expr opcode ty is ops =>
      obtain ⟨vs, hvs⟩ := evalConsts_guest sem ops
      exact ⟨_, by rw [evalConst, hvs]; rfl⟩
  | undef n =>
      cases n with
      | zero => exact ⟨_, rfl⟩
      | succ n => exact ⟨_, rfl⟩
  | int | nullPtr | poison | data | global | wrapper => exact ⟨_, rfl⟩

theorem evalConsts_guest (sem : Sem Sc W) (cs : List (Const Nat)) :
    ∃ vs, evalConsts sem guestSymbols cs = some vs := by
  cases cs with
  | nil => exact ⟨[], rfl⟩
  | cons c cs =>
      obtain ⟨v, hv⟩ := evalConst_guest sem c
      obtain ⟨vs, hvs⟩ := evalConsts_guest sem cs
      exact ⟨v :: vs, by rw [evalConsts, hv, hvs]; rfl⟩

end

variable {α : Type} {Q : Val Sc → α → Pads Sc → Prop} {y : Run Sc W α} {g : Nat} {k : Nat}

theorem getPads_left {x : Pads Sc → Run Sc W (Val Sc)} (h : ∀ pads, Sim Machine.withPads P Q (x pads) y) :
    Sim Machine.withPads P Q (getPads >>= x) y := fun s => h s.pads s

/-- The pads of the left side do not matter. -/
theorem takePads_left {x : Run Sc W (Val Sc)} (n : Nat) (h : Sim Machine.withPads P Q x y) :
    Sim Machine.withPads P Q (x >>= fun v => getPads >>= fun pads => setPads (pads.take n) >>= fun _ => pure v) y := by
  intro s
  have hs := h s
  cases hx : x s with
  | ok v s' =>
      rw [hx] at hs
      rw [bind_ok hx]
      exact hs
  | error halt s' =>
      rw [hx] at hs
      rw [bind_error hx]
      exact hs

theorem execFunction_left (hlen : gargs.length = f.type.params.length) {b : Nat × GBlock}
    {bs : List (Nat × GBlock)} (hblocks : f.blocks = b :: bs)
    (h : Sim Machine.withPads P Q
      (execBlocks E.sem (originalCtx E I.module oc) gargs f k none b.1 (fun _ => none)) y) :
    Sim Machine.withPads P Q (execFunction E.sem (originalCtx E I.module oc) gargs f k) y := by
  obtain ⟨vs, hvs⟩ := evalConsts_guest E.sem (f.operands ++ f.prefixData.toList)
  unfold execFunction
  rw [show evalConsts E.sem (originalCtx E I.module oc).toSymbols (f.operands ++ f.prefixData.toList) = some vs from hvs,
    decide_eq_true hlen, hblocks]
  exact getPads_left (fun pads => takePads_left pads.length h)

variable {retPad : Val Sc}

theorem Returned.length {t : FunctionType} {v v' : Val Sc} {P' : Pads Sc} (h : Returned I t P retPad v v' P') :
    P'.length = P.length := by
  unfold Returned at h
  split at h
  next => rw [h.2]
  next => exact h.length

/-- A function and its copy do the same. -/
theorem function_sim {hf : HFunction} {entry : List HInst} (hcm : I.config.useFCPcm = false)
    (hwhite : ∀ b ∈ f.blocks, ∀ i ∈ b.2.insts, ∀ c g, i.op = .call c → I.route c ≠ .white g)
    (hfun : I.module.function? g = some f) (hfollow : Follows oc call fcp I)
    (hseen : FunctionSeen O I X f) (hlen : gargs.length = f.type.params.length)
    (hhlen : args.length = hf.type.params.length) (hpad : RetReady I args f.type P retPad)
    (hbody : doBody I X f entry = .ok hf.blocks)
    (hops : evalConsts E.sem hostSymbols (hf.operands ++ hf.prefixData.toList) ≠ none)
    (hrun : Silent Machine.withPads P env P
      (execInsts E.sem (hostCtx E O fuel call fcp) args (fun _ => none) entry))
    (hm : Matches E X gargs args (fun _ => none) env) :
    Sim Machine.withPads P (Returned I f.type P retPad)
      (execFunction E.sem (originalCtx E I.module oc) gargs f k)
      (execFunction E.sem (hostCtx E O fuel call fcp) args hf (k + 1)) := by
  obtain ⟨b, bs, cs, hfblocks, hcs, hblocks⟩ := doBody_copied hcm hbody
  obtain ⟨env', hrun', hready⟩ := entry_run O fuel call fcp hfun hseen hlen hcs hrun hm
  have hentry : hf.blocks.head?.map Prod.fst = some .entry := by rw [hblocks]; rfl
  -- the entry block leads to the copy of the first block, which has no phis
  have hsim : Sim Machine.withPads P (Returned I f.type P retPad)
      (execBlocks E.sem (originalCtx E I.module oc) gargs f k none b.1 (fun _ => none))
      (execBlocks E.sem (hostCtx E O fuel call fcp) args hf (k + 1) none .entry (fun _ => none)) := by
    have hblock : hf.block? .entry = some ⟨[], entry ++ (cs.flatMap Prod.fst).flatMap Prod.fst, ⟨none, 0⟩,
        .br (.body b.1)⟩ := by
      rw [Function.block?, hblocks, List.lookup_cons]
      rfl
    refine (need_silent hblock).sim ?_
    refine Silent.sim (b := (env', .goto (.body b.1)))
      ((phis_nil_silent none).bind (hrun'.bind (Silent.bind (.pure _) (.pure _)))) ?_
    refine blocks_sim hcm hwhite hfun hfollow hseen hlen hpad hcs hblocks k ?_ hready
    intro blk hblk hne
    have heq : (b.1, blk) = b :=
      List.inj_on_of_nodup_map (Module.labels_nodup hfun) hblk (by rw [hfblocks]; exact List.mem_cons_self) rfl
    have hphis := Module.entry_phis hfun hfblocks
    rw [← heq] at hphis
    exact absurd hphis hne
  refine execFunction_left hlen hfblocks (execFunction_sim hops hhlen hentry (hsim.mono ?_))
  intro v v' P' hret
  rw [List.take_of_length_le (Nat.le_of_eq (Returned.length hret))]
  exact hret

end Calls

end Comulator.BodyRun
