import Comulator.CrossLevels

namespace Comulator.CrossPreserve

open Types Ir TypeHash Symtbl HostIr TakeOut ChopOff Analyze AnalyzeSpec Lookups Exec Simulation ExecRules Compose Approximation
  ExecApprox InstRun Preservation FastCalls CrossCalls CrossLevels
open Offloading (outcome_eq)

variable {S W : Type} {E : Setting S W} {m : Module} {I : Input} {O : Offloaded} {k : Nat} {copyAt : Val S → Option (Val S)}

def copied (I : Input) (copyAt : Val S → Option (Val S)) : Val S → Option (Val S)
  | .addr (.hostSym (.fcpFunc g)) => if I.hasFcpFunc g then some (.addr (.guest g)) else none
  | h => copyAt h

/-- The check of an address can be made, and where it finds a copy it is one of the
function at that address. -/
def Honest (E : Setting S W) (I : Input) (O : Offloaded) (copyAt : Val S → Option (Val S)) (v : Val S) : Prop :=
  ∀ (C : Ctx HostSym S W) (st : Machine S W), C.cell = hostCell O → ∃ c word t, readPrefix E.sem C v st = .ok (c, word) st ∧
    E.sem.truth c = some t ∧
    (t = true → ∃ h, E.sem.op .intToPtr ptrTy [] [word] st.world = some (h, st.world) ∧ copied I copyAt h = some v)

def Misled (E : Setting S W) (I : Input) (O : Offloaded) (copyAt : Val S → Option (Val S)) (tr : List (GuestCall S)) : Prop :=
  ∃ c ∈ tr, ¬ Honest E I O copyAt c.callee

/-- What is asked of the program around: calls of functions with a copy are not on
record, and their addresses pass the check rightly. -/
structure CrossSetting (E : Setting S W) (m : Module) (I : Input) (O : Offloaded) (copyAt : Val S → Option (Val S)) : Prop where
  calm : Calm E.sem
  table : ∀ g, I.hasFcpFunc g = true → E.known g = true ∧ E.recorded (.addr (.guest g)) = false
  others : ∀ h v, copyAt h = some v → E.recorded v = false ∧ definedAt E m v = none
  honest : ∀ v, E.recorded v = false → Honest E I O copyAt v

section Checks

variable {oc : Caller S W} {gl : Calls S W}

variable (E I O copyAt) in
abbrev Kept (x y : Run S W (Val S)) : Prop := Below (· = .fuel) (Misled E I O copyAt) x y

variable (E I O copyAt) in
structure Checked (oc : Caller S W) (gl : Calls S W) : Prop where
  guest : ∀ s v vs, Kept E I O copyAt (oc s v vs) (gl.guest s v vs)
  fcp : ∀ g, I.hasFcpFunc g = true → ∀ s vs, Kept E I O copyAt (oc s (.addr (.guest g)) vs) (gl.fcp g s vs)
  cross : ∀ h v, copyAt h = some v → ∀ s vs, Kept E I O copyAt (oc s v vs) (gl.cross s v vs)
  misled : ∀ v, ¬ Honest E I O copyAt v → ∀ s vs y, Kept E I O copyAt (oc s v vs) y

theorem hostCall_below (h : Checked E I O copyAt oc gl) {a v : Val S} (ha : copied I copyAt a = some v) (s : Interface)
    (vs : List (Val S)) : Kept E I O copyAt (oc s v vs) (hostCall copyAt gl s a vs) := by
  unfold copied at ha
  split at ha
  next g =>
    split at ha
    next hg =>
      cases ha
      exact h.fcp g hg s vs
    next => cases ha
  next hother =>
    have hcall : hostCall copyAt gl s a vs = gl.cross s v vs := by
      unfold hostCall
      split
      next g => exact absurd rfl (hother g)
      next => simp only [ha]
    rw [hcall]
    exact h.cross a v ha s vs

/-- The check leads to what the call leads to. -/
theorem guarded_below (h : Checked E I O copyAt oc gl) (s : Interface) (v : Val S) (vs : List (Val S)) :
    Kept E I O copyAt (oc s v vs) (guarded E O k copyAt gl s v vs) := by
  by_cases hv : Honest E I O copyAt v
  · refine ⟨(h.guest s v vs).stays, fun st => ?_⟩
    obtain ⟨c, word, t, hread, htruth, hcopy⟩ := hv (hostCtx E O k gl.guest gl.fcp) st rfl
    have hrun : guarded E O k copyAt gl s v vs st = (if t then do
        let h ← onWorld (E.sem.op .intToPtr ptrTy [] [word])
        hostCall copyAt gl s h vs
      else gl.guest s v vs) st := by
      rw [guarded, bind_ok hread]
      simp only [htruth, need, pure_bind]
    rw [hrun]
    cases t with
    | false => exact (h.guest s v vs).agrees st
    | true =>
        obtain ⟨a, ha, hcopied⟩ := hcopy rfl
        have hword : onWorld (E.sem.op .intToPtr ptrTy [] [word]) st = .ok a st := by simp only [onWorld, ha]
        rw [if_pos rfl, bind_ok hword]
        exact (hostCall_below h hcopied s vs).agrees st
  · exact h.misled v hv s vs _

theorem callee_below (h : Checked E I O copyAt oc gl) {args : List (Val S)} (env : Env Nat S) (c : GCall) :
    Option.Rel (fun f f' => ∀ vs, Kept E I O copyAt (f vs) (f' vs)) (callee E.sem (originalCtx E m oc) args env c)
      (callee E.sem (guardedCtx E m I O k copyAt gl) args env c) := by
  unfold callee
  split
  next g _ =>
    cases hf : m.function? g with
    | none =>
        simp only [originalCtx, guardedCtx, hf, Option.bind_none, Option.map_none]
        exact .some (guarded_below h c.interface (.addr (.guest g)))
    | some f =>
        cases hid : f.intrinsicId with
        | some id =>
            simp only [originalCtx, guardedCtx, hf, Option.bind_some, Option.map_some, hid]
            exact .some (fun vs => (onWorld_quiet _).below)
        | none =>
            simp only [originalCtx, guardedCtx, hf, Option.bind_some, Option.map_none, hid]
            by_cases hg : I.hasFcpFunc g = true
            · simp only [hg, if_true]
              refine .some (fun vs => ?_)
              by_cases htype : c.interface.type = f.type
              · rw [if_pos htype]
                exact h.fcp g hg c.interface vs
              · rw [if_neg htype]
                exact guarded_below h c.interface (.addr (.guest g)) vs
            · simp only [hg]
              exact .some (guarded_below h c.interface (.addr (.guest g)))
  next =>
    change Option.Rel _ ((evalValue E.sem guestSymbols args env c.calledOperand).map _)
      ((evalValue E.sem guestSymbols args env c.calledOperand).map _)
    cases evalValue E.sem guestSymbols args env c.calledOperand with
    | none => exact .none
    | some v => exact .some (guarded_below h c.interface v)

theorem guardedFunction_below (h : Checked E I O copyAt oc gl) (f : GFunction) (s : Interface) (vs : List (Val S)) :
    Kept E I O copyAt (callFunction E (originalCtx E m oc) f k s vs)
      (callFunction E (guardedCtx E m I O k copyAt gl) f k s vs) := by
  have hinst : ∀ i : GInst, InstBelow (· = .fuel) (Misled E I O copyAt) E.sem (originalCtx E m oc)
      (guardedCtx E m I O k copyAt gl) vs i i := by
    intro i env
    refine Approx.bind ?_ (fun _ => .pure _)
    by_cases hop : ∃ c, i.op = .call c
    · obtain ⟨c, hc⟩ := hop
      rw [hc]
      exact (need_quiet _).below.bind (fun ws => need_rel ws (callee_below h env c))
    · have hno : ∀ c, i.op ≠ .call c := fun c hc => hop ⟨c, hc⟩
      have heq : execOp E.sem (guardedCtx E m I O k copyAt gl) vs env i.op =
          execOp E.sem (originalCtx E m oc) vs env i.op := by refine execOp_congr ?_ ?_ env hno <;> rfl
      rw [heq]
      exact (execOp_quiet _ _ _ _ hno).below
  refine (require_quiet _).below.bind (fun _ => ?_)
  refine execFunction_below rfl rfl (List.forall₂_same.mpr (fun b _ => ?_)) le_rfl rfl rfl rfl
  exact ⟨rfl, rfl, rfl, List.forall₂_same.mpr (fun i _ => hinst i)⟩

theorem originalFunction_below {lost : List (GuestCall S) → Prop} {call : Caller S W}
    (h : ∀ s v vs, Below (· = .fuel) lost (oc s v vs) (call s v vs)) (f : GFunction) (s : Interface) (vs : List (Val S)) :
    Below (· = .fuel) lost (callFunction E (originalCtx E m oc) f k s vs)
      (callFunction E (originalCtx E m call) f k s vs) := by
  have hctx : CtxBelow (· = .fuel) lost (originalCtx E m oc) (originalCtx E m call) := by
    refine ⟨rfl, rfl, fun g => ?_, h⟩
    change Option.Rel _ (((m.function? g).bind Function.intrinsicId).map (runIntrinsic E))
      (((m.function? g).bind Function.intrinsicId).map (runIntrinsic E))
    cases (m.function? g).bind Function.intrinsicId with
    | none => exact .none
    | some id => exact .some (fun s vs => (onWorld_quiet _).below)
  exact (require_quiet _).below.bind (fun _ => hctx.function rfl le_rfl)

end Checks

section Levels

variable {H : HashOps} {L : Layout} {uid : Nat} {config : Config}

theorem Misled.append {tr tr' : List (GuestCall S)} (h : Misled E I O copyAt tr) : Misled E I O copyAt (tr ++ tr') := by
  obtain ⟨c, hc, hbad⟩ := h
  exact ⟨c, List.mem_append_left _ hc, hbad⟩

theorem record_none {v : Val S} (hv : E.recorded v = false) (vs : List (Val S)) : record E v vs = pure () := by
  funext st
  rw [record_apply, hv]
  rfl

/-- A function with a copy is one of the module that is run by its code. -/
theorem definedAt_copied (hE : CrossSetting E m (analyzed H L m config .null uid) O copyAt) {g : Nat}
    (hg : (analyzed H L m config .null uid).hasFcpFunc g = true) :
    ∃ f, m.function? g = some f ∧ definedAt E m (.addr (.guest g)) = some (g, f) := by
  obtain ⟨_, haccepted, _⟩ := hasFcpFunc_iff.mp hg
  obtain ⟨info, hinfo⟩ := Option.ne_none_iff_exists'.mp (((analyze_wellFormed H L m .null uid).functions g).mpr haccepted)
  obtain ⟨f, scan, h, he⟩ := (analyze_wellFormed H L m .null uid).entries g info hinfo
  refine ⟨f, he.function, ?_⟩
  simp [definedAt, he.function, (hE.table g hg).1, he.defined]

/-- Calls nested to any depth: the checks change nothing. -/
theorem checked_level (hE : CrossSetting E m (analyzed H L m config .null uid) O copyAt) (n : Nat) :
    Checked E (analyzed H L m config .null uid) O copyAt (originalCall E m k n)
      (guardedLevel E m (analyzed H L m config .null uid) O k copyAt n) := by
  induction n with
  | zero =>
      exact ⟨fun _ _ _ => .of_out rfl, fun _ _ _ _ => .of_out rfl, fun _ _ _ _ _ => .of_out rfl, fun _ _ _ _ _ => .of_out rfl⟩
  | succ n ih =>
      have hguest : ∀ s v vs, Kept E (analyzed H L m config .null uid) O copyAt (originalCall E m k (n + 1) s v vs)
          ((guardedLevel E m (analyzed H L m config .null uid) O k copyAt (n + 1)).guest s v vs) := by
        intro s v vs
        refine (record_below (fun tr hm => hm.append)).bind (fun _ => ?_)
        cases definedAt E m v with
        | none => exact getWorld_quiet.below.bind (fun w => perform_below ih.guest _)
        | some d =>
            dsimp only
            split
            next => exact guardedFunction_below ih d.2 s vs
            next => exact originalFunction_below ih.guest d.2 s vs
      refine ⟨hguest, ?_, ?_, ?_⟩
      · intro g hg s vs
        obtain ⟨f, hf, hdefined⟩ := definedAt_copied hE hg
        have hfcp : (guardedLevel E m (analyzed H L m config .null uid) O k copyAt (n + 1)).fcp g s vs =
            callFunction E (guardedCtx E m (analyzed H L m config .null uid) O k copyAt
              (guardedLevel E m (analyzed H L m config .null uid) O k copyAt n)) f k s vs := by
          change guardedFcp _ _ _ _ _ _ _ _ _ _ = _
          rw [guardedFcp, if_pos hg, hf]
        rw [originalCall, record_none (hE.table g hg).2, hdefined, hfcp]
        exact guardedFunction_below ih f s vs
      · intro h v hv s vs
        obtain ⟨hrecorded, hdefined⟩ := hE.others h v hv
        rw [originalCall, record_none hrecorded, hdefined]
        exact getWorld_quiet.below.bind (fun w => perform_below ih.guest _)
      · intro v hv s vs y
        have hrecorded : E.recorded v = true := by
          cases hr : E.recorded v with
          | true => rfl
          | false => exact absurd (hE.honest v hr) hv
        refine .of_lost (lost_of_record hrecorded (fun tr => ?_) ?_)
        · exact ⟨_, List.mem_append_right _ List.mem_cons_self, hv⟩
        · cases definedAt E m v with
          | none => exact (getWorld_quiet.below.bind (fun w => perform_below ih.guest _)).stays
          | some d => exact (originalFunction_below ih.guest d.2 s vs).stays

end Levels

section Counting

def Nothing (_ : List (GuestCall S)) : Prop := False

abbrev Longer {α : Type} (x y : Run S W α) : Prop := Below (· = .fuel) Nothing x y

variable {sem : Sem S W} {C C' : Ctx HostSym S W} {args : List (Val S)} {f : HFunction}

theorem execWhole_below (hctx : CtxBelow (· = .fuel) Nothing C C')
    {rest : Option HostBlock → HostBlock → Env HostId S → Run S W (Val S)} {K : Nat}
    (hrest : ∀ K', K ≤ K' → ∀ prev b env, Longer (rest prev b env) (execBlocks sem C' args f K' prev b env)) (j : Nat) :
    ∀ K', K + j ≤ K' → ∀ prev b env,
      Longer (execWhole sem C args f rest j prev b env) (execBlocks sem C' args f K' prev b env) := by
  induction j with
  | zero => exact fun _ _ _ _ _ => .of_out rfl
  | succ j ih =>
      intro K' hK prev b env
      obtain ⟨K', rfl⟩ : ∃ p, K' = p + 1 := ⟨K' - 1, by omega⟩
      rw [execWhole, execBlocks]
      refine (need_quiet _).below.bind (fun blk => ?_)
      have hsame : BlockBelow (· = .fuel) Nothing sem C C' args (b, blk) (b, blk) :=
        ⟨rfl, rfl, rfl, List.forall₂_same.mpr (fun i _ env => hctx.inst env i)⟩
      have hblock : Longer (execBlock sem C args env prev blk) (execBlock sem C' args env prev blk) :=
        execBlock_below hctx.symbols hsame env prev
      refine hblock.bind ?_
      rintro ⟨env', next⟩
      cases next with
      | ret v => exact .pure v
      | goto d =>
          dsimp only
          split
          next => exact hrest K' (by omega) (some b) d env'
          next => exact ih K' (by omega) (some b) d env'

theorem execWholes_below (hctx : CtxBelow (· = .fuel) Nothing C C') (fuel : Nat) :
    ∀ K, fuel * f.blocks.length ≤ K → ∀ prev b env,
      Longer (execWholes sem C args f fuel prev b env) (execBlocks sem C' args f K prev b env) := by
  induction fuel with
  | zero => exact fun _ _ _ _ _ => .of_out rfl
  | succ fuel ih =>
      intro K hK prev b env
      rw [Nat.succ_mul] at hK
      exact execWhole_below hctx ih f.blocks.length K hK prev b env

/-- A copy needs at most as many blocks as it has for each of the function. -/
theorem execCopy_below (hctx : CtxBelow (· = .fuel) Nothing C C') {fuel K : Nat} (hK : fuel * f.blocks.length ≤ K) :
    Longer (execCopy sem C args f fuel) (execFunction sem C' args f K) := by
  rw [execCopy, execFunction, hctx.symbols]
  refine (need_quiet _).below.bind (fun _ => (require_quiet _).below.bind (fun _ => ?_))
  refine getPads_quiet.below.bind (fun pads => (need_quiet _).below.bind (fun b => ?_))
  refine (execWholes_below hctx fuel K hK none b _).bind (fun v => ?_)
  exact (getPads_quiet.bind (fun pads' => (setPads_quiet _).bind (fun _ => .pure v))).below

structure AllLonger (l l' : Calls S W) : Prop where
  guest : ∀ s v vs, Longer (l.guest s v vs) (l'.guest s v vs)
  fcp : ∀ g s vs, Longer (l.fcp g s vs) (l'.fcp g s vs)
  cross : ∀ s v vs, Longer (l.cross s v vs) (l'.cross s v vs)

variable {l l' : Calls S W}

theorem stubCtx_below {call call' : Caller S W} {enter enter' : List (Val S) → Run S W (Val S)}
    (hcall : ∀ s v vs, Longer (call s v vs) (call' s v vs)) (henter : ∀ vs, Longer (enter vs) (enter' vs)) :
    CtxBelow (· = .fuel) Nothing (stubCtx call enter) (stubCtx call' enter') := by
  refine ⟨rfl, rfl, fun s => ?_, hcall⟩
  cases s with
  | gyhCall | gyhCallGrt => exact .some (fun _ vs => henter vs)
  | gyhDebug => exact .some (fun _ _ => .pure _)
  | _ => exact .none

theorem callback_below {call call' : Caller S W} (hcall : ∀ s v vs, Longer (call s v vs) (call' s v vs)) (vs : List (Val S)) :
    Longer (callback E O k call vs) (callback E O k call' vs) := by
  unfold callback
  split
  next h v retPad argPad =>
    split
    next => exact (stubCtx_below hcall (fun _ => .throw _)).function rfl le_rfl
    next => exact .throw _
  next => exact .throw _

theorem crossCtx_below (h : AllLonger l l') :
    CtxBelow (· = .fuel) Nothing (crossCtx E O k copyAt l) (crossCtx E O k copyAt l') := by
  refine ⟨rfl, rfl, fun s => ?_, fun s v vs => ?_⟩
  · cases s with
    | gyhCallback => exact .some (fun _ vs => callback_below h.guest vs)
    | gyhDebug => exact .some (fun _ _ => .pure _)
    | intrinsic id => exact .some (fun _ _ => (onWorld_quiet _).below)
    | fcpFunc g => exact .some (fun s vs => h.fcp g s vs)
    | _ => exact .none
  · change Longer (hostCall copyAt l s v vs) (hostCall copyAt l' s v vs)
    unfold hostCall
    split
    next g => exact h.fcp g s vs
    next =>
      split
      next u _ => exact h.cross s u vs
      next => exact .throw _

abbrev limited (E : Setting S W) (K : Nat) : Runner S W := fun C args f => execFunction E.sem C args f K

variable {K : Nat} (hK : ∀ p ∈ O.host.functions, (k + 1) * p.2.blocks.length ≤ K)

include hK

theorem crossFcp_below (h : AllLonger l l') (g : Nat) (s : Interface) (vs : List (Val S)) :
    Longer (crossFcp E O k copyAt (counted E k) l g s vs) (crossFcp E O k copyAt (limited E K) l' g s vs) := by
  unfold crossFcp
  split
  next f hf =>
    exact (require_quiet _).below.bind (fun _ => execCopy_below (crossCtx_below h) (hK _ (OrderedMap.mem_of_lookup hf)))
  next => exact .throw _

theorem crossEntry_below (h : AllLonger l l') (uid : Nat) (vs : List (Val S)) :
    Longer (crossEntry E O k copyAt (counted E k) l uid vs) (crossEntry E O k copyAt (limited E K) l' uid vs) := by
  have hl : AllLonger { l with fcp := crossFcp E O k copyAt (counted E k) l }
      { l' with fcp := crossFcp E O k copyAt (limited E K) l' } := ⟨h.guest, crossFcp_below hK h, h.cross⟩
  unfold crossEntry
  split
  next =>
    split
    next => exact (crossCtx_below hl).function rfl le_rfl
    next => exact .throw _
  next => exact .throw _

theorem enterCross_below (h : AllLonger l l') (vs : List (Val S)) :
    Longer (enterCross E O k copyAt (counted E k) l vs) (enterCross E O k copyAt (limited E K) l' vs) := by
  unfold enterCross
  split
  next => exact crossEntry_below hK h _ _
  next => exact .throw _

theorem crossCall_below (h : AllLonger l l') (s : Interface) (v : Val S) (vs : List (Val S)) :
    Longer (crossCall E m O k copyAt (counted E k) l s v vs) (crossCall E m O k copyAt (limited E K) l' s v vs) := by
  refine (record_below (fun _ hf => hf)).bind (fun _ => ?_)
  cases definedAt E m v with
  | none => exact getWorld_quiet.below.bind (fun w => perform_below h.guest _)
  | some d =>
      dsimp only
      split
      next =>
        exact (require_quiet _).below.bind (fun _ => (stubCtx_below h.guest (enterCross_below hK h)).function rfl le_rfl)
      next => exact originalFunction_below h.guest d.2 s vs

theorem crossLevel_below (n : Nat) :
    AllLonger (crossLevel E m O k copyAt (counted E k) n) (crossLevel E m O k copyAt (limited E K) n) := by
  induction n with
  | zero => exact ⟨fun _ _ _ => .of_out rfl, fun _ _ _ => .of_out rfl, fun _ _ _ => .of_out rfl⟩
  | succ n ih =>
      refine ⟨crossCall_below hK ih, crossFcp_below hK ih, fun s v vs => ?_⟩
      exact getWorld_quiet.below.bind (fun w => perform_below ih.guest _)

end Counting

theorem feasible_cross {H : HashOps} {config : Config} (hgrt : config.useGRT = true) (hfcp : config.useFCP = true) :
    Feasible H m config .null := by
  intro g f _ _ _
  refine ⟨fun _ => hgrt, fun _ => hfcp, fun _ h => ?_, fun c _ k callee hcall => ?_⟩
  · cases h
  · cases hcall.listed

section Example

def wordsBefore (copy i : Nat) : Val Unit :=
  if i = 2 ^ 64 - 1 then .int 64 copy else .int 64 (Nat.xor 0x6666200009068888 copy)

def linkedOp : Opcode → List (Val Unit) → Option (Val Unit)
  | .getElementPtr, [.addr (.guest g), .int _ i] => some (.agg [.int 64 g, .int 64 i])
  | .load, [.agg [.int _ 0, .int _ i]] => some (wordsBefore 1000 i)
  | .load, [.agg [.int _ 1, .int _ i]] => some (wordsBefore 2000 i)
  | .load, [.agg [.int _ _, .int _ _]] => some (.int 64 0)
  | .xor, [.int _ a, .int _ b] => some (.int 64 (Nat.xor a b))
  | .icmp, [.int _ a, .int _ b] => some (.int 1 (if a = b then 1 else 0))
  | .intToPtr, [.int _ a] => some (if a = 1000 then .addr (.hostSym (.fcpFunc 0)) else .scalar ())
  | _, _ => none

def linkedTruth : Val Unit → Option Bool
  | .int _ n => some (n != 0)
  | _ => none

def linkedRecorded : Val Unit → Bool
  | .addr (.guest _) => false
  | _ => true

def linked : Setting Unit Nat where
  sem := ⟨fun opcode _ _ vs w => (linkedOp opcode vs).map (fun v => (v, w)), fun _ _ _ _ => .undef, fun _ _ _ _ => none,
    linkedTruth, fun _ _ => false⟩
  guest := fun _ _ args w => .ret (args.headD .undef) (w + 1)
  known := fun _ => true
  recorded := linkedRecorded

def linkedCopy : Val Unit → Option (Val Unit)
  | .scalar _ => some (.addr (.guest 1))
  | _ => none

theorem linked_calm : Calm linked.sem where
  world := by
    intro opcode _ ty is vs w v w' h
    obtain ⟨u, _, hu⟩ := Option.map_eq_some_iff.mp h
    exact (Prod.mk.inj hu).2.symm
  pads := by
    intro ty is vs w i w' h
    obtain ⟨u, hop, hu⟩ := Option.map_eq_some_iff.mp h
    rw [(Prod.mk.inj hu).1] at hop
    unfold linkedOp at hop
    split at hop <;> simp_all

theorem linked_honest (O : Offloaded) {I : Input} (hI : I.hasFcpFunc 0 = true) (g : Nat) :
    Honest linked I O linkedCopy (.addr (.guest g)) := by
  intro C st _
  rcases g with _ | _ | g
  · exact ⟨.int 1 1, .int 64 1000, true, rfl, rfl, fun _ => ⟨.addr (.hostSym (.fcpFunc 0)), rfl, by simp [copied, hI]⟩⟩
  · exact ⟨.int 1 1, .int 64 2000, true, rfl, rfl, fun _ => ⟨.scalar (), rfl, rfl⟩⟩
  · exact ⟨.int 1 0, .int 64 0, false, rfl, rfl, fun h => by cases h⟩

theorem linked_setting (O : Offloaded) {I : Input} (hI : I.hasFcpFunc 0 = true) :
    CrossSetting linked forwardModule I O linkedCopy where
  calm := linked_calm
  table := fun g _ => ⟨rfl, rfl⟩
  others := by
    intro h v hv
    cases h with
    | scalar u =>
        cases hv
        exact ⟨rfl, rfl⟩
    | _ => cases hv
  honest := by
    intro v hv
    cases v with
    | addr a =>
        cases a with
        | guest g => exact linked_honest O hI g
        | _ => cases hv
    | _ => cases hv

theorem forward_fast : FastConditions HostTable.sumHash forwardModule :=
  ⟨forward_conditions, by
    intro g f _ hf
    have hall : ∀ g ∈ forwardModule.functions, ∀ f, forwardModule.function? g = some f → f.callingConv = 0 ∧
        ∀ i ≤ f.type.params.length, (f.attributes.getAttributes i).filter Attribute.isAbi = [] := by decide
    exact hall g (Module.mem_functions hf) f hf⟩

theorem forward_blocks : ∃ O, Passes HostTable.sumHash HostTable.plainLayout forwardModule 7 (crossMode HostTable.chopAll)
    (crossMode HostTable.chopAll) O ∧ ∀ p ∈ O.host.functions, (1 + 1) * p.2.blocks.length ≤ 12 :=
  ⟨⟨_, _⟩, ⟨rfl, rfl, rfl⟩, by decide⟩

end Example

end Comulator.CrossPreserve
