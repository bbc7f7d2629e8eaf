import Comulator.BodyTranslates
import Comulator.WalkShape

namespace Comulator.BlockWalk

open Fallible Types Ir TypeHash Symtbl HostIr TakeOut FcpCmSplit SelfContained BodyTranslates

section Calls

variable {P : Input} {X : Copy}

def performs (i : HInst) : Bool :=
  match i.op with
  | .call _ => called i.op ≠ some .gyhDebug
  | _ => false

theorem performs_expansion {i : HInst} (h : ConstExpand.isExpansion i.op = true) : performs i = false := by
  rw [performs]
  split
  next hop =>
    rw [hop] at h
    cases h
  next => rfl

theorem performs_packCode (name : Nat → HostId) (ty : Ty) (vs : List HValue) :
    (packCode name ty vs).filter performs = [] := by
  rw [List.filter_eq_nil_iff]
  intro i hi
  rw [packCode] at hi
  rcases List.mem_append.mp hi with hi | hi
  · obtain ⟨q, _, rfl⟩ := List.mem_map.mp hi
    exact Bool.false_ne_true
  · simp only [List.mem_cons, List.not_mem_nil, or_false] at hi
    rcases hi with rfl | rfl <;> exact Bool.false_ne_true

theorem performs_callbackCode (debug : Bool) (n k : Nat) (result : HostId) (cbStub callee : HValue) (ret : Ty)
    (args : List (Ty × HValue)) :
    ((callbackCode debug n k result cbStub callee ret args).filter performs).map (fun i => called i.op) =
      [some .gyhCallback] := by
  have hquiet : ∀ (x : HostId) (op : HOp), (∀ c, op ≠ .call c) → performs ⟨x, op⟩ = false := by
    intro x op hop
    rw [performs]
    split
    next c hc => exact absurd hc (hop c)
    next => rfl
  have hdebug : ∀ (x : HostId) (fmt : HostSym) (as : List (Ty × HValue)), performs ⟨x, debugCall fmt as⟩ = false := by
    intro x fmt as
    simp [performs, debugCall, called]
  have hcall : ∀ (x : HostId) (as : List (Ty × HValue)),
      performs ⟨x, .call ⟨ptrsType 4, 0, ⟨[]⟩, .const (.global .gyhCallback), as⟩⟩ = true := by
    intro x as
    simp [performs, called]
  simp only [callbackCode, List.filter_append, List.map_append]
  cases debug <;> by_cases hret : ret = .void <;> cases hargs : args.isEmpty <;>
    simp [hret, hdebug, hcall, performs_packCode, hquiet, called]

variable {n k : Nat} {c : GCall} {callee : HValue} {args : List (Ty × HValue)} {s : Split}

theorem doFcpCm_check (h : doFcpCm P X n k c callee args = .ok s) : s.check.filter performs = [] := by
  obtain ⟨right, _, h⟩ := bind_eq_ok.mp h
  cases h
  rfl

theorem doFcpCm_left (h : doFcpCm P X n k c callee args = .ok s) : (s.left.filter performs).map Inst.op =
    [.call ⟨c.functionType, c.callingConv, c.attributes, .inst ⟨some n, k + 6⟩, args⟩] := by
  obtain ⟨right, _, h⟩ := bind_eq_ok.mp h
  cases h
  rfl

theorem doFcpCm_right (h : doFcpCm P X n k c callee args = .ok s) :
    (s.right.filter performs).map (fun i => called i.op) = [some .gyhCallback] := by
  obtain ⟨right, hright, h⟩ := bind_eq_ok.mp h
  cases h
  obtain ⟨_, _, _, _, rfl⟩ := CallCopy.doCallback_eq_ok.mp hright
  exact performs_callbackCode _ _ _ _ _ _ _ _

theorem operands_performs {i : GInst} {pre : List HInst} (h : SplitCall P X i c pre k callee args) :
    pre.filter performs = [] := by
  obtain ⟨code, vs, code', hargs, hcallee, rfl, _⟩ := h.operands
  rw [List.filter_eq_nil_iff]
  intro j hj
  rw [performs_expansion]
  · exact Bool.false_ne_true
  · rcases List.mem_append.mp hj with hj | hj
    · exact ConstExpand.doOperands_expansions hargs j hj
    · exact ConstExpand.doOperand_expansions hcallee j hj

end Calls

section Shape

variable (P : Input) (X : Copy) (f : GFunction) (blocks : List (HostBlock × HBlock))

/-- What `do_fcp_cm` makes of a call in the finished function: a check that leads to the
call itself or to the callback, of which either goes on at a block that no other block
leads to and that has the result. -/
structure TwoWays (i : GInst) (c : GCall) (pre : List HInst) (k : Nat) (callee : HValue) (args : List (Ty × HValue))
    (s : Split) (upper lower : HBlock) (next : HostBlock) : Prop where
  call : SplitCall P X i c pre k callee args
  split : doFcpCm P X i.id k c callee args = .ok s
  top : (.top i.id, upper) ∈ blocks
  left : (.left i.id, ⟨[], s.left, ⟨some i.id, 0⟩, .br next⟩) ∈ blocks
  right : (.right i.id, ⟨[], s.right, ⟨some i.id, 0⟩, .br next⟩) ∈ blocks
  join : (next, lower) ∈ blocks
  check : pre ++ s.check <:+ upper.insts
  branch : upper.term = .condBr s.cond (.left i.id) (.right i.id)
  topCalls : (pre ++ s.check).filter performs = []
  leftCalls : (s.left.filter performs).map Inst.op =
    [.call ⟨c.functionType, c.callingConv, c.attributes, .inst ⟨some i.id, k + 6⟩, args⟩]
  rightCalls : (s.right.filter performs).map (fun i => called i.op) = [some .gyhCallback]
  predecessors : predecessors blocks next = [.left i.id, .right i.id]
  phis : lower.phis = if c.functionType.ret = .void then []
    else [⟨bodyId i.id, c.functionType.ret, [(.inst ⟨some i.id, k + 7⟩, .left i.id), (.inst ⟨some i.id, k + 8⟩, .right i.id)]⟩]

/-- The copy of a block is entered where the branches to the block lead and ends with
its terminator, and the code for its instructions stands in their order, that of the two
ways of a call apart. -/
structure InOrder (b : Nat × GBlock) (copy : List (HostBlock × HBlock)) (ps : List Piece) (code : List HInst)
    (t : HTerm) : Prop where
  together : copy <:+: blocks
  head : copy.head?.map Prod.fst = some (entryLabel P f b.1)
  last : copy.getLast?.map (fun c => (c.1, c.2.term)) = some (.body b.1, t)
  pieces : b.2.insts.mapM (TakeOut.doInstruction P X) = .ok ps
  term : doTerminator P X f b.2.termId b.2.term = .ok (code, t)
  insts : (copy.filter (fun c => !isSide c.1)).flatMap (fun c => c.2.insts) = ps.flatMap onPath ++ code

structure Shaped : Prop where
  inOrder : ∀ b ∈ f.blocks, ∃ copy pieces code term, InOrder P X f blocks b copy pieces code term
  twoWays : ∀ b ∈ f.blocks, ∀ i ∈ b.2.insts, splits P i = true →
    ∃ c pre k callee args s top join next, TwoWays P X blocks i c pre k callee args s top join next
  phisMatch : PhisMatch f.blocks → PhisMatch blocks

variable {P X f}
variable {es : List ((Nat × GBlock) × BlockWork)}

theorem inOrder_body {g : Nat} (hg : P.module.function? g = some f) (hes : f.blocks.mapM (walkOf P X) = .ok es)
    (first : HostBlock × HBlock) {e : (Nat × GBlock) × BlockWork} (he : e ∈ es) :
    InOrder P X f (first :: es.flatMap (copyBlock P f)) e.1 (copyBlock P f e) (e.2.steps.map Prod.snd) e.2.code
      (e.2.term.mapLabel (resolve P f)) := by
  obtain ⟨hmem, hr⟩ := work_of_mem hes he
  constructor
  · obtain ⟨l, r, rfl⟩ := List.append_of_mem he
    refine ⟨first :: l.flatMap (copyBlock P f), r.flatMap (copyBlock P f), ?_⟩
    simp
  · obtain ⟨blk, tail, hcopy, _⟩ := assemble_head e.1.1 (bodyId e.1.2.termId) (e.2.term.mapLabel (resolve P f))
      (e.2.phis.map Prod.snd) [] (workPieces e)
    rw [entryLabel_work hg hes he]
    have hhead : copyBlock P f e = (nextLabel e.1.1 (workPieces e), blk) :: tail := hcopy
    rw [hhead]
    rfl
  · exact assemble_last _ _ _ _ _ _
  · exact walkBlock_pieces hr
  · rw [doTerminator_eq, walkBlock_term hr]
    rfl
  · rw [copyBlock, insts_assemble, List.nil_append, List.flatMap_append]
    simp [onPath]

theorem twoWays_body {g : Nat} (hg : P.module.function? g = some f) (hes : f.blocks.mapM (walkOf P X) = .ok es)
    (entry : List HInst) (b : Nat) {e : (Nat × GBlock) × BlockWork} (he : e ∈ es) {i : GInst} (hi : i ∈ e.1.2.insts)
    (hsplit : splits P i = true) : ∃ c pre k callee args s top join next,
      TwoWays P X ((.entry, entryBlock P f entry b es) :: es.flatMap (copyBlock P f)) i c pre k callee args s top join
        next := by
  obtain ⟨hmem, hr⟩ := work_of_mem hes he
  obtain ⟨⟨j, p⟩, hq, hstep⟩ := (mapM_ok_mem (walkBlock_steps hr)).1 i hi
  obtain ⟨hj, hp⟩ := doStep_ok hstep
  dsimp only at hj hp
  cases p with
  | code l =>
      rw [doInstruction_code hp] at hsplit
      cases hsplit
  | split pre s =>
      obtain ⟨c, k, callee, args, hc, hs⟩ := doInstruction_split hp
      have hpiece : Piece.split pre s ∈ workPieces e := List.mem_append_left _ (List.mem_map_of_mem hq)
      obtain ⟨top, join, next, hjoin, htop, hleft, hright, hnext, hcheck, hbranch, hphis⟩ :=
        assemble_split e.1.1 (bodyId e.1.2.termId) (e.2.term.mapLabel (resolve P f)) (e.2.phis.map Prod.snd) [] hpiece
      have hcall : s.call = i.id := doFcpCm_call hs
      rw [hcall] at hjoin htop hleft hright hbranch
      have hin : ∀ {x : HostBlock × HBlock}, x ∈ copyBlock P f e →
          x ∈ (HostBlock.entry, entryBlock P f entry b es) :: es.flatMap (copyBlock P f) := by
        intro x hx
        exact List.mem_cons_of_mem _ (List.mem_flatMap.mpr ⟨e, he, hx⟩)
      refine ⟨c, pre, k, callee, args, s, top, join, next, hc, hs, hin htop, hin hleft, hin hright, hin hnext, hcheck,
        hbranch, ?_, doFcpCm_left hs, doFcpCm_right hs, predecessors_join hg hes entry b he hjoin, ?_⟩
      · rw [List.filter_append, operands_performs hc, doFcpCm_check hs, List.append_nil]
      · rw [hphis, doFcpCm_phi hs]
        split <;> rfl

theorem shaped_body {g : Nat} (hg : P.module.function? g = some f) (hes : f.blocks.mapM (walkOf P X) = .ok es)
    (entry : List HInst) {b : Nat × GBlock} {bs : List (Nat × GBlock)} (hf : f.blocks = b :: bs) :
    Shaped P X f ((.entry, entryBlock P f entry b.1 es) :: es.flatMap (copyBlock P f)) := by
  have hwork : ∀ c ∈ f.blocks, ∃ e ∈ es, e.1 = c := by
    intro c hc
    rw [← walkOf_fst hes] at hc
    exact List.mem_map.mp hc
  constructor
  · intro c hc
    obtain ⟨e, he, rfl⟩ := hwork c hc
    exact ⟨_, _, _, _, inOrder_body hg hes _ he⟩
  · intro c hc i hi hsplit
    obtain ⟨e, he, rfl⟩ := hwork c hc
    exact twoWays_body hg hes entry b.1 he hi hsplit
  · exact phisMatch_body hg hes entry hf

end Shape

section Main

theorem count_cloned (vs : List Visit) (n : Nat) : vs.count (.cloned n) = (vs.filterMap Visit.clonedId).count n := by
  induction vs with
  | nil => rfl
  | cons v vs ih =>
      cases v with
      | cloned k =>
          have hcons : (Visit.cloned k :: vs).filterMap Visit.clonedId = k :: vs.filterMap Visit.clonedId := rfl
          rw [hcons, List.count_cons, List.count_cons, ih]
          simp
      | store | join | generated | again =>
          rw [List.filterMap_cons_none rfl, List.count_cons, ih]
          simp

/-- The walk of `do_function` ends in every mode with a function where each instruction of
the body was translated once, exactly if no translation fails or runs on. -/
theorem walk_rewrites (P : Input) (X : Copy) {g : Nat} {f : GFunction} (hg : P.module.function? g = some f)
    {b : Nat × GBlock} {bs : List (Nat × GBlock)} (hf : f.blocks = b :: bs) (entry : List HInst) :
    (∃ k w blocks, doBody P X f entry = .ok blocks ∧ (∀ n ≥ k, run P X n (start P entry b bs) = some (.ok w)) ∧
      (∀ n ∈ Module.ids f, w.visits.count (.cloned n) = 1) ∧ Rewritten P f w blocks ∧ Shaped P X f blocks) ↔
    Translatable P X f := by
  constructor
  · rintro ⟨k, w, blocks, hbody, _⟩
    exact translatable_of_doBody hbody
  · intro h
    have hne : f.blocks ≠ [] := by
      rw [hf]
      exact List.cons_ne_nil b bs
    obtain ⟨blocks, hok⟩ := (doBody_ok_iff hne entry).mpr h
    rcases run_body (X := X) hg hf entry with ⟨_, e, herror, _⟩ | ⟨k, es, w, hes, hbody, hrun, hrew⟩
    · cases hok.symm.trans herror
    · refine ⟨k, w, _, hbody, hrun, ?_, hrew, shaped_body hg hes entry hf⟩
      intro n hn
      rw [count_cloned, hrew.once]
      exact List.count_eq_one_of_mem (Module.ids_nodup hg) hn

def looping : GFunction :=
  let call := fun (v : GValue) => (.call ⟨⟨.integer 32, [.integer 32], false⟩, 0, ⟨[]⟩, .const (.global 1),
    [(.integer 32, v)]⟩ : InstOp Nat Nat)
  ⟨⟨.integer 32, [.integer 32], false⟩, 0, ⟨[]⟩, none,
    [(0, ⟨[], [], 0, .br 1⟩),
      (1, ⟨[⟨1, .integer 32, [(.arg 0, 0), (.inst 3, 1)]⟩], [⟨2, call (.inst 1)⟩, ⟨3, call (.inst 2)⟩], 4,
        .condBr (.inst 3) 1 2⟩),
      (2, ⟨[], [], 5, .ret (some (.integer 32, .inst 3))⟩)], [], none⟩

def loopingModule : Module :=
  ⟨[.function looping, .function ⟨⟨.integer 32, [.integer 32], false⟩, 0, ⟨[]⟩, none, [], [], none⟩], by decide⟩

def loopingInput : Input :=
  Lookups.analyzed HostTable.sumHash HostTable.plainLayout loopingModule ⟨false, true, true, true, 0, 0⟩ .null 7

def loopingCopy : Copy := ⟨0, .fcpFunc 0, fun _ => some ⟨none, 3⟩, fun _ => some ⟨none, 6⟩, .arg⟩

theorem looping_translatable : Translatable loopingInput loopingCopy looping := by
  constructor
  · decide
  · simp [looping, Analyze.termItems, Analyze.operandItems]
  · intro c hc _
    have hhash : ∀ c ∈ Module.calls looping, (callSiteHash loopingInput.hash c).isSome := by decide
    obtain ⟨h, hh⟩ := Option.isSome_iff_exists.mp (hhash c hc)
    exact ⟨h, hh, Option.some_ne_none _⟩
  · intro q hq
    have hmet : ∀ q ∈ OperandEnds.passed loopingInput looping, OperandEnds.valueMet (copyPlace loopingCopy q.1) q.2 = [] := by
      decide
    rw [OperandSound, hmet q hq]
    simp

theorem looping_rewritten : PhisMatch looping.blocks ∧ Translatable loopingInput loopingCopy looping ∧ ∃ k w blocks,
    (∀ n ≥ k, run loopingInput loopingCopy n (start loopingInput [] (0, ⟨[], [], 0, .br 1⟩) looping.blocks.tail) =
      some (.ok w)) ∧ doBody loopingInput loopingCopy looping [] = .ok blocks ∧
      Rewritten loopingInput looping w blocks ∧ Shaped loopingInput loopingCopy looping blocks ∧ PhisMatch blocks := by
  have hphis : PhisMatch looping.blocks := by
    intro b hb p hp
    simp only [looping, List.mem_cons, List.not_mem_nil, or_false] at hb
    rcases hb with rfl | rfl | rfl
    · cases hp
    · rw [List.mem_singleton.mp hp]
      exact List.Perm.refl _
    · cases hp
  refine ⟨hphis, looping_translatable, ?_⟩
  obtain ⟨k, w, blocks, hbody, hrun, _, hrew, hshape⟩ :=
    (walk_rewrites loopingInput loopingCopy (g := 0) (f := looping) rfl rfl []).mpr looping_translatable
  exact ⟨k, w, blocks, hrun, hbody, hrew, hshape, hshape.phisMatch hphis⟩

open OperandEnds in
/-- The callee of a call sends `do_operand` round in an initializer: whatever depth of
recursion there is, it is used up, and the walk does not get past the call. -/
theorem endless_callee_not_walked :
    (∃ info, addressCalled.symtbl.functbl.find? 0 = some info ∧ IsCopy 0 info (padCopy [])) ∧
    (∀ depth owner k, doOperand (siteAt addressCalled (padCopy []) depth owner false) Value.arg k addressCallee =
      .error .overflow) ∧
    ∃ k, ∀ n ≥ k, ∀ b bs, addressCaller.blocks = b :: bs →
      run addressCalled (padCopy []) n (start addressCalled [] b bs) = some (.error .overflow) := by
  refine ⟨⟨_, rfl, isCopy_assign (Lookups.fieldNames_keys _ _) _ _ _⟩, ?_, ?_⟩
  · intro depth owner k
    exact (doOperand_overflow depth owner k).mpr (DepthWalk.forM_endless addressCallee_cyclic depth)
  · have hbody : doBody addressCalled (padCopy []) addressCaller [] = .error .overflow := rfl
    rcases run_body (P := addressCalled) (X := padCopy []) (g := 0) (f := addressCaller) rfl rfl [] with
      ⟨k, e, herror, hrun⟩ | ⟨_, _, _, _, hok, _⟩
    · cases hbody.symm.trans herror
      refine ⟨k, fun n hn b bs hblocks => ?_⟩
      cases hblocks
      exact hrun n hn
    · cases hbody.symm.trans hok

end Main

end Comulator.BlockWalk
