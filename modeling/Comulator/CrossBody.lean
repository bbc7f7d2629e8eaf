import Comulator.CrossRun

namespace Comulator.CrossBody

open Fallible Types Ir TypeHash HostIr TakeOut ChopOff Exec Simulation ExecRules Compose CallbackRun OperandRun InstRun PhiRun
  BodyRun FcpCmSplit BlockWalk CrossCalls CrossRun

section Layout

variable {I : Input} {X : Copy} {f : GFunction}

variable (I X f) in
def Laid (b : Nat × GBlock) (rs : List (List HInst × HPhi)) (blocks : List (HostBlock × HBlock)) : Prop :=
  ∃ pieces code term, List.Forall₂ (fun p r => doPhi I X p = .ok r) b.2.phis rs ∧
    List.Forall₂ (fun i p => doInstruction I X i = .ok p) b.2.insts pieces ∧
    doTerminator I X f b.2.termId b.2.term = .ok (code, term) ∧
    blocks = assemble b.1 (bodyId b.2.termId) term (rs.map Prod.snd) [] (pieces ++ [.code code])

theorem doBlock_laid {b : Nat × GBlock} {r : List HInst × List (HostBlock × HBlock)} (h : doBlock I X f b = .ok r) :
    ∃ rs, Laid I X f b rs r.2 ∧ r.1 = rs.flatMap Prod.fst := by
  obtain ⟨rs, hphis, h⟩ := bind_eq_ok.mp h
  obtain ⟨pieces, hpieces, h⟩ := bind_eq_ok.mp h
  obtain ⟨⟨code, term⟩, hterm, h⟩ := bind_eq_ok.mp h
  cases h
  exact ⟨rs, ⟨pieces, code, term, mapM_eq_ok.mp hphis, mapM_eq_ok.mp hpieces, hterm, rfl⟩, rfl⟩

variable (I X f) in
abbrev LaidAll (bs : List (Nat × GBlock)) (cs : List (List (List HInst × HPhi) × List (HostBlock × HBlock))) : Prop :=
  List.Forall₂ (fun b c => Laid I X f b c.1 c.2) bs cs

theorem doBlocks_laid {bs : List (Nat × GBlock)} {rs : List (List HInst × List (HostBlock × HBlock))}
    (h : List.Forall₂ (fun b r => doBlock I X f b = .ok r) bs rs) :
    ∃ cs, LaidAll I X f bs cs ∧ rs.flatMap Prod.fst = (cs.flatMap Prod.fst).flatMap Prod.fst ∧
      rs.flatMap Prod.snd = cs.flatMap Prod.snd := by
  induction h with
  | nil => exact ⟨[], .nil, rfl, rfl⟩
  | @cons b r bs rs hb _ ih =>
      obtain ⟨cs, hcs, hcode, hblocks⟩ := ih
      obtain ⟨c, hc, hfst⟩ := doBlock_laid hb
      refine ⟨(c, r.2) :: cs, .cons hc hcs, ?_, ?_⟩
      · rw [List.flatMap_cons, List.flatMap_cons, List.flatMap_append, hcode, hfst]
      · rw [List.flatMap_cons, List.flatMap_cons, hblocks]

theorem doBody_laid {entry : List HInst} {blocks : List (HostBlock × HBlock)} (h : doBody I X f entry = .ok blocks) :
    ∃ b bs cs, f.blocks = b :: bs ∧ LaidAll I X f f.blocks cs ∧
      blocks = (.entry, ⟨[], entry ++ (cs.flatMap Prod.fst).flatMap Prod.fst, ⟨none, 0⟩, .br (entryLabel I f b.1)⟩) ::
        cs.flatMap Prod.snd := by
  obtain ⟨rs, hrs, h⟩ := bind_eq_ok.mp h
  obtain ⟨cs, hcs, hcode, hblocks⟩ := doBlocks_laid (mapM_eq_ok.mp hrs)
  cases hf : f.blocks with
  | nil =>
      rw [hf] at h
      cases h
  | cons b bs =>
      rw [hf] at h
      cases h
      rw [hcode, hblocks]
      exact ⟨b, bs, cs, rfl, hf ▸ hcs, rfl⟩

theorem laid_of_mem {bs : List (Nat × GBlock)} {cs : List (List (List HInst × HPhi) × List (HostBlock × HBlock))}
    (h : LaidAll I X f bs cs) {b : Nat × GBlock} (hb : b ∈ bs) : ∃ c ∈ cs, Laid I X f b c.1 c.2 := by
  induction h with
  | nil => cases hb
  | @cons a c bs cs hc _ ih =>
      rcases List.mem_cons.mp hb with rfl | hb
      · exact ⟨c, List.mem_cons_self, hc⟩
      · obtain ⟨c', hc', hlaid⟩ := ih hb
        exact ⟨c', List.mem_cons_of_mem _ hc', hlaid⟩

theorem laid_phis {bs : List (Nat × GBlock)} {cs : List (List (List HInst × HPhi) × List (HostBlock × HBlock))}
    (h : LaidAll I X f bs cs) :
    List.Forall₂ (fun p r => doPhi I X p = .ok r) (bs.flatMap (fun b => b.2.phis)) (cs.flatMap Prod.fst) := by
  induction h with
  | nil => exact .nil
  | cons hc _ ih =>
      obtain ⟨_, _, _, hphis, _⟩ := hc
      exact List.rel_append hphis ih

def pieceLabels (b : Nat) (ps : List Piece) : List HostBlock :=
  (splitIds ps).flatMap (fun n => [.top n, .left n, .right n]) ++ [.body b]

theorem labels_assemble (b : Nat) (t : HostId) (term : HTerm) (phis : List HPhi) (code : List HInst) (ps : List Piece) :
    (assemble b t term phis code ps).map Prod.fst = pieceLabels b ps := by
  induction ps generalizing phis code with
  | nil => rfl
  | cons p ps ih =>
      cases p with
      | code l => exact ih phis (code ++ l)
      | split pre s =>
          simp only [assemble, List.map_cons, ih]
          rfl

theorem length_assemble (b : Nat) (t : HostId) (term : HTerm) (phis : List HPhi) (code : List HInst) (ps : List Piece) :
    (assemble b t term phis code ps).length = 3 * (splitIds ps).length + 1 := by
  induction ps generalizing phis code with
  | nil => rfl
  | cons p ps ih =>
      cases p with
      | code l => exact ih phis (code ++ l)
      | split pre s =>
          simp only [assemble, splitIds, List.length_cons, ih]
          omega

theorem splitIds_code (ps : List Piece) (code : List HInst) : splitIds (ps ++ [.code code]) = splitIds ps := by
  induction ps with
  | nil => rfl
  | cons p ps ih =>
      cases p with
      | code l => exact ih
      | split pre s => exact congrArg (s.call :: ·) ih

theorem splitIds_ids {is : List GInst} {ps : List Piece} (h : List.Forall₂ (fun i p => doInstruction I X i = .ok p) is ps) :
    List.Sublist (splitIds ps) (is.map Inst.id) := by
  induction h with
  | nil => exact .slnil
  | @cons i p is ps hi _ ih =>
      cases p with
      | code l => exact ih.cons _
      | split pre s =>
          rw [splitIds, split_call hi, List.map_cons]
          exact ih.cons_cons _

def LabelOf (bs : List (Nat × GBlock)) : HostBlock → Prop
  | .entry => False
  | .body d => d ∈ bs.map Prod.fst
  | .top n | .left n | .right n => n ∈ instIds bs

theorem laid_labels {b : Nat × GBlock} {rs : List (List HInst × HPhi)} {blocks : List (HostBlock × HBlock)}
    (h : Laid I X f b rs blocks) (hnodup : (b.2.insts.map Inst.id).Nodup) :
    (blocks.map Prod.fst).Nodup ∧ ∀ l ∈ blocks.map Prod.fst, LabelOf [b] l := by
  obtain ⟨pieces, code, term, _, hpieces, _, rfl⟩ := h
  rw [labels_assemble, pieceLabels, splitIds_code]
  have hsub := splitIds_ids hpieces
  have hids := hsub.nodup hnodup
  refine ⟨List.nodup_append.mpr ⟨List.nodup_flatMap.mpr ⟨by simp, ?_⟩, by simp, ?_⟩, ?_⟩
  · refine hids.imp ?_
    intro n n' hne
    simp [Function.onFun, hne.symm]
  · intro l hl l' hl'
    obtain ⟨n, _, hl⟩ := List.mem_flatMap.mp hl
    rw [List.mem_singleton.mp hl']
    rintro rfl
    simp at hl
  · intro l hl
    rcases List.mem_append.mp hl with hl | hl
    · obtain ⟨n, hn, hl⟩ := List.mem_flatMap.mp hl
      have hmem : n ∈ instIds [b] := List.mem_flatMap.mpr ⟨b, List.mem_singleton.mpr rfl, hsub.subset hn⟩
      simp only [List.mem_cons, List.not_mem_nil, or_false] at hl
      rcases hl with rfl | rfl | rfl <;> exact hmem
    · rw [List.mem_singleton.mp hl]
      exact List.mem_singleton.mpr rfl

/-- Copies of different blocks have different labels. -/
theorem laidAll_labels {bs : List (Nat × GBlock)} {cs : List (List (List HInst × HPhi) × List (HostBlock × HBlock))}
    (h : LaidAll I X f bs cs) (hlabels : (bs.map Prod.fst).Nodup) (hids : (instIds bs).Nodup) :
    ((cs.flatMap Prod.snd).map Prod.fst).Nodup ∧ ∀ l ∈ (cs.flatMap Prod.snd).map Prod.fst, LabelOf bs l := by
  induction h with
  | nil => exact ⟨.nil, by simp⟩
  | @cons b c bs cs hc _ ih =>
      rw [List.map_cons, List.nodup_cons] at hlabels
      have hids' := List.nodup_append.mp (show (b.2.insts.map Inst.id ++ instIds bs).Nodup from hids)
      obtain ⟨hnodup, hof⟩ := ih hlabels.2 hids'.2.1
      obtain ⟨hnodup₁, hof₁⟩ := laid_labels hc hids'.1
      rw [List.flatMap_cons, List.map_append]
      refine ⟨List.nodup_append.mpr ⟨hnodup₁, hnodup, ?_⟩, ?_⟩
      · rintro l hl _ hl' rfl
        have h₁ := hof₁ l hl
        have h₂ := hof l hl'
        cases l with
        | entry => exact h₁
        | body d =>
            rw [List.mem_singleton.mp h₁] at h₂
            exact hlabels.1 h₂
        | top n | left n | right n =>
            rw [LabelOf, instIds, List.flatMap_singleton] at h₁
            exact hids'.2.2 n h₁ n h₂ rfl
      · intro l hl
        rcases List.mem_append.mp hl with hl | hl
        · have h₁ := hof₁ l hl
          cases l with
          | entry => exact h₁
          | body d => exact List.mem_cons.mpr (.inl (List.mem_singleton.mp h₁))
          | top n | left n | right n =>
              rw [LabelOf, instIds, List.flatMap_singleton] at h₁
              exact List.mem_append_left _ h₁
        · have h₂ := hof l hl
          cases l with
          | entry => exact h₂
          | body d => exact List.mem_cons_of_mem _ h₂
          | top n | left n | right n => exact List.mem_append_right _ h₂

end Layout

variable {Sc W : Type} {E : Setting Sc W} {O : Offloaded} {k : Nat} {copyAt : Val Sc → Option (Val Sc)} {l gl : Calls Sc W}
variable {I : Input} {X : Copy} {f : GFunction} {g : Nat} {P : Pads Sc} {gargs args : List (Val Sc)}
variable {e : Env Nat Sc} {env : Env HostId Sc} {hf : HFunction}
variable {cs : List (List (List HInst × HPhi) × List (HostBlock × HBlock))} {b : HBlock}

section Lookup

variable (hfun : I.module.function? g = some f) (hcs : LaidAll I X f f.blocks cs)
variable (hblocks : hf.blocks = (.entry, b) :: cs.flatMap Prod.snd)

include hfun

theorem instIds_nodup : (instIds f.blocks).Nodup := by
  refine List.Sublist.nodup ?_ (Module.ids_nodup hfun)
  apply List.Sublist.flatMap_right
  intro b _
  exact (List.sublist_append_right _ _).trans (List.sublist_append_left _ _)

include hcs hblocks

omit hfun hcs in
theorem block?_entry : hf.block? .entry = some b := by
  rw [Function.block?, hblocks, List.lookup_cons]
  rfl

theorem block?_laid {c : List (List HInst × HPhi) × List (HostBlock × HBlock)} (hc : c ∈ cs) {q : HostBlock × HBlock}
    (hq : q ∈ c.2) : hf.block? q.1 = some q.2 := by
  obtain ⟨hnodup, hof⟩ := laidAll_labels hcs (Module.labels_nodup hfun) (instIds_nodup hfun)
  have hmem : q ∈ cs.flatMap Prod.snd := List.mem_flatMap.mpr ⟨c, hc, hq⟩
  have hlabels : (hf.blocks.map Prod.fst).Nodup := by
    rw [hblocks, List.map_cons]
    exact List.nodup_cons.mpr ⟨fun hentry => hof _ hentry, hnodup⟩
  refine OrderedMap.lookup_eq_some_of_mem hlabels ?_
  rw [hblocks]
  exact List.mem_cons_of_mem _ hmem

theorem block?_body_none {d : Nat} (hd : f.block? d = none) : hf.block? (.body d) = none := by
  obtain ⟨_, hof⟩ := laidAll_labels hcs (Module.labels_nodup hfun) (instIds_nodup hfun)
  apply Option.eq_none_iff_forall_ne_some.mpr
  intro blk hblk
  rw [Function.block?, hblocks] at hblk
  rcases List.mem_cons.mp (OrderedMap.mem_of_lookup hblk) with hentry | hmem
  · cases hentry
  · obtain ⟨q, hq, hd'⟩ := List.mem_map.mp (hof _ (List.mem_map_of_mem hmem))
    have hsome : f.block? q.1 = some q.2 := OrderedMap.lookup_eq_some_of_mem (Module.labels_nodup hfun) hq
    rw [hd', hd] at hsome
    cases hsome

omit hfun hcs in
theorem splitIds_lt {c : List (List HInst × HPhi) × List (HostBlock × HBlock)} (hc : c ∈ cs) {d : Nat} {t : HostId} {term : HTerm}
    {phis : List HPhi} {code : List HInst} {ps : List Piece} (heq : c.2 = assemble d t term phis code ps) :
    2 * (splitIds ps).length < hf.blocks.length := by
  have hlen : c.2.length = 3 * (splitIds ps).length + 1 := by rw [heq, length_assemble]
  have hle : c.2.length ≤ (cs.flatMap Prod.snd).length := by
    have hsub := (List.singleton_sublist.mpr hc).flatMap Prod.snd
    rw [List.flatMap_singleton] at hsub
    exact hsub.length_le
  rw [hblocks, List.length_cons]
  omega

end Lookup

section Run

/-- The entry block of a copy, from the code that loads what the body uses. -/
theorem entry_ready {entry : List HInst} (hfun : I.module.function? g = some f) (hseen : FunctionSeen O I X f)
    (hlen : gargs.length = f.type.params.length) (hcs : LaidAll I X f f.blocks cs)
    (hrun : Silent Machine.withPads P env P
      (execInsts E.sem (hostCtx E O k l.guest l.fcp) args (fun _ => none) entry))
    (hm : Matches E X gargs args e env) : ∃ env', Silent Machine.withPads P env' P
        (execInsts E.sem (hostCtx E O k l.guest l.fcp) args (fun _ => none)
          (entry ++ (cs.flatMap Prod.fst).flatMap Prod.fst)) ∧
      Ready E I X gargs args (phisOf f) e env' := by
  have hphis : ∀ p ∈ phisOf f, ∀ v ∈ p.incoming.map Prod.fst, Seen (site I X p.id false) gargs.length v := by
    intro p hp v hv
    obtain ⟨b, hb, hp⟩ := List.mem_flatMap.mp hp
    exact hlen ▸ hseen.phis b hb p hp v hv
  obtain ⟨env', hrun', hm', _, hready⟩ :=
    doPhis_run O k l.guest l.fcp P hm (phis_nodup (Module.ids_nodup hfun)) hphis (laid_phis hcs)
  exact ⟨env', Silent.append hrun hrun', hm', hready⟩

theorem execCopy_sim {α : Type} {R : α → Val Sc → Pads Sc → Prop} {x : Run Sc W α} {C : Ctx HostSym Sc W} {fuel : Nat}
    {b : HostBlock} (hops : evalConsts E.sem C.toSymbols (hf.operands ++ hf.prefixData.toList) ≠ none)
    (hargs : args.length = hf.type.params.length) (hentry : hf.blocks.head?.map Prod.fst = some b)
    (h : Sim Machine.withPads P (fun a v P' => R a v (P'.take P.length)) x
      (execWholes E.sem C args hf fuel none b (fun _ => none))) :
    Sim Machine.withPads P R x (execCopy E.sem C args hf fuel) := by
  obtain ⟨vs, hvs⟩ := Option.ne_none_iff_exists'.mp hops
  have hrequire : Silent Machine.withPads P () P
      (require (decide (args.length = hf.type.params.length)) : Run Sc W Unit) := by
    rw [decide_eq_true hargs]
    exact .pure _
  refine (need_silent hvs).sim (hrequire.sim (getPads_silent.sim ((need_silent hentry).sim (h.silent ?_))))
  intro a v P' hr
  exact ⟨v, P'.take P.length, getPads_silent.bind (setPads_silent.bind (.pure v)), hr⟩

theorem guardedFunction_left {α : Type} {Q : Val Sc → α → Pads Sc → Prop} {y : Run Sc W α} {fuel : Nat}
    (hlen : gargs.length = f.type.params.length) {b : Nat × GBlock} {bs : List (Nat × GBlock)} (hblocks : f.blocks = b :: bs)
    (h : Sim Machine.withPads P Q
      (execBlocks E.sem (guardedCtx E I.module I O k copyAt gl) gargs f fuel none b.1 (fun _ => none)) y) :
    Sim Machine.withPads P Q (execFunction E.sem (guardedCtx E I.module I O k copyAt gl) gargs f fuel) y := by
  obtain ⟨vs, hvs⟩ := evalConsts_guest E.sem (f.operands ++ f.prefixData.toList)
  rw [execFunction, show evalConsts E.sem (guardedCtx E I.module I O k copyAt gl).toSymbols
    (f.operands ++ f.prefixData.toList) = some vs from hvs, decide_eq_true hlen, hblocks]
  exact getPads_left (fun pads => takePads_left pads.length h)

variable (hcalm : Calm E.sem) (hcm : I.config.useFCPcm = true) (hfcp : I.config.useFCP = true)
variable (hwhite : ∀ g, I.isWhite g = false) (hfollow : CrossFollows gl l)
variable (hfun : I.module.function? g = some f) (hseen : FunctionSeen O I X f) (hlen : gargs.length = f.type.params.length)

include hcalm hcm hfcp hwhite hfollow hfun hseen hlen

/-- The blocks of a function and the whole blocks of its copy do the same, as many
of the one as of the other. -/
theorem blocks_cross (hcs : LaidAll I X f f.blocks cs) (hblocks : hf.blocks = (.entry, b) :: cs.flatMap Prod.snd) (fuel : Nat)
    {d : Nat} {prev : Option Nat} {prev' : Option HostBlock}
    (hprev : ∀ blk, (d, blk) ∈ f.blocks → blk.phis ≠ [] → prev' = prev.map HostBlock.body)
    (hready : Ready E I X gargs args (phisOf f) e env) :
    Sim Machine.withPads P (Same P)
      (execBlocks E.sem (guardedCtx E I.module I O k copyAt gl) gargs f fuel prev d e)
      (execWholes E.sem (crossCtx E O k copyAt l) args hf fuel prev' (entryLabel I f d) env) := by
  induction fuel generalizing d prev prev' e env with
  | zero => exact Sim.throw _ (Raises.throw _)
  | succ fuel ih =>
      rw [execBlocks_succ, execWholes]
      refine need_left ?_ ?_
      · intro hnone
        -- a branch out of the function is one out of its copy
        have hlabel : entryLabel I f d = .body d := by rw [entryLabel, hnone]
        obtain ⟨w, hw⟩ : ∃ w, hf.blocks.length = w + 1 := ⟨_, by rw [hblocks, List.length_cons]⟩
        rw [hlabel, hw, execWhole]
        exact (need_raises (block?_body_none hfun hcs hblocks hnone)).bind
      · intro blk hblk
        have hmem : (d, blk) ∈ f.blocks := OrderedMap.mem_of_lookup hblk
        obtain ⟨c, hc, pieces, code, term, hphis, hpieces, hterm, heq⟩ := laid_of_mem hcs hmem
        have hnodup := Module.ids_nodup hfun
        have hpiecesM : blk.insts.mapM (doInstruction I X) = .ok pieces := mapM_eq_ok.mpr hpieces
        have hw : 2 * (splitIds pieces).length < hf.blocks.length := by
          rw [← splitIds_code pieces code]
          exact splitIds_lt hblocks hc heq
        have hlookup : ∀ q ∈ assemble d (bodyId blk.termId) term (c.1.map Prod.snd) [] (pieces ++ [.code code]),
            hf.block? q.1 = some q.2 := fun q hq => block?_laid hfun hcs hblocks hc (heq ▸ hq)
        rw [entryLabel_eq hblk hpiecesM, ← nextLabel_concat_code d pieces code]
        refine pieces_sim hcalm hcm hfcp hwhite hfollow (id_ne_phi hnodup hmem (List.mem_append_right _ (List.mem_singleton.mpr rfl)))
          hterm (fun v hv => hlen ▸ hseen.terms _ hmem v hv) ?_ hpieces (fun i hi => hlen ▸ hseen.insts _ hmem i hi)
          (fun i hi => id_ne_phi hnodup hmem (List.mem_append_left _ (List.mem_map_of_mem hi))) hw hlookup ?_
        · intro d' e' env' hready'
          exact ih (fun _ _ _ => rfl) hready'
        · refine (execPhis_sim (hprev blk hmem) hready (fun p hp => List.mem_flatMap.mpr ⟨_, hmem, hp⟩) hphis).silent ?_
          rintro e' env' P' hr
          exact ⟨env', P', .pure _, hr⟩

variable {entry : List HInst}

/-- A function and its copy do the same; the entry block of the copy comes on top. -/
theorem function_cross (hhlen : args.length = hf.type.params.length) (hbody : doBody I X f entry = .ok hf.blocks)
    (hops : evalConsts E.sem hostSymbols (hf.operands ++ hf.prefixData.toList) ≠ none)
    (hrun : Silent Machine.withPads P env P
      (execInsts E.sem (hostCtx E O k l.guest l.fcp) args (fun _ => none) entry))
    (hm : Matches E X gargs args (fun _ => none) env) (fuel : Nat) :
    Sim Machine.withPads P (Same P)
      (execFunction E.sem (guardedCtx E I.module I O k copyAt gl) gargs f fuel)
      (execCopy E.sem (crossCtx E O k copyAt l) args hf (fuel + 1)) := by
  obtain ⟨b, bs, cs, hfblocks, hcs, hblocks⟩ := doBody_laid hbody
  obtain ⟨env', hcode, hready⟩ := entry_ready hfun hseen hlen hcs hrun hm
  have hentry : hf.blocks.head?.map Prod.fst = some .entry := by rw [hblocks]; rfl
  have hsim : Sim Machine.withPads P (Same P)
      (execBlocks E.sem (guardedCtx E I.module I O k copyAt gl) gargs f fuel none b.1 (fun _ => none))
      (execWholes E.sem (crossCtx E O k copyAt l) args hf (fuel + 1) none .entry (fun _ => none)) := by
    obtain ⟨w, hw⟩ : ∃ w, hf.blocks.length = w + 1 := ⟨_, by rw [hblocks, List.length_cons]⟩
    rw [execWholes, hw, execWhole_block (block?_entry hblocks), execPhis_nil, pure_bind]
    refine (Silent.cross hcode).sim ?_
    refine blocks_cross hcalm hcm hfcp hwhite hfollow hfun hseen hlen hcs hblocks fuel ?_ hready
    -- the first block has no phis
    intro blk hblk hne
    have heq : (b.1, blk) = b :=
      List.inj_on_of_nodup_map (Module.labels_nodup hfun) hblk (by rw [hfblocks]; exact List.mem_cons_self) rfl
    have hphis := Module.entry_phis hfun hfblocks
    rw [← heq] at hphis
    exact absurd hphis hne
  refine guardedFunction_left hlen hfblocks (execCopy_sim hops hhlen hentry (hsim.mono ?_))
  rintro v _ _ ⟨rfl, rfl⟩
  rw [List.take_length]
  exact ⟨rfl, rfl⟩

end Run

end Comulator.CrossBody
