import Comulator.WalkBody

namespace Comulator.BlockWalk

open Fallible Types Ir TypeHash Symtbl HostIr TakeOut FcpCmSplit

section Copy

variable (P : Input) (X : Copy)

def copyBlock (f : GFunction) (e : (Nat × GBlock) × BlockWork) : List (HostBlock × HBlock) :=
  assemble e.1.1 (bodyId e.1.2.termId) (e.2.term.mapLabel (resolve P f)) (e.2.phis.map Prod.snd) []
    (e.2.steps.map Prod.snd ++ [.code e.2.code])

def entryBlock (f : GFunction) (entry : List HInst) (b : Nat) (es : List ((Nat × GBlock) × BlockWork)) : HBlock :=
  ⟨[], entry ++ es.flatMap (fun e => e.2.phis.flatMap Prod.fst), ⟨none, 0⟩, .br (entryLabel P f b)⟩

variable {P X}

theorem mapM_doInstruction (is : List GInst) :
    is.mapM (TakeOut.doInstruction P X) = (is.mapM (doStep P X)).map (List.map Prod.snd) := by
  rw [← mapM_map]
  congr 1
  funext i
  rw [doStep]
  cases TakeOut.doInstruction P X i <;> rfl

theorem doBlock_eq (f : GFunction) (b : Nat × GBlock) :
    doBlock P X f b = (walkOf P X b).map (fun e => (e.2.phis.flatMap Prod.fst, copyBlock P f e)) := by
  rw [doBlock, walkOf, walkBlock, mapM_doInstruction, doTerminator_eq]
  cases b.2.phis.mapM (doPhi P X) with
  | error e => rfl
  | ok phis =>
      cases b.2.insts.mapM (doStep P X) with
      | error e => rfl
      | ok steps => cases walkTerm P X b.2.termId b.2.term <;> rfl

theorem doBody_eq {f : GFunction} {b : Nat × GBlock} {bs : List (Nat × GBlock)} (hf : f.blocks = b :: bs)
    (entry : List HInst) : doBody P X f entry = ((b :: bs).mapM (walkOf P X)).map (fun es =>
      (.entry, entryBlock P f entry b.1 es) :: es.flatMap (copyBlock P f)) := by
  have hblocks : doBlock P X f = fun b => (walkOf P X b).map (fun e => (e.2.phis.flatMap Prod.fst, copyBlock P f e)) :=
    funext (doBlock_eq f)
  rw [doBody, hf, hblocks, mapM_map]
  cases (b :: bs).mapM (walkOf P X) with
  | error e => rfl
  | ok es => simp [bind, Except.bind, Except.map, pure, Except.pure, entryBlock, List.flatMap_map]

end Copy

section Names

def Node.named : Node → Option (HNode HostId)
  | .new x => some (x.map Ptr.name Ptr.name)
  | _ => none

def named (b : NodeBlock) : HostBlock × List (HNode HostId) := (b.1, b.2.filterMap Node.named)

def hostNodes (b : HostBlock × HBlock) : HostBlock × List (HNode HostId) :=
  (b.1, b.2.phis.map .phi ++ b.2.insts.map .inst ++ [.term b.2.termId b.2.term])

theorem name_host : Ptr.name ∘ Ptr.host = id := rfl

theorem name_defPtr (n : Nat) : Ptr.name ∘ defPtr n = id := by
  funext x
  by_cases h : x = bodyId n <;> simp [defPtr, h, Ptr.name]

theorem HNode.map_map {ι κ ν : Type} (d u : ι → κ) (d' u' : κ → ν) (x : HNode ι) :
    (x.map d u).map d' u' = x.map (d' ∘ d) (u' ∘ u) := by
  cases x with
  | phi p => simp [HNode.map, Value.mapInst_mapInst, Function.comp_def]
  | inst i => simp [HNode.map, InstOp.mapInst_mapInst]
  | term y t => simp [HNode.map, Term.mapInst_mapInst]

theorem HNode.map_id {ι : Type} (x : HNode ι) : x.map id id = x := by
  cases x with
  | phi p => simp [HNode.map, Value.mapInst_id]
  | inst i => simp [HNode.map, InstOp.mapInst_id]
  | term y t => simp [HNode.map, Term.mapInst_id]

theorem named_kept (l : List HInst) : (l.map kept).filterMap Node.named = l.map .inst := by
  rw [List.filterMap_map, ← List.filterMap_eq_map]
  congr 1
  funext i
  change some (((HNode.inst i).map .host .host).map Ptr.name Ptr.name) = some (.inst i)
  rw [HNode.map_map, name_host, HNode.map_id]

theorem named_madeFor (n : Nat) (l : List HInst) : (l.map (madeFor n)).filterMap Node.named = l.map .inst := by
  rw [List.filterMap_map, ← List.filterMap_eq_map]
  congr 1
  funext i
  change some (((HNode.inst i).map (defPtr n) .host).map Ptr.name Ptr.name) = some (.inst i)
  rw [HNode.map_map, name_host, name_defPtr, HNode.map_id]

theorem named_joined (n : Nat) (l : List HPhi) : (l.map (joined n)).filterMap Node.named = l.map .phi := by
  rw [List.filterMap_map, ← List.filterMap_eq_map]
  congr 1
  funext p
  change some (((HNode.phi p).map (defPtr n) .host).map Ptr.name Ptr.name) = some (.phi p)
  rw [HNode.map_map, name_host, name_defPtr, HNode.map_id]

theorem named_keptPhi (l : List HPhi) : (l.map keptPhi).filterMap Node.named = l.map .phi := by
  rw [List.filterMap_map, ← List.filterMap_eq_map]
  congr 1
  funext p
  change some (((HNode.phi p).map .host .host).map Ptr.name Ptr.name) = some (.phi p)
  rw [HNode.map_map, name_host, HNode.map_id]

theorem named_branch (x : HostId) (t : HTerm) : [branch x t].filterMap Node.named = [.term x t] := by
  change [((HNode.term x t).map .host .host).map Ptr.name Ptr.name] = [.term x t]
  rw [HNode.map_map, name_host, HNode.map_id]

theorem named_old (n : Nat) (l : List Node) : (.old n :: l).filterMap Node.named = l.filterMap Node.named := rfl

theorem named_placed (P : Input) (i : GInst) (l : List HInst) :
    (placed P i l).filterMap Node.named = l.map .inst := by
  rw [placed]
  split
  next => rw [List.filterMap_append, named_madeFor, named_old, List.filterMap_nil, List.append_nil]
  next => exact named_kept l

/-- The blocks of the walk are those that are put together from the pieces. -/
theorem named_closed {P : Input} {X : Copy} {b : Nat} {nodes last : List Node} {phis : List HPhi} {code code' : List HInst}
    {t : HostId} {term : HTerm} {is : List GInst} {qs : List (GInst × Piece)} (hqs : is.mapM (doStep P X) = .ok qs)
    (hnodes : nodes.filterMap Node.named = phis.map .phi ++ code.map .inst)
    (hlast : last.filterMap Node.named = code'.map .inst ++ [.term t term]) :
    (closed P b nodes qs ++ [(HostBlock.body b, opened P nodes qs ++ last)]).map named =
      (assemble b t term phis code (qs.map Prod.snd ++ [.code code'])).map hostNodes := by
  induction is generalizing qs nodes phis code with
  | nil =>
      cases hqs
      simp [closed, opened, assemble, named, hostNodes, hnodes, hlast]
  | cons i is ih =>
      rw [List.mapM_cons] at hqs
      obtain ⟨⟨j, p⟩, hq, hqs⟩ := bind_eq_ok.mp hqs
      obtain ⟨qs', hqs', h⟩ := bind_eq_ok.mp hqs
      cases h
      obtain ⟨rfl, hp⟩ := doStep_ok hq
      cases p with
      | code l =>
          apply ih hqs'
          rw [List.filterMap_append, hnodes, named_placed, List.map_append, List.append_assoc]
      | split pre s =>
          have hcall : s.call = j.id := split_call hp
          have hjoin : (s.phi.toList.map (joined j.id)).filterMap Node.named =
              s.phi.toList.map .phi ++ ([] : List HInst).map .inst := by
            rw [named_joined, List.map_nil, List.append_nil]
          have htail := ih hqs' hjoin
          simp only [closed, opened, List.map_cons, List.cons_append, assemble, htail]
          simp only [named, hostNodes, List.filterMap_append, hnodes, named_kept, named_branch, named_old, hcall,
            nextLabel_concat_code]
          simp

end Names

section Finish

def replaced (rs : List (Nat × Bool)) (p : Ptr) : Ptr :=
  rs.foldl (fun p e => if e.2 ∧ p = .host (bodyId e.1) then .made e.1 else p) p

def Node.replaceAll (rs : List (Nat × Bool)) (x : Node) : Node :=
  rs.foldl (fun x e => x.replaceAllUsesWith e.1 e.2) x

def Node.erased (rs : List (Nat × Bool)) (x : Node) : Bool := rs.any (fun e => x.isOld e.1)

variable {rs : List (Nat × Bool)}

theorem isOld_replaceAllUsesWith (x : Node) (n k : Nat) (v : Bool) :
    (x.replaceAllUsesWith n v).isOld k = x.isOld k := by
  cases x <;> rfl

theorem foldl_replaceOld (rs : List (Nat × Bool)) (blocks : List NodeBlock) : rs.foldl replaceOld blocks =
    blocks.map (fun b => (b.1, (b.2.filter (fun x => !x.erased rs)).map (Node.replaceAll rs))) := by
  induction rs generalizing blocks with
  | nil =>
      have hid : Node.replaceAll [] = id := rfl
      simp [Node.erased, hid]
  | cons e rs ih =>
      rw [List.foldl_cons, ih, replaceOld, List.map_map]
      apply List.map_congr_left
      intro b _
      simp only [Function.comp_apply, List.filter_map, List.filter_filter, List.map_map]
      congr 2
      · apply List.filter_congr
        intro x _
        simp [Node.erased, isOld_replaceAllUsesWith, Bool.and_comm]

theorem replaceAll_new (rs : List (Nat × Bool)) (y : HNode Ptr) :
    (Node.new y).replaceAll rs = .new (y.map id (replaced rs)) := by
  induction rs generalizing y with
  | nil => exact congrArg Node.new y.map_id.symm
  | cons e rs ih =>
      rw [Node.replaceAll, List.foldl_cons]
      change (Node.new (y.map id (fun p => if e.2 ∧ p = .host (bodyId e.1) then .made e.1 else p))).replaceAll rs = _
      rw [ih, HNode.map_map]
      rfl

theorem replaceAll_of_named {x : Node} (h : x.named = none) : x.replaceAll rs = x := by
  induction rs with
  | nil => rfl
  | cons e rs ih =>
      have hx : x.replaceAllUsesWith e.1 e.2 = x := by
        cases x with
        | new y => cases h
        | phi | inst | store | term | old => rfl
      rw [Node.replaceAll, List.foldl_cons, hx]
      exact ih

theorem name_replaced (rs : List (Nat × Bool)) (p : Ptr) : (replaced rs p).name = p.name := by
  induction rs generalizing p with
  | nil => rfl
  | cons e rs ih =>
      rw [replaced, List.foldl_cons]
      refine (ih _).trans ?_
      split
      next h =>
        rw [h.2]
        rfl
      next => rfl

/-- The replacements change no name. -/
theorem named_replaceAll (x : Node) : (x.replaceAll rs).named = x.named := by
  cases x with
  | new y =>
      rw [replaceAll_new]
      change some ((y.map id (replaced rs)).map Ptr.name Ptr.name) = some (y.map Ptr.name Ptr.name)
      rw [HNode.map_map]
      have hcomp : Ptr.name ∘ replaced rs = Ptr.name := funext (name_replaced rs)
      rw [hcomp]
      rfl
  | phi | inst | store | term | old => rw [replaceAll_of_named rfl]

theorem named_of_erased {x : Node} (h : x.erased rs = true) : x.named = none := by
  obtain ⟨e, _, he⟩ := List.any_eq_true.mp h
  cases x with
  | old n => rfl
  | phi | inst | store | term | new => cases he

theorem filterMap_finish (l : List Node) :
    ((l.filter (fun x => !x.erased rs)).map (Node.replaceAll rs)).filterMap Node.named = l.filterMap Node.named := by
  induction l with
  | nil => rfl
  | cons x l ih =>
      rw [List.filter_cons]
      cases hx : x.erased rs with
      | true =>
          rw [if_neg (by simp), ih, List.filterMap_cons_none (named_of_erased hx)]
      | false =>
          rw [if_pos (by simp), List.map_cons, List.filterMap_cons, List.filterMap_cons, named_replaceAll, ih]

theorem named_finish (w : Walk) : w.finish.map named = w.blocks.map named := by
  rw [Walk.finish, foldl_replaceOld, List.map_map]
  apply List.map_congr_left
  intro b _
  exact congrArg (Prod.mk b.1) (filterMap_finish b.2)

theorem replaced_made (rs : List (Nat × Bool)) (n : Nat) : replaced rs (.made n) = .made n := by
  induction rs with
  | nil => rfl
  | cons e rs ih =>
      rw [replaced, List.foldl_cons, if_neg (by simp)]
      exact ih

theorem replaced_host {n : Nat} (h : (n, true) ∈ rs) : replaced rs (.host (bodyId n)) = .made n := by
  induction rs with
  | nil => cases h
  | cons e rs ih =>
      rw [replaced, List.foldl_cons]
      split
      next he =>
        have hn : e.1 = n := by
          have heq := he.2
          simp only [Ptr.host.injEq, bodyId, HostId.mk.injEq, Option.some.injEq, and_true] at heq
          exact heq.symm
        rw [hn]
        exact replaced_made rs n
      next he =>
        rcases List.mem_cons.mp h with rfl | h
        · exact absurd ⟨rfl, rfl⟩ he
        · exact ih h

theorem replaced_cases (rs : List (Nat × Bool)) (p : Ptr) : replaced rs p = p ∨ ∃ n, replaced rs p = .made n := by
  induction rs generalizing p with
  | nil => exact .inl rfl
  | cons e rs ih =>
      rw [replaced, List.foldl_cons]
      split
      next => exact .inr ⟨e.1, replaced_made rs e.1⟩
      next => exact ih p

theorem replaced_ne {n : Nat} (h : (n, true) ∈ rs) (p : Ptr) : replaced rs p ≠ .host (bodyId n) := by
  intro heq
  rcases replaced_cases rs p with hp | ⟨k, hk⟩
  · have hhost : p = .host (bodyId n) := hp.symm.trans heq
    rw [hhost, replaced_host h] at heq
    cases heq
  · rw [hk] at heq
    cases heq

theorem uses_map {ι κ : Type} (d u : ι → κ) (x : HNode ι) : (x.map d u).uses = x.uses.map u := by
  cases x with
  | phi p => simp [HNode.map, HNode.uses, Value.insts_mapInst, List.flatMap_map, List.map_flatMap]
  | inst i => exact i.op.insts_mapInst u
  | term y t => exact t.insts_mapInst u

def Node.Settled (rs : List (Nat × Bool)) (x : Node) : Prop := (∃ y, x = .new y) ∨ ∃ e ∈ rs, x = .old e.1

theorem settled_kept (l : List HInst) : ∀ x ∈ l.map kept, x.Settled rs := by
  intro x hx
  obtain ⟨i, _, rfl⟩ := List.mem_map.mp hx
  exact .inl ⟨_, rfl⟩

theorem settled_joined (n : Nat) (l : List HPhi) : ∀ x ∈ l.map (joined n), x.Settled rs := by
  intro x hx
  obtain ⟨i, _, rfl⟩ := List.mem_map.mp hx
  exact .inl ⟨_, rfl⟩

theorem settled_branch (x : HostId) (t : HTerm) : ∀ y ∈ [branch x t], y.Settled rs := by
  intro y hy
  rw [List.mem_singleton.mp hy]
  exact .inl ⟨_, rfl⟩

theorem settled_placed {P : Input} {i : GInst} {l : List HInst} (hrs : ∀ e ∈ stepReplaced P (i, .code l), e ∈ rs) :
    ∀ x ∈ placed P i l, x.Settled rs := by
  intro x hx
  rw [placed] at hx
  split at hx
  next hi =>
    rcases List.mem_append.mp hx with hx | hx
    · obtain ⟨j, _, rfl⟩ := List.mem_map.mp hx
      exact .inl ⟨_, rfl⟩
    · refine .inr ⟨(i.id, hasValue i), hrs _ ?_, List.mem_singleton.mp hx⟩
      simp [stepReplaced, hi]
  next => exact settled_kept l x hx

theorem settled_steps {P : Input} {b : Nat} {code : List Node} {qs : List (GInst × Piece)}
    (hcode : ∀ x ∈ code, x.Settled rs) (hrs : ∀ e ∈ qs.flatMap (stepReplaced P), e ∈ rs) :
    (∀ blk ∈ closed P b code qs, ∀ x ∈ blk.2, x.Settled rs) ∧ ∀ x ∈ opened P code qs, x.Settled rs := by
  induction qs generalizing code with
  | nil =>
      constructor
      · intro blk hblk
        cases hblk
      · exact hcode
  | cons q qs ih =>
      obtain ⟨i, p⟩ := q
      rw [List.flatMap_cons] at hrs
      obtain ⟨hi, hqs⟩ := List.forall_mem_append.mp hrs
      cases p with
      | code l => exact ih (List.forall_mem_append.mpr ⟨hcode, settled_placed hi⟩) hqs
      | split pre s =>
          obtain ⟨hclosed, hopened⟩ := ih (settled_joined i.id s.phi.toList) hqs
          refine ⟨?_, hopened⟩
          have hold : Node.Settled rs (.old i.id) := by
            refine .inr ⟨(i.id, s.phi.isSome), hi _ ?_, rfl⟩
            exact List.mem_singleton_self _
          simp only [closed, List.forall_mem_cons]
          refine ⟨?_, ?_, ?_, hclosed⟩
          · simp only [List.forall_mem_append]
            exact ⟨⟨⟨hcode, settled_kept pre⟩, settled_kept s.check⟩, settled_branch _ _⟩
          · exact List.forall_mem_append.mpr ⟨settled_kept s.left, settled_branch _ _⟩
          · refine List.forall_mem_append.mpr ⟨settled_kept s.right, ?_⟩
            exact List.forall_mem_cons.mpr ⟨hold, settled_branch _ _⟩

/-- All that is left in the end are finished instructions that use the replacements. -/
theorem settled_finish {w : Walk} (h : ∀ blk ∈ w.blocks, ∀ x ∈ blk.2, x.Settled w.toReplace) {blk : NodeBlock}
    (hblk : blk ∈ w.finish) {x : Node} (hx : x ∈ blk.2) :
    ∃ y, x = .new y ∧ ∀ n, (n, true) ∈ w.toReplace → .host (bodyId n) ∉ y.uses := by
  rw [Walk.finish, foldl_replaceOld] at hblk
  obtain ⟨c, hc, rfl⟩ := List.mem_map.mp hblk
  obtain ⟨z, hz, rfl⟩ := List.mem_map.mp hx
  obtain ⟨hz, hkeep⟩ := List.mem_filter.mp hz
  rcases h c hc z hz with ⟨y, rfl⟩ | ⟨e, he, rfl⟩
  · refine ⟨_, replaceAll_new _ y, ?_⟩
    intro n hn hmem
    rw [uses_map] at hmem
    obtain ⟨p, _, hp⟩ := List.mem_map.mp hmem
    exact replaced_ne hn p hp
  · have herased : (Node.old e.1).erased w.toReplace = true :=
      List.any_eq_true.mpr ⟨e, he, by simp [Node.isOld]⟩
    rw [herased] at hkeep
    cases hkeep

end Finish

section Made

variable {P : Input} {X : Copy}

def HNode.id {ι : Type} : HNode ι → ι
  | .phi p => p.id
  | .inst i => i.id
  | .term x _ => x

variable (P) in
def stepNodes (b : Nat) (code : List Node) (qs : List (GInst × Piece)) : List Node :=
  (closed P b code qs).flatMap Prod.snd ++ opened P code qs

theorem mem_stepNodes (b : Nat) {code : List Node} (qs : List (GInst × Piece)) {x : Node} (hx : x ∈ code) :
    x ∈ stepNodes P b code qs := by
  induction qs generalizing code with
  | nil => exact hx
  | cons q qs ih =>
      obtain ⟨i, p⟩ := q
      cases p with
      | code l => exact ih (List.mem_append_left _ hx)
      | split pre s =>
          rw [stepNodes, closed, List.flatMap_cons]
          simp [hx]

theorem stepNodes_split (b : Nat) (code : List Node) (i : GInst) (pre : List HInst) (s : Split)
    (qs : List (GInst × Piece)) {x : Node} (hx : x ∈ stepNodes P b (s.phi.toList.map (joined i.id)) qs) :
    x ∈ stepNodes P b code ((i, .split pre s) :: qs) := by
  rcases List.mem_append.mp hx with hx | hx
  · refine List.mem_append_left _ ?_
    rw [closed]
    simp only [List.flatMap_cons, List.mem_append]
    exact .inr (.inr (.inr hx))
  · exact List.mem_append_right _ hx

/-- The code for a call that is replaced defines what replaces it. -/
theorem made_of_code {i : GInst} {l : List HInst} (h : TakeOut.doInstruction P X i = .ok (.code l))
    (hi : replaces P i = true) (hv : hasValue i = true) : ∃ j ∈ l, j.id = bodyId i.id := by
  cases CallCopy.doInstruction_made h with
  | op hop _ => simp [replaces, hop] at hi
  | direct => exact ⟨_, List.mem_append_right _ (List.mem_singleton_self _), rfl⟩
  | @callback c code code' _ _ _ hop _ _ _ _ hcode =>
      obtain ⟨_, _, _, _, rfl⟩ := CallCopy.doCallback_eq_ok.mp hcode
      have hret : c.functionType.ret ≠ .void := by
        simpa [hasValue, hop] using hv
      let pad : HostId := ⟨some i.id, 1 + code.length + code'.length + 1⟩
      refine ⟨⟨bodyId i.id, .load c.functionType.ret (.inst pad)⟩, List.mem_append_right _ ?_, rfl⟩
      simp [callbackCode, hret, pad]

theorem made_steps {b : Nat} {code : List Node} {is : List GInst} {qs : List (GInst × Piece)} {n : Nat}
    (hqs : is.mapM (doStep P X) = .ok qs) (hn : (n, true) ∈ qs.flatMap (stepReplaced P)) :
    ∃ y, Node.new y ∈ stepNodes P b code qs ∧ y.id = .made n := by
  induction is generalizing qs code with
  | nil =>
      cases hqs
      cases hn
  | cons i is ih =>
      rw [List.mapM_cons] at hqs
      obtain ⟨⟨j, p⟩, hq, hqs⟩ := bind_eq_ok.mp hqs
      obtain ⟨qs', hqs', h⟩ := bind_eq_ok.mp hqs
      cases h
      obtain ⟨rfl, hp⟩ := doStep_ok hq
      rw [List.flatMap_cons] at hn
      cases p with
      | code l =>
          rcases List.mem_append.mp hn with hn | hn
          · rw [stepReplaced] at hn
            dsimp only at hn
            split at hn
            next hr =>
              have heq := List.mem_singleton.mp hn
              have hv : hasValue j = true := (congrArg Prod.snd heq).symm
              have hid : n = j.id := congrArg Prod.fst heq
              obtain ⟨k, hk, hkid⟩ := made_of_code hp hr hv
              have hplaced : madeFor j.id k ∈ placed P j l := by
                rw [placed, if_pos hr]
                exact List.mem_append_left _ (List.mem_map_of_mem hk)
              refine ⟨(HNode.inst k).map (defPtr j.id) .host, mem_stepNodes b qs' (List.mem_append_right _ hplaced), ?_⟩
              change defPtr j.id k.id = .made n
              rw [hkid, hid, defPtr, if_pos rfl]
            next => cases hn
          · have htail : ∃ y, Node.new y ∈ stepNodes P b (code ++ placed P j l) qs' ∧ y.id = .made n := ih hqs' hn
            exact htail
      | split pre s =>
          rcases List.mem_append.mp hn with hn | hn
          · have heq := List.mem_singleton.mp hn
            have hid : n = j.id := congrArg Prod.fst heq
            have hsome : s.phi.isSome = true := (congrArg Prod.snd heq).symm
            obtain ⟨ph, hph⟩ := Option.isSome_iff_exists.mp hsome
            obtain ⟨c, k, callee, args, _, hs⟩ := doInstruction_split hp
            have hphi := doFcpCm_phi hs
            rw [hph] at hphi
            have hphid : ph.id = bodyId j.id := by
              split at hphi
              next => cases hphi
              next =>
                cases hphi
                rfl
            refine ⟨(HNode.phi ph).map (defPtr j.id) .host, ?_, ?_⟩
            · apply stepNodes_split
              apply mem_stepNodes
              rw [hph]
              exact List.mem_singleton_self _
            · change defPtr j.id ph.id = .made n
              rw [hphid, hid, defPtr, if_pos rfl]
          · have htail : ∃ y, Node.new y ∈ stepNodes P b (s.phi.toList.map (joined j.id)) qs' ∧ y.id = .made n :=
              ih hqs' hn
            obtain ⟨y, hy, hid⟩ := htail
            exact ⟨y, stepNodes_split b code j pre s qs' hy, hid⟩

theorem made_finish {w : Walk} {y : HNode Ptr} {blk : NodeBlock} (hblk : blk ∈ w.blocks) (hy : .new y ∈ blk.2) :
    ∃ c ∈ w.finish, ∃ z, .new z ∈ c.2 ∧ z.id = y.id := by
  rw [Walk.finish, foldl_replaceOld]
  refine ⟨_, List.mem_map_of_mem hblk, y.map id (replaced w.toReplace), ?_, ?_⟩
  · rw [← replaceAll_new]
    apply List.mem_map_of_mem
    refine List.mem_filter.mpr ⟨hy, ?_⟩
    have hkeep : (Node.new y).erased w.toReplace = false := by
      apply List.any_eq_false.mpr
      intro e _
      exact Bool.false_ne_true
    rw [hkeep]
    rfl
  · cases y <;> rfl

end Made

section Visits

variable {P : Input} {X : Copy}

def Visit.clonedId : Visit → Option Nat
  | .cloned n => some n
  | _ => none

def Visit.storeId : Visit → Option Nat
  | .store n => some n
  | _ => none

theorem clonedId_stepVisits (qs : List (GInst × Piece)) :
    (qs.flatMap stepVisits).filterMap Visit.clonedId = qs.map (fun q => q.1.id) := by
  induction qs with
  | nil => rfl
  | cons q qs ih =>
      obtain ⟨i, p⟩ := q
      rw [List.flatMap_cons, List.filterMap_append, ih]
      cases p with
      | code l => rfl
      | split pre s => cases hs : s.phi <;> simp [stepVisits, hs, Visit.clonedId]

theorem storeId_stepVisits (qs : List (GInst × Piece)) : (qs.flatMap stepVisits).filterMap Visit.storeId = [] := by
  induction qs with
  | nil => rfl
  | cons q qs ih =>
      obtain ⟨i, p⟩ := q
      rw [List.flatMap_cons, List.filterMap_append, ih]
      cases p with
      | code l => rfl
      | split pre s => cases hs : s.phi <;> simp [stepVisits, hs, Visit.storeId]

theorem clonedId_visits {b : GBlock} {r : BlockWork} (h : walkBlock P X b = .ok r) :
    (r.visits P b).filterMap Visit.clonedId = b.phis.map Phi.id ++ b.insts.map Inst.id ++ [b.termId] := by
  have hphis : (b.phis.map (fun p => Visit.cloned p.id)).filterMap Visit.clonedId = b.phis.map Phi.id := by
    rw [List.filterMap_map, ← List.filterMap_eq_map]
    rfl
  have hids : r.steps.map (fun q => q.1.id) = b.insts.map Inst.id := by
    rw [← steps_fst (walkBlock_steps h), List.map_map]
    rfl
  have hterm : (termVisits P b.termId b.term).filterMap Visit.clonedId = [b.termId] := by
    rw [termVisits]
    split <;> rfl
  rw [BlockWork.visits, List.filterMap_append, List.filterMap_append, clonedId_stepVisits, hphis, hids, hterm]

theorem storeId_visits (b : GBlock) (r : BlockWork) :
    (r.visits P b).filterMap Visit.storeId = if storesValue P b.term then [b.termId] else [] := by
  have hphis : (b.phis.map (fun p => Visit.cloned p.id)).filterMap Visit.storeId = [] := by
    rw [List.filterMap_map]
    exact List.filterMap_eq_nil_iff.mpr (fun _ _ => rfl)
  rw [BlockWork.visits, List.filterMap_append, List.filterMap_append, storeId_stepVisits, hphis, termVisits]
  split <;> rfl

/-- What `do_instruction` is called with: an instruction of the body, a store made of
a return, or a phi that `do_fcp_cm` has made. -/
inductive Expected (P : Input) (b : GBlock) : Visit → Prop
  | cloned (n : Nat) : Expected P b (.cloned n)
  | store (h : storesValue P b.term = true) : Expected P b (.store b.termId)
  | join (i : GInst) (hi : i ∈ b.insts) (h : splits P i = true) : Expected P b (.join (.made i.id))

theorem expected_visits {b : GBlock} {r : BlockWork} (h : walkBlock P X b = .ok r) {v : Visit}
    (hv : v ∈ r.visits P b) : Expected P b v := by
  rcases List.mem_append.mp hv with hv | hv
  · rcases List.mem_append.mp hv with hv | hv
    · obtain ⟨p, _, rfl⟩ := List.mem_map.mp hv
      exact .cloned p.id
    · obtain ⟨⟨i, p⟩, hq, hv⟩ := List.mem_flatMap.mp hv
      obtain ⟨j, hj, hstep⟩ := (mapM_ok_mem (walkBlock_steps h)).2 (i, p) hq
      obtain ⟨rfl, hp⟩ := doStep_ok hstep
      rcases List.mem_cons.mp hv with rfl | hv
      · exact .cloned _
      · cases p with
        | code l => cases hv
        | split pre s =>
            obtain ⟨ph, hph, rfl⟩ := List.mem_map.mp hv
            obtain ⟨c, k, callee, args, hc, hs⟩ := doInstruction_split hp
            rw [Option.mem_toList, doFcpCm_phi hs] at hph
            split at hph
            next => cases hph
            next =>
              cases hph
              have hdef : defPtr i.id (bodyId i.id) = .made i.id := if_pos rfl
              rw [hdef]
              exact .join i hj hc.splits
  · rw [termVisits] at hv
    split at hv
    next hs =>
      simp only [List.cons_append, List.nil_append, List.mem_cons, List.not_mem_nil, or_false] at hv
      rcases hv with rfl | rfl
      · exact .store hs
      · exact .cloned _
    next =>
      rw [List.nil_append, List.mem_singleton] at hv
      rw [hv]
      exact .cloned _

end Visits

section Walk

variable {P : Input} {X : Copy} {f : GFunction} {es : List ((Nat × GBlock) × BlockWork)}

theorem walkBlock_pieces {b : GBlock} {r : BlockWork} (h : walkBlock P X b = .ok r) :
    b.insts.mapM (TakeOut.doInstruction P X) = .ok (r.steps.map Prod.snd) := by
  rw [mapM_doInstruction, walkBlock_steps h]
  rfl

/-- In the end each branch leads to where the copy of its target is entered. -/
theorem resolveSteps_eq (hes : f.blocks.mapM (walkOf P X) = .ok es) (hlabels : (f.blocks.map Prod.fst).Nodup) :
    resolveSteps es = resolve P f := by
  have hfst : es.map (fun e => e.1.1) = f.blocks.map Prod.fst := by
    rw [← walkOf_fst hes, List.map_map]
    rfl
  funext l
  cases l with
  | body d =>
      by_cases hd : d ∈ f.blocks.map Prod.fst
      · rw [← hfst] at hd
        obtain ⟨e, he, rfl⟩ := List.mem_map.mp hd
        rw [resolveSteps_body (hfst ▸ hlabels) he]
        obtain ⟨b, hb, hwalk⟩ := (mapM_ok_mem hes).2 e he
        obtain ⟨hb', hr⟩ := walkOf_ok hwalk
        have hmem : (e.1.1, e.1.2) ∈ f.blocks := by
          rw [hb']
          exact hb
        have hblock : f.block? e.1.1 = some e.1.2 := OrderedMap.lookup_eq_some_of_mem hlabels hmem
        rw [← hb'] at hr
        exact (entryLabel_eq hblock (walkBlock_pieces hr)).symm
      · have hnone : f.block? d = none := by
          apply Option.eq_none_iff_forall_ne_some.mpr
          intro blk hblk
          exact hd (List.mem_map_of_mem (OrderedMap.mem_of_lookup hblk))
        rw [resolveSteps_of_ne]
        · simp [resolve, entryLabel, hnone]
        · intro e he heq
          apply hd
          rw [← hfst, HostBlock.body.inj heq]
          exact List.mem_map_of_mem he
  | entry | top | left | right =>
      apply resolveSteps_of_ne
      intro e _ heq
      cases heq

theorem split_replaces {i : GInst} {pre : List HInst} {s : Split}
    (h : TakeOut.doInstruction P X i = .ok (.split pre s)) : replaces P i = true ∧ s.phi.isSome = hasValue i := by
  obtain ⟨c, k, callee, args, hc, hs⟩ := doInstruction_split h
  constructor
  · simp [replaces, hc.call, hc.route]
  · rw [doFcpCm_phi hs, hasValue, hc.call]
    by_cases hret : c.functionType.ret = .void <;> simp [hret]

theorem stepReplaced_eq {i : GInst} {q : GInst × Piece} (h : doStep P X i = .ok q) :
    stepReplaced P q = if replaces P i then [(i.id, hasValue i)] else [] := by
  obtain ⟨p, hp, rfl⟩ := map_eq_ok.mp h
  cases p with
  | code l => rfl
  | split pre s =>
      obtain ⟨hreplaces, hvalue⟩ := split_replaces hp
      rw [if_pos hreplaces, ← hvalue]
      rfl

theorem mem_stepReplaced {b : GBlock} {r : BlockWork} (h : walkBlock P X b = .ok r) {e : Nat × Bool} :
    e ∈ r.steps.flatMap (stepReplaced P) ↔ ∃ i ∈ b.insts, replaces P i = true ∧ e = (i.id, hasValue i) := by
  obtain ⟨hto, hfrom⟩ := mapM_ok_mem (walkBlock_steps h)
  rw [List.mem_flatMap]
  constructor
  · rintro ⟨q, hq, he⟩
    obtain ⟨i, hi, hstep⟩ := hfrom q hq
    rw [stepReplaced_eq hstep] at he
    split at he
    next hr => exact ⟨i, hi, hr, List.mem_singleton.mp he⟩
    next => cases he
  · rintro ⟨i, hi, hr, rfl⟩
    obtain ⟨q, hq, hstep⟩ := hto i hi
    refine ⟨q, hq, ?_⟩
    rw [stepReplaced_eq hstep, if_pos hr]
    exact List.mem_singleton_self _

variable (P f) in
/-- What holds when the walk is over: which instructions were visited, that the
function is the one put together from the pieces, and that every use of a call that was
replaced is one of its replacement. -/
structure Rewritten (w : Walk) (blocks : List (HostBlock × HBlock)) : Prop where
  once : w.visits.filterMap Visit.clonedId = Module.ids f
  stores : w.visits.filterMap Visit.storeId =
    (f.blocks.filter (fun b => storesValue P b.2.term)).map (fun b => b.2.termId)
  expected : ∀ v ∈ w.visits, ∃ b ∈ f.blocks, Expected P b.2 v
  blocks : w.finish.map named = blocks.map hostNodes
  toReplace : ∀ e, e ∈ w.toReplace ↔ ∃ b ∈ f.blocks, ∃ i ∈ b.2.insts, replaces P i = true ∧ e = (i.id, hasValue i)
  finished : ∀ blk ∈ w.finish, ∀ x ∈ blk.2, ∃ y, x = .new y ∧
    ∀ n, (n, true) ∈ w.toReplace → .host (bodyId n) ∉ y.uses
  made : ∀ n, (n, true) ∈ w.toReplace → ∃ blk ∈ w.finish, ∃ y, .new y ∈ blk.2 ∧ y.id = .made n

theorem Finished.blocks_eq {w₀ w : Walk} {R : HostBlock → HostBlock} (h : Finished P w₀ R es w) (hbefore : w₀.before = []) :
    w.blocks = (.entry, w₀.entry ++ (es.flatMap (fun e => e.2.phis.flatMap Prod.fst)).map kept ++
      [w₀.entryTerm.relabel (resolveSteps es)]) :: workBlocks P (resolveSteps es ∘ R) es := by
  have hblocks := h.blocks
  rw [hbefore, List.map_nil, List.nil_append] at hblocks
  rw [Walk.blocks, h.entry, h.entryTerm, h.rest, h.after, List.append_nil, List.cons_append, hblocks]

theorem start_atBlocks {g : Nat} (hg : P.module.function? g = some f) {b : Nat × GBlock} {bs : List (Nat × GBlock)}
    (hf : f.blocks = b :: bs) (entry : List HInst) : AtBlocks P (start P entry b bs) b bs id := by
  have hids : List.Sublist (instIds f.blocks) (Module.ids f) := by
    rw [instIds, Module.ids]
    induction f.blocks with
    | nil => exact List.Sublist.refl _
    | cons c cs ih =>
        rw [List.flatMap_cons, List.flatMap_cons]
        apply List.Sublist.append _ ih
        exact (List.sublist_append_right _ _).trans (List.sublist_append_left _ _)
  constructor
  · rfl
  · rfl
  · rw [relabelBlock_id]
    rfl
  · simp only [relabelBlock_id]
    rfl
  · intro n _ blk hblk
    cases hblk
  · rw [← hf]
    exact Module.labels_nodup hg
  · rw [← hf]
    exact (Module.ids_nodup hg).sublist hids

theorem workBlocks_named {b : Nat × GBlock} {r : BlockWork} (h : walkBlock P X b.2 = .ok r) :
    (closed P b.1 r.phiNodes r.steps ++ [(HostBlock.body b.1, r.lastNodes P b.2.termId (resolve P f))]).map named =
      (copyBlock P f (b, r)).map hostNodes := by
  have hnodes : r.phiNodes.filterMap Node.named = (r.phis.map Prod.snd).map .phi ++ ([] : List HInst).map .inst := by
    rw [List.map_nil, List.append_nil, ← named_keptPhi, List.map_map]
    rfl
  have hlast : (r.code.map kept ++ [branch (bodyId b.2.termId) (r.term.mapLabel (resolve P f))]).filterMap Node.named =
      r.code.map .inst ++ [.term (bodyId b.2.termId) (r.term.mapLabel (resolve P f))] := by
    rw [List.filterMap_append, named_kept, named_branch]
  rw [BlockWork.lastNodes, List.append_assoc]
  exact named_closed (walkBlock_steps h) hnodes hlast

theorem settled_blocks {rs : List (Nat × Bool)} {R : HostBlock → HostBlock}
    (hrs : ∀ e ∈ es, ∀ p ∈ e.2.steps.flatMap (stepReplaced P), p ∈ rs) :
    ∀ blk ∈ workBlocks P R es, ∀ x ∈ blk.2, x.Settled rs := by
  intro blk hblk
  obtain ⟨e, he, hblk⟩ := List.mem_flatMap.mp hblk
  have hphis : ∀ x ∈ e.2.phiNodes, x.Settled rs := by
    intro x hx
    obtain ⟨q, _, rfl⟩ := List.mem_map.mp hx
    exact .inl ⟨_, rfl⟩
  obtain ⟨hclosed, hopened⟩ := settled_steps (b := e.1.1) hphis (hrs e he)
  rcases List.mem_append.mp hblk with hblk | hblk
  · exact hclosed blk hblk
  · rw [List.mem_singleton.mp hblk]
    simp only [BlockWork.lastNodes, List.forall_mem_append]
    exact ⟨⟨hopened, settled_kept _⟩, settled_branch _ _⟩

theorem made_blocks {e : (Nat × GBlock) × BlockWork} (he : e ∈ es) (hr : walkBlock P X e.1.2 = .ok e.2) {n : Nat}
    (hn : (n, true) ∈ e.2.steps.flatMap (stepReplaced P)) (R : HostBlock → HostBlock) :
    ∃ blk ∈ workBlocks P R es, ∃ y, .new y ∈ blk.2 ∧ y.id = .made n := by
  obtain ⟨y, hy, hid⟩ := made_steps (b := e.1.1) (walkBlock_steps hr) hn
  rcases List.mem_append.mp hy with hy | hy
  · obtain ⟨blk, hblk, hy⟩ := List.mem_flatMap.mp hy
    exact ⟨blk, List.mem_flatMap.mpr ⟨e, he, List.mem_append_left _ hblk⟩, y, hy, hid⟩
  · refine ⟨_, List.mem_flatMap.mpr ⟨e, he, List.mem_append_right _ (List.mem_singleton_self _)⟩, y, ?_, hid⟩
    rw [BlockWork.lastNodes, List.append_assoc]
    exact List.mem_append_left _ hy

theorem map_filter_eq_flatMap {α β : Type} (p : α → Bool) (g : α → β) (l : List α) :
    l.flatMap (fun a => if p a then [g a] else []) = (l.filter p).map g := by
  induction l with
  | nil => rfl
  | cons a l ih =>
      rw [List.flatMap_cons, ih, List.filter_cons]
      split <;> rfl

theorem rewritten (hes : f.blocks.mapM (walkOf P X) = .ok es) (hlabels : (f.blocks.map Prod.fst).Nodup)
    {b : Nat × GBlock} {bs : List (Nat × GBlock)} (entry : List HInst) {w : Walk}
    (h : Finished P (start P entry b bs) id es w) :
    Rewritten P f w ((.entry, entryBlock P f entry b.1 es) :: es.flatMap (copyBlock P f)) := by
  have hfst := walkOf_fst hes
  have hwork : ∀ e ∈ es, walkBlock P X e.1.2 = .ok e.2 := by
    intro e he
    obtain ⟨c, _, hc⟩ := (mapM_ok_mem hes).2 e he
    obtain ⟨rfl, hr⟩ := walkOf_ok hc
    exact hr
  have hres := resolveSteps_eq hes hlabels
  have hblocks := h.blocks_eq rfl
  rw [hres] at hblocks
  have hreplace : w.toReplace = es.flatMap (fun e => e.2.steps.flatMap (stepReplaced P)) := h.toReplace
  have hvisits : w.visits = es.flatMap (fun e => e.2.visits P e.1.2) := h.visits
  constructor
  · rw [hvisits, Module.ids, ← hfst, List.filterMap_flatMap, List.flatMap_map]
    apply List.flatMap_congr
    intro e he
    exact clonedId_visits (hwork e he)
  · rw [hvisits, ← hfst, ← map_filter_eq_flatMap, List.filterMap_flatMap, List.flatMap_map]
    apply List.flatMap_congr
    intro e _
    exact storeId_visits e.1.2 e.2
  · intro v hv
    rw [hvisits] at hv
    obtain ⟨e, he, hv⟩ := List.mem_flatMap.mp hv
    refine ⟨e.1, ?_, expected_visits (hwork e he) hv⟩
    rw [← hfst]
    exact List.mem_map_of_mem he
  · have hentry : named (.entry, (start P entry b bs).entry ++
        (es.flatMap (fun e => e.2.phis.flatMap Prod.fst)).map kept ++
          [(start P entry b bs).entryTerm.relabel (resolve P f)]) =
        hostNodes (.entry, entryBlock P f entry b.1 es) := by
      have hbr : (start P entry b bs).entryTerm.relabel (resolve P f) =
          branch ⟨none, 0⟩ (.br (entryLabel P f b.1)) := relabel_branch _ _ _
      rw [hbr, named, hostNodes, List.filterMap_append, List.filterMap_append, named_branch]
      simp only [start, named_kept, entryBlock, List.map_append, List.map_nil, List.nil_append]
    rw [named_finish, hblocks, List.map_cons, List.map_cons, hentry, workBlocks, List.map_flatMap, List.map_flatMap]
    congr 1
    apply List.flatMap_congr
    intro e he
    exact workBlocks_named (hwork e he)
  · intro p
    rw [hreplace, List.mem_flatMap]
    constructor
    · rintro ⟨e, he, hp⟩
      refine ⟨e.1, ?_, (mem_stepReplaced (hwork e he)).mp hp⟩
      rw [← hfst]
      exact List.mem_map_of_mem he
    · rintro ⟨c, hc, hp⟩
      rw [← hfst] at hc
      obtain ⟨e, he, rfl⟩ := List.mem_map.mp hc
      exact ⟨e, he, (mem_stepReplaced (hwork e he)).mpr hp⟩
  · intro blk hblk x hx
    apply settled_finish _ hblk hx
    intro c hc
    rw [hblocks] at hc
    rcases List.mem_cons.mp hc with rfl | hc
    · simp only [List.forall_mem_append]
      refine ⟨⟨settled_kept _, settled_kept _⟩, ?_⟩
      exact settled_branch ⟨none, 0⟩ (.br (entryLabel P f b.1))
    · apply settled_blocks _ c hc
      intro e he p hp
      rw [hreplace]
      exact List.mem_flatMap.mpr ⟨e, he, hp⟩
  · intro n hn
    rw [hreplace] at hn
    obtain ⟨e, he, hn⟩ := List.mem_flatMap.mp hn
    obtain ⟨blk, hblk, y, hy, hid⟩ := made_blocks he (hwork e he) hn (resolve P f ∘ id)
    have hmem : blk ∈ w.blocks := by
      rw [hblocks]
      exact List.mem_cons_of_mem _ hblk
    obtain ⟨c, hc, z, hz, hzid⟩ := made_finish hmem hy
    exact ⟨c, hc, z, hz, hzid.trans hid⟩

theorem leads_final {w w' : Walk} (h : Leads P X w (.ok w')) (hrest : w'.rest = []) (hafter : w'.after = []) :
    ∃ k, ∀ n ≥ k, run P X n w = some (.ok w') := by
  obtain ⟨k, hk⟩ := h
  refine ⟨k + 1, ?_⟩
  intro n hn
  obtain ⟨j, rfl⟩ := Nat.exists_eq_add_of_le hn
  have hsum : k + 1 + j = j + 1 + k := by omega
  rw [hsum, hk, run, hrest, hafter]

theorem leads_error {w : Walk} {e : Error} (h : Leads P X w (.error e)) : ∃ k, ∀ n ≥ k, run P X n w = some (.error e) := by
  obtain ⟨k, hk⟩ := h
  refine ⟨k, ?_⟩
  intro n hn
  obtain ⟨j, rfl⟩ := Nat.exists_eq_add_of_le hn
  rw [Nat.add_comm, hk]

/-- The walk ends, with the error of the translation or with the function that the
translation of the blocks one by one gives. -/
theorem run_body {g : Nat} (hg : P.module.function? g = some f) {b : Nat × GBlock} {bs : List (Nat × GBlock)}
    (hf : f.blocks = b :: bs) (entry : List HInst) :
    (∃ k e, doBody P X f entry = .error e ∧ ∀ n ≥ k, run P X n (start P entry b bs) = some (.error e)) ∨
    ∃ k es w, f.blocks.mapM (walkOf P X) = .ok es ∧
      doBody P X f entry = .ok ((.entry, entryBlock P f entry b.1 es) :: es.flatMap (copyBlock P f)) ∧
        (∀ n ≥ k, run P X n (start P entry b bs) = some (.ok w)) ∧
          Rewritten P f w ((.entry, entryBlock P f entry b.1 es) :: es.flatMap (copyBlock P f)) := by
  have harrives := arrives (X := X) (start_atBlocks hg hf entry)
  rw [doBody_eq hf entry, hf]
  cases hes : (b :: bs).mapM (walkOf P X) with
  | error e =>
      rw [hes] at harrives
      obtain ⟨k, hk⟩ := leads_error harrives
      exact .inl ⟨k, e, rfl, hk⟩
  | ok es =>
      rw [hes] at harrives
      obtain ⟨w, hw, hfin⟩ := harrives
      obtain ⟨k, hk⟩ := leads_final hw hfin.rest hfin.after
      rw [← hf] at hes
      exact .inr ⟨k, es, w, rfl, rfl, hk, rewritten hes (Module.labels_nodup hg) entry hfin⟩

end Walk

end Comulator.BlockWalk
