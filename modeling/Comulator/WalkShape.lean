import Mathlib.Data.List.Flatten
import Comulator.ConstExpand
import Comulator.WalkResult

namespace Comulator.BlockWalk

open Fallible Types Ir TypeHash Symtbl HostIr TakeOut FcpCmSplit

section Graph

variable {γ ι β : Type} [DecidableEq β]

def edges (blocks : List (β × Block γ ι β)) : List (β × β) :=
  blocks.flatMap (fun b => b.2.term.labels.map (fun l => (b.1, l)))

def sources (es : List (β × β)) (l : β) : List β := (es.filter (fun e => e.2 = l)).map Prod.fst

/-- `llvm::predecessors`, where a block that branches to another in two ways counts
twice. -/
def predecessors (blocks : List (β × Block γ ι β)) (l : β) : List β := sources (edges blocks) l

def PhisMatch (blocks : List (β × Block γ ι β)) : Prop :=
  ∀ b ∈ blocks, ∀ p ∈ b.2.phis, (p.incoming.map Prod.snd).Perm (predecessors blocks b.1)

omit [DecidableEq β] in
theorem edges_cons (b : β × Block γ ι β) (bs : List (β × Block γ ι β)) :
    edges (b :: bs) = b.2.term.labels.map (fun l => (b.1, l)) ++ edges bs := rfl

theorem sources_append (es es' : List (β × β)) (l : β) : sources (es ++ es') l = sources es l ++ sources es' l := by
  rw [sources, List.filter_append, List.map_append]
  rfl

theorem sources_flatMap {α : Type} (g : α → List (β × β)) (as : List α) (l : β) :
    sources (as.flatMap g) l = as.flatMap (fun a => sources (g a) l) := by
  induction as with
  | nil => rfl
  | cons a as ih => rw [List.flatMap_cons, sources_append, ih, List.flatMap_cons]

theorem sources_eq_nil {es : List (β × β)} {l : β} (h : ∀ e ∈ es, e.2 ≠ l) : sources es l = [] := by
  rw [sources, List.map_eq_nil_iff, List.filter_eq_nil_iff]
  intro e he
  simpa using h e he

theorem sources_map {α : Type} (a : β) (k : α → β) (xs : List α) (l : β) :
    sources (xs.map (fun x => (a, k x))) l = (xs.filter (fun x => k x = l)).map (fun _ => a) := by
  rw [sources, List.filter_map, List.map_map]
  rfl

end Graph

section Assemble

def splitIds : List Piece → List Nat
  | [] => []
  | .code _ :: ps => splitIds ps
  | .split _ s :: ps => s.call :: splitIds ps

def joins (b : Nat) : List Piece → List (Nat × HostBlock)
  | [] => []
  | .code _ :: ps => joins b ps
  | .split _ s :: ps => (s.call, nextLabel b ps) :: joins b ps

def splitEdges (p : Nat × HostBlock) : List (HostBlock × HostBlock) :=
  [(.top p.1, .left p.1), (.top p.1, .right p.1), (.left p.1, p.2), (.right p.1, p.2)]

theorem edges_assemble (b : Nat) (t : HostId) (term : HTerm) (phis : List HPhi) (code : List HInst) (ps : List Piece) :
    edges (assemble b t term phis code ps) =
      (joins b ps).flatMap splitEdges ++ term.labels.map (fun l => (.body b, l)) := by
  induction ps generalizing phis code with
  | nil => simp [assemble, edges, joins]
  | cons p ps ih =>
      cases p with
      | code l => exact ih phis (code ++ l)
      | split pre s =>
          rw [assemble, edges_cons, edges_cons, edges_cons, ih, joins, List.flatMap_cons]
          rfl

/-- The blocks from the one where a block is entered on. -/
theorem nextLabel_joins (b : Nat) (ps : List Piece) :
    nextLabel b ps :: (joins b ps).map Prod.snd = (splitIds ps).map .top ++ [.body b] := by
  induction ps with
  | nil => rfl
  | cons p ps ih =>
      cases p with
      | code l => exact ih
      | split pre s => rw [nextLabel, joins, splitIds, List.map_cons, List.map_cons, ih, List.cons_append]

/-- A block with phis is where the copy is entered, or where the two ways join. -/
theorem phis_assemble {b : Nat} {t : HostId} {term : HTerm} {phis : List HPhi} {code : List HInst} {ps : List Piece}
    {blk : HostBlock × HBlock} (hblk : blk ∈ assemble b t term phis code ps) {q : HPhi} (hq : q ∈ blk.2.phis) :
    blk.1 = nextLabel b ps ∧ q ∈ phis ∨
      ∃ pre s, Piece.split pre s ∈ ps ∧ (s.call, blk.1) ∈ joins b ps ∧ s.phi = some q := by
  induction ps generalizing phis code with
  | nil =>
      rw [assemble, List.mem_singleton] at hblk
      subst hblk
      exact .inl ⟨rfl, hq⟩
  | cons p ps ih =>
      cases p with
      | code l =>
          rcases ih hblk with h | ⟨pre, s, hs, hjoin, hphi⟩
          · exact .inl h
          · exact .inr ⟨pre, s, List.mem_cons_of_mem _ hs, hjoin, hphi⟩
      | split pre s =>
          simp only [assemble, List.mem_cons] at hblk
          rcases hblk with rfl | rfl | rfl | hblk
          · exact .inl ⟨rfl, hq⟩
          · cases hq
          · cases hq
          · rcases ih hblk with ⟨hlabel, hphi⟩ | ⟨pre', s', hs, hjoin, hphi⟩
            · refine .inr ⟨pre, s, List.mem_cons_self, ?_, Option.mem_toList.mp hphi⟩
              rw [joins, hlabel]
              exact List.mem_cons_self
            · exact .inr ⟨pre', s', List.mem_cons_of_mem _ hs, List.mem_cons_of_mem _ hjoin, hphi⟩

theorem assemble_head (b : Nat) (t : HostId) (term : HTerm) (phis : List HPhi) (code : List HInst) (ps : List Piece) :
    ∃ blk tail, assemble b t term phis code ps = (nextLabel b ps, blk) :: tail ∧ blk.phis = phis := by
  induction ps generalizing phis code with
  | nil => exact ⟨_, _, rfl, rfl⟩
  | cons p ps ih =>
      cases p with
      | code l => exact ih phis (code ++ l)
      | split pre s => exact ⟨_, _, rfl, rfl⟩

/-- The blocks for a call that splits: the check, the two ways, and the block where
they join. -/
theorem assemble_split (b : Nat) (t : HostId) (term : HTerm) (phis : List HPhi) (code : List HInst) {ps : List Piece}
    {pre : List HInst} {s : Split} (hs : Piece.split pre s ∈ ps) : ∃ top join next,
      (s.call, next) ∈ joins b ps ∧
      (HostBlock.top s.call, top) ∈ assemble b t term phis code ps ∧
      (HostBlock.left s.call, (⟨[], s.left, ⟨some s.call, 0⟩, .br next⟩ : HBlock)) ∈ assemble b t term phis code ps ∧
      (HostBlock.right s.call, (⟨[], s.right, ⟨some s.call, 0⟩, .br next⟩ : HBlock)) ∈ assemble b t term phis code ps ∧
      (next, join) ∈ assemble b t term phis code ps ∧
      pre ++ s.check <:+ top.insts ∧ top.term = .condBr s.cond (.left s.call) (.right s.call) ∧
      join.phis = s.phi.toList := by
  induction ps generalizing phis code with
  | nil => cases hs
  | cons p ps ih =>
      cases p with
      | code l =>
          rcases List.mem_cons.mp hs with h | hs
          · cases h
          · exact ih phis (code ++ l) hs
      | split pre' s' =>
          rcases List.mem_cons.mp hs with h | hs
          · cases h
            obtain ⟨join, tail, htail, hphis⟩ := assemble_head b t term s.phi.toList [] ps
            refine ⟨_, join, nextLabel b ps, List.mem_cons_self, List.mem_cons_self,
              List.mem_cons_of_mem _ List.mem_cons_self,
              List.mem_cons_of_mem _ (List.mem_cons_of_mem _ List.mem_cons_self), ?_, ?_, rfl, hphis⟩
            · rw [assemble, htail]
              simp
            · refine ⟨code, ?_⟩
              rw [List.append_assoc]
          · obtain ⟨top, join, next, hjoin, htop, hleft, hright, hnext, hfacts⟩ := ih s'.phi.toList [] hs
            have hin : ∀ {x : HostBlock × HBlock}, x ∈ assemble b t term s'.phi.toList [] ps →
                x ∈ assemble b t term phis code (.split pre' s' :: ps) := by
              intro x hx
              rw [assemble]
              simp [hx]
            exact ⟨top, join, next, List.mem_cons_of_mem _ hjoin, hin htop, hin hleft, hin hright, hin hnext, hfacts⟩

def isSide : HostBlock → Bool
  | .left _ | .right _ => true
  | _ => false

def onPath : Piece → List HInst
  | .code l => l
  | .split pre s => pre ++ s.check

theorem insts_assemble (b : Nat) (t : HostId) (term : HTerm) (phis : List HPhi) (code : List HInst) (ps : List Piece) :
    ((assemble b t term phis code ps).filter (fun c => !isSide c.1)).flatMap (fun c => c.2.insts) =
      code ++ ps.flatMap onPath := by
  induction ps generalizing phis code with
  | nil => simp [assemble, isSide]
  | cons p ps ih =>
      cases p with
      | code l =>
          rw [List.flatMap_cons, ← List.append_assoc]
          exact ih phis (code ++ l)
      | split pre s =>
          have htail := ih s.phi.toList []
          rw [List.nil_append] at htail
          have htop : isSide (.top s.call) = false := rfl
          have hleft : isSide (.left s.call) = true := rfl
          have hright : isSide (.right s.call) = true := rfl
          simp [assemble, htop, hleft, hright, onPath, htail]

theorem assemble_last (b : Nat) (t : HostId) (term : HTerm) (phis : List HPhi) (code : List HInst) (ps : List Piece) :
    ((assemble b t term phis code ps).getLast?).map (fun c => (c.1, c.2.term)) = some (HostBlock.body b, term) := by
  induction ps generalizing phis code with
  | nil => rfl
  | cons p ps ih =>
      cases p with
      | code l => exact ih phis (code ++ l)
      | split pre s =>
          obtain ⟨join, tail, htail, _⟩ := assemble_head b t term s.phi.toList [] ps
          have hlast := ih s.phi.toList []
          rw [htail] at hlast
          simp only [assemble, htail, List.getLast?_cons_cons]
          exact hlast

end Assemble

section Labels

variable {P : Input} {X : Copy} {f : GFunction} {es : List ((Nat × GBlock) × BlockWork)}

def workPieces (e : (Nat × GBlock) × BlockWork) : List Piece := e.2.steps.map Prod.snd ++ [.code e.2.code]

def workLabels (e : (Nat × GBlock) × BlockWork) : List HostBlock :=
  nextLabel e.1.1 (workPieces e) :: (joins e.1.1 (workPieces e)).map Prod.snd

theorem splitIds_sublist {is : List GInst} {qs : List (GInst × Piece)} (h : is.mapM (doStep P X) = .ok qs)
    (l : List HInst) : List.Sublist (splitIds (qs.map Prod.snd ++ [.code l])) (is.map Inst.id) := by
  induction is generalizing qs with
  | nil =>
      cases h
      exact List.Sublist.refl _
  | cons i is ih =>
      rw [List.mapM_cons] at h
      obtain ⟨q, hq, h⟩ := bind_eq_ok.mp h
      obtain ⟨qs', hqs, h⟩ := bind_eq_ok.mp h
      cases h
      obtain ⟨p, hp, rfl⟩ := map_eq_ok.mp hq
      cases p with
      | code l' => exact (ih hqs).cons _
      | split pre s =>
          have hcall : s.call = i.id := split_call hp
          rw [List.map_cons, List.cons_append, splitIds, hcall, List.map_cons]
          exact (ih hqs).cons_cons _

theorem work_of_mem (hes : f.blocks.mapM (walkOf P X) = .ok es) {e : (Nat × GBlock) × BlockWork} (he : e ∈ es) :
    e.1 ∈ f.blocks ∧ walkBlock P X e.1.2 = .ok e.2 := by
  obtain ⟨c, hc, hwalk⟩ := (mapM_ok_mem hes).2 e he
  obtain ⟨rfl, hr⟩ := walkOf_ok hwalk
  exact ⟨hc, hr⟩

/-- No two of these labels are the same. -/
theorem workLabels_nodup {g : Nat} (hg : P.module.function? g = some f) (hes : f.blocks.mapM (walkOf P X) = .ok es) :
    (es.flatMap workLabels).Nodup := by
  obtain ⟨hnodup, hdisjoint⟩ := List.nodup_flatMap.mp (Module.ids_nodup hg)
  have hlabels := List.pairwise_map.mp (Module.labels_nodup hg)
  have hpair := hdisjoint.and hlabels
  rw [← walkOf_fst hes, List.pairwise_map] at hpair
  have hids : ∀ e ∈ es, List.Sublist (splitIds (workPieces e)) (e.1.2.insts.map Inst.id) := by
    intro e he
    exact splitIds_sublist (walkBlock_steps (work_of_mem hes he).2) e.2.code
  have hsub : ∀ b : Nat × GBlock, List.Sublist (b.2.insts.map Inst.id)
      (b.2.phis.map Phi.id ++ b.2.insts.map Inst.id ++ [b.2.termId]) := by
    intro b
    exact (List.sublist_append_right _ _).trans (List.sublist_append_left _ _)
  rw [List.nodup_flatMap]
  constructor
  · intro e he
    rw [workLabels, nextLabel_joins]
    apply List.Nodup.append
    · apply List.Nodup.map
      · intro n k h
        exact HostBlock.top.inj h
      · exact (hnodup e.1 (work_of_mem hes he).1).sublist ((hids e he).trans (hsub e.1))
    · exact List.nodup_singleton _
    · intro l hl hl'
      obtain ⟨n, _, rfl⟩ := List.mem_map.mp hl
      cases List.mem_singleton.mp hl'
  · refine hpair.imp_of_mem ?_
    intro e e' he he' h l hl hl'
    rw [workLabels, nextLabel_joins] at hl hl'
    rcases List.mem_append.mp hl with hl | hl
    · obtain ⟨n, hn, rfl⟩ := List.mem_map.mp hl
      rcases List.mem_append.mp hl' with hl' | hl'
      · obtain ⟨k, hk, hkn⟩ := List.mem_map.mp hl'
        cases hkn
        exact h.1 (((hids e he).trans (hsub e.1)).subset hn) (((hids e' he').trans (hsub e'.1)).subset hk)
      · cases List.mem_singleton.mp hl'
    · rw [List.mem_singleton.mp hl] at hl'
      rcases List.mem_append.mp hl' with hl' | hl'
      · obtain ⟨k, _, hk⟩ := List.mem_map.mp hl'
        cases hk
      · exact h.2 (HostBlock.body.inj (List.mem_singleton.mp hl'))

theorem entries_joins_nodup {g : Nat} (hg : P.module.function? g = some f) (hes : f.blocks.mapM (walkOf P X) = .ok es) :
    (es.map (fun e => nextLabel e.1.1 (workPieces e)) ++
      es.flatMap (fun e => (joins e.1.1 (workPieces e)).map Prod.snd)).Nodup :=
  (List.map_append_flatMap_perm es _ _).nodup_iff.mpr (workLabels_nodup hg hes)

/-- The copy of a block is entered where the branches to the block lead. -/
theorem entryLabel_work {g : Nat} (hg : P.module.function? g = some f) (hes : f.blocks.mapM (walkOf P X) = .ok es)
    {e : (Nat × GBlock) × BlockWork} (he : e ∈ es) : entryLabel P f e.1.1 = nextLabel e.1.1 (workPieces e) := by
  obtain ⟨hmem, hr⟩ := work_of_mem hes he
  have hblock : f.block? e.1.1 = some e.1.2 := OrderedMap.lookup_eq_some_of_mem (Module.labels_nodup hg) hmem
  rw [entryLabel_eq hblock (walkBlock_pieces hr), workPieces, nextLabel_concat_code]

theorem mem_workLabels {e : (Nat × GBlock) × BlockWork} {l : HostBlock} (h : l ∈ workLabels e) :
    isSide l = false ∧ ∀ d, l = .body d → d = e.1.1 := by
  rw [workLabels, nextLabel_joins] at h
  rcases List.mem_append.mp h with h | h
  · obtain ⟨n, _, rfl⟩ := List.mem_map.mp h
    refine ⟨rfl, ?_⟩
    intro d hd
    cases hd
  · rw [List.mem_singleton.mp h]
    refine ⟨rfl, ?_⟩
    intro d hd
    exact (HostBlock.body.inj hd).symm

theorem join_mem {e : (Nat × GBlock) × BlockWork} {p : Nat × HostBlock} (hp : p ∈ joins e.1.1 (workPieces e)) :
    p.2 ∈ workLabels e :=
  List.mem_cons_of_mem _ (List.mem_map_of_mem hp)

/-- A branch out of the function would be left alone. -/
theorem entryLabel_cases {g : Nat} (hg : P.module.function? g = some f) (hes : f.blocks.mapM (walkOf P X) = .ok es) (d : Nat) :
    (∃ e ∈ es, d = e.1.1 ∧ entryLabel P f d = nextLabel e.1.1 (workPieces e)) ∨
      entryLabel P f d = .body d ∧ ∀ e ∈ es, e.1.1 ≠ d := by
  by_cases hd : ∃ e ∈ es, e.1.1 = d
  · obtain ⟨e, he, rfl⟩ := hd
    exact .inl ⟨e, he, rfl, entryLabel_work hg hes he⟩
  · have hnone : f.block? d = none := by
      apply Option.eq_none_iff_forall_ne_some.mpr
      intro blk hblk
      have hmem := OrderedMap.mem_of_lookup hblk
      rw [← walkOf_fst hes] at hmem
      obtain ⟨e, he, heq⟩ := List.mem_map.mp hmem
      exact hd ⟨e, he, congrArg Prod.fst heq⟩
    refine .inr ⟨?_, ?_⟩
    · rw [entryLabel, hnone]
    · intro e he heq
      exact hd ⟨e, he, heq⟩

theorem entryLabel_inj {g : Nat} (hg : P.module.function? g = some f) (hes : f.blocks.mapM (walkOf P X) = .ok es)
    {d d' : Nat} (h : entryLabel P f d = entryLabel P f d') : d = d' := by
  have hnodup := (List.nodup_append.mp (entries_joins_nodup hg hes)).1
  rcases entryLabel_cases hg hes d with ⟨e, he, rfl, heq⟩ | ⟨heq, hout⟩
  · rcases entryLabel_cases hg hes d' with ⟨e', he', rfl, heq'⟩ | ⟨heq', hout'⟩
    · rw [heq, heq'] at h
      rw [List.inj_on_of_nodup_map hnodup he he' h]
    · have hmem : HostBlock.body d' ∈ workLabels e := by
        rw [← heq', ← h, heq]
        exact List.mem_cons_self
      exact ((mem_workLabels hmem).2 d' rfl).symm
  · rcases entryLabel_cases hg hes d' with ⟨e', he', rfl, heq'⟩ | ⟨heq', hout'⟩
    · have hmem : HostBlock.body d ∈ workLabels e' := by
        rw [← heq, h, heq']
        exact List.mem_cons_self
      exact (mem_workLabels hmem).2 d rfl
    · rw [heq, heq'] at h
      exact HostBlock.body.inj h

theorem join_ne_entryLabel {g : Nat} (hg : P.module.function? g = some f) (hes : f.blocks.mapM (walkOf P X) = .ok es)
    {e : (Nat × GBlock) × BlockWork} (he : e ∈ es) {p : Nat × HostBlock} (hp : p ∈ joins e.1.1 (workPieces e)) (d : Nat) :
    entryLabel P f d ≠ p.2 := by
  have hdisjoint := (List.nodup_append.mp (entries_joins_nodup hg hes)).2.2
  intro h
  rcases entryLabel_cases hg hes d with ⟨e', he', rfl, heq⟩ | ⟨heq, hout⟩
  · refine hdisjoint _ (List.mem_map_of_mem he') p.2 ?_ (heq.symm.trans h)
    exact List.mem_flatMap.mpr ⟨e, he, List.mem_map_of_mem hp⟩
  · exact hout e he ((mem_workLabels (join_mem hp)).2 d (h.symm.trans heq)).symm

end Labels

section Predecessors

variable {P : Input} {X : Copy} {f : GFunction} {es : List ((Nat × GBlock) × BlockWork)}

theorem walkTerm_labels {n : Nat} {t : Term Nat Nat Nat} {q : List HInst × HTerm} (h : walkTerm P X n t = .ok q) :
    q.2.labels = t.labels.map .body := by
  cases t with
  | ret v =>
      cases v with
      | none =>
          cases h
          rfl
      | some v =>
          obtain ⟨r, _, h⟩ := bind_eq_ok.mp h
          dsimp only at h
          split at h <;> cases h <;> rfl
  | br d =>
      cases h
      rfl
  | condBr v a b =>
      obtain ⟨r, _, h⟩ := bind_eq_ok.mp h
      cases h
      rfl
  | switch v d cases =>
      obtain ⟨r, _, h⟩ := bind_eq_ok.mp h
      cases h
      simp [Term.labels]
  | unreachable =>
      cases h
      rfl
  | indirectBr | callBr | invoke | resume | catchSwitch | catchReturn | cleanupReturn => cases h

theorem walkBlock_term {b : GBlock} {r : BlockWork} (h : walkBlock P X b = .ok r) :
    walkTerm P X b.termId b.term = .ok (r.code, r.term) := by
  obtain ⟨phis, _, h⟩ := bind_eq_ok.mp h
  obtain ⟨steps, _, h⟩ := bind_eq_ok.mp h
  obtain ⟨q, hq, h⟩ := bind_eq_ok.mp h
  cases h
  exact hq

def copyEdges (P : Input) (f : GFunction) (e : (Nat × GBlock) × BlockWork) : List (HostBlock × HostBlock) :=
  (joins e.1.1 (workPieces e)).flatMap splitEdges ++
    e.1.2.term.labels.map (fun d => (.body e.1.1, entryLabel P f d))

theorem edges_copyBlock {e : (Nat × GBlock) × BlockWork} (h : walkBlock P X e.1.2 = .ok e.2) :
    edges (copyBlock P f e) = copyEdges P f e := by
  have hlabels : (e.2.term.mapLabel (resolve P f)).labels = e.1.2.term.labels.map (entryLabel P f) := by
    rw [Term.labels_mapLabel, walkTerm_labels (walkBlock_term h), List.map_map]
    rfl
  rw [copyBlock, edges_assemble, hlabels, List.map_map]
  rfl

theorem edges_body (hes : f.blocks.mapM (walkOf P X) = .ok es) (entry : List HInst) (b : Nat) :
    edges ((.entry, entryBlock P f entry b es) :: es.flatMap (copyBlock P f)) =
      (.entry, entryLabel P f b) :: es.flatMap (copyEdges P f) := by
  have hcopies : edges (es.flatMap (copyBlock P f)) = es.flatMap (copyEdges P f) := by
    rw [edges, List.flatMap_assoc]
    apply List.flatMap_congr
    intro e he
    exact edges_copyBlock (work_of_mem hes he).2
  rw [edges_cons, hcopies]
  rfl

theorem sources_splitEdges {l : HostBlock} (hl : isSide l = false) (p : Nat × HostBlock) :
    sources (splitEdges p) l = if p.2 = l then [.left p.1, .right p.1] else [] := by
  have hleft : HostBlock.left p.1 ≠ l := by
    rintro rfl
    cases hl
  have hright : HostBlock.right p.1 ≠ l := by
    rintro rfl
    cases hl
  by_cases h : p.2 = l <;> simp [sources, splitEdges, hleft, hright, h]

/-- The predecessors of the block where the copy of `d` is entered are the copies of its
predecessors, and the new entry for the first block. -/
theorem predecessors_entry {g : Nat} (hg : P.module.function? g = some f) (hes : f.blocks.mapM (walkOf P X) = .ok es)
    (entry : List HInst) (b d : Nat) :
    predecessors ((.entry, entryBlock P f entry b es) :: es.flatMap (copyBlock P f)) (entryLabel P f d) =
      (if b = d then [.entry] else []) ++ (predecessors f.blocks d).map .body := by
  have hinj : ∀ d', entryLabel P f d' = entryLabel P f d ↔ d' = d := by
    intro d'
    constructor
    · exact entryLabel_inj hg hes
    · rintro rfl
      rfl
  have hfirst : sources [(HostBlock.entry, entryLabel P f b)] (entryLabel P f d) = if b = d then [.entry] else [] := by
    by_cases h : b = d <;> simp [sources, hinj, h]
  have hcopy : ∀ e ∈ es, sources (copyEdges P f e) (entryLabel P f d) =
      (sources (e.1.2.term.labels.map (fun l => (e.1.1, l))) d).map .body := by
    intro e he
    have hjoins : sources ((joins e.1.1 (workPieces e)).flatMap splitEdges) (entryLabel P f d) = [] := by
      have hside : isSide (entryLabel P f d) = false := by
        rcases entryLabel_cases hg hes d with ⟨e', _, _, heq⟩ | ⟨heq, _⟩
        · rw [heq]
          exact (mem_workLabels List.mem_cons_self).1
        · rw [heq]
          rfl
      rw [sources_flatMap, List.flatMap_eq_nil_iff]
      intro p hp
      rw [sources_splitEdges hside, if_neg (join_ne_entryLabel hg hes he hp d).symm]
    rw [copyEdges, sources_append, hjoins, List.nil_append, sources_map, sources_map, List.map_map]
    simp only [hinj]
    rfl
  rw [predecessors, edges_body hes, ← List.singleton_append, sources_append, hfirst, sources_flatMap,
    List.flatMap_congr hcopy]
  congr 1
  rw [predecessors, edges, sources_flatMap, ← walkOf_fst hes, List.flatMap_map, List.map_flatMap]

/-- Of several entries with different values only one has a given value. -/
theorem flatMap_unique {κ V W : Type} [DecidableEq V] (k : κ → List W) {qs : List (κ × V)} {p : κ × V} (hp : p ∈ qs)
    (hnodup : (qs.map Prod.snd).Nodup) : qs.flatMap (fun q => if q.2 = p.2 then k q.1 else []) = k p.1 := by
  induction qs with
  | nil => cases hp
  | cons q qs ih =>
      obtain ⟨hnot, hnodup⟩ := List.nodup_cons.mp hnodup
      rw [List.flatMap_cons]
      rcases List.mem_cons.mp hp with rfl | hp
      · have hrest : qs.flatMap (fun q => if q.2 = p.2 then k q.1 else []) = [] := by
          rw [List.flatMap_eq_nil_iff]
          intro q hq
          rw [if_neg]
          intro heq
          exact hnot (heq ▸ List.mem_map_of_mem hq)
        rw [if_pos rfl, hrest, List.append_nil]
      · have hne : q.2 ≠ p.2 := by
          intro heq
          exact hnot (heq ▸ List.mem_map_of_mem hp)
        rw [if_neg hne, List.nil_append]
        exact ih hp hnodup

/-- The block where the two ways of a call join has them as its predecessors. -/
theorem predecessors_join {g : Nat} (hg : P.module.function? g = some f) (hes : f.blocks.mapM (walkOf P X) = .ok es)
    (entry : List HInst) (b : Nat) {e : (Nat × GBlock) × BlockWork} (he : e ∈ es) {p : Nat × HostBlock}
    (hp : p ∈ joins e.1.1 (workPieces e)) :
    predecessors ((.entry, entryBlock P f entry b es) :: es.flatMap (copyBlock P f)) p.2 = [.left p.1, .right p.1] := by
  have hside := (mem_workLabels (join_mem hp)).1
  have hfirst : sources [(HostBlock.entry, entryLabel P f b)] p.2 = [] := by
    apply sources_eq_nil
    intro x hx
    rw [List.mem_singleton.mp hx]
    exact join_ne_entryLabel hg hes he hp b
  have hcopy : ∀ e' ∈ es, sources (copyEdges P f e') p.2 =
      (joins e'.1.1 (workPieces e')).flatMap (fun q => if q.2 = p.2 then [.left q.1, .right q.1] else []) := by
    intro e' _
    have hterm : sources (e'.1.2.term.labels.map (fun d => (HostBlock.body e'.1.1, entryLabel P f d))) p.2 = [] := by
      apply sources_eq_nil
      intro x hx
      obtain ⟨d, _, rfl⟩ := List.mem_map.mp hx
      exact join_ne_entryLabel hg hes he hp d
    rw [copyEdges, sources_append, hterm, List.append_nil, sources_flatMap]
    apply List.flatMap_congr
    intro q _
    exact sources_splitEdges hside q
  have hnodup := (List.nodup_append.mp (entries_joins_nodup hg hes)).2.1
  rw [← List.map_flatMap] at hnodup
  rw [predecessors, edges_body hes, ← List.singleton_append, sources_append, hfirst, sources_flatMap,
    List.flatMap_congr hcopy, List.nil_append, ← List.flatMap_assoc]
  exact flatMap_unique (fun n => [HostBlock.left n, HostBlock.right n]) (List.mem_flatMap.mpr ⟨e, he, hp⟩) hnodup

theorem doPhi_labels {p : Phi Nat Nat Nat} {r : List HInst × HPhi} (h : doPhi P X p = .ok r) :
    r.2.incoming.map Prod.snd = (p.incoming.map Prod.snd).map .body := by
  obtain ⟨⟨code, vs⟩, hvs, h⟩ := bind_eq_ok.mp h
  cases h
  have hlen : vs.length = p.incoming.length := by
    rw [SelfContained.doOperands_length hvs, List.length_map]
  rw [List.map_snd_zip (by simp [hlen]), List.map_map]
  rfl

theorem walkBlock_phis {b : GBlock} {r : BlockWork} (h : walkBlock P X b = .ok r) :
    b.phis.mapM (doPhi P X) = .ok r.phis := by
  obtain ⟨phis, hphis, h⟩ := bind_eq_ok.mp h
  obtain ⟨steps, _, h⟩ := bind_eq_ok.mp h
  obtain ⟨q, _, h⟩ := bind_eq_ok.mp h
  cases h
  exact hphis

theorem split_mem {b : GBlock} {e : BlockWork} (h : walkBlock P X b = .ok e) {pre : List HInst} {s : Split}
    (hs : Piece.split pre s ∈ e.steps.map Prod.snd ++ [.code e.code]) :
    ∃ i ∈ b.insts, TakeOut.doInstruction P X i = .ok (.split pre s) := by
  rcases List.mem_append.mp hs with hs | hs
  · obtain ⟨q, hq, hsnd⟩ := List.mem_map.mp hs
    obtain ⟨i, hi, hstep⟩ := (mapM_ok_mem (walkBlock_steps h)).2 q hq
    refine ⟨i, hi, ?_⟩
    rw [(doStep_ok hstep).2, hsnd]
  · cases List.mem_singleton.mp hs

/-- The phis have entries for the predecessors of the blocks they are in. -/
theorem phisMatch_body {g : Nat} (hg : P.module.function? g = some f) (hes : f.blocks.mapM (walkOf P X) = .ok es)
    (entry : List HInst) {b : Nat × GBlock} {bs : List (Nat × GBlock)} (hf : f.blocks = b :: bs)
    (hphis : PhisMatch f.blocks) :
    PhisMatch ((.entry, entryBlock P f entry b.1 es) :: es.flatMap (copyBlock P f)) := by
  intro blk hblk q hq
  rcases List.mem_cons.mp hblk with rfl | hblk
  · cases hq
  · obtain ⟨e, he, hblk⟩ := List.mem_flatMap.mp hblk
    obtain ⟨hmem, hr⟩ := work_of_mem hes he
    rcases phis_assemble hblk hq with ⟨hlabel, hq⟩ | ⟨pre, s, hs, hjoin, hq⟩
    · obtain ⟨r, hphi, rfl⟩ := List.mem_map.mp hq
      obtain ⟨p, hp, hdo⟩ := (mapM_ok_mem (walkBlock_phis hr)).2 r hphi
      have hne : b.1 ≠ e.1.1 := by
        intro heq
        have hb : b ∈ f.blocks := by
          rw [hf]
          exact List.mem_cons_self
        have hsame : b = e.1 := List.inj_on_of_nodup_map (Module.labels_nodup hg) hb hmem heq
        rw [← hsame, Module.entry_phis hg hf] at hp
        cases hp
      have hentry : blk.1 = entryLabel P f e.1.1 := by
        rw [entryLabel_work hg hes he]
        exact hlabel
      rw [doPhi_labels hdo, hentry, predecessors_entry hg hes, if_neg hne, List.nil_append]
      exact (hphis e.1 hmem p hp).map _
    · obtain ⟨i, _, hi⟩ := split_mem hr hs
      obtain ⟨c, k, callee, args, _, hcm⟩ := doInstruction_split hi
      have hincoming : q.incoming.map Prod.snd = [.left s.call, .right s.call] := by
        rw [doFcpCm_phi hcm] at hq
        rw [doFcpCm_call hcm]
        split at hq
        next => cases hq
        next =>
          cases hq
          rfl
      rw [hincoming, predecessors_join hg hes entry b.1 he hjoin]

end Predecessors

end Comulator.BlockWalk
