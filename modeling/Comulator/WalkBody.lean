import Comulator.WalkRun

namespace Comulator.BlockWalk

open Fallible Types Ir TypeHash Symtbl HostIr TakeOut FcpCmSplit

section Terminator

variable (P : Input) (X : Copy)

def storesValue : Term Nat Nat Nat → Bool
  | .ret (some _) => !P.config.useFCP
  | _ => false

def termVisits (n : Nat) (t : Term Nat Nat Nat) : List Visit :=
  (if storesValue P t then [.store n] else []) ++ [.cloned n]

def walkTerm (n : Nat) : Term Nat Nat Nat → Except Error (List HInst × HTerm)
  | .ret (some (ty, v)) => do
      let (code, v) ← doOperand (site P X n false) X.args 1 v
      if P.config.useFCP then return (code, .ret (some (ty, v)))
      else return (code ++ [⟨⟨some n, 1 + code.length⟩, .store ty v (.arg 0)⟩], .ret none)
  | t => visitTerm P X n (t.mapLabel .body)

def resolve (f : GFunction) : HostBlock → HostBlock
  | .body d => entryLabel P f d
  | l => l

variable {P X}

theorem visitTerm_mapLabel (r : HostBlock → HostBlock) (n : Nat) (t : Term Nat Nat HostBlock) :
    visitTerm P X n (t.mapLabel r) = (visitTerm P X n t).map (fun q => (q.1, q.2.mapLabel r)) := by
  cases t with
  | ret v =>
      cases v with
      | none => rfl
      | some v =>
          simp only [visitTerm, Term.mapLabel]
          cases doOperand (site P X n false) X.args 1 v.2 <;> rfl
  | condBr v a b =>
      simp only [visitTerm, Term.mapLabel]
      cases doOperand (site P X n false) X.args 1 v <;> rfl
  | switch v d cases =>
      simp only [visitTerm, Term.mapLabel]
      cases doOperand (site P X n false) X.args 1 v <;> rfl
  | br | unreachable | indirectBr | callBr | invoke | resume | catchSwitch | catchReturn | cleanupReturn => rfl

theorem doTerminator_eq (f : GFunction) (n : Nat) (t : Term Nat Nat Nat) :
    doTerminator P X f n t = (walkTerm P X n t).map (fun q => (q.1, q.2.mapLabel (resolve P f))) := by
  cases t with
  | ret v =>
      cases v with
      | none => rfl
      | some v =>
          simp only [doTerminator, walkTerm]
          cases doOperand (site P X n false) X.args 1 v.2 with
          | error e => rfl
          | ok q => cases hfcp : P.config.useFCP <;> simp [bind, Except.bind, Except.map, pure, Except.pure, Term.mapLabel]
  | condBr v a b =>
      simp only [doTerminator, walkTerm, visitTerm, Term.mapLabel]
      cases doOperand (site P X n false) X.args 1 v <;> rfl
  | switch v d cases =>
      simp only [doTerminator, walkTerm, visitTerm, Term.mapLabel]
      cases doOperand (site P X n false) X.args 1 v with
      | error e => rfl
      | ok q => simp [bind, Except.bind, Except.map, pure, Except.pure, resolve]
  | br | unreachable | indirectBr | callBr | invoke | resume | catchSwitch | catchReturn | cleanupReturn => rfl

variable {w : Walk}

def Walk.afterTerm (P : Input) (w : Walk) (n : Nat) (t : Term Nat Nat Nat) (R : HostBlock → HostBlock)
    (q : List HInst × HTerm) : Walk :=
  { w with
    done := w.done ++ q.1.map kept ++ [branch (bodyId n) (q.2.mapLabel R)]
    rest := []
    visits := w.visits ++ termVisits P n t }

theorem leads_visitTerm {n : Nat} {t : Term Nat Nat HostBlock} {T : List Node} (h : w.rest = .term n t :: T) :
    Leads P X w ((visitTerm P X n t).map (fun q => { w with
      done := w.done ++ q.1.map kept ++ [branch (bodyId n) q.2]
      rest := T
      visits := w.visits ++ [.cloned n] })) := by
  have hstep := leads_doInstruction (P := P) (X := X) h
  rw [Walk.doInstruction, h] at hstep
  cases hv : visitTerm P X n t with
  | error e =>
      simp only [hv] at hstep
      exact hstep
  | ok q =>
      simp only [hv] at hstep
      exact hstep

theorem leads_store {n : Nat} {ty : Ty} {v : GValue} {T : List Node} (h : w.rest = .store n ty v :: T) :
    Leads P X w ((doOperand (site P X n false) X.args 1 v).map (fun q => { w with
      done := w.done ++ (q.1 ++ [(⟨⟨some n, 1 + q.1.length⟩, .store ty q.2 (.arg 0)⟩ : HInst)]).map kept
      rest := T
      visits := w.visits ++ [.store n] })) := by
  have hstep := leads_doInstruction (P := P) (X := X) h
  rw [Walk.doInstruction, h] at hstep
  cases hv : doOperand (site P X n false) X.args 1 v with
  | error e =>
      simp only [hv] at hstep
      exact hstep
  | ok q =>
      simp only [hv] at hstep
      exact hstep

theorem leads_branch {n : Nat} {t : Term Nat Nat Nat} {R : HostBlock → HostBlock}
    (hwalk : walkTerm P X n t = visitTerm P X n (t.mapLabel .body)) (hvisits : storesValue P t = false)
    (h : w.rest = [.term n ((t.mapLabel .body).mapLabel R)]) :
    Leads P X w ((walkTerm P X n t).map (w.afterTerm P n t R)) := by
  have hstep := leads_visitTerm (P := P) (X := X) h
  rw [visitTerm_mapLabel, ← hwalk] at hstep
  cases hv : walkTerm P X n t with
  | error e =>
      rw [hv] at hstep
      exact hstep
  | ok q =>
      rw [hv] at hstep
      rw [Except.map, Walk.afterTerm, termVisits, hvisits]
      exact hstep

theorem leads_term {n : Nat} {t : Term Nat Nat Nat} {R : HostBlock → HostBlock}
    (h : w.rest = (clonedTerm P n t).map (Node.relabel R)) :
    Leads P X w ((walkTerm P X n t).map (w.afterTerm P n t R)) := by
  cases t with
  | ret v =>
      cases v with
      | none => exact leads_branch rfl rfl h
      | some v =>
          obtain ⟨ty, v⟩ := v
          cases hfcp : P.config.useFCP with
          | true =>
              rw [clonedTerm, if_pos hfcp] at h
              apply leads_branch
              · simp [walkTerm, visitTerm, Term.mapLabel, hfcp]
              · simp [storesValue, hfcp]
              · exact h
          | false =>
              rw [clonedTerm, if_neg (by simp [hfcp])] at h
              have hstore := leads_store (P := P) (X := X) (T := [.term n (.ret none)]) h
              simp only [walkTerm, hfcp]
              cases hv : doOperand (site P X n false) X.args 1 v with
              | error e =>
                  rw [hv] at hstore
                  exact hstore
              | ok q =>
                  rw [hv] at hstore
                  have hret := hstore.trans (leads_visitTerm rfl)
                  simp only [bind, Except.bind, pure, Except.pure, Except.map, visitTerm] at hret ⊢
                  simpa [Walk.afterTerm, termVisits, storesValue, hfcp, Term.mapLabel] using hret
  | br | condBr | switch | unreachable | indirectBr | callBr | invoke | resume | catchSwitch | catchReturn
  | cleanupReturn => exact leads_branch rfl rfl h

end Terminator

section Body

variable (P : Input) (X : Copy)

structure BlockWork where
  phis : List (List HInst × HPhi)
  steps : List (GInst × Piece)
  code : List HInst
  term : HTerm

def walkBlock (b : GBlock) : Except Error BlockWork := do
  let phis ← b.phis.mapM (doPhi P X)
  let steps ← b.insts.mapM (doStep P X)
  let q ← walkTerm P X b.termId b.term
  return ⟨phis, steps, q.1, q.2⟩

def BlockWork.phiNodes (r : BlockWork) : List Node := r.phis.map (fun q => keptPhi q.2)

def BlockWork.lastNodes (r : BlockWork) (termId : Nat) (R : HostBlock → HostBlock) : List Node :=
  opened P r.phiNodes r.steps ++ r.code.map kept ++ [branch (bodyId termId) (r.term.mapLabel R)]

def BlockWork.visits (r : BlockWork) (b : GBlock) : List Visit :=
  b.phis.map (fun p => .cloned p.id) ++ r.steps.flatMap stepVisits ++ termVisits P b.termId b.term

def Walk.afterBlock (w : Walk) (b : Nat × GBlock) (R : HostBlock → HostBlock) (r : BlockWork) : Walk :=
  { w with
    entry := w.entry ++ (r.phis.flatMap Prod.fst).map kept
    entryTerm := w.entryTerm.relabel (stepLabel b.1 r.steps)
    before := w.before.map (relabelBlock (stepLabel b.1 r.steps)) ++ closed P b.1 r.phiNodes r.steps
    done := r.lastNodes P b.2.termId (stepLabel b.1 r.steps ∘ R)
    rest := []
    after := w.after.map (relabelBlock (stepLabel b.1 r.steps))
    toReplace := w.toReplace ++ r.steps.flatMap (stepReplaced P)
    visits := w.visits ++ r.visits P b.2 }

structure AtBlock (w : Walk) (b : Nat × GBlock) (R : HostBlock → HostBlock) : Prop where
  label : w.label = .body b.1
  done : w.done = []
  rest : w.rest = (relabelBlock R (cloned P b)).2
  fresh : ∀ i ∈ b.2.insts, ∀ blk ∈ w.before, owner blk.1 ≠ some i.id
  nodup : (b.2.insts.map Inst.id).Nodup

variable {P X} {w : Walk}

theorem map_bind {α β γ : Type} (g : β → γ) (x : Except Error α) (k : α → Except Error β) :
    (x >>= k).map g = x >>= fun a => (k a).map g := by
  cases x <;> rfl

theorem relabel_cloned (R : HostBlock → HostBlock) (b : Nat × GBlock) : (relabelBlock R (cloned P b)).2 =
    b.2.phis.map clonedPhi ++ (b.2.insts.map .inst ++ (clonedTerm P b.2.termId b.2.term).map (Node.relabel R)) := by
  simp only [relabelBlock, cloned, List.map_append, List.map_map, List.append_assoc]
  rfl

theorem clonedTerm_isPhi (n : Nat) (t : Term Nat Nat Nat) : ∀ x ∈ clonedTerm P n t, x.isPhi = false := by
  intro x hx
  unfold clonedTerm at hx
  split at hx
  next =>
    split at hx
    next =>
      rw [List.mem_singleton.mp hx]
      rfl
    next =>
      simp only [List.mem_cons, List.not_mem_nil, or_false] at hx
      rcases hx with rfl | rfl <;> rfl
  next =>
    rw [List.mem_singleton.mp hx]
    rfl

theorem leads_block {b : Nat × GBlock} {R : HostBlock → HostBlock} (h : AtBlock P w b R) :
    Leads P X w ((walkBlock P X b.2).map (w.afterBlock P b R)) := by
  have hrest := h.rest
  rw [relabel_cloned] at hrest
  rw [walkBlock, map_bind]
  refine (leads_phis b.2.phis hrest).bind ?_
  intro phis hphis
  rw [map_bind]
  have hsteps : AtSteps b.1 (w.afterPhis b.2.phis
      (b.2.insts.map .inst ++ (clonedTerm P b.2.termId b.2.term).map (Node.relabel R)) phis) b.2.insts := by
    constructor
    · exact h.label
    · refine ⟨_, rfl, ?_⟩
      intro x hx
      obtain ⟨y, hy, rfl⟩ := List.mem_map.mp hx
      rw [isPhi_relabel]
      exact clonedTerm_isPhi _ _ y hy
    · intro x hx
      change x ∈ w.done ++ phis.map (fun q => keptPhi q.2) at hx
      rw [h.done, List.nil_append] at hx
      obtain ⟨q, _, rfl⟩ := List.mem_map.mp hx
      exact fun _ => rfl
    · exact h.fresh
    · exact h.nodup
  refine (leads_steps hsteps).bind ?_
  intro steps hq
  rw [map_bind]
  have hterm := leads_term (P := P) (X := X)
    (w := (w.afterPhis b.2.phis (b.2.insts.map .inst ++ (clonedTerm P b.2.termId b.2.term).map (Node.relabel R)) phis).afterSteps
      P b.1 b.2.insts steps) (n := b.2.termId) (t := b.2.term) (R := stepLabel b.1 steps ∘ R) (by
    have hdrop : (b.2.insts.map Node.inst ++ (clonedTerm P b.2.termId b.2.term).map (Node.relabel R)).drop
        b.2.insts.length = (clonedTerm P b.2.termId b.2.term).map (Node.relabel R) := by
      rw [← List.length_map (f := Node.inst), List.drop_left]
    change List.map (Node.relabel (stepLabel b.1 steps)) (List.drop b.2.insts.length (_ ++ _)) = _
    rw [hdrop, List.map_map]
    apply List.map_congr_left
    intro x _
    exact x.relabel_relabel R _)
  cases hw : walkTerm P X b.2.termId b.2.term with
  | error e =>
      rw [hw] at hterm
      exact hterm
  | ok q =>
      rw [hw] at hterm
      have hend : ((w.afterPhis b.2.phis (b.2.insts.map .inst ++ (clonedTerm P b.2.termId b.2.term).map (Node.relabel R))
          phis).afterSteps P b.1 b.2.insts steps).afterTerm P b.2.termId b.2.term (stepLabel b.1 steps ∘ R) q =
          w.afterBlock P b R ⟨phis, steps, q.1, q.2⟩ := by
        simp [Walk.afterTerm, Walk.afterSteps, Walk.afterPhis, Walk.afterBlock, BlockWork.phiNodes, BlockWork.lastNodes,
          BlockWork.visits, h.done]
      rw [Except.map, hend] at hterm
      exact hterm

def resolveSteps : List ((Nat × GBlock) × BlockWork) → HostBlock → HostBlock
  | [] => id
  | e :: es => resolveSteps es ∘ stepLabel e.1.1 e.2.steps

theorem stepLabel_of_ne {b : Nat} {qs : List (GInst × Piece)} {l : HostBlock} (h : l ≠ .body b) :
    stepLabel b qs l = l := by
  rw [stepLabel, redirect, if_neg h]

theorem resolveSteps_of_ne {es : List ((Nat × GBlock) × BlockWork)} {l : HostBlock}
    (h : ∀ e ∈ es, l ≠ .body e.1.1) : resolveSteps es l = l := by
  induction es with
  | nil => rfl
  | cons e es ih =>
      rw [resolveSteps, Function.comp_apply, stepLabel_of_ne (h e List.mem_cons_self)]
      exact ih (fun e' he' => h e' (List.mem_cons_of_mem e he'))

theorem resolveSteps_of_owner {es : List ((Nat × GBlock) × BlockWork)} {l : HostBlock} (h : owner l ≠ none) :
    resolveSteps es l = l := by
  apply resolveSteps_of_ne
  rintro e _ rfl
  exact h rfl

/-- A label that the next pieces have is no longer led on by other blocks. -/
theorem resolveSteps_nextLabel {es : List ((Nat × GBlock) × BlockWork)} {b : Nat} (h : b ∉ es.map (fun e => e.1.1))
    (ps : List Piece) : resolveSteps es (nextLabel b ps) = nextLabel b ps := by
  induction ps with
  | nil =>
      apply resolveSteps_of_ne
      intro e he heq
      apply h
      rw [HostBlock.body.inj heq]
      exact List.mem_map_of_mem he
  | cons p ps ih =>
      cases p with
      | code l => exact ih
      | split pre s => exact resolveSteps_of_owner (by simp [nextLabel, owner])

theorem resolveSteps_body {es : List ((Nat × GBlock) × BlockWork)} (hnodup : (es.map (fun e => e.1.1)).Nodup)
    {e : (Nat × GBlock) × BlockWork} (he : e ∈ es) :
    resolveSteps es (.body e.1.1) = nextLabel e.1.1 (e.2.steps.map Prod.snd) := by
  induction es with
  | nil => cases he
  | cons e' es ih =>
      obtain ⟨hnot, hnodup⟩ := List.nodup_cons.mp hnodup
      rw [resolveSteps, Function.comp_apply]
      rcases List.mem_cons.mp he with rfl | he
      · rw [stepLabel, redirect, if_pos rfl]
        exact resolveSteps_nextLabel hnot _
      · have hne : HostBlock.body e.1.1 ≠ .body e'.1.1 := by
          intro heq
          have hmem : e.1.1 ∈ es.map (fun e => e.1.1) := List.mem_map_of_mem he
          rw [HostBlock.body.inj heq] at hmem
          exact hnot hmem
        rw [stepLabel_of_ne hne]
        exact ih hnodup he

theorem closed_relabel {b : Nat} {code : List Node} (hcode : ∀ x ∈ code, x.Inner) (qs : List (GInst × Piece))
    {es : List ((Nat × GBlock) × BlockWork)} (h : b ∉ es.map (fun e => e.1.1)) :
    (closed P b code qs).map (relabelBlock (resolveSteps es)) = closed P b code qs := by
  induction qs generalizing code with
  | nil => rfl
  | cons q qs ih =>
      obtain ⟨i, p⟩ := q
      cases p with
      | code l => exact ih (List.forall_mem_append.mpr ⟨hcode, placed_inner P i l⟩)
      | split pre s =>
          have hbr : ((Term.br (nextLabel b (qs.map Prod.snd))) : HTerm).mapLabel (resolveSteps es) =
              .br (nextLabel b (qs.map Prod.snd)) := by
            rw [Term.mapLabel, resolveSteps_nextLabel h]
          have hcond : ((Term.condBr s.cond (.left i.id) (.right i.id)) : HTerm).mapLabel (resolveSteps es) =
              .condBr s.cond (.left i.id) (.right i.id) := by
            rw [Term.mapLabel, resolveSteps_of_owner (by simp [owner]), resolveSteps_of_owner (by simp [owner])]
          simp only [closed, List.map_cons, ih (joined_inner i.id s.phi), relabelBlock, List.map_append, List.map_nil,
            map_relabel_inner _ hcode, map_relabel_inner _ (map_kept_inner pre), map_relabel_inner _ (map_kept_inner s.check),
            map_relabel_inner _ (map_kept_inner s.left), map_relabel_inner _ (map_kept_inner s.right), relabel_branch,
            relabel_old, hbr, hcond]

variable (P) in
def workBlocks (R : HostBlock → HostBlock) (es : List ((Nat × GBlock) × BlockWork)) : List NodeBlock :=
  es.flatMap (fun e => closed P e.1.1 e.2.phiNodes e.2.steps ++ [(.body e.1.1, e.2.lastNodes P e.1.2.termId R)])

variable (P) in
structure Finished (w : Walk) (R : HostBlock → HostBlock) (es : List ((Nat × GBlock) × BlockWork)) (w' : Walk) :
    Prop where
  rest : w'.rest = []
  after : w'.after = []
  entry : w'.entry = w.entry ++ (es.flatMap (fun e => e.2.phis.flatMap Prod.fst)).map kept
  entryTerm : w'.entryTerm = w.entryTerm.relabel (resolveSteps es)
  blocks : w'.before ++ [(w'.label, w'.done)] =
    w.before.map (relabelBlock (resolveSteps es)) ++ workBlocks P (resolveSteps es ∘ R) es
  toReplace : w'.toReplace = w.toReplace ++ es.flatMap (fun e => e.2.steps.flatMap (stepReplaced P))
  visits : w'.visits = w.visits ++ es.flatMap (fun e => e.2.visits P e.1.2)

variable (P X) in
def walkOf (b : Nat × GBlock) : Except Error ((Nat × GBlock) × BlockWork) := (walkBlock P X b.2).map (fun r => (b, r))

variable (P X) in
def Arrives (w : Walk) (R : HostBlock → HostBlock) : Except Error (List ((Nat × GBlock) × BlockWork)) → Prop
  | .error e => Leads P X w (.error e)
  | .ok es => ∃ w', Leads P X w (.ok w') ∧ Finished P w R es w'

def instIds (bs : List (Nat × GBlock)) : List Nat := bs.flatMap (fun b => b.2.insts.map Inst.id)

variable (P) in
structure AtBlocks (w : Walk) (b : Nat × GBlock) (bs : List (Nat × GBlock)) (R : HostBlock → HostBlock) : Prop where
  label : w.label = .body b.1
  done : w.done = []
  rest : w.rest = (relabelBlock R (cloned P b)).2
  after : w.after = bs.map (fun b => relabelBlock R (cloned P b))
  fresh : ∀ n ∈ instIds (b :: bs), ∀ blk ∈ w.before, owner blk.1 ≠ some n
  labels : ((b :: bs).map Prod.fst).Nodup
  nodup : (instIds (b :: bs)).Nodup

theorem AtBlocks.atBlock {b : Nat × GBlock} {bs : List (Nat × GBlock)} {R : HostBlock → HostBlock}
    (h : AtBlocks P w b bs R) : AtBlock P w b R := by
  constructor
  · exact h.label
  · exact h.done
  · exact h.rest
  · intro i hi
    exact h.fresh i.id (List.mem_append_left _ (List.mem_map_of_mem hi))
  · exact (List.nodup_append.mp h.nodup).1

def Walk.toBlock (w : Walk) (b : NodeBlock) (after : List NodeBlock) : Walk :=
  { w with before := w.before ++ [(w.label, w.done)], label := b.1, done := [], rest := b.2, after }

theorem leads_toBlock {b : NodeBlock} {after : List NodeBlock} (hrest : w.rest = []) (hafter : w.after = b :: after) :
    Leads P X w (.ok (w.toBlock b after)) := by
  refine ⟨1, ?_⟩
  intro n
  rw [run, hrest, hafter]
  rfl

theorem walkBlock_steps {b : GBlock} {r : BlockWork} (h : walkBlock P X b = .ok r) :
    b.insts.mapM (doStep P X) = .ok r.steps := by
  obtain ⟨phis, _, h⟩ := bind_eq_ok.mp h
  obtain ⟨steps, hsteps, h⟩ := bind_eq_ok.mp h
  obtain ⟨q, _, h⟩ := bind_eq_ok.mp h
  cases h
  exact hsteps

theorem steps_fst {is : List GInst} {qs : List (GInst × Piece)} (h : is.mapM (doStep P X) = .ok qs) :
    qs.map Prod.fst = is :=
  map_of_mapM (fun _ _ hq => (doStep_ok hq).1) h

theorem phiNodes_inner (r : BlockWork) : ∀ x ∈ r.phiNodes, x.Inner := by
  intro x hx
  obtain ⟨q, _, rfl⟩ := List.mem_map.mp hx
  exact fun _ => rfl

theorem AtBlocks.next {b b' : Nat × GBlock} {bs : List (Nat × GBlock)} {R : HostBlock → HostBlock} {r : BlockWork}
    (h : AtBlocks P w b (b' :: bs) R) (hr : walkBlock P X b.2 = .ok r) :
    AtBlocks P ((w.afterBlock P b R r).toBlock (relabelBlock (stepLabel b.1 r.steps ∘ R) (cloned P b'))
      (bs.map (fun c => relabelBlock (stepLabel b.1 r.steps ∘ R) (cloned P c)))) b' bs (stepLabel b.1 r.steps ∘ R) := by
  have hids : instIds (b :: b' :: bs) = b.2.insts.map Inst.id ++ instIds (b' :: bs) := rfl
  have hnodup := h.nodup
  rw [hids] at hnodup
  obtain ⟨_, hnodup, hdisjoint⟩ := List.nodup_append.mp hnodup
  constructor
  · rfl
  · rfl
  · rfl
  · rfl
  · intro n hn blk hblk
    rcases List.mem_append.mp hblk with hblk | hblk
    · rcases List.mem_append.mp hblk with hblk | hblk
      · obtain ⟨c, hc, rfl⟩ := List.mem_map.mp hblk
        exact h.fresh n (List.mem_append_right _ hn) c hc
      · obtain ⟨q, hq, howner⟩ := closed_owner hblk
        have hmem : q.1 ∈ b.2.insts := by
          rw [← steps_fst (walkBlock_steps hr)]
          exact List.mem_map_of_mem hq
        rw [howner]
        intro heq
        exact hdisjoint q.1.id (List.mem_map_of_mem hmem) n hn (Option.some.inj heq)
    · rw [List.mem_singleton.mp hblk]
      change owner w.label ≠ some n
      rw [h.label]
      simp [owner]
  · exact (List.nodup_cons.mp h.labels).2
  · exact hnodup

theorem lastNodes_relabel (r : BlockWork) (n : Nat) (R S : HostBlock → HostBlock) :
    (r.lastNodes P n R).map (Node.relabel S) = r.lastNodes P n (S ∘ R) := by
  rw [BlockWork.lastNodes, List.map_append, List.map_append, map_relabel_inner _ (opened_inner (phiNodes_inner r) _),
    map_relabel_inner _ (map_kept_inner r.code), List.map_singleton, relabel_branch, Term.mapLabel_mapLabel]
  rfl

theorem finished_single {b : Nat × GBlock} {R : HostBlock → HostBlock} (h : AtBlocks P w b [] R) (r : BlockWork) :
    Finished P w R [(b, r)] (w.afterBlock P b R r) := by
  have hres : resolveSteps [(b, r)] = stepLabel b.1 r.steps := Function.id_comp _
  constructor
  · rfl
  · change w.after.map _ = []
    rw [h.after]
    rfl
  · simp [Walk.afterBlock]
  · rw [hres]
    rfl
  · have hlabel : (w.afterBlock P b R r).label = .body b.1 := h.label
    rw [hlabel, hres]
    simp [Walk.afterBlock, workBlocks]
  · simp [Walk.afterBlock]
  · simp [Walk.afterBlock]

theorem Finished.cons {b : Nat × GBlock} {R : HostBlock → HostBlock} {r : BlockWork} {w' : Walk} {blk : NodeBlock}
    {after : List NodeBlock} {es : List ((Nat × GBlock) × BlockWork)} (hlabel : w.label = .body b.1)
    (hb : b.1 ∉ es.map (fun e => e.1.1))
    (h : Finished P ((w.afterBlock P b R r).toBlock blk after) (stepLabel b.1 r.steps ∘ R) es w') :
    Finished P w R ((b, r) :: es) w' := by
  constructor
  · exact h.rest
  · exact h.after
  · rw [h.entry]
    simp [Walk.toBlock, Walk.afterBlock]
  · rw [h.entryTerm]
    exact w.entryTerm.relabel_relabel _ _
  · have hbefore : (w.before.map (relabelBlock (stepLabel b.1 r.steps))).map (relabelBlock (resolveSteps es)) =
        w.before.map (relabelBlock (resolveSteps ((b, r) :: es))) := by
      rw [List.map_map]
      apply List.map_congr_left
      intro c _
      exact relabelBlock_relabelBlock _ _ c
    have hlast : relabelBlock (resolveSteps es) (HostBlock.body b.1,
        r.lastNodes P b.2.termId (stepLabel b.1 r.steps ∘ R)) =
        (.body b.1, r.lastNodes P b.2.termId (resolveSteps ((b, r) :: es) ∘ R)) := by
      rw [relabelBlock, lastNodes_relabel]
      rfl
    rw [h.blocks]
    simp only [Walk.toBlock, Walk.afterBlock, hlabel, List.map_append, List.map_cons, List.map_nil, hbefore, hlast,
      closed_relabel (phiNodes_inner r) r.steps hb]
    simp [workBlocks, resolveSteps, Function.comp_assoc]
  · rw [h.toReplace]
    simp [Walk.toBlock, Walk.afterBlock]
  · rw [h.visits]
    simp [Walk.toBlock, Walk.afterBlock]

theorem walkOf_ok {b : Nat × GBlock} {e : (Nat × GBlock) × BlockWork} (h : walkOf P X b = .ok e) :
    e.1 = b ∧ walkBlock P X b.2 = .ok e.2 := by
  obtain ⟨r, hr, rfl⟩ := map_eq_ok.mp h
  exact ⟨rfl, hr⟩

theorem walkOf_fst {bs : List (Nat × GBlock)} {es : List ((Nat × GBlock) × BlockWork)}
    (h : bs.mapM (walkOf P X) = .ok es) : es.map Prod.fst = bs :=
  map_of_mapM (fun _ _ he => (walkOf_ok he).1) h

/-- The walk over all the blocks. -/
theorem arrives {b : Nat × GBlock} {bs : List (Nat × GBlock)} {R : HostBlock → HostBlock} (h : AtBlocks P w b bs R) :
    Arrives P X w R ((b :: bs).mapM (walkOf P X)) := by
  induction bs generalizing w b R with
  | nil =>
      have hblock := leads_block (X := X) h.atBlock
      rw [List.mapM_cons, List.mapM_nil, walkOf]
      cases hr : walkBlock P X b.2 with
      | error e =>
          rw [hr] at hblock
          exact hblock
      | ok r =>
          rw [hr] at hblock
          exact ⟨w.afterBlock P b R r, hblock, finished_single h r⟩
  | cons b' bs ih =>
      have hblock := leads_block (X := X) h.atBlock
      rw [List.mapM_cons, walkOf]
      cases hr : walkBlock P X b.2 with
      | error e =>
          rw [hr] at hblock
          exact hblock
      | ok r =>
          rw [hr] at hblock
          have hafter : (w.afterBlock P b R r).after = relabelBlock (stepLabel b.1 r.steps ∘ R) (cloned P b') ::
              bs.map (fun c => relabelBlock (stepLabel b.1 r.steps ∘ R) (cloned P c)) := by
            change w.after.map (relabelBlock (stepLabel b.1 r.steps)) = _
            rw [h.after, List.map_map, List.map_cons]
            simp only [Function.comp_def, relabelBlock_relabelBlock]
          have hnext := hblock.trans (leads_toBlock rfl hafter)
          have htail := ih (h.next hr)
          cases hes : (b' :: bs).mapM (walkOf P X) with
          | error e =>
              rw [hes] at htail
              have hend : Leads P X w (.error e) := Leads.trans (r := .error e) hnext htail
              exact hend
          | ok es =>
              rw [hes] at htail
              obtain ⟨w', hw', hfin⟩ := htail
              have hb : b.1 ∉ es.map (fun e => e.1.1) := by
                have hfst : es.map (fun e => e.1.1) = (b' :: bs).map Prod.fst := by
                  rw [← walkOf_fst hes, List.map_map]
                  rfl
                rw [hfst]
                exact (List.nodup_cons.mp h.labels).1
              exact ⟨w', hnext.trans hw', hfin.cons h.label hb⟩

end Body

end Comulator.BlockWalk
