import Comulator.BlockWalk
import Comulator.FcpCmSplit

namespace Comulator.BlockWalk

open Fallible Types Ir TypeHash Symtbl HostIr TakeOut FcpCmSplit

section Relabel

variable (r s : HostBlock → HostBlock)

theorem HNode.relabel_relabel {ι : Type} (x : HNode ι) : (x.relabel r).relabel s = x.relabel (s ∘ r) := by
  cases x with
  | term y t => exact congrArg (HNode.term y) (t.mapLabel_mapLabel r s)
  | phi p => rfl
  | inst i => rfl

theorem Node.relabel_relabel (x : Node) : (x.relabel r).relabel s = x.relabel (s ∘ r) := by
  cases x with
  | term n t => exact congrArg (Node.term n) (t.mapLabel_mapLabel r s)
  | new y => exact congrArg Node.new (y.relabel_relabel r s)
  | phi | inst | store | old => rfl

theorem Node.relabel_id (x : Node) : x.relabel id = x := by
  cases x with
  | term n t => exact congrArg (Node.term n) t.mapLabel_id
  | new y =>
      cases y with
      | term z t => exact congrArg (fun t => Node.new (.term z t)) t.mapLabel_id
      | phi p => rfl
      | inst i => rfl
  | phi | inst | store | old => rfl

theorem relabelBlock_relabelBlock (b : NodeBlock) : relabelBlock s (relabelBlock r b) = relabelBlock (s ∘ r) b := by
  rw [relabelBlock, relabelBlock, relabelBlock, List.map_map]
  congr 2
  funext x
  exact x.relabel_relabel r s

theorem relabelBlock_id (b : NodeBlock) : relabelBlock id b = b := by
  rw [relabelBlock, List.map_id'' Node.relabel_id]

def Node.Inner (x : Node) : Prop := ∀ r, x.relabel r = x

theorem map_relabel_inner {l : List Node} (h : ∀ x ∈ l, x.Inner) : l.map (Node.relabel r) = l := by
  rw [List.map_congr_left (fun x hx => h x hx r), List.map_id']

theorem kept_inner (i : HInst) : (kept i).Inner := fun _ => rfl

theorem map_kept_inner (l : List HInst) : ∀ x ∈ l.map kept, x.Inner := by
  intro x hx
  obtain ⟨i, _, rfl⟩ := List.mem_map.mp hx
  exact kept_inner i

theorem placed_inner (P : Input) (i : GInst) (l : List HInst) : ∀ x ∈ placed P i l, x.Inner := by
  intro x hx
  rw [placed] at hx
  split at hx
  next =>
    rcases List.mem_append.mp hx with hx | hx
    · obtain ⟨j, _, rfl⟩ := List.mem_map.mp hx
      exact fun _ => rfl
    · rw [List.mem_singleton.mp hx]
      exact fun _ => rfl
  next => exact map_kept_inner l x hx

theorem relabel_branch (x : HostId) (t : HTerm) : (branch x t).relabel r = branch x (t.mapLabel r) := by
  rw [branch, branch, HNode.map, HNode.map, Node.relabel, HNode.relabel, t.mapInst_mapLabel]

theorem relabel_old (n : Nat) : (Node.old n).relabel r = .old n := rfl

end Relabel

section Redirect

variable {l new new' x : HostBlock}

theorem redirect_self : redirect l l = id := by
  funext x
  by_cases h : x = l <;> simp [redirect, h]

/-- Where a label is no longer used, a second redirection has no effect. -/
theorem redirect_comp (h : new ≠ l) : redirect l new' ∘ redirect l new = redirect l new := by
  funext x
  by_cases hx : x = l <;> simp [redirect, hx, h]

end Redirect

def owner : HostBlock → Option Nat
  | .top n | .left n | .right n => some n
  | _ => none

def Node.isPhi : Node → Bool
  | .phi _ => true
  | .new (.phi _) => true
  | _ => false

theorem setIncoming_eq {x : Node} (h : x.isPhi = false) (preds : List HostBlock) (new : HostBlock) :
    x.setIncoming preds new = x := by
  cases x with
  | phi p => cases h
  | new y =>
      cases y with
      | phi p => cases h
      | inst i => rfl
      | term z t => rfl
  | inst | store | term | old => rfl

theorem isPhi_relabel (x : Node) (r : HostBlock → HostBlock) : (x.relabel r).isPhi = x.isPhi := by
  cases x with
  | new y => cases y <;> rfl
  | phi | inst | store | term | old => rfl

theorem edit_fresh {before : List NodeBlock} {n : Nat} (h : ∀ b ∈ before, owner b.1 ≠ some n) {l : HostBlock}
    (hl : owner l = some n) (f : List Node → List Node) : before.map (editBlock l f) = before := by
  rw [List.map_congr_left (g := id), List.map_id]
  intro b hb
  have hne : b.1 ≠ l := by
    intro heq
    exact h b hb (heq ▸ hl)
  rw [editBlock, if_neg hne, id]

theorem splitBasicBlockBefore_eq {w : Walk} (h : ∀ x ∈ w.rest, x.isPhi = false) (new : HostBlock) (x : HostId) :
    w.splitBasicBlockBefore new x =
      { w with
        entryTerm := w.entryTerm.relabel (redirect w.label new)
        before := w.before.map (relabelBlock (redirect w.label new)) ++ [(new, w.done ++ [branch x (.br w.label)])]
        done := []
        rest := w.rest.map (Node.relabel (redirect w.label new))
        after := w.after.map (relabelBlock (redirect w.label new)) } := by
  have hrest : w.rest.map (fun y => (y.relabel (redirect w.label new)).setIncoming (w.predecessors w.label) new) =
      w.rest.map (Node.relabel (redirect w.label new)) := by
    apply List.map_congr_left
    intro y hy
    apply setIncoming_eq
    rw [isPhi_relabel]
    exact h y hy
  rw [Walk.splitBasicBlockBefore, hrest]

/-- What `do_fcp_cm` makes of the function: three blocks before that of the iterator, of
which the first has all that was before the call and is where the block is entered. -/
theorem doFcpCm_eq {w : Walk} {b n : Nat} {y : Node} {T : List Node} (pre : List HInst) (s : Split)
    (hlabel : w.label = .body b) (hrest : w.rest = y :: T) (hT : ∀ x ∈ y :: T, x.isPhi = false)
    (hdone : ∀ x ∈ w.done, x.Inner) (hfresh : ∀ blk ∈ w.before, owner blk.1 ≠ some n) :
    w.doFcpCm n pre s =
      { w with
        entryTerm := w.entryTerm.relabel (redirect (.body b) (.top n))
        before := w.before.map (relabelBlock (redirect (.body b) (.top n))) ++
          [(.top n, w.done ++ pre.map kept ++ s.check.map kept ++
            [branch ⟨some n, 0⟩ (.condBr s.cond (.left n) (.right n))]),
          (.left n, s.left.map kept ++ [branch ⟨some n, 0⟩ (.br (.body b))]),
          (.right n, s.right.map kept ++ [.old n, branch ⟨some n, 0⟩ (.br (.body b))])]
        done := []
        rest := s.phi.toList.map (joined n) ++ T.map (Node.relabel (redirect (.body b) (.top n)))
        after := w.after.map (relabelBlock (redirect (.body b) (.top n)))
        toReplace := w.toReplace ++ [(n, s.phi.isSome)] } := by
  obtain ⟨entry, entryTerm, before, label, done, rest, after, toReplace, visits⟩ := w
  dsimp only at hlabel hrest hdone hfresh
  subst hlabel hrest
  have hcomp : redirect (.body b) (.right n) ∘ redirect (.body b) (.top n) = redirect (.body b) (.top n) :=
    redirect_comp (by simp)
  have hblocks : ∀ l : List NodeBlock, (l.map (relabelBlock (redirect (.body b) (.top n)))).map
      (relabelBlock (redirect (.body b) (.right n))) = l.map (relabelBlock (redirect (.body b) (.top n))) := by
    intro l
    rw [List.map_map]
    apply List.map_congr_left
    intro c _
    rw [Function.comp_apply, relabelBlock_relabelBlock, hcomp]
  have hnodes : (T.map (Node.relabel (redirect (.body b) (.top n)))).map (Node.relabel (redirect (.body b) (.right n))) =
      T.map (Node.relabel (redirect (.body b) (.top n))) := by
    rw [List.map_map]
    apply List.map_congr_left
    intro x _
    rw [Function.comp_apply, Node.relabel_relabel, hcomp]
  have hfresh' : ∀ c ∈ before.map (relabelBlock (redirect (.body b) (.top n))), owner c.1 ≠ some n := by
    intro c hc
    obtain ⟨d, hd, rfl⟩ := List.mem_map.mp hc
    exact hfresh d hd
  have hphi : ∀ x ∈ (T.map (Node.relabel (redirect (.body b) (.top n)))), x.isPhi = false := by
    intro x hx
    obtain ⟨z, hz, rfl⟩ := List.mem_map.mp hx
    rw [isPhi_relabel]
    exact hT z (List.mem_cons_of_mem y hz)
  -- The first split puts all that is before the call into the upper block, and the
  -- second one makes its branch lead to the block with the call.
  have htop : relabelBlock (redirect (.body b) (.right n))
      (.top n, done ++ pre.map kept ++ [branch ⟨some n, 0⟩ (.br (.body b))]) =
        (.top n, done ++ pre.map kept ++ [branch ⟨some n, 0⟩ (.br (.right n))]) := by
    rw [relabelBlock, List.map_append, map_relabel_inner _ (List.forall_mem_append.mpr ⟨hdone, map_kept_inner pre⟩),
      List.map_singleton, relabel_branch]
    simp [Term.mapLabel, redirect]
  have hfirst := splitBasicBlockBefore_eq (w := ⟨entry, entryTerm, before, .body b, done ++ pre.map kept, y :: T, after,
    toReplace, visits⟩) hT (.top n) ⟨some n, 0⟩
  unfold Walk.doFcpCm
  simp only [hfirst, List.map_cons, List.tail_cons]
  rw [splitBasicBlockBefore_eq hphi]
  simp only [Walk.edit, List.map_append, hblocks, hnodes, htop, List.map_cons, List.map_nil,
    edit_fresh hfresh' (l := .top n) rfl, edit_fresh hfresh' (l := .left n) rfl,
    edit_fresh hfresh' (l := .right n) rfl, Node.relabel_relabel, hcomp]
  simp [relabelBlock, editBlock]

section Leads

variable (P : Input) (X : Copy)

def Leads (w : Walk) : Except Error Walk → Prop
  | .ok w' => ∃ k, ∀ n, run P X (n + k) w = run P X n w'
  | .error e => ∃ k, ∀ n, run P X (n + k) w = some (.error e)

variable {P X} {w : Walk}

theorem Leads.refl (w : Walk) : Leads P X w (.ok w) := ⟨0, fun _ => rfl⟩

theorem Leads.trans {w' : Walk} {r : Except Error Walk} (h : Leads P X w (.ok w')) (h' : Leads P X w' r) :
    Leads P X w r := by
  obtain ⟨k, hk⟩ := h
  cases r with
  | ok w'' =>
      obtain ⟨j, hj⟩ := h'
      refine ⟨j + k, ?_⟩
      intro n
      rw [← Nat.add_assoc, hk, hj]
  | error e =>
      obtain ⟨j, hj⟩ := h'
      refine ⟨j + k, ?_⟩
      intro n
      rw [← Nat.add_assoc, hk, hj]

/-- What comes after something that may fail. -/
theorem Leads.bind {α : Type} {x : Except Error α} {f : α → Walk} {g : α → Except Error Walk}
    (hx : Leads P X w (x.map f)) (hg : ∀ a, x = .ok a → Leads P X (f a) (g a)) : Leads P X w (x >>= g) := by
  cases x with
  | ok a => exact hx.trans (hg a rfl)
  | error e => exact hx

theorem leads_doInstruction {x : Node} {T : List Node} (h : w.rest = x :: T) : Leads P X w (w.doInstruction P X) := by
  cases hstep : w.doInstruction P X with
  | error e =>
      refine ⟨1, ?_⟩
      intro n
      rewrite [run, h]
      cases w.after <;> simp only [hstep]
  | ok w' =>
      refine ⟨1, ?_⟩
      intro n
      rewrite [run, h]
      cases w.after <;> simp only [hstep]

/-- The turns for a list, one after the other: `next` is the state after one element and
`last` that after all of them. -/
theorem leads_mapM {α β : Type} {f : α → Except Error β} (fits : Walk → List α → Prop)
    (next : Walk → α → List α → β → Walk) (last : Walk → List α → List β → Walk)
    (hnil : ∀ w, fits w [] → last w [] [] = w)
    (hstep : ∀ w a l, fits w (a :: l) → Leads P X w ((f a).map (next w a l)))
    (hfits : ∀ w a l b, fits w (a :: l) → f a = .ok b → fits (next w a l b) l)
    (hlast : ∀ w a l b bs, fits w (a :: l) → f a = .ok b → last (next w a l b) l bs = last w (a :: l) (b :: bs))
    (l : List α) (hw : fits w l) : Leads P X w ((l.mapM f).map (last w l)) := by
  induction l generalizing w with
  | nil =>
      have hend : Leads P X w (.ok (last w [] [])) := by
        rw [hnil w hw]
        exact Leads.refl w
      exact hend
  | cons a l ih =>
      have hturn := hstep w a l hw
      rw [List.mapM_cons]
      cases ha : f a with
      | error e =>
          rw [ha] at hturn
          exact hturn
      | ok b =>
          rw [ha] at hturn
          have hrest := ih (hfits w a l b hw ha)
          cases hl : l.mapM f with
          | error e =>
              rw [hl] at hrest
              exact hturn.trans hrest
          | ok bs =>
              rw [hl] at hrest
              change Leads P X (next w a l b) (.ok (last (next w a l b) l bs)) at hrest
              rw [hlast w a l b bs hw ha] at hrest
              exact hturn.trans hrest

end Leads

section Block

variable {P : Input} {X : Copy} {w : Walk}

def clonedPhi (p : Phi Nat Nat Nat) : Node := .phi ⟨p.id, p.ty, p.incoming.map (fun e => (e.1, .body e.2))⟩

def keptPhi (q : HPhi) : Node := .new ((HNode.phi q).map .host .host)

def Walk.afterPhis (w : Walk) (phis : List (Phi Nat Nat Nat)) (T : List Node) (qs : List (List HInst × HPhi)) : Walk :=
  { w with
    entry := w.entry ++ (qs.flatMap Prod.fst).map kept
    done := w.done ++ qs.map (fun q => keptPhi q.2)
    rest := T
    visits := w.visits ++ phis.map (fun p => .cloned p.id) }

theorem doInstruction_phi {p : Phi Nat Nat Nat} {T : List Node} (h : w.rest = clonedPhi p :: T) :
    w.doInstruction P X = (doPhi P X p).map (fun q => w.afterPhis [p] T [q]) := by
  have hvalues : (p.incoming.map (fun e => (e.1, HostBlock.body e.2))).map Prod.fst = p.incoming.map Prod.fst := by
    rw [List.map_map]
    rfl
  have hlabels : (p.incoming.map (fun e => (e.1, HostBlock.body e.2))).map Prod.snd =
      p.incoming.map (fun e => .body e.2) := by
    rw [List.map_map]
    rfl
  rw [Walk.doInstruction, h]
  simp only [clonedPhi, doPhi, Node.visit]
  rw [hvalues, hlabels]
  cases doOperands (site P X p.id false) X.args 1 (p.incoming.map Prod.fst) with
  | error e => rfl
  | ok r => simp [Walk.afterPhis, bind, Except.bind, Except.map, pure, Except.pure, keptPhi]

theorem leads_phis (phis : List (Phi Nat Nat Nat)) {T : List Node} (h : w.rest = phis.map clonedPhi ++ T) :
    Leads P X w ((phis.mapM (doPhi P X)).map (w.afterPhis phis T)) := by
  apply leads_mapM (fun w phis => w.rest = phis.map clonedPhi ++ T)
    (fun w p phis q => w.afterPhis [p] (phis.map clonedPhi ++ T) [q]) (fun w phis qs => w.afterPhis phis T qs)
  · intro w h
    obtain ⟨entry, entryTerm, before, label, done, rest, after, toReplace, visits⟩ := w
    dsimp only at h
    simp [Walk.afterPhis, h]
  · intro w p phis h
    have hstep := leads_doInstruction (P := P) (X := X) h
    rw [doInstruction_phi h] at hstep
    exact hstep
  · intro w p phis q _ _
    rfl
  · intro w p phis q qs _ _
    simp [Walk.afterPhis]
  · exact h

variable (P X) in
def doStep (i : GInst) : Except Error (GInst × Piece) := (TakeOut.doInstruction P X i).map (fun p => (i, p))

def stepVisits (q : GInst × Piece) : List Visit :=
  .cloned q.1.id :: match q.2 with
    | .code _ => []
    | .split _ s => s.phi.toList.map (fun p => .join (defPtr q.1.id p.id))

variable (P) in
def stepReplaced (q : GInst × Piece) : List (Nat × Bool) :=
  match q.2 with
  | .code _ => if replaces P q.1 then [(q.1.id, hasValue q.1)] else []
  | .split _ s => [(q.1.id, s.phi.isSome)]

variable (P) in
def closed (b : Nat) (code : List Node) : List (GInst × Piece) → List NodeBlock
  | [] => []
  | (i, .code l) :: qs => closed b (code ++ placed P i l) qs
  | (i, .split pre s) :: qs =>
      (.top i.id, code ++ pre.map kept ++ s.check.map kept ++
        [branch ⟨some i.id, 0⟩ (.condBr s.cond (.left i.id) (.right i.id))]) ::
      (.left i.id, s.left.map kept ++ [branch ⟨some i.id, 0⟩ (.br (nextLabel b (qs.map Prod.snd)))]) ::
      (.right i.id, s.right.map kept ++ [.old i.id, branch ⟨some i.id, 0⟩ (.br (nextLabel b (qs.map Prod.snd)))]) ::
      closed b (s.phi.toList.map (joined i.id)) qs

variable (P) in
def opened (code : List Node) : List (GInst × Piece) → List Node
  | [] => code
  | (i, .code l) :: qs => opened (code ++ placed P i l) qs
  | (i, .split _ s) :: qs => opened (s.phi.toList.map (joined i.id)) qs

def stepLabel (b : Nat) (qs : List (GInst × Piece)) : HostBlock → HostBlock :=
  redirect (.body b) (nextLabel b (qs.map Prod.snd))

variable (P) in
def Walk.afterSteps (b : Nat) (w : Walk) (is : List GInst) (qs : List (GInst × Piece)) : Walk :=
  { w with
    entryTerm := w.entryTerm.relabel (stepLabel b qs)
    before := w.before.map (relabelBlock (stepLabel b qs)) ++ closed P b w.done qs
    done := opened P w.done qs
    rest := (w.rest.drop is.length).map (Node.relabel (stepLabel b qs))
    after := w.after.map (relabelBlock (stepLabel b qs))
    toReplace := w.toReplace ++ qs.flatMap (stepReplaced P)
    visits := w.visits ++ qs.flatMap stepVisits }

structure AtSteps (b : Nat) (w : Walk) (is : List GInst) : Prop where
  label : w.label = .body b
  rest : ∃ T, w.rest = is.map .inst ++ T ∧ ∀ x ∈ T, x.isPhi = false
  done : ∀ x ∈ w.done, x.Inner
  fresh : ∀ i ∈ is, ∀ blk ∈ w.before, owner blk.1 ≠ some i.id
  nodup : (is.map Inst.id).Nodup

theorem stepLabel_code {b : Nat} {i : GInst} {l : List HInst} (qs : List (GInst × Piece)) :
    stepLabel b ((i, .code l) :: qs) = stepLabel b qs := rfl

theorem stepLabel_nil (b : Nat) : stepLabel b [] = id := redirect_self

theorem stepLabel_split {b : Nat} {i : GInst} {pre : List HInst} {s : Split} (hs : s.call = i.id)
    (qs : List (GInst × Piece)) : stepLabel b ((i, .split pre s) :: qs) = redirect (.body b) (.top i.id) := by
  rw [← hs]
  rfl

theorem map_relabelBlock_id (l : List NodeBlock) : l.map (relabelBlock id) = l := List.map_id'' relabelBlock_id l

theorem map_relabel_id (l : List Node) : l.map (Node.relabel id) = l := List.map_id'' Node.relabel_id l

theorem doInstruction_placed {i : GInst} {l : List HInst} {T : List Node} (h : w.rest = .inst i :: T)
    (hi : TakeOut.doInstruction P X i = .ok (.code l)) (b : Nat) :
    w.doInstruction P X = .ok (w.afterSteps P b [i] [(i, .code l)]) := by
  obtain ⟨entry, entryTerm, before, label, done, rest, after, toReplace, visits⟩ := w
  dsimp only at h
  subst h
  rw [Walk.doInstruction]
  simp only [hi, Walk.afterSteps, stepLabel_code, stepLabel_nil, Node.relabel_id, map_relabelBlock_id, closed, opened,
    List.append_nil, List.length_cons, List.length_nil, List.drop_succ_cons, List.drop_zero, map_relabel_id,
    List.flatMap_cons, List.flatMap_nil, stepReplaced, stepVisits, Node.visit]
  cases replaces P i <;> simp [bind, Except.bind, pure, Except.pure]

/-- The walk goes on over the phi that `do_fcp_cm` made. -/
theorem leads_joined {n : Nat} {p : Option HPhi} {T : List Node} (h : w.rest = p.toList.map (joined n) ++ T) :
    Leads P X w (.ok { w with
      done := w.done ++ p.toList.map (joined n)
      rest := T
      visits := w.visits ++ p.toList.map (fun p => .join (defPtr n p.id)) }) := by
  obtain ⟨entry, entryTerm, before, label, done, rest, after, toReplace, visits⟩ := w
  dsimp only at h
  subst h
  cases p with
  | none =>
      simp only [Option.toList_none, List.map_nil, List.append_nil, List.nil_append]
      exact Leads.refl _
  | some p => exact leads_doInstruction rfl

theorem AtSteps.tail_isPhi {b : Nat} {i : GInst} {is : List GInst} {T : List Node} (h : AtSteps b w (i :: is))
    (hrest : w.rest = .inst i :: T) : ∀ x ∈ Node.inst i :: T, x.isPhi = false := by
  obtain ⟨U, hU, hphi⟩ := h.rest
  rw [hrest] at hU
  rw [hU]
  intro x hx
  rcases List.mem_append.mp hx with hx | hx
  · obtain ⟨j, _, rfl⟩ := List.mem_map.mp hx
    rfl
  · exact hphi x hx

theorem leads_split {b : Nat} {i : GInst} {is : List GInst} {pre : List HInst} {s : Split} (h : AtSteps b w (i :: is))
    (hi : TakeOut.doInstruction P X i = .ok (.split pre s)) :
    Leads P X w (.ok (w.afterSteps P b [i] [(i, .split pre s)])) := by
  obtain ⟨U, hU, _⟩ := h.rest
  have hrest : w.rest = .inst i :: (is.map .inst ++ U) := hU
  have hT := h.tail_isPhi hrest
  have hcall := split_call hi
  obtain ⟨entry, entryTerm, before, label, done, rest, after, toReplace, visits⟩ := w
  dsimp only at hrest
  subst hrest
  have hfirst := leads_doInstruction (P := P) (X := X)
    (w := ⟨entry, entryTerm, before, label, done, .inst i :: (is.map .inst ++ U), after, toReplace, visits⟩) rfl
  simp only [Walk.doInstruction, hi] at hfirst
  simp only [bind, Except.bind, pure, Except.pure] at hfirst
  have hcm := doFcpCm_eq (w := ⟨entry, entryTerm, before, label, done, .inst i :: (is.map .inst ++ U), after, toReplace,
    visits ++ [(Node.inst i).visit]⟩) pre s h.label rfl hT h.done (h.fresh i List.mem_cons_self)
  rw [hcm] at hfirst
  have hsecond := hfirst.trans (leads_joined rfl)
  simp only [Walk.afterSteps, stepLabel_split hcall, closed, opened, nextLabel, List.map_nil, List.flatMap_cons,
    List.flatMap_nil, stepReplaced, stepVisits, List.append_nil, List.length_cons, List.length_nil,
    List.drop_succ_cons, List.drop_zero]
  simpa [Node.visit] using hsecond

theorem leads_step {b : Nat} {i : GInst} {is : List GInst} (h : AtSteps b w (i :: is)) :
    Leads P X w ((doStep P X i).map (fun q => w.afterSteps P b [i] [q])) := by
  obtain ⟨U, hU, _⟩ := h.rest
  have hrest : w.rest = .inst i :: (is.map .inst ++ U) := hU
  have hstep := leads_doInstruction (P := P) (X := X) hrest
  rw [doStep]
  cases hi : TakeOut.doInstruction P X i with
  | error e =>
      rw [Walk.doInstruction, hrest] at hstep
      simp only [hi] at hstep
      exact hstep
  | ok p =>
      cases p with
      | code l =>
          rw [doInstruction_placed hrest hi b] at hstep
          exact hstep
      | split pre s => exact leads_split h hi

theorem joined_inner (n : Nat) (p : Option HPhi) : ∀ x ∈ p.toList.map (joined n), x.Inner := by
  intro x hx
  obtain ⟨q, _, rfl⟩ := List.mem_map.mp hx
  exact fun _ => rfl

theorem opened_inner {code : List Node} (h : ∀ x ∈ code, x.Inner) (qs : List (GInst × Piece)) :
    ∀ x ∈ opened P code qs, x.Inner := by
  induction qs generalizing code with
  | nil => exact h
  | cons q qs ih =>
      obtain ⟨i, p⟩ := q
      cases p with
      | code l => exact ih (List.forall_mem_append.mpr ⟨h, placed_inner P i l⟩)
      | split pre s => exact ih (joined_inner i.id s.phi)

theorem closed_owner {b : Nat} {code : List Node} {qs : List (GInst × Piece)} {blk : NodeBlock}
    (h : blk ∈ closed P b code qs) : ∃ q ∈ qs, owner blk.1 = some q.1.id := by
  induction qs generalizing code with
  | nil => cases h
  | cons q qs ih =>
      obtain ⟨i, p⟩ := q
      cases p with
      | code l =>
          obtain ⟨q, hq, howner⟩ := ih h
          exact ⟨q, List.mem_cons_of_mem _ hq, howner⟩
      | split pre s =>
          simp only [closed, List.mem_cons] at h
          rcases h with rfl | rfl | rfl | h
          · exact ⟨(i, .split pre s), List.mem_cons_self, rfl⟩
          · exact ⟨(i, .split pre s), List.mem_cons_self, rfl⟩
          · exact ⟨(i, .split pre s), List.mem_cons_self, rfl⟩
          · obtain ⟨q, hq, howner⟩ := ih h
            exact ⟨q, List.mem_cons_of_mem _ hq, howner⟩

theorem doStep_ok {i : GInst} {q : GInst × Piece} (h : doStep P X i = .ok q) :
    q.1 = i ∧ TakeOut.doInstruction P X i = .ok q.2 := by
  obtain ⟨p, hp, rfl⟩ := map_eq_ok.mp h
  exact ⟨rfl, hp⟩

theorem AtSteps.next {b : Nat} {i : GInst} {is : List GInst} {q : GInst × Piece} (h : AtSteps b w (i :: is))
    (hq : doStep P X i = .ok q) : AtSteps b (w.afterSteps P b [i] [q]) is := by
  obtain ⟨U, hU, hphi⟩ := h.rest
  obtain ⟨hne, hnodup⟩ := List.nodup_cons.mp h.nodup
  constructor
  · exact h.label
  · refine ⟨U.map (Node.relabel (stepLabel b [q])), ?_, ?_⟩
    · have hrest : w.rest.drop 1 = is.map .inst ++ U := by
        rw [hU]
        rfl
      have hinner : ∀ x ∈ is.map Node.inst, x.Inner := by
        intro x hx
        obtain ⟨j, _, rfl⟩ := List.mem_map.mp hx
        exact fun _ => rfl
      change (w.rest.drop 1).map (Node.relabel (stepLabel b [q])) = _
      rw [hrest, List.map_append, map_relabel_inner _ hinner]
    · intro x hx
      obtain ⟨y, hy, rfl⟩ := List.mem_map.mp hx
      rw [isPhi_relabel]
      exact hphi y hy
  · exact opened_inner h.done [q]
  · intro j hj blk hblk
    rcases List.mem_append.mp hblk with hblk | hblk
    · obtain ⟨c, hc, rfl⟩ := List.mem_map.mp hblk
      exact h.fresh j (List.mem_cons_of_mem i hj) c hc
    · obtain ⟨q', hq', howner⟩ := closed_owner hblk
      rw [howner, List.mem_singleton.mp hq', (doStep_ok hq).1]
      intro heq
      apply hne
      rw [Option.some.inj heq]
      exact List.mem_map_of_mem hj
  · exact hnodup

theorem closed_append (b : Nat) (code : List Node) (q : GInst × Piece) (qs : List (GInst × Piece))
    (hcode : ∀ x ∈ code, x.Inner) : closed P b code (q :: qs) =
      (closed P b code [q]).map (relabelBlock (stepLabel b qs)) ++ closed P b (opened P code [q]) qs := by
  obtain ⟨i, p⟩ := q
  cases p with
  | code l => rfl
  | split pre s =>
      have hpre := map_kept_inner pre
      have hcheck := map_kept_inner s.check
      have htop : (code ++ pre.map kept ++ s.check.map kept ++
          [branch ⟨some i.id, 0⟩ (.condBr s.cond (.left i.id) (.right i.id))]).map (Node.relabel (stepLabel b qs)) =
          code ++ pre.map kept ++ s.check.map kept ++
            [branch ⟨some i.id, 0⟩ (.condBr s.cond (.left i.id) (.right i.id))] := by
        rw [List.map_append, List.map_append, List.map_append, map_relabel_inner _ hcode, map_relabel_inner _ hpre,
          map_relabel_inner _ hcheck, List.map_singleton, relabel_branch]
        rfl
      have hnext : branch ⟨some i.id, 0⟩ ((Term.br (HostBlock.body b) : HTerm).mapLabel (stepLabel b qs)) =
          branch ⟨some i.id, 0⟩ (.br (nextLabel b (qs.map Prod.snd))) := by
        rw [Term.mapLabel, stepLabel, redirect, if_pos rfl]
      simp only [closed, opened, List.map_nil, nextLabel, List.map_cons, relabelBlock, htop]
      simp only [List.map_append, map_relabel_inner _ (map_kept_inner s.left), map_relabel_inner _ (map_kept_inner s.right),
        List.map_cons, List.map_nil, relabel_branch, hnext, relabel_old]
      rfl

theorem stepLabel_comp {b : Nat} {i : GInst} {q : GInst × Piece} (hq : doStep P X i = .ok q) (qs : List (GInst × Piece)) :
    stepLabel b qs ∘ stepLabel b [q] = stepLabel b (q :: qs) := by
  obtain ⟨i, p⟩ := q
  obtain ⟨rfl, hp⟩ := doStep_ok hq
  cases p with
  | code l => rw [stepLabel_code, stepLabel_code, stepLabel_nil, Function.comp_id]
  | split pre s =>
      have hcall := split_call hp
      rw [stepLabel_split hcall, stepLabel_split hcall]
      exact redirect_comp (by simp)

theorem afterSteps_cons {b : Nat} {i : GInst} {is : List GInst} {q : GInst × Piece} {qs : List (GInst × Piece)}
    (h : AtSteps b w (i :: is)) (hq : doStep P X i = .ok q) :
    (w.afterSteps P b [i] [q]).afterSteps P b is qs = w.afterSteps P b (i :: is) (q :: qs) := by
  have hcomp := stepLabel_comp (b := b) hq qs
  have hblocks : ∀ l : List NodeBlock, (l.map (relabelBlock (stepLabel b [q]))).map (relabelBlock (stepLabel b qs)) =
      l.map (relabelBlock (stepLabel b (q :: qs))) := by
    intro l
    rw [List.map_map, ← hcomp]
    apply List.map_congr_left
    intro c _
    exact relabelBlock_relabelBlock _ _ c
  have hnodes : ∀ l : List Node, (l.map (Node.relabel (stepLabel b [q]))).map (Node.relabel (stepLabel b qs)) =
      l.map (Node.relabel (stepLabel b (q :: qs))) := by
    intro l
    rw [List.map_map, ← hcomp]
    apply List.map_congr_left
    intro x _
    exact x.relabel_relabel _ _
  have hopened : opened P w.done (q :: qs) = opened P (opened P w.done [q]) qs := by
    obtain ⟨j, p⟩ := q
    cases p <;> rfl
  simp only [Walk.afterSteps, List.map_append, hblocks, hopened, Node.relabel_relabel, hcomp, ← List.map_drop, hnodes,
    List.drop_drop, List.length_cons, List.length_nil, closed_append b w.done q qs h.done, List.append_assoc,
    List.flatMap_cons, List.flatMap_nil, List.append_nil]
  rw [Nat.add_comm 1 is.length]

/-- The walk over the instructions of a block. -/
theorem leads_steps {b : Nat} {is : List GInst} (h : AtSteps b w is) :
    Leads P X w ((is.mapM (doStep P X)).map (w.afterSteps P b is)) := by
  apply leads_mapM (AtSteps b) (fun w i _ q => w.afterSteps P b [i] [q]) (fun w is qs => w.afterSteps P b is qs)
  · intro w _
    obtain ⟨entry, entryTerm, before, label, done, rest, after, toReplace, visits⟩ := w
    simp [Walk.afterSteps, stepLabel_nil, Node.relabel_id, map_relabelBlock_id, map_relabel_id, closed, opened]
  · intro w i is h
    exact leads_step h
  · intro w i is q h hq
    exact h.next hq
  · intro w i is q qs h hq
    exact afterSteps_cons h hq
  · exact h

end Block

end Comulator.BlockWalk
