import Comulator.ExecRules
import Comulator.HostTable

namespace Comulator.Outline

open Types Ir TypeHash HostIr Exec ExecRules

section Growth

variable {κ α β γ : Type}

def Grows (Inv : List κ → Prop) (P : List κ → α → Prop) (x : StateM (List κ) α) : Prop :=
  ∀ s, Inv s → s <+: (x s).2 ∧ Inv (x s).2 ∧ P (x s).2 (x s).1

variable {Inv : List κ → Prop} {P : List κ → α → Prop}

theorem Grows.pure {a : α} (h : ∀ s, P s a) : Grows Inv P (Pure.pure a) :=
  fun s hs => ⟨List.prefix_rfl, hs, h s⟩

theorem Grows.bind {R : List κ → β → Prop} {x : StateM (List κ) α} {f : α → StateM (List κ) β} (hx : Grows Inv P x)
    (hf : ∀ s a, P s a → Inv s → s <+: (f a s).2 ∧ Inv (f a s).2 ∧ R (f a s).2 (f a s).1) : Grows Inv R (x >>= f) := by
  intro s hs
  obtain ⟨hle, hinv, hp⟩ := hx s hs
  obtain ⟨hle', hinv', hr⟩ := hf (x s).2 (x s).1 hp hinv
  exact ⟨hle.trans hle', hinv', hr⟩

theorem Grows.map {R : List κ → β → Prop} {x : StateM (List κ) α} {f : α → β} (hx : Grows Inv P x)
    (hf : ∀ s a, P s a → R s (f a)) : Grows Inv R (f <$> x) := by
  intro s hs
  obtain ⟨hle, hinv, hp⟩ := hx s hs
  exact ⟨hle, hinv, hf _ _ hp⟩

theorem Grows.mapM {f : α → StateM (List κ) β} {R : List κ → α → β → Prop} {l : List α}
    (hmono : ∀ s t a b, s <+: t → R s a b → R t a b) (hf : ∀ a ∈ l, Grows Inv (fun s b => R s a b) (f a)) :
    Grows Inv (fun s r => List.Forall₂ (R s) l r) (l.mapM f) := by
  induction l with
  | nil =>
      rw [List.mapM_nil]
      exact Grows.pure (fun _ => .nil)
  | cons a l ih =>
      rw [List.mapM_cons]
      refine (hf a List.mem_cons_self).bind (fun s b hb hs => ?_)
      obtain ⟨hle, hinv, hall⟩ := ih (fun c hc => hf c (List.mem_cons_of_mem _ hc)) s hs
      exact ⟨hle, hinv, .cons (hmono _ _ _ _ hle hb) hall⟩

theorem forall₂_getElem? {R : α → β → Prop} {l : List α} {r : List β} (h : List.Forall₂ R l r) {i : Nat} {a : α}
    (ha : l[i]? = some a) : ∃ b, r[i]? = some b ∧ R a b := by
  induction h generalizing i with
  | nil => cases ha
  | cons hab _ ih =>
      cases i with
      | zero =>
          cases ha
          exact ⟨_, rfl, hab⟩
      | succ i => exact ih ha

theorem forall₂_mem_right {R : α → β → Prop} {l : List α} {r : List β} (h : List.Forall₂ R l r) {b : β}
    (hb : b ∈ r) : ∃ a ∈ l, R a b := by
  induction h with
  | nil => cases hb
  | cons hab _ ih =>
      rcases List.mem_cons.mp hb with rfl | hb
      · exact ⟨_, List.mem_cons_self, hab⟩
      · obtain ⟨a, ha, hr⟩ := ih hb
        exact ⟨a, List.mem_cons_of_mem _ ha, hr⟩

end Growth

inductive Check
  | nothing
  | toOutline
  | toNegOutline
  deriving DecidableEq

def checkOp (name : GValue → String) : InstOp Nat Nat → Check
  | .landingPad | .catchPad | .cleanupPad => .toNegOutline
  | .call c =>
      match c.calledOperand with
      | .inlineAsm _ => .toNegOutline
      | callee =>
          if c.functionType.isVarArg then .toOutline
          else if name callee = "_setjmp" then .toNegOutline
          else .nothing
  | _ => .nothing

def checkTerm : Term Nat Nat Nat → Check
  | .indirectBr _ _ | .invoke _ _ _ | .resume | .catchSwitch | .catchReturn | .cleanupReturn | .callBr _ => .toNegOutline
  | _ => .nothing

def hasNegOutline (name : GValue → String) (f : GFunction) : Bool :=
  f.blocks.any (fun b => b.2.insts.any (fun i => checkOp name i.op = .toNegOutline) || checkTerm b.2.term = .toNegOutline)

/-- The operands of a call as an instruction: the called one comes last. -/
def operands (c : GCall) : List (Ty × GValue) := c.args ++ [(ptrTy, c.calledOperand)]

def outlinerType (c : GCall) : FunctionType := ⟨c.functionType.ret, (operands c).map Prod.fst, false⟩

def outlinerRet (c : GCall) : Option (Ty × GValue) :=
  if c.functionType.ret = .void then none else some (c.functionType.ret, .inst 0)

def outlinerClone (c : GCall) : GCall :=
  { c with calledOperand := .arg c.args.length, args := c.args.zipIdx.map (fun p => (p.1.1, .arg p.2)) }

def outlinerBlock (c : GCall) : GBlock := ⟨[], [⟨0, .call (outlinerClone c)⟩], 1, .ret (outlinerRet c)⟩

def outlinerFunction (c : GCall) : GFunction :=
  ⟨outlinerType c, 0, ⟨[]⟩, none, [(0, outlinerBlock c)], [], none⟩

def outlinerCall (k : Nat) (f : GFunction) (c : GCall) : GCall :=
  ⟨f.type, 0, ⟨[]⟩, .const (.global k), operands c⟩

abbrev Outliners := List (HashCode × GFunction)

section Pass

variable (H : HashOps) (names : Nat → GValue → String) (m : Module) (bw : BwList)

def outlinerHash (c : GCall) : Option HashCode := functionTypeHash H (outlinerType c)

def genOutliner (c : GCall) : StateM Outliners (Option (Nat × GFunction)) := fun s =>
  match outlinerHash H c with
  | none => (none, s)
  | some h =>
      match s.zipIdx.find? (fun e => e.1.1 == h) with
      | some e => (some (m.symbols.length + e.2, e.1.2), s)
      | none => (some (m.symbols.length + s.length, outlinerFunction c), s ++ [(h, outlinerFunction c)])

def outlineInst (name : GValue → String) (i : GInst) : StateM Outliners GInst :=
  match i.op with
  | .call c =>
      if checkOp name i.op = .toOutline then do
        match ← genOutliner H m c with
        | none => return i
        | some (k, f) => return ⟨i.id, .call (outlinerCall k f c)⟩
      else return i
  | _ => return i

def outlines (g : Nat) (f : GFunction) : Bool :=
  !decide ((bw.funcs g).bind FuncBw.outline = some false) && !f.type.isVarArg && !hasNegOutline (names g) f

def outlineBlock (name : GValue → String) (b : Nat × GBlock) : StateM Outliners (Nat × GBlock) := do
  let insts ← b.2.insts.mapM (outlineInst H m name)
  return (b.1, { b.2 with insts })

def outlineFunction (g : Nat) (f : GFunction) : StateM Outliners GFunction :=
  if outlines names bw g f then do
    let blocks ← f.blocks.mapM (outlineBlock H m (names g))
    return { f with blocks }
  else return f

def outlineSymbol (s : GlobalValue × Nat) : StateM Outliners GlobalValue :=
  match s.1 with
  | .function f => GlobalValue.function <$> outlineFunction H names m bw s.2 f
  | v => return v

def outline : List GlobalValue :=
  let r := (m.symbols.zipIdx.mapM (outlineSymbol H names m bw)) []
  r.1 ++ r.2.map (fun e => .function e.2)

end Pass

section Run

variable {S W : Type} (sem : Sem S W) (C : Ctx Nat S W)

def framed (ret : Ty) (x : Run S W (Val S)) : Run S W (Val S) := do
  let pads ← getPads
  let r ← x
  let pads' ← getPads
  setPads (pads'.take pads.length)
  return if ret = .void then .undef else r

variable {sem C} {ws : List (Val S)} {v : Val S} {c : GCall} {env : Env Nat S}

theorem clone_args (h : ws.length = c.args.length) :
    evalValues sem C.toSymbols (ws ++ [v]) env ((outlinerClone c).args.map Prod.snd) = some ws := by
  rw [evalValues_eq_some, List.forall₂_iff_get]
  constructor
  · simp [outlinerClone, h]
  · intro i hi hi'
    have hget : (ws ++ [v])[i]? = ws[i]? := List.getElem?_append_left hi'
    simp [outlinerClone, evalValue, hget, List.getElem?_eq_getElem hi']

theorem clone_callee (h : ws.length = c.args.length) :
    callee sem C (ws ++ [v]) env (outlinerClone c) = some (C.indirect c.interface v) := by
  have hget : (ws ++ [v])[c.args.length]? = some v := by
    rw [← h, List.getElem?_concat_length]
  simp only [callee, outlinerClone, evalValue, hget]
  rfl

theorem clone_run (h : ws.length = c.args.length) :
    execCall sem C (ws ++ [v]) env (outlinerClone c) = C.indirect c.interface v ws := by
  rw [execCall, clone_args h, clone_callee h]
  rfl

theorem outlinerBlock_run (h : ws.length = c.args.length) (prev : Option Nat) :
    execBlock sem C (ws ++ [v]) env prev (outlinerBlock c) = do
      let r ← C.indirect c.interface v ws
      return (if c.functionType.ret = .void then env else Function.update env 0 (some r),
        .ret (if c.functionType.ret = .void then .undef else r)) := by
  have hphis : execPhis sem C.toSymbols (ws ++ [v]) env prev ([] : List (Phi Nat Nat Nat)) = (pure env : Run S W _) := rfl
  simp only [execBlock, outlinerBlock, hphis, pure_bind, execInsts, List.foldlM_cons, List.foldlM_nil, execInst, execOp,
    clone_run h, bind_assoc, bind_pure]
  congr
  funext r
  by_cases hvoid : c.functionType.ret = .void
  · simp [outlinerRet, execTerm, hvoid, isVoidCall, outlinerClone]
  · have hret : isVoidCall (.call (outlinerClone c)) = false := decide_eq_false hvoid
    simp [outlinerRet, execTerm, hvoid, hret, evalValue, need]

/-- An outliner calls the value in its last argument with the values in the
others, through the interface of the call it was made for. -/
theorem outliner_run (fuel : Nat) (h : ws.length = c.args.length) :
    execFunction sem C (ws ++ [v]) (outlinerFunction c) (fuel + 1) =
      framed c.functionType.ret (C.indirect c.interface v ws) := by
  have hlen : (ws ++ [v]).length = (outlinerFunction c).type.params.length := by
    simp [outlinerFunction, outlinerType, operands, h]
  have hblock : (outlinerFunction c).block? 0 = some (outlinerBlock c) := rfl
  have hops : evalConsts sem C.toSymbols ((outlinerFunction c).operands ++ (outlinerFunction c).prefixData.toList) =
      some [] := rfl
  have hentry : (outlinerFunction c).blocks.head?.map Prod.fst = some 0 := rfl
  simp only [execFunction, framed, execBlocks, need, require, hops, hlen, hblock, hentry, outlinerBlock_run h, decide_true,
    if_true, pure_bind, bind_assoc]

end Run

section Sites

variable (H : HashOps) (names : Nat → GValue → String) (m : Module) (bw : BwList)

def outlined? (name : GValue → String) (i : GInst) : Option (GCall × HashCode) :=
  match i.op with
  | .call c => if checkOp name i.op = .toOutline then (outlinerHash H c).map (fun h => (c, h)) else none
  | _ => none

def instAt (symbols : List GlobalValue) (g b i : Nat) : Option GInst :=
  match symbols[g]? with
  | some (.function f) => f.blocks[b]?.bind (fun blk => blk.2.insts[i]?)
  | _ => none

structure Site (g b i : Nat) (inst : GInst) (c : GCall) (h : HashCode) : Prop where
  place : instAt m.symbols g b i = some inst
  function : ∃ f, m.function? g = some f ∧ outlines names bw g f = true
  outlined : outlined? H (names g) inst = some (c, h)

def Outlined (c : GCall) (h : HashCode) : Prop := ∃ g b i inst, Site H names m bw g b i inst c h

structure Made (Q : GCall → HashCode → Prop) (s : Outliners) : Prop where
  hashes : (s.map Prod.fst).Nodup
  calls : ∀ e ∈ s, ∃ c, Q c e.1 ∧ e.2 = outlinerFunction c

def Replaced (name : GValue → String) (s : Outliners) (inst inst' : GInst) : Prop :=
  match outlined? H name inst with
  | some (c, h) => ∃ j f, s[j]? = some (h, f) ∧ inst' = ⟨inst.id, .call (outlinerCall (m.symbols.length + j) f c)⟩
  | none => inst' = inst

variable {H names m bw} {Q : GCall → HashCode → Prop}

theorem Replaced.mono {name : GValue → String} {s t : Outliners} {inst inst' : GInst} (hle : s <+: t)
    (h : Replaced H m name s inst inst') : Replaced H m name t inst inst' := by
  unfold Replaced at h ⊢
  split at h
  next =>
    obtain ⟨j, f, hj, hinst⟩ := h
    obtain ⟨r, rfl⟩ := hle
    refine ⟨j, f, ?_, hinst⟩
    rw [List.getElem?_append_left (List.getElem?_eq_some_iff.mp hj).1]
    exact hj
  next => exact h

theorem genOutliner_grows {c : GCall} {h : HashCode} (hc : outlinerHash H c = some h) (hq : Q c h) :
    Grows (Made Q) (fun s r => ∃ j f, s[j]? = some (h, f) ∧ r = some (m.symbols.length + j, f)) (genOutliner H m c) := by
  intro s hs
  cases hfind : s.zipIdx.find? (fun e => e.1.1 == h) with
  | some e =>
      have hmem := List.mem_of_find?_eq_some hfind
      have hkey : e.1.1 = h := by simpa using List.find?_some hfind
      have hget : s[e.2]? = some e.1 := List.mem_zipIdx_iff_getElem?.mp hmem
      have hrun : genOutliner H m c s = (some (m.symbols.length + e.2, e.1.2), s) := by
        simp only [genOutliner, hc, hfind]
      rw [hrun]
      exact ⟨List.prefix_rfl, hs, e.2, e.1.2, by rw [hget, ← hkey], rfl⟩
  | none =>
      have hnew : h ∉ s.map Prod.fst := by
        intro hmem
        obtain ⟨e, he, rfl⟩ := List.mem_map.mp hmem
        obtain ⟨j, hj⟩ := List.mem_iff_getElem?.mp he
        have hno := List.find?_eq_none.mp hfind (e, j) (List.mem_zipIdx_iff_getElem?.mpr hj)
        simp at hno
      have hrun : genOutliner H m c s =
          (some (m.symbols.length + s.length, outlinerFunction c), s ++ [(h, outlinerFunction c)]) := by
        simp only [genOutliner, hc, hfind]
      rw [hrun]
      refine ⟨List.prefix_append _ _, ⟨?_, ?_⟩, s.length, outlinerFunction c, List.getElem?_concat_length, rfl⟩
      · rw [List.map_append]
        refine List.nodup_append.mpr ⟨hs.hashes, List.nodup_singleton _, ?_⟩
        rintro a ha _ hb rfl
        cases List.mem_singleton.mp hb
        exact hnew ha
      · intro e he
        rcases List.mem_append.mp he with he | he
        · exact hs.calls e he
        · cases List.mem_singleton.mp he
          exact ⟨c, hq, rfl⟩

theorem outlineInst_grows {name : GValue → String} {inst : GInst}
    (hq : ∀ c h, outlined? H name inst = some (c, h) → Q c h) :
    Grows (Made Q) (fun s inst' => Replaced H m name s inst inst') (outlineInst H m name inst) := by
  unfold outlineInst
  split
  next c hop =>
    by_cases hcheck : checkOp name inst.op = .toOutline
    · rw [if_pos hcheck]
      cases hh : outlinerHash H c with
      | none =>
          have hsite : outlined? H name inst = none := by simp [outlined?, hop, hh]
          have hnone : genOutliner H m c = pure none := by
            funext s
            simp only [genOutliner, hh]
            rfl
          rw [hnone, pure_bind]
          refine Grows.pure (fun s => ?_)
          unfold Replaced
          rw [hsite]
      | some h =>
          have hsite : outlined? H name inst = some (c, h) := by
            rw [hop] at hcheck
            simp [outlined?, hop, hh, hcheck]
          refine (genOutliner_grows hh (hq c h hsite)).bind ?_
          rintro s _ ⟨j, f, hj, rfl⟩ hs
          refine ⟨List.prefix_rfl, hs, ?_⟩
          unfold Replaced
          rw [hsite]
          exact ⟨j, f, hj, rfl⟩
    · rw [if_neg hcheck]
      have hsite : outlined? H name inst = none := by
        rw [hop] at hcheck
        simp [outlined?, hop, hcheck]
      refine Grows.pure (fun s => ?_)
      unfold Replaced
      rw [hsite]
  next hop =>
    have hsite : outlined? H name inst = none := by
      unfold outlined?
      split
      next c hc => exact absurd hc (hop c)
      next => rfl
    refine Grows.pure (fun s => ?_)
    unfold Replaced
    rw [hsite]

variable (H m) in
def BlockChanged (name : GValue → String) (s : Outliners) (b b' : Nat × GBlock) : Prop :=
  ∃ insts, b' = (b.1, { b.2 with insts }) ∧ List.Forall₂ (Replaced H m name s) b.2.insts insts

variable (H names m bw) in
def BodyChanged (s : Outliners) (g : Nat) (f : GFunction) (blocks : List (Nat × GBlock)) : Prop :=
  if outlines names bw g f then List.Forall₂ (BlockChanged H m (names g) s) f.blocks blocks else blocks = f.blocks

variable (H names m bw) in
def Changed (s : Outliners) (v : GlobalValue × Nat) (v' : GlobalValue) : Prop :=
  match v.1 with
  | .function f => ∃ blocks, v' = .function { f with blocks } ∧ BodyChanged H names m bw s v.2 f blocks
  | w => v' = w

theorem BlockChanged.mono {name : GValue → String} {s t : Outliners} {b b' : Nat × GBlock} (hle : s <+: t)
    (h : BlockChanged H m name s b b') : BlockChanged H m name t b b' := by
  obtain ⟨insts, hb, hinsts⟩ := h
  exact ⟨insts, hb, hinsts.imp (fun _ _ => Replaced.mono hle)⟩

theorem BodyChanged.mono {s t : Outliners} {g : Nat} {f : GFunction} {blocks : List (Nat × GBlock)} (hle : s <+: t)
    (h : BodyChanged H names m bw s g f blocks) : BodyChanged H names m bw t g f blocks := by
  unfold BodyChanged at h ⊢
  by_cases hout : outlines names bw g f = true
  · rw [if_pos hout] at h ⊢
    exact h.imp (fun _ _ => BlockChanged.mono hle)
  · rw [if_neg hout] at h ⊢
    exact h

theorem Changed.mono {s t : Outliners} {v : GlobalValue × Nat} {v' : GlobalValue} (hle : s <+: t)
    (h : Changed H names m bw s v v') : Changed H names m bw t v v' := by
  obtain ⟨v, g⟩ := v
  cases v with
  | function f =>
      obtain ⟨blocks, hv', hbody⟩ := h
      exact ⟨blocks, hv', hbody.mono hle⟩
  | _ => exact h

theorem outlineBlock_grows {name : GValue → String} {b : Nat × GBlock}
    (hq : ∀ inst ∈ b.2.insts, ∀ c h, outlined? H name inst = some (c, h) → Q c h) :
    Grows (Made Q) (fun s b' => BlockChanged H m name s b b') (outlineBlock H m name b) := by
  refine (Grows.mapM (R := Replaced H m name) (fun _ _ _ _ => Replaced.mono)
    (fun inst hi => outlineInst_grows (hq inst hi))).bind ?_
  intro s insts h hs
  exact ⟨List.prefix_rfl, hs, insts, rfl, h⟩

theorem outlineFunction_grows {g : Nat} {f : GFunction}
    (hq : outlines names bw g f = true → ∀ b ∈ f.blocks, ∀ inst ∈ b.2.insts, ∀ c h,
      outlined? H (names g) inst = some (c, h) → Q c h) :
    Grows (Made Q) (fun s f' => ∃ blocks, f' = { f with blocks } ∧ BodyChanged H names m bw s g f blocks)
      (outlineFunction H names m bw g f) := by
  unfold outlineFunction
  by_cases hout : outlines names bw g f = true
  · rw [if_pos hout]
    refine (Grows.mapM (R := BlockChanged H m (names g)) (fun _ _ _ _ => BlockChanged.mono)
      (fun b hb => outlineBlock_grows (hq hout b hb))).bind ?_
    intro s blocks h hs
    refine ⟨List.prefix_rfl, hs, blocks, rfl, ?_⟩
    rw [BodyChanged, if_pos hout]
    exact h
  · rw [if_neg hout]
    refine Grows.pure (fun s => ⟨f.blocks, rfl, ?_⟩)
    rw [BodyChanged, if_neg hout]

theorem outlineSymbol_grows {v : GlobalValue × Nat}
    (hq : ∀ f, v.1 = .function f → outlines names bw v.2 f = true → ∀ b ∈ f.blocks, ∀ inst ∈ b.2.insts, ∀ c h,
      outlined? H (names v.2) inst = some (c, h) → Q c h) :
    Grows (Made Q) (fun s v' => Changed H names m bw s v v') (outlineSymbol H names m bw v) := by
  obtain ⟨v, g⟩ := v
  cases v with
  | function f =>
      refine Grows.map (outlineFunction_grows (hq f rfl)) ?_
      rintro s f' ⟨blocks, rfl, hbody⟩
      exact ⟨blocks, rfl, hbody⟩
  | _ => exact Grows.pure (fun _ => rfl)

variable (H names m bw) in
def outliners : Outliners := ((m.symbols.zipIdx.mapM (outlineSymbol H names m bw)) []).2

variable (H names m bw) in
theorem outline_spec : Made (Outlined H names m bw) (outliners H names m bw) ∧
    List.Forall₂ (Changed H names m bw (outliners H names m bw)) m.symbols.zipIdx
      ((m.symbols.zipIdx.mapM (outlineSymbol H names m bw)) []).1 := by
  have hempty : Made (Outlined H names m bw) [] := ⟨List.nodup_nil, fun e he => absurd he List.not_mem_nil⟩
  refine (Grows.mapM (R := Changed H names m bw) (fun _ _ _ _ => Changed.mono) ?_ [] hempty).2
  intro v hv
  apply outlineSymbol_grows
  intro f hf hout b hb inst hi c h hc
  have hget : m.symbols[v.2]? = some (.function f) := by
    rw [List.mem_zipIdx_iff_getElem?.mp hv, hf]
  obtain ⟨bi, hbi⟩ := List.mem_iff_getElem?.mp hb
  obtain ⟨ii, hii⟩ := List.mem_iff_getElem?.mp hi
  refine ⟨v.2, bi, ii, inst, ?_, ⟨f, ?_, hout⟩, hc⟩
  · simp [instAt, hget, hbi, hii]
  · simp [Module.function?, hget]

theorem outline_below {g : Nat} {v : GlobalValue}
    (hv : ((m.symbols.zipIdx.mapM (outlineSymbol H names m bw)) []).1[g]? = some v) :
    (outline H names m bw)[g]? = some v := by
  unfold outline
  rw [List.getElem?_append_left (List.getElem?_eq_some_iff.mp hv).1]
  exact hv

theorem outline_above (j : Nat) : (outline H names m bw)[m.symbols.length + j]? =
    ((outliners H names m bw)[j]?).map (fun e => .function e.2) := by
  have hlen := (outline_spec H names m bw).2.length_eq
  rw [List.length_zipIdx] at hlen
  unfold outline
  rw [hlen, List.getElem?_append_right (Nat.le_add_right _ _), Nat.add_sub_cancel_left, List.getElem?_map]
  rfl

/-- A call that is outlined becomes a call of the one outliner with its hash. -/
theorem outline_site {g b i : Nat} {inst : GInst} {c : GCall} {h : HashCode}
    (hsite : Site H names m bw g b i inst c h) : ∃ j f, (outliners H names m bw)[j]? = some (h, f) ∧
      (outline H names m bw)[m.symbols.length + j]? = some (.function f) ∧
      instAt (outline H names m bw) g b i =
        some ⟨inst.id, .call (outlinerCall (m.symbols.length + j) f c)⟩ := by
  obtain ⟨f₀, hf₀, hout⟩ := hsite.function
  obtain ⟨_, hall⟩ := outline_spec H names m bw
  have hget := Module.function?_eq_some.mp hf₀
  have hzip : m.symbols.zipIdx[g]? = some (.function f₀, g) := by
    rw [List.getElem?_zipIdx, hget]
    simp
  obtain ⟨v', hv', blocks, rfl, hblocks⟩ := forall₂_getElem? hall hzip
  rw [BodyChanged, if_pos hout] at hblocks
  have hplace := hsite.place
  simp only [instAt, hget] at hplace
  obtain ⟨blk, hblk, hinst⟩ := Option.bind_eq_some_iff.mp hplace
  obtain ⟨_, hblk', insts, rfl, hinsts⟩ := forall₂_getElem? hblocks hblk
  obtain ⟨inst', hinst', hrepl⟩ := forall₂_getElem? hinsts hinst
  unfold Replaced at hrepl
  rw [hsite.outlined] at hrepl
  obtain ⟨j, f, hj, rfl⟩ := hrepl
  refine ⟨j, f, hj, ?_, ?_⟩
  · rw [outline_above, hj]
    rfl
  · simp only [instAt, outline_below hv', hblk', Option.bind_some]
    exact hinst'

end Sites

/-- The outliner `f` executes the call `c`: it can be called with the operands of
`c`, and calls the same value with the same arguments through the same interface
and returns the result. -/
structure Preserved (m : Module) (c : GCall) (f : GFunction) : Prop where
  typed : f.type = outlinerType c
  /-- The address of an intrinsic cannot be passed. -/
  callee : ∀ g f', c.calledOperand = .const (.global g) → m.function? g = some f' → f'.isIntrinsic = false
  executes : ∀ {S W : Type} (sem : Sem S W) (C : Ctx Nat S W) (v : Val S) (ws : List (Val S)) (fuel : Nat),
    ws.length = c.args.length → execFunction sem C (ws ++ [v]) f (fuel + 1) =
      framed c.functionType.ret (C.indirect c.interface v ws)

section Preservation

variable {m : Module} {c c₀ : GCall}

def spyCtx : Ctx Nat Unit Interface where
  global _ := none
  wrapper _ _ := none
  cell _ := none
  direct _ := none
  indirect s _ _ := fun x => .ok .undef { x with world := s }

def spySem : Sem Unit Interface where
  op _ _ _ _ _ := none
  expr _ _ _ _ := .undef
  intrinsic _ _ _ _ := none
  truth _ := none
  isCase _ _ := false

theorem length_of_outlinerType (h : outlinerType c₀ = outlinerType c) : c₀.args.length = c.args.length := by
  have hlen := congrArg (fun t : FunctionType => t.params.length) h
  simpa [outlinerType, operands] using hlen

theorem preserved_iff : Preserved m c (outlinerFunction c₀) ↔ outlinerType c₀ = outlinerType c ∧
    (∀ g f', c.calledOperand = .const (.global g) → m.function? g = some f' → f'.isIntrinsic = false) ∧
      c₀.interface = c.interface := by
  constructor
  · intro h
    refine ⟨h.typed, h.callee, ?_⟩
    have hlen := length_of_outlinerType h.typed
    have hrun := h.executes spySem spyCtx .undef (List.replicate c.args.length .undef) 0 List.length_replicate
    rw [outliner_run 0 (by rw [List.length_replicate, hlen])] at hrun
    have hworld := congrFun hrun ⟨c.interface, [], []⟩
    injection hworld with _ hmachine
    injection hmachine
  · rintro ⟨htype, hcallee, hinterface⟩
    refine ⟨htype, hcallee, ?_⟩
    intro S W sem C v ws fuel hlen
    have hret : c₀.functionType.ret = c.functionType.ret :=
      show (outlinerType c₀).ret = (outlinerType c).ret from congrArg FunctionType.ret htype
    rw [outliner_run fuel (hlen.trans (length_of_outlinerType htype).symm), hinterface, hret]

variable {S W : Type} {sem : Sem S W} {C : Ctx Nat S W} {args ws : List (Val S)} {env : Env Nat S} {v : Val S}

/-- The instruction that calls the outliner does what the call did. -/
theorem Preserved.inst_run {k fuel : Nat} {f : GFunction} (h : Preserved m c f)
    (hdirect : C.direct k = some (fun _ vs => execFunction sem C vs f (fuel + 1)))
    (hargs : evalValues sem C.toSymbols args env (c.args.map Prod.snd) = some ws)
    (hv : evalValue sem C.toSymbols args env c.calledOperand = some v) :
    execOp sem C args env (.call (outlinerCall k f c)) = framed c.functionType.ret (C.indirect c.interface v ws) := by
  have hops : evalValues sem C.toSymbols args env ((outlinerCall k f c).args.map Prod.snd) = some (ws ++ [v]) := by
    rw [evalValues_eq_some] at hargs ⊢
    rw [outlinerCall, operands, List.map_append]
    exact List.rel_append hargs (.cons hv .nil)
  have hlen : ws.length = c.args.length := by
    rw [(evalValues_eq_some.mp hargs).length_eq.symm, List.length_map]
  have hcallee : Exec.callee sem C args env (outlinerCall k f c) = some (fun vs => execFunction sem C vs f (fuel + 1)) :=
    callee_direct rfl hdirect
  rw [execOp, execCall, hops, hcallee, ← h.executes sem C v ws fuel hlen]
  rfl

end Preservation

def variadicType (params : List Ty) : FunctionType := ⟨.integer 32, params, true⟩

def variadicCall (k : Nat) (params : List Ty) : GCall :=
  ⟨variadicType params, 0, ⟨[]⟩, .const (.global k), [(ptrTy, .const .nullPtr), (.integer 32, .const (.int 32 7))]⟩

def variadicCaller (c : GCall) : GFunction :=
  ⟨⟨.void, [], false⟩, 0, ⟨[]⟩, none, [(0, ⟨[], [⟨0, .call c⟩], 1, .ret none⟩)], [], none⟩

def variadicDeclaration (params : List Ty) : GFunction := ⟨variadicType params, 0, ⟨[]⟩, none, [], [], none⟩

def variadicModule : Module :=
  ⟨[.function (variadicCaller (variadicCall 2 [ptrTy])), .function (variadicCaller (variadicCall 3 [ptrTy, .integer 32])),
    .function (variadicDeclaration [ptrTy]), .function (variadicDeclaration [ptrTy, .integer 32])], by decide⟩

end Comulator.Outline
