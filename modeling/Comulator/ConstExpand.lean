import Comulator.CallCopy
import Comulator.SelfContained

namespace Comulator.ConstExpand

open Fallible Types Ir TypeHash Symtbl HostIr TakeOut Analyze Exec Simulation ExecRules Compose CallbackRun OperandRun SelfContained CallCopy

def isExpanded : Const Nat → Bool
  | .global _ => false
  | c => !(constRefs c).isEmpty

theorem global_or_refs_eq_nil {c : Const Nat} (h : isExpanded c = false) : (∃ g, c = .global g) ∨ constRefs c = [] := by
  cases c with
  | global g => exact .inl ⟨g, rfl⟩
  | _ => exact .inr (by simpa [isExpanded] using h)

def isExpansion : HOp → Bool
  | .insertValue _ _ _ | .expand _ _ _ _ => true
  | _ => false

def mdInsts : MdOperand HostSym HostId → List HostId
  | .inst x => [x]
  | _ => []

def metadataInsts : Metadata HostSym HostId → List HostId
  | .value v => mdInsts v
  | .argList vs => vs.flatMap mdInsts
  | .node _ => []

def valueInsts : HValue → List HostId
  | .inst x => [x]
  | .metadata md => metadataInsts md
  | _ => []

def opInsts : HOp → List HostId
  | .call c => valueInsts c.calledOperand ++ (c.args.map Prod.snd).flatMap valueInsts
  | .op _ _ _ vs | .expand _ _ _ vs => vs.flatMap valueInsts
  | .store _ v p | .insertValue v p _ | .icmpEq v p => valueInsts v ++ valueInsts p
  | .load _ v | .elementPtr v _ | .extractValue v _ | .stackRestore v | .intToPtr v | .xorMagic _ v => valueInsts v
  | .landingPad | .catchPad | .cleanupPad | .alloca _ | .stackSave => []

def DefinedBefore (known : HostId → Prop) : List HInst → Prop
  | [] => True
  | i :: l => (∀ x ∈ opInsts i.op, known x) ∧ DefinedBefore (fun x => known x ∨ x = i.id) l

theorem DefinedBefore.mono {known known' : HostId → Prop} {l : List HInst} (h : DefinedBefore known l)
    (hle : ∀ x, known x → known' x) : DefinedBefore known' l := by
  induction l generalizing known known' with
  | nil => trivial
  | cons i l ih => exact ⟨fun x hx => hle x (h.1 x hx), ih h.2 (fun x => Or.imp_left (hle x))⟩

theorem DefinedBefore.append {known : HostId → Prop} {l l' : List HInst} (h : DefinedBefore known l)
    (h' : DefinedBefore (fun x => known x ∨ x ∈ l.map Inst.id) l') : DefinedBefore known (l ++ l') := by
  induction l generalizing known with
  | nil => exact h'.mono (by simp)
  | cons i l ih =>
      refine ⟨h.1, ih h.2 (h'.mono ?_)⟩
      intro x hx
      rw [List.map_cons, List.mem_cons] at hx
      tauto

theorem definedBefore_insertChain {known : HostId → Prop} {name : Nat → HostId} {vs : List HValue}
    (hvs : ∀ v ∈ vs, ∀ x ∈ valueInsts v, known x) : DefinedBefore known (insertChain name vs) := by
  -- the chain is followed from the `n`-th insertion on, which uses the one before
  suffices h : ∀ (l : List HValue) (known : HostId → Prop) (n : Nat), (∀ v ∈ l, ∀ x ∈ valueInsts v, known x) →
      (∀ x ∈ valueInsts (chainValue (γ := HostSym) name vs.length n), known x) →
      DefinedBefore known ((l.zipIdx n).map
        (fun p => ⟨name p.2, .insertValue (chainValue name vs.length p.2) p.1 p.2⟩)) by
    exact h vs known 0 hvs (by simp [chainValue, valueInsts])
  intro l
  induction l with
  | nil =>
      intro known n _ _
      trivial
  | cons v l ih =>
      intro known n hl hn
      refine ⟨?_, ih _ (n + 1) (fun u hu x hx => .inl (hl u (List.mem_cons_of_mem _ hu) x hx)) ?_⟩
      · intro x hx
        rcases List.mem_append.mp hx with hx | hx
        · exact hn x hx
        · exact hl v List.mem_cons_self x hx
      · intro x hx
        exact .inr (List.mem_singleton.mp hx)

section Consts

variable {S : Site}

mutual

theorem doConst_keeps {c : Const Nat} {k : Nat} {code : List HInst} {v : Option HValue}
    (h : doConst S k c = .ok (code, v)) (hrefs : constRefs c = []) : code = [] ∧ v = none := by
  cases c with
  | global g => cases hrefs
  | aggregate kind ops =>
      cases doConst_cases h with
      | inserted hops => cases (doConsts_keeps hops hrefs).2
      | aggregate hops => exact ⟨(doConsts_keeps hops hrefs).1, rfl⟩
  | expr opcode ty is ops =>
      cases doConst_cases h with
      | expanded hops => cases (doConsts_keeps hops hrefs).2
      | expr hops => exact ⟨(doConsts_keeps hops hrefs).1, rfl⟩
  | wrapper | int | nullPtr | undef | poison | data =>
      cases doConst_cases h
      exact ⟨rfl, rfl⟩

theorem doConsts_keeps {cs : List (Const Nat)} {k : Nat} {code : List HInst} {vs : List HValue} {new : Bool}
    (h : doConsts S k cs = .ok (code, vs, new)) (hrefs : constsRefs cs = []) : code = [] ∧ new = false := by
  cases cs with
  | nil =>
      cases h
      exact ⟨rfl, rfl⟩
  | cons c cs =>
      rw [doConsts] at h
      obtain ⟨⟨code₁, v⟩, hc, h⟩ := bind_eq_ok.mp h
      obtain ⟨⟨code₂, us, new₂⟩, hcs, h⟩ := bind_eq_ok.mp h
      cases h
      obtain ⟨hrefs₁, hrefs₂⟩ := List.append_eq_nil_iff.mp hrefs
      obtain ⟨rfl, rfl⟩ := doConst_keeps hc hrefs₁
      obtain ⟨rfl, rfl⟩ := doConsts_keeps hcs hrefs₂
      exact ⟨rfl, rfl⟩

end

mutual

theorem doConst_replaces {c : Const Nat} {k : Nat} {code : List HInst} {v : Option HValue}
    (h : doConst S k c = .ok (code, v)) (hknown : ∀ g ∈ constRefs c, (S.refs g).isSome) (hrefs : constRefs c ≠ []) :
    v.isSome = true := by
  cases c with
  | global g =>
      cases doConst_cases h with
      | loaded | dropped => rfl
      | named href => simp [href, constRefs] at hknown
  | aggregate kind ops =>
      cases doConst_cases h with
      | inserted hops => rfl
      | aggregate hops => cases doConsts_replaces hops hknown hrefs
  | expr opcode ty is ops =>
      cases doConst_cases h with
      | expanded hops => rfl
      | expr hops => cases doConsts_replaces hops hknown hrefs
  | wrapper | int | nullPtr | undef | poison | data => exact absurd rfl hrefs

theorem doConsts_replaces {cs : List (Const Nat)} {k : Nat} {code : List HInst} {vs : List HValue} {new : Bool}
    (h : doConsts S k cs = .ok (code, vs, new)) (hknown : ∀ g ∈ constsRefs cs, (S.refs g).isSome)
    (hrefs : constsRefs cs ≠ []) : new = true := by
  cases cs with
  | nil => exact absurd rfl hrefs
  | cons c cs =>
      rw [doConsts] at h
      obtain ⟨⟨code₁, v⟩, hc, h⟩ := bind_eq_ok.mp h
      obtain ⟨⟨code₂, us, new₂⟩, hcs, h⟩ := bind_eq_ok.mp h
      cases h
      rw [constsRefs] at hknown hrefs
      obtain ⟨hknown₁, hknown₂⟩ := List.forall_mem_append.mp hknown
      by_cases hfirst : constRefs c = []
      · rw [hfirst, List.nil_append] at hrefs
        rw [doConsts_replaces hcs hknown₂ hrefs, Bool.or_true]
      · rw [doConst_replaces hc hknown₁ hfirst, Bool.true_or]

end

/-- What a constant is expanded to is named anew each time. -/
theorem doConst_fresh {c : Const Nat} {k : Nat} {code : List HInst} {v : Option HValue}
    (h : doConst S k c = .ok (code, v)) (hknown : ∀ g ∈ constRefs c, (S.refs g).isSome) (hexp : isExpanded c = true) :
    ∃ i, v = some (.inst (S.name i)) ∧ k ≤ i ∧ i < k + code.length := by
  cases c with
  | global g => cases hexp
  | aggregate kind ops =>
      have hrefs : constsRefs ops ≠ [] := by simpa [isExpanded, constRefs] using hexp
      cases doConst_cases h with
      | @inserted _ _ code vs hops =>
          obtain ⟨u, us, rfl⟩ := List.exists_cons_of_ne_nil (doConsts_new hops)
          refine ⟨k + code.length + us.length, rfl, by omega, ?_⟩
          rw [List.length_append, insertChain, List.length_map, List.length_zipIdx, List.length_cons]
          omega
      | aggregate hops => cases doConsts_replaces hops hknown hrefs
  | expr opcode ty is ops =>
      have hrefs : constsRefs ops ≠ [] := by simpa [isExpanded, constRefs] using hexp
      cases doConst_cases h with
      | @expanded _ _ _ _ code vs hops =>
          refine ⟨k + code.length, rfl, by omega, ?_⟩
          rw [List.length_append, List.length_singleton]
          omega
      | expr hops => cases doConsts_replaces hops hknown hrefs
  | wrapper | int | nullPtr | undef | poison | data => cases hexp

/-- Without that, the same value is returned everywhere. -/
theorem doConst_same {c : Const Nat} {k k' : Nat} {code code' : List HInst} {v v' : Option HValue}
    (h : doConst S k c = .ok (code, v)) (h' : doConst S k' c = .ok (code', v')) (hexp : isExpanded c = false) :
    v = v' := by
  rcases global_or_refs_eq_nil hexp with ⟨g, rfl⟩ | hrefs
  · rw [doConst] at h h'
    rw [h] at h'
    cases h'
    rfl
  · rw [(doConst_keeps h hrefs).2, (doConst_keeps h' hrefs).2]

mutual

theorem doConst_expansions {c : Const Nat} {k : Nat} {code : List HInst} {v : Option HValue}
    (h : doConst S k c = .ok (code, v)) : ∀ i ∈ code, isExpansion i.op = true := by
  cases c with
  | aggregate kind ops =>
      cases doConst_cases h with
      | inserted hops =>
          refine List.forall_mem_append.mpr ⟨doConsts_expansions hops, ?_⟩
          intro i hi
          obtain ⟨p, _, rfl⟩ := List.mem_map.mp hi
          rfl
      | aggregate hops => exact doConsts_expansions hops
  | expr opcode ty is ops =>
      cases doConst_cases h with
      | expanded hops =>
          refine List.forall_mem_append.mpr ⟨doConsts_expansions hops, ?_⟩
          intro i hi
          cases List.mem_singleton.mp hi
          rfl
      | expr hops => exact doConsts_expansions hops
  | global | wrapper | int | nullPtr | undef | poison | data =>
      cases doConst_cases h <;> exact List.forall_mem_nil _

theorem doConsts_expansions {cs : List (Const Nat)} {k : Nat} {code : List HInst} {vs : List HValue} {new : Bool}
    (h : doConsts S k cs = .ok (code, vs, new)) : ∀ i ∈ code, isExpansion i.op = true := by
  cases cs with
  | nil =>
      cases h
      exact List.forall_mem_nil _
  | cons c cs =>
      rw [doConsts] at h
      obtain ⟨⟨code₁, v⟩, hc, h⟩ := bind_eq_ok.mp h
      obtain ⟨⟨code₂, us, new₂⟩, hcs, h⟩ := bind_eq_ok.mp h
      cases h
      exact List.forall_mem_append.mpr ⟨doConst_expansions hc, doConsts_expansions hcs⟩

end

def IsRef (S : Site) (gs : List Nat) (x : HostId) : Prop := ∃ g ∈ gs, S.refs g = some x

mutual

theorem doConst_ordered {c : Const Nat} {k : Nat} {code : List HInst} {v : Option HValue}
    (h : doConst S k c = .ok (code, v)) : DefinedBefore (IsRef S (constRefs c)) code ∧
      ∀ x ∈ valueInsts (v.getD (.const (cloneConst S.self c))), IsRef S (constRefs c) x ∨ x ∈ code.map Inst.id := by
  cases c with
  | global g =>
      cases doConst_cases h with
      | loaded href =>
          refine ⟨trivial, fun x hx => .inl ⟨g, List.mem_singleton_self g, ?_⟩⟩
          rw [href, List.mem_singleton.mp hx]
      | dropped | named => exact ⟨trivial, fun x hx => nomatch hx⟩
  | aggregate kind ops =>
      cases doConst_cases h with
      | @inserted _ _ code vs hops =>
          obtain ⟨hcode, hvs⟩ := doConsts_ordered hops
          refine ⟨hcode.append (definedBefore_insertChain hvs), ?_⟩
          obtain ⟨u, us, rfl⟩ := List.exists_cons_of_ne_nil (doConsts_new hops)
          intro x hx
          refine .inr ?_
          rw [List.mem_singleton.mp hx, List.map_append, insertChain, List.map_map]
          refine List.mem_append_right _ (List.mem_map.mpr ⟨((u :: us)[us.length], us.length), ?_, rfl⟩)
          exact List.mem_zipIdx_iff_getElem?.mpr (List.getElem?_eq_getElem _)
      | aggregate hops => exact ⟨(doConsts_ordered hops).1, fun x hx => nomatch hx⟩
  | expr opcode ty is ops =>
      cases doConst_cases h with
      | @expanded _ _ _ _ code vs hops =>
          obtain ⟨hcode, hvs⟩ := doConsts_ordered hops
          refine ⟨hcode.append ⟨?_, trivial⟩, ?_⟩
          · intro x hx
            obtain ⟨w, hw, hx⟩ := List.mem_flatMap.mp hx
            exact hvs w hw x hx
          · intro x hx
            rw [List.mem_singleton.mp hx]
            exact .inr (by simp)
      | expr hops => exact ⟨(doConsts_ordered hops).1, fun x hx => nomatch hx⟩
  | wrapper | int | nullPtr | undef | poison | data =>
      cases doConst_cases h
      exact ⟨trivial, fun x hx => nomatch hx⟩

theorem doConsts_ordered {cs : List (Const Nat)} {k : Nat} {code : List HInst} {vs : List HValue} {new : Bool}
    (h : doConsts S k cs = .ok (code, vs, new)) : DefinedBefore (IsRef S (constsRefs cs)) code ∧
      ∀ w ∈ vs, ∀ x ∈ valueInsts w, IsRef S (constsRefs cs) x ∨ x ∈ code.map Inst.id := by
  cases cs with
  | nil =>
      cases h
      exact ⟨trivial, List.forall_mem_nil _⟩
  | cons c cs =>
      rw [doConsts] at h
      obtain ⟨⟨code₁, v⟩, hc, h⟩ := bind_eq_ok.mp h
      obtain ⟨⟨code₂, us, new₂⟩, hcs, h⟩ := bind_eq_ok.mp h
      cases h
      obtain ⟨hcode₁, hv⟩ := doConst_ordered hc
      obtain ⟨hcode₂, hus⟩ := doConsts_ordered hcs
      have hleft : ∀ x, IsRef S (constRefs c) x → IsRef S (constsRefs (c :: cs)) x :=
        fun x ⟨g, hg, hx⟩ => ⟨g, List.mem_append_left _ hg, hx⟩
      have hright : ∀ x, IsRef S (constsRefs cs) x → IsRef S (constsRefs (c :: cs)) x :=
        fun x ⟨g, hg, hx⟩ => ⟨g, List.mem_append_right _ hg, hx⟩
      refine ⟨(hcode₁.mono hleft).append (hcode₂.mono (fun x hx => .inl (hright x hx))), ?_⟩
      intro w hw x hx
      rw [List.map_append, List.mem_append]
      rcases List.mem_cons.mp hw with rfl | hw
      · rcases hv x hx with hx | hx
        · exact .inl (hleft x hx)
        · exact .inr (.inl hx)
      · rcases hus w hw x hx with hx | hx
        · exact .inl (hright x hx)
        · exact .inr (.inr hx)

end

mutual

theorem doConst_ok {c : Const Nat} (k : Nat) (hplain : noWrapper c = true)
    (hknown : ∀ g ∈ constRefs c, (S.refs g).isSome) : ∃ r, doConst S k c = .ok r := by
  cases c with
  | global g =>
      obtain ⟨x, hx⟩ := Option.isSome_iff_exists.mp (hknown g (List.mem_singleton_self g))
      rw [doConst, hx]
      exact ⟨_, rfl⟩
  | aggregate kind ops =>
      obtain ⟨⟨code, vs, new⟩, hops⟩ := doConsts_ok k hplain hknown
      rw [doConst, hops]
      cases new <;> exact ⟨_, rfl⟩
  | expr opcode ty is ops =>
      obtain ⟨⟨code, vs, new⟩, hops⟩ := doConsts_ok k hplain hknown
      rw [doConst, hops]
      cases new <;> exact ⟨_, rfl⟩
  | wrapper => cases hplain
  | int | nullPtr | undef | poison | data => exact ⟨_, rfl⟩

theorem doConsts_ok {cs : List (Const Nat)} (k : Nat) (hplain : noWrappers cs = true)
    (hknown : ∀ g ∈ constsRefs cs, (S.refs g).isSome) : ∃ r, doConsts S k cs = .ok r := by
  cases cs with
  | nil => exact ⟨_, rfl⟩
  | cons c cs =>
      rw [noWrappers, Bool.and_eq_true] at hplain
      rw [constsRefs] at hknown
      obtain ⟨hknown₁, hknown₂⟩ := List.forall_mem_append.mp hknown
      obtain ⟨⟨code₁, v⟩, hc⟩ := doConst_ok k hplain.1 hknown₁
      obtain ⟨⟨code₂, vs, new⟩, hcs⟩ := doConsts_ok (k + code₁.length) hplain.2 hknown₂
      exact ⟨_, bind_eq_ok.mpr ⟨_, hc, bind_eq_ok.mpr ⟨_, hcs, rfl⟩⟩⟩

end

end Consts

section Operands

variable {S : Site} {args : Nat → HValue}

theorem doOperand_expansions {k : Nat} {v : GValue} {code : List HInst} {w : HValue}
    (h : doOperand S args k v = .ok (code, w)) : ∀ i ∈ code, isExpansion i.op = true := by
  have hmd : ∀ {k : Nat} {v : MdOperand Nat Nat} {code : List HInst} {w : HValue},
      doMdOperand S args k v = .ok (code, w) → ∀ i ∈ code, isExpansion i.op = true := by
    intro k v code w h
    cases v with
    | const c =>
        obtain ⟨_, hc, h⟩ := bind_eq_ok.mp h
        cases h
        exact doConst_expansions hc
    | arg | inst =>
        cases h
        exact List.forall_mem_nil _
  have hlist : ∀ (vs : List (MdOperand Nat Nat)) {k : Nat} {code : List HInst} {ws : List (MdOperand HostSym HostId)},
      doArgList S args k vs = .ok (code, ws) → ∀ i ∈ code, isExpansion i.op = true := by
    intro vs
    induction vs with
    | nil =>
        intro k code ws h
        cases h
        exact List.forall_mem_nil _
    | cons v vs ih =>
        intro k code ws h
        obtain ⟨⟨code₁, v'⟩, hv, h⟩ := bind_eq_ok.mp h
        obtain ⟨⟨code₂, vs'⟩, hvs, h⟩ := bind_eq_ok.mp h
        cases h
        exact List.forall_mem_append.mpr ⟨hmd hv, ih hvs⟩
  cases v with
  | const c =>
      obtain ⟨_, hc, h⟩ := bind_eq_ok.mp h
      cases h
      exact doConst_expansions hc
  | metadata md =>
      obtain ⟨⟨code, md'⟩, h', h⟩ := bind_eq_ok.mp h
      cases h
      cases md with
      | value v =>
          obtain ⟨_, hv, h'⟩ := bind_eq_ok.mp h'
          cases h'
          exact hmd hv
      | argList vs =>
          obtain ⟨_, hvs, h'⟩ := bind_eq_ok.mp h'
          cases h'
          exact hlist vs hvs
      | node n =>
          cases h'
          exact List.forall_mem_nil _
  | arg | inst | inlineAsm =>
      cases h
      exact List.forall_mem_nil _

theorem doOperands_expansions {k : Nat} {vs : List GValue} {code : List HInst} {ws : List HValue}
    (h : doOperands S args k vs = .ok (code, ws)) : ∀ i ∈ code, isExpansion i.op = true := by
  induction vs generalizing k code ws with
  | nil =>
      cases h
      exact List.forall_mem_nil _
  | cons v vs ih =>
      obtain ⟨⟨code₁, w⟩, hv, h⟩ := bind_eq_ok.mp h
      obtain ⟨⟨code₂, ws₂⟩, hvs, h⟩ := bind_eq_ok.mp h
      cases h
      exact List.forall_mem_append.mpr ⟨doOperand_expansions hv, ih hvs⟩

theorem doOperands_append {k : Nat} {us vs : List GValue} {code : List HInst} {ws : List HValue} :
    doOperands S args k (us ++ vs) = .ok (code, ws) ↔ ∃ code₁ ws₁ code₂ ws₂,
      doOperands S args k us = .ok (code₁, ws₁) ∧ doOperands S args (k + code₁.length) vs = .ok (code₂, ws₂) ∧
        code = code₁ ++ code₂ ∧ ws = ws₁ ++ ws₂ := by
  induction us generalizing k code ws with
  | nil =>
      constructor
      · intro h
        exact ⟨[], [], code, ws, rfl, h, rfl, rfl⟩
      · rintro ⟨_, _, _, _, h, hvs, rfl, rfl⟩
        cases h
        exact hvs
  | cons u us ih =>
      constructor
      · intro h
        obtain ⟨⟨code₁, w⟩, hu, h⟩ := bind_eq_ok.mp h
        obtain ⟨⟨code₂, ws₂⟩, hrest, h⟩ := bind_eq_ok.mp h
        cases h
        obtain ⟨code₃, ws₃, code₄, ws₄, hus, hvs, rfl, rfl⟩ := ih.mp hrest
        refine ⟨code₁ ++ code₃, w :: ws₃, code₄, ws₄, bind_eq_ok.mpr ⟨_, hu, bind_eq_ok.mpr ⟨_, hus, rfl⟩⟩, ?_, ?_, rfl⟩
        · rwa [List.length_append, ← Nat.add_assoc]
        · rw [List.append_assoc]
      · rintro ⟨code₁, ws₁, code₂, ws₂, h, hvs, rfl, rfl⟩
        obtain ⟨⟨code₃, w⟩, hu, h⟩ := bind_eq_ok.mp h
        obtain ⟨⟨code₄, ws₄⟩, hus, h⟩ := bind_eq_ok.mp h
        cases h
        rw [List.length_append, ← Nat.add_assoc] at hvs
        refine bind_eq_ok.mpr ⟨_, hu, bind_eq_ok.mpr ⟨_, ih.mpr ⟨_, _, _, _, hus, hvs, rfl, rfl⟩, ?_⟩⟩
        simp [pure, Except.pure]

end Operands

section Placement

variable {P : Input} {X : Copy}

inductive Visit
  | phi (p : Phi Nat Nat Nat)
  | inst (i : GInst)
  | term

def Visit.In (b : GBlock) : Visit → Prop
  | .phi p => p ∈ b.phis
  | .inst i => i ∈ b.insts
  | .term => True

def Visit.owner (b : GBlock) : Visit → Nat
  | .phi p => p.id
  | .inst i => i.id
  | .term => b.termId

def Visit.dbg (P : Input) : Visit → Bool
  | .inst i => (Module.callOf i.op).any (isDbgValueInst P.module)
  | _ => false

def calleeOps (P : Input) (c : GCall) : List GValue := if P.route c = .callback then [c.calledOperand] else []

def instOps (P : Input) : InstOp Nat Nat → List GValue
  | .call c => c.args.map Prod.snd ++ calleeOps P c
  | op => Module.argOperands op

def Visit.ops (P : Input) (b : GBlock) : Visit → List GValue
  | .phi p => p.incoming.map Prod.fst
  | .inst i => instOps P i.op
  | .term => Module.termOperands b.term

/-- The code is in front of the instruction it was made for, at most expansions
of its other operands between them; that of a phi is in the entry block, behind
what the block had. -/
def Placed (entry : List HInst) (blocks : List (HostBlock × HBlock)) (b : GBlock) (code : List HInst) : Visit → Prop
  | .phi _ => ∃ eb rest pre post, blocks = (.entry, eb) :: rest ∧ eb.insts = entry ++ pre ++ code ++ post
  | .inst i => ∃ blk ∈ blocks, ∃ pre post x rest, blk.2.insts = pre ++ code ++ post ++ x :: rest ∧
      (∀ y ∈ post, isExpansion y.op = true) ∧ isExpansion x.op = false ∧ x.id.owner = some i.id
  | .term => ∃ blk ∈ blocks, ∃ pre post, blk.2.insts = pre ++ code ++ post ∧ blk.2.termId = bodyId b.termId

theorem Placed.part {entry : List HInst} {blocks : List (HostBlock × HBlock)} {b : GBlock} {code₁ code code₂ : List HInst}
    {v : Visit} (h : Placed entry blocks b (code₁ ++ code ++ code₂) v) (hcode : ∀ y ∈ code₂, isExpansion y.op = true) :
    Placed entry blocks b code v := by
  cases v with
  | phi p =>
      obtain ⟨eb, rest, pre, post, hblocks, hinsts⟩ := h
      exact ⟨eb, rest, pre ++ code₁, code₂ ++ post, hblocks, by simpa using hinsts⟩
  | inst i =>
      obtain ⟨blk, hblk, pre, post, x, rest, hinsts, hpost, hx⟩ := h
      exact ⟨blk, hblk, pre ++ code₁, code₂ ++ post, x, rest, by simpa using hinsts,
        List.forall_mem_append.mpr ⟨hcode, hpost⟩, hx⟩
  | term =>
      obtain ⟨blk, hblk, pre, post, hinsts, hterm⟩ := h
      exact ⟨blk, hblk, pre ++ code₁, code₂ ++ post, by simpa using hinsts, hterm⟩

theorem assemble_head (b : Nat) (t : HostId) (term : HTerm) (phis : List HPhi) (code : List HInst) (ps : List Piece) :
    ∃ blk ∈ assemble b t term phis code ps, ∃ post, blk.2.insts = code ++ post := by
  induction ps generalizing code with
  | nil => exact ⟨_, List.mem_singleton_self _, [], (List.append_nil _).symm⟩
  | cons p ps ih =>
      cases p with
      | code l =>
          obtain ⟨blk, hblk, post, hinsts⟩ := ih (code ++ l)
          exact ⟨blk, hblk, l ++ post, by rw [hinsts, List.append_assoc]⟩
      | split pre s => exact ⟨_, List.mem_cons_self, pre ++ s.check, List.append_assoc _ _ _⟩

theorem mem_assemble_code (b : Nat) (t : HostId) (term : HTerm) (phis : List HPhi) (code : List HInst) {l : List HInst}
    {ps : List Piece} (hl : Piece.code l ∈ ps) :
    ∃ blk ∈ assemble b t term phis code ps, ∃ pre post, blk.2.insts = pre ++ l ++ post := by
  induction ps generalizing phis code with
  | nil => cases hl
  | cons p ps ih =>
      rcases List.mem_cons.mp hl with rfl | hmem
      · obtain ⟨blk, hblk, post, hinsts⟩ := assemble_head b t term phis (code ++ l) ps
        exact ⟨blk, hblk, code, post, hinsts⟩
      · cases p with
        | code l' => exact ih phis (code ++ l') hmem
        | split pre s =>
            obtain ⟨blk, hblk, hinsts⟩ := ih s.phi.toList [] hmem
            exact ⟨blk, by simp [assemble, hblk], hinsts⟩

theorem mem_assemble_split (b : Nat) (t : HostId) (term : HTerm) (phis : List HPhi) (code : List HInst) {pre : List HInst}
    {s : Split} {ps : List Piece} (hs : Piece.split pre s ∈ ps) :
    ∃ blk ∈ assemble b t term phis code ps, ∃ l, blk.2.insts = l ++ pre ++ s.check := by
  induction ps generalizing phis code with
  | nil => cases hs
  | cons p ps ih =>
      rcases List.mem_cons.mp hs with rfl | hmem
      · exact ⟨_, List.mem_cons_self, code, rfl⟩
      · cases p with
        | code l => exact ih phis (code ++ l) hmem
        | split pre' s' =>
            obtain ⟨blk, hblk, hinsts⟩ := ih s'.phi.toList [] hmem
            exact ⟨blk, by simp [assemble, hblk], hinsts⟩

theorem assemble_last (b : Nat) (t : HostId) (term : HTerm) (phis : List HPhi) (code l : List HInst) (ps : List Piece) :
    ∃ blk ∈ assemble b t term phis code (ps ++ [.code l]), ∃ pre, blk.2.insts = pre ++ l ∧ blk.2.termId = t := by
  induction ps generalizing phis code with
  | nil => exact ⟨_, List.mem_singleton_self _, code, rfl, rfl⟩
  | cons p ps ih =>
      cases p with
      | code l' => exact ih phis (code ++ l')
      | split pre s =>
          obtain ⟨blk, hblk, hinsts⟩ := ih s.phi.toList []
          exact ⟨blk, by simp [assemble, hblk], hinsts⟩

inductive PieceOf (n : Nat) (code : List HInst) : Piece → Prop
  | code {x : HInst} {rest : List HInst} (hx : isExpansion x.op = false) (howner : x.id.owner = some n) :
      PieceOf n code (.code (code ++ x :: rest))
  | split {s : Split} {x : HInst} {rest : List HInst} (hcheck : s.check = x :: rest) (hx : isExpansion x.op = false)
      (howner : x.id.owner = some n) : PieceOf n code (.split code s)

theorem doCallback_head {n k : Nat} {result : HostId} {c : GCall} {callee : HValue} {as : List (Ty × HValue)}
    {code : List HInst} (h : doCallback P X n k result c callee as = .ok code) :
    ∃ rest, code = ⟨⟨some n, k⟩, .stackSave⟩ :: rest := by
  obtain ⟨_, _, _, _, rfl⟩ := doCallback_eq_ok.mp h
  exact ⟨_, rfl⟩

theorem doOperands_calleeOps {n : Nat} {c : GCall} {code code' : List HInst} {vs : List HValue} {callee : HValue}
    (hargs : doOperands (site P X n (isDbgValueInst P.module c)) X.args 1 (c.args.map Prod.snd) = .ok (code, vs))
    (hroute : P.route c = .callback)
    (hcallee : doOperand (site P X n (isDbgValueInst P.module c)) X.args (1 + code.length) c.calledOperand =
      .ok (code', callee)) :
    doOperands (site P X n (isDbgValueInst P.module c)) X.args 1 (c.args.map Prod.snd ++ calleeOps P c) =
      .ok (code ++ code', vs ++ [callee]) := by
  rw [calleeOps, if_pos hroute]
  refine doOperands_append.mpr ⟨code, vs, code', [callee], hargs, bind_eq_ok.mpr ⟨_, hcallee, ?_⟩, rfl, rfl⟩
  simp [doOperands, pure, Except.pure, bind, Except.bind]

theorem doInstruction_pieceOf {i : GInst} {piece : Piece} (h : doInstruction P X i = .ok piece) : ∃ code vs,
    doOperands (site P X i.id ((Visit.inst i).dbg P)) X.args 1 (instOps P i.op) = .ok (code, vs) ∧
      PieceOf i.id code piece := by
  rw [Visit.dbg]
  cases doInstruction_made h with
  | op hop hops =>
      rw [hop]
      exact ⟨_, _, hops, .code rfl rfl⟩
  | direct hop hargs hd =>
      rw [hop, instOps, calleeOps, if_neg (directCall_route hd), List.append_nil]
      exact ⟨_, _, hargs, .code rfl rfl⟩
  | callback hop hargs hroute hcallee _ hcode =>
      obtain ⟨rest, rfl⟩ := doCallback_head hcode
      rw [hop]
      exact ⟨_, _, doOperands_calleeOps hargs hroute hcallee, .code rfl rfl⟩
  | split hop hargs hroute hcallee _ hs =>
      obtain ⟨right, _, hs⟩ := bind_eq_ok.mp hs
      cases hs
      rw [hop]
      exact ⟨_, _, doOperands_calleeOps hargs hroute hcallee, .split rfl rfl rfl⟩

theorem doTerminator_code {f : GFunction} {n : Nat} {t : Term Nat Nat Nat} {code : List HInst} {term : HTerm}
    (h : doTerminator P X f n t = .ok (code, term)) : ∃ code₁ vs rest,
      doOperands (site P X n false) X.args 1 (Module.termOperands t) = .ok (code₁, vs) ∧ code = code₁ ++ rest := by
  have hone : ∀ {v : GValue} {code : List HInst} {w : HValue}, doOperand (site P X n false) X.args 1 v = .ok (code, w) →
      doOperands (site P X n false) X.args 1 [v] = .ok (code, [w]) := by
    intro v code w hv
    refine bind_eq_ok.mpr ⟨_, hv, ?_⟩
    simp [doOperands, pure, Except.pure, bind, Except.bind]
  cases t with
  | ret r =>
      cases r with
      | none =>
          cases h
          exact ⟨[], [], [], rfl, rfl⟩
      | some r =>
          obtain ⟨⟨code₁, w⟩, hv, h⟩ := bind_eq_ok.mp h
          refine ⟨code₁, [w], ?_⟩
          dsimp only at h
          split at h
          next =>
            cases h
            exact ⟨[], hone hv, (List.append_nil _).symm⟩
          next =>
            cases h
            exact ⟨_, hone hv, rfl⟩
  | condBr v a b =>
      obtain ⟨⟨code₁, w⟩, hv, h⟩ := bind_eq_ok.mp h
      cases h
      exact ⟨_, [w], [], hone hv, (List.append_nil _).symm⟩
  | switch v d cases =>
      obtain ⟨⟨code₁, w⟩, hv, h⟩ := bind_eq_ok.mp h
      cases h
      exact ⟨_, [w], [], hone hv, (List.append_nil _).symm⟩
  | br | unreachable =>
      cases h
      exact ⟨[], [], [], rfl, rfl⟩
  | _ => cases h

/-- The code for the operands of an instruction is where the instruction is, or
in the entry block. -/
theorem doBody_placed {f : GFunction} {entry : List HInst} {blocks : List (HostBlock × HBlock)}
    (h : doBody P X f entry = .ok blocks) {b : Nat × GBlock} (hb : b ∈ f.blocks) {v : Visit} (hv : v.In b.2) :
    ∃ code vs, doOperands (site P X (v.owner b.2) (v.dbg P)) X.args 1 (v.ops P b.2) = .ok (code, vs) ∧
      Placed entry blocks b.2 code v := by
  obtain ⟨results, hresults, h⟩ := bind_eq_ok.mp h
  obtain ⟨r, hr, hblock⟩ := (mapM_ok_mem hresults).1 b hb
  split at h
  next => cases h
  next first rest heq =>
    cases h
    obtain ⟨phis, hphis, hblock⟩ := bind_eq_ok.mp hblock
    obtain ⟨pieces, hpieces, hblock⟩ := bind_eq_ok.mp hblock
    obtain ⟨⟨code, term⟩, hterm, hblock⟩ := bind_eq_ok.mp hblock
    cases hblock
    have hmem : ∀ blk ∈ assemble b.1 (bodyId b.2.termId) term (phis.map Prod.snd) [] (pieces ++ [.code code]),
        blk ∈ (HostBlock.entry, (⟨[], entry ++ results.flatMap Prod.fst, ⟨none, 0⟩, .br (entryLabel P f first.1)⟩ : HBlock)) ::
          results.flatMap Prod.snd := by
      intro blk hblk
      exact List.mem_cons_of_mem _ (List.mem_flatMap.mpr ⟨_, hr, hblk⟩)
    cases v with
    | phi p =>
        obtain ⟨q, hq, hphi⟩ := (mapM_ok_mem hphis).1 p hv
        obtain ⟨⟨code₁, vs⟩, hops, hphi⟩ := bind_eq_ok.mp hphi
        cases hphi
        obtain ⟨l₁, l₂, hsplit⟩ := List.append_of_mem hq
        obtain ⟨l₃, l₄, hsplit'⟩ := List.append_of_mem hr
        refine ⟨code₁, vs, hops, _, _, l₃.flatMap Prod.fst ++ l₁.flatMap Prod.fst,
          l₂.flatMap Prod.fst ++ l₄.flatMap Prod.fst, rfl, ?_⟩
        simp [hsplit, hsplit']
    | inst i =>
        obtain ⟨piece, hpiece, hinst⟩ := (mapM_ok_mem hpieces).1 i hv
        obtain ⟨code₁, vs, hops, hof⟩ := doInstruction_pieceOf hinst
        refine ⟨code₁, vs, hops, ?_⟩
        cases hof with
        | @code x rest hx howner =>
            obtain ⟨blk, hblk, pre, post, hinsts⟩ := mem_assemble_code b.1 (bodyId b.2.termId) term (phis.map Prod.snd) []
              (List.mem_append_left [Piece.code code] hpiece)
            exact ⟨blk, hmem blk hblk, pre, [], x, rest ++ post, by simp [hinsts], List.forall_mem_nil _, hx, howner⟩
        | @split s x rest hcheck hx howner =>
            obtain ⟨blk, hblk, pre, hinsts⟩ := mem_assemble_split b.1 (bodyId b.2.termId) term (phis.map Prod.snd) []
              (List.mem_append_left [Piece.code code] hpiece)
            exact ⟨blk, hmem blk hblk, pre, [], x, rest, by simp [hinsts, hcheck], List.forall_mem_nil _, hx, howner⟩
    | term =>
        obtain ⟨code₁, vs, rest', hops, rfl⟩ := doTerminator_code hterm
        obtain ⟨blk, hblk, pre, hinsts, ht⟩ := assemble_last b.1 (bodyId b.2.termId) term (phis.map Prod.snd) []
          (code₁ ++ rest') pieces
        exact ⟨code₁, vs, hops, blk, hmem blk hblk, pre, rest', by simp [hinsts], ht⟩

end Placement

section Loaded

theorem mem_place {pos i : Nat} {ops : List HOp} (hi : i < ops.length) :
    entryName (pos + i) ∈ (place pos ops).map Inst.id := by
  rw [place, List.map_map]
  refine List.mem_map.mpr ⟨(ops[i], i), ?_, rfl⟩
  exact List.mem_zipIdx_iff_getElem?.mpr (List.getElem?_eq_getElem hi)

theorem lt_of_mem_zipIdx {α : Type} {l : List α} {p : α × Nat} (h : p ∈ l.zipIdx) : p.2 < l.length :=
  (List.getElem?_eq_some_iff.mp (List.mem_zipIdx_iff_getElem?.mp h)).1

theorem grefUids_length {P : Input} {info : FuncInfo} {uids : List Nat} (h : P.grefUids info = .ok uids) :
    uids.length = info.extRefArgs.length := (mapM_eq_ok.mp h).length_eq.symm

theorem length_flatMap_zipIdx {l : List Nat} {n : Nat} {code : Nat × Nat → List HOp} (h : ∀ p, (code p).length = n) :
    (l.zipIdx.flatMap code).length = n * l.length := by
  rw [List.length_flatMap]
  simp [h, Nat.mul_comm]

/-- The references are instructions at the beginning of the entry block. -/
theorem refs_loaded {P : Input} {g : Nat} {f : GFunction} {info : FuncInfo} {X : Copy} {entry : List HInst}
    {gen : Generated} (h : Conversion P g f info X entry gen) {r : Nat} {x : HostId} (hx : X.refs r = some x) :
    x.owner = none ∧ x ∈ entry.map Inst.id := by
  cases h with
  | @plain _ pre pos pos' _ _ _ hX hentry _ =>
      subst hX hentry
      obtain ⟨p, hp, heq⟩ := List.mem_map.mp (EntryRun.assign_mem hx)
      cases heq
      have hi := lt_of_mem_zipIdx hp
      have hne : info.extRefArgs ≠ [] := List.ne_nil_of_length_pos (Nat.zero_lt_of_lt hi)
      refine ⟨rfl, ?_⟩
      rw [List.map_append, List.map_append, padFields, if_neg (by simpa using hne), loadFields, Nat.add_assoc]
      refine List.mem_append_left _ (List.mem_append_right _ (mem_place ?_))
      rw [List.length_cons, List.length_map, List.length_range]
      omega
  | @grt _ pre pos pos' uids uids' _ _ _ hrefs hX hentry _ =>
      subst hX hentry
      obtain ⟨p, hp, heq⟩ := List.mem_map.mp (EntryRun.assign_mem hx)
      cases heq
      have hi := lt_of_mem_zipIdx hp
      refine ⟨rfl, ?_⟩
      rw [List.map_append, List.map_append, tableEntries, Nat.add_assoc]
      refine List.mem_append_left _ (List.mem_append_right _ (mem_place ?_))
      rw [length_flatMap_zipIdx (n := 3) (fun _ => rfl), grefUids_length hrefs]
      omega
  | @fcp pos uids uids' _ hrefs hX hentry _ =>
      subst hX hentry
      obtain ⟨p, hp, heq⟩ := List.mem_map.mp (EntryRun.assign_mem hx)
      cases heq
      have hi := lt_of_mem_zipIdx hp
      refine ⟨rfl, ?_⟩
      rw [List.map_append, fcpTableEntries, Nat.add_assoc]
      refine List.mem_append_left _ (mem_place ?_)
      rw [List.length_cons, length_flatMap_zipIdx (n := 2) (fun _ => rfl), grefUids_length hrefs]
      omega

end Loaded

/-- Where and how `do_operand` expands constants in the copy of a function, and
what the expansion computes once the references are loaded. -/
theorem const_expands {P : Input} {g : Nat} {f : GFunction} {info : FuncInfo} {gen : Generated}
    (hgen : doHstubcvt P g f info = .ok gen) : ∃ X entry hf, doBody P X f entry = .ok hf.blocks ∧
      (gen.stub = hf ∧ gen.copy = none ∨ gen.stub = fcpStub P g f info ∧ gen.copy = some hf) ∧
      (∀ r, (X.refs r).isSome = true ↔ r ∈ info.extRefArgs) ∧
      ∀ (n k : Nat) (dbg : Bool) (c : Const Nat), noWrapper c = true → (∀ r ∈ constRefs c, (X.refs r).isSome) →
        ∃ code v, doOperand (site P X n dbg) X.args k (.const c) = .ok (code, v) ∧
          (∀ {Sc W : Type} (E : Setting Sc W) (O : Offloaded) (fuel : Nat) (call : Caller Sc W)
            (fcp : Nat → Interface → List (Val Sc) → Run Sc W (Val Sc)) (args : List (Val Sc)) (pads : Pads Sc)
            (env : Env HostId Sc), (∀ r x, X.refs r = some x → env x = some (.addr (.guest r))) →
            ∃ env' w, Computes E O fuel call fcp args pads n k env code env' ∧
              evalValue E.sem hostSymbols args env' v = some w ∧ evalConst E.sem guestSymbols c = some w) ∧
          (constRefs c = [] → code = [] ∧ v = .const (cloneConst (X.func, X.hfunc) c)) ∧
          DefinedBefore (· ∈ entry.map Inst.id) code ∧
          (∀ x ∈ valueInsts v, x ∈ entry.map Inst.id ∨ x ∈ code.map Inst.id) ∧
          ∀ b ∈ f.blocks, ∀ visit : Visit, visit.In b.2 → visit.owner b.2 = n → visit.dbg P = dbg →
            ∀ vs vs' code₁ ws, visit.ops P b.2 = vs ++ .const c :: vs' →
              doOperands (site P X n dbg) X.args 1 vs = .ok (code₁, ws) → k = 1 + code₁.length →
                Placed entry hf.blocks b.2 code visit := by
  obtain ⟨X, entry, hconv⟩ := doHstubcvt_cases hgen
  obtain ⟨hf, hX, hwhere⟩ := hconv.copying
  refine ⟨X, entry, hf, hX.body, hwhere, hX.refs, ?_⟩
  intro n k dbg c hplain hknown
  obtain ⟨⟨code, ov⟩, hc⟩ := doConst_ok (S := site P X n dbg) k hplain hknown
  obtain ⟨hordered, hresult⟩ := doConst_ordered hc
  have hentry : ∀ x, IsRef (site P X n dbg) (constRefs c) x → x ∈ entry.map Inst.id :=
    fun x ⟨r, _, hx⟩ => (refs_loaded hconv hx).2
  have hoperand : doOperand (site P X n dbg) X.args k (.const c) =
      .ok (code, ov.getD (.const (cloneConst (X.func, X.hfunc) c))) := bind_eq_ok.mpr ⟨_, hc, rfl⟩
  refine ⟨code, _, hoperand, ?_, ?_, hordered.mono hentry, fun x hx => (hresult x hx).imp_left (hentry x), ?_⟩
  · intro Sc W E O fuel call fcp args pads env henv
    have hloaded : Loaded X.refs env := fun r x hx => ⟨(refs_loaded hconv hx).1, henv r x hx⟩
    obtain ⟨env', w, hrun, _, hval, heval⟩ := doConst_run hloaded hplain (.inr hknown) hc
    exact ⟨env', w, hrun, hval, heval hknown⟩
  · intro hrefs
    obtain ⟨rfl, rfl⟩ := doConst_keeps hc hrefs
    exact ⟨rfl, rfl⟩
  · rintro b hb visit hv rfl rfl vs vs' code₁ ws hops hvs rfl
    obtain ⟨all, us, hall, hplaced⟩ := doBody_placed hX.body hb hv
    rw [hops] at hall
    obtain ⟨code₁', ws', code₂, ws₂, hvs', hrest, rfl, _⟩ := doOperands_append.mp hall
    rw [hvs] at hvs'
    cases hvs'
    obtain ⟨⟨code', w⟩, hc', hrest⟩ := bind_eq_ok.mp hrest
    obtain ⟨⟨code₃, ws₃⟩, hlast, hrest⟩ := bind_eq_ok.mp hrest
    cases hrest
    rw [hoperand] at hc'
    cases hc'
    rw [← List.append_assoc] at hplaced
    exact hplaced.part (doOperands_expansions hlast)

def offset : Const Nat := .expr .getElementPtr ptrTy [] [.expr .getElementPtr ptrTy [] [.global 1, .int 64 8], .int 64 8]

theorem offset_expands : ∃ info gen X entry, ∃ hf : HFunction, ∃ code v,
    (returningInput offset).symtbl.functbl.find? 0 = some info ∧
      doHstubcvt (returningInput offset) 0 (returning offset) info = .ok gen ∧
      doBody (returningInput offset) X (returning offset) entry = .ok hf.blocks ∧
      doOperand (site (returningInput offset) X 0 false) X.args 1 (.const offset) = .ok (code, v) ∧
      Placed entry hf.blocks ⟨[], [], 0, .ret (some (ptrTy, .const offset))⟩ code .term := by
  have hinfo : ∃ info gen, (returningInput offset).symtbl.functbl.find? 0 = some info ∧ info.extRefArgs = [1] ∧
      doHstubcvt (returningInput offset) 0 (returning offset) info = .ok gen := ⟨_, _, rfl, rfl, rfl⟩
  obtain ⟨info, gen, hinfo, hargs, hgen⟩ := hinfo
  obtain ⟨X, entry, hf, hbody, _, hrefs, hconsts⟩ := const_expands hgen
  obtain ⟨code, v, hcode, _, _, _, _, hplaced⟩ := hconsts 0 1 false offset rfl (by
    intro r hr
    rw [hrefs, hargs]
    exact hr)
  refine ⟨info, gen, X, entry, hf, code, v, hinfo, hgen, hbody, hcode, ?_⟩
  exact hplaced _ List.mem_cons_self .term trivial rfl rfl [] [] [] [] rfl rfl rfl

end Comulator.ConstExpand
