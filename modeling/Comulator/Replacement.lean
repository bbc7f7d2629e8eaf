import Comulator.Bundles

namespace Comulator.Replacement

open Fallible Types Ir TypeHash Symtbl HostIr TakeOut Analyze AnalyzeSpec Lookups GuestSymbols OperandRun CallCopy SelfContained ConstExpand Bundles

section Relation

variable (P : Input) (X : Copy) (l : List AnyInst)

/-- The value is the constant with the value loaded for each reference in its
place, as the instructions `l` compute it. What holds no reference stays. -/
inductive Replaced : Const Nat → HValue → Prop
  | loaded {r : Nat} {x : HostId} (href : X.refs r = some x) : Replaced (.global r) (.inst x)
  | same {c : Const Nat} (hc : constLeft ⟨fun _ => false, X.func, false⟩ c = []) :
      Replaced c (.const (cloneConst (X.func, X.hfunc) c))
  | inserted {kind : AggregateKind} {ops : List (Const Nat)} {vs : List HValue} {name : Nat → HostId}
      (hops : List.Forall₂ Replaced ops vs) (hl : ∀ i ∈ insertChain name vs, AnyInst.inst i ∈ l) :
      Replaced (.aggregate kind ops) (chainValue name vs.length vs.length)
  | expanded {opcode : Opcode} {ty : Ty} {is : List Nat} {ops : List (Const Nat)} {vs : List HValue} {x : HostId}
      (hops : List.Forall₂ Replaced ops vs) (hl : AnyInst.inst ⟨x, .expand opcode ty is vs⟩ ∈ l) :
      Replaced (.expr opcode ty is ops) (.inst x)

def MdReplaced : MdOperand Nat Nat → MdOperand HostSym HostId → Prop
  | .const c, w => ∃ v, Replaced X l c v ∧ w = asMd v
  | .arg i, w => w = asMd (X.args i)
  | .inst x, w => w = .inst (bodyId x)

def ValueReplaced : GValue → HValue → Prop
  | .const c, w => Replaced X l c w
  | .arg i, w => w = X.args i
  | .inst x, w => w = .inst (bodyId x)
  | .metadata (.value v), w => ∃ u, MdReplaced X l v u ∧ w = .metadata (.value u)
  | .metadata (.argList vs), w => ∃ us, List.Forall₂ (MdReplaced X l) vs us ∧ w = .metadata (.argList us)
  | .metadata (.node n), w => w = .metadata (.node n)
  | .inlineAsm n, w => w = .inlineAsm n

/-- The callee of a call is now the declaration of its intrinsic in the host
module, its copy there, or a value that is called back. -/
inductive CallReplaced (n : Nat) (c : GCall) (args : List (Ty × HValue)) : Prop
  | intrinsic {k : Nat} {callee : GFunction} {id : IntrinsicId} {d : CallBase HostSym HostId}
      (hcallee : getCalledFunction P.module c = some (k, callee)) (hid : callee.intrinsicId = some id)
      (hd : directCall c args (.intrinsic id) = some d) (hl : AnyInst.inst ⟨bodyId n, .call d⟩ ∈ l)
  | copy {k : Nat} {callee : GFunction} {d : CallBase HostSym HostId}
      (hcallee : getCalledFunction P.module c = some (k, callee)) (hcopy : P.hasFcpFunc k = true)
      (hd : directCall c args (.fcp k) = some d) (hl : AnyInst.inst ⟨bodyId n, .call d⟩ ∈ l)
  | callback {v : HValue} {k : Nat} {code : List HInst} (hv : ValueReplaced X l c.calledOperand v)
      (hcode : doCallback P X n k (bodyId n) c v args = .ok code) (hl : ∀ i ∈ code, AnyInst.inst i ∈ l)
  | split {v : HValue} {k : Nat} {s : Split} (hv : ValueReplaced X l c.calledOperand v)
      (hs : doFcpCm P X n k c v args = .ok s) (hl : ∀ x ∈ pieceInstructions (.split [] s), x ∈ l)

def InstReplaced (i : GInst) : Prop :=
  match i.op with
  | .call c => ∃ vs, List.Forall₂ (ValueReplaced X l) (c.args.map Prod.snd) vs ∧
      CallReplaced P X l i.id c ((c.args.map Prod.fst).zip vs)
  | .op opcode ty is ops => ∃ vs, List.Forall₂ (ValueReplaced X l) ops vs ∧
      AnyInst.inst ⟨bodyId i.id, .op opcode ty is vs⟩ ∈ l
  | _ => False

def PhiReplaced (p : Phi Nat Nat Nat) : Prop :=
  ∃ vs, List.Forall₂ (ValueReplaced X l) (p.incoming.map Prod.fst) vs ∧
    AnyInst.phi ⟨bodyId p.id, p.ty, vs.zip (p.incoming.map (fun q => .body q.2))⟩ ∈ l

def TermReplaced (f : GFunction) (n : Nat) : Term Nat Nat Nat → Prop
  | .ret (some (ty, v)) => ∃ w, ValueReplaced X l v w ∧
      (AnyInst.term (.ret (some (ty, w))) ∈ l ∨ ∃ k, AnyInst.inst ⟨⟨some n, k⟩, .store ty w (.arg 0)⟩ ∈ l)
  | .condBr v a b => ∃ w, ValueReplaced X l v w ∧
      AnyInst.term (.condBr w (entryLabel P f a) (entryLabel P f b)) ∈ l
  | .switch v d cases => ∃ w, ValueReplaced X l v w ∧
      AnyInst.term (.switch w (entryLabel P f d) (cases.map (fun p => (p.1, entryLabel P f p.2)))) ∈ l
  | .indirectBr _ _ => False
  | _ => True

/-- Every operand of the function stands, with its references replaced, where
the instructions `l` have the copy of the instruction. -/
structure BodyReplaced (f : GFunction) : Prop where
  phis : ∀ b ∈ f.blocks, ∀ p ∈ b.2.phis, PhiReplaced X l p
  insts : ∀ b ∈ f.blocks, ∀ i ∈ b.2.insts, InstReplaced P X l i
  terms : ∀ b ∈ f.blocks, TermReplaced P X l f b.2.termId b.2.term

/-- A constant in a bundle is the cloned one, wherever the bundle is kept: it has to be
one without a reference. -/
def BundlesReplaced (bundles : Nat → List (Const Nat)) (f : GFunction) : Prop :=
  ∀ b ∈ f.blocks, ∀ i ∈ b.2.insts, ∀ c, i.op = .call c → ∀ d ∈ bundles i.id,
    Replaced X l d (.const (cloneConst (X.func, X.hfunc) d))

/-- The instruction `x` has the value of the reference's entry in `mExtRefArgs`: a
field of the third argument, or with the tables the entry for its uid. -/
inductive LoadsRef (info : FuncInfo) (r : Nat) (x : HostId) : Prop
  | field {j : Nat} {y : HostId} (hj : info.extRefArgs[j]? = some r)
      (hpad : AnyInst.inst ⟨y, .load (.array ptrTy info.extRefArgs.length) (.arg 2)⟩ ∈ l)
      (hx : AnyInst.inst ⟨x, .extractValue (.inst y) j⟩ ∈ l)
  | entry {y z : HostId} {gref : GrefInfo} (hr : r ∈ info.extRefArgs) (hgref : P.symtbl.greftbl.find? r = some gref)
      (htbl : AnyInst.inst ⟨y, .load ptrTy (.const (.global .extreftbl))⟩ ∈ l)
      (hptr : AnyInst.inst ⟨z, .elementPtr (.inst y) gref.uid⟩ ∈ l)
      (hx : AnyInst.inst ⟨x, .load ptrTy (.inst z)⟩ ∈ l)

end Relation

section Unreplaced

variable (p : Place)

/-- The symbols in an operand without a replacement, whether they stay or not. -/
def valueUnreplaced : GValue → List Nat
  | .const c => constLeft p c
  | .metadata (.value v) => mdLeft p v
  | .metadata (.argList vs) => vs.flatMap (mdLeft p)
  | _ => []

def AllReplaced (vs : List GValue) : Prop := ∀ v ∈ vs, valueUnreplaced p v = []

end Unreplaced

mutual

/-- Less is left where more is replaced or dropped. -/
theorem constLeft_subset {p q : Place} (hself : p.self = q.self) {c : Const Nat}
    (h : ∀ g ∈ constRefs c, (p.replaced g || p.dropped) = true → (q.replaced g || q.dropped) = true) :
    constLeft q c ⊆ constLeft p c := by
  cases c with
  | global g =>
      have hg := h g (List.mem_singleton_self g)
      rw [constLeft, constLeft]
      split
      next => exact List.nil_subset _
      next hq =>
        rw [if_neg (fun hp => hq (hg hp))]
        exact List.Subset.refl _
  | wrapper kind g => cases kind <;> simp [constLeft, hself]
  | aggregate kind ops => exact constsLeft_subset hself h
  | expr opcode ty is ops => exact constsLeft_subset hself h
  | int | nullPtr | undef | poison | data => exact List.nil_subset _

theorem constsLeft_subset {p q : Place} (hself : p.self = q.self) {cs : List (Const Nat)}
    (h : ∀ g ∈ constsRefs cs, (p.replaced g || p.dropped) = true → (q.replaced g || q.dropped) = true) :
    constsLeft q cs ⊆ constsLeft p cs := by
  cases cs with
  | nil => exact List.nil_subset _
  | cons c cs =>
      rw [constsRefs] at h
      obtain ⟨hc, hcs⟩ := List.forall_mem_append.mp h
      rw [constsLeft, constsLeft]
      refine List.append_subset.mpr ⟨?_, ?_⟩
      · exact List.subset_append_of_subset_left _ (constLeft_subset hself hc)
      · exact List.subset_append_of_subset_right _ (constsLeft_subset hself hcs)

end

theorem constLeft_eq_nil {p q : Place} {c : Const Nat} (hp : constLeft p c = []) (hself : p.self = q.self)
    (h : ∀ g ∈ constRefs c, (p.replaced g || p.dropped) = true → (q.replaced g || q.dropped) = true) :
    constLeft q c = [] := by
  refine List.subset_nil.mp ?_
  rw [← hp]
  exact constLeft_subset hself h

mutual

theorem replaced_of_constLeft {p : Place} (hdropped : p.dropped = false) {c : Const Nat} (h : constLeft p c = []) :
    ∀ g ∈ constRefs c, p.replaced g = true := by
  cases c with
  | global g =>
      intro k hk
      cases List.mem_singleton.mp hk
      simpa [constLeft, hdropped] using h
  | aggregate kind ops => exact replaced_of_constsLeft hdropped h
  | expr opcode ty is ops => exact replaced_of_constsLeft hdropped h
  | wrapper | int | nullPtr | undef | poison | data => exact List.forall_mem_nil _

theorem replaced_of_constsLeft {p : Place} (hdropped : p.dropped = false) {cs : List (Const Nat)}
    (h : constsLeft p cs = []) : ∀ g ∈ constsRefs cs, p.replaced g = true := by
  cases cs with
  | nil => exact List.forall_mem_nil _
  | cons c cs =>
      rw [constsLeft] at h
      obtain ⟨hc, hcs⟩ := List.append_eq_nil_iff.mp h
      exact List.forall_mem_append.mpr ⟨replaced_of_constLeft hdropped hc, replaced_of_constsLeft hdropped hcs⟩

end

section Operands

variable {P : Input} {X : Copy} {l : List AnyInst} {n : Nat} {dbg : Bool}

/-- A constant without references is copied as it is. -/
theorem same_of_refs {c : Const Nat} (h : constLeft (copyPlace X false) c = []) (hrefs : constRefs c = []) :
    Replaced X l c (.const (cloneConst (X.func, X.hfunc) c)) := by
  refine .same (constLeft_eq_nil h rfl ?_)
  rw [hrefs]
  exact List.forall_mem_nil _

theorem refs_eq_nil {c : Const Nat} {k : Nat} {code : List HInst} (hc : doConst (site P X n dbg) k c = .ok (code, none))
    (h : constLeft (copyPlace X false) c = []) : constRefs c = [] := by
  by_contra hne
  have hsome := doConst_replaces hc (replaced_of_constLeft rfl h) hne
  cases hsome

mutual

theorem doConst_replaced {c : Const Nat} {k : Nat} {code : List HInst} {v : Option HValue}
    (hc : doConst (site P X n dbg) k c = .ok (code, v)) (hl : ∀ i ∈ code, AnyInst.inst i ∈ l)
    (h : constLeft (copyPlace X false) c = []) :
    Replaced X l c (v.getD (.const (cloneConst (X.func, X.hfunc) c))) := by
  cases c with
  | global g =>
      obtain ⟨x, hx⟩ := Option.isSome_iff_exists.mp (replaced_of_constLeft rfl h g (List.mem_singleton_self g))
      cases doConst_cases hc with
      | loaded href => exact .loaded href
      | dropped href | named href => cases href.symm.trans hx
  | aggregate kind ops =>
      cases doConst_cases hc with
      | inserted hops =>
          obtain ⟨hcode, hchain⟩ := List.forall_mem_append.mp hl
          exact .inserted (doConsts_replaced hops hcode h) hchain
      | aggregate hops => exact same_of_refs h (refs_eq_nil hc h)
  | expr opcode ty is ops =>
      cases doConst_cases hc with
      | expanded hops =>
          obtain ⟨hcode, hlast⟩ := List.forall_mem_append.mp hl
          exact .expanded (doConsts_replaced hops hcode h) (hlast _ (List.mem_singleton_self _))
      | expr hops => exact same_of_refs h (refs_eq_nil hc h)
  | wrapper | int | nullPtr | undef | poison | data =>
      cases doConst_cases hc
      exact same_of_refs h rfl

theorem doConsts_replaced {cs : List (Const Nat)} {k : Nat} {code : List HInst} {vs : List HValue} {new : Bool}
    (hcs : doConsts (site P X n dbg) k cs = .ok (code, vs, new)) (hl : ∀ i ∈ code, AnyInst.inst i ∈ l)
    (h : constsLeft (copyPlace X false) cs = []) : List.Forall₂ (Replaced X l) cs vs := by
  cases cs with
  | nil =>
      cases hcs
      exact .nil
  | cons c cs =>
      rw [doConsts] at hcs
      obtain ⟨⟨code₁, v⟩, hc, hcs⟩ := bind_eq_ok.mp hcs
      obtain ⟨⟨code₂, us, new₂⟩, hrest, hcs⟩ := bind_eq_ok.mp hcs
      cases hcs
      rw [constsLeft] at h
      obtain ⟨hleft, hlefts⟩ := List.append_eq_nil_iff.mp h
      obtain ⟨hl₁, hl₂⟩ := List.forall_mem_append.mp hl
      exact .cons (doConst_replaced hc hl₁ hleft) (doConsts_replaced hrest hl₂ hlefts)

end

theorem left_of_same {c : Const Nat} (h : constLeft ⟨fun _ => false, X.func, false⟩ c = []) :
    constLeft (copyPlace X false) c = [] := by
  refine constLeft_eq_nil h rfl ?_
  intro g _ hg
  cases hg

mutual

theorem left_of_replaced {c : Const Nat} {v : HValue} (h : Replaced X l c v) : constLeft (copyPlace X false) c = [] := by
  cases c with
  | aggregate kind ops =>
      cases h with
      | same hc => exact left_of_same hc
      | inserted hops _ => exact lefts_of_replaced hops
  | expr opcode ty is ops =>
      cases h with
      | same hc => exact left_of_same hc
      | expanded hops _ => exact lefts_of_replaced hops
  | global g =>
      cases h with
      | loaded href => simp [constLeft, copyPlace, href]
      | same hc => exact left_of_same hc
  | wrapper | int | nullPtr | undef | poison | data =>
      cases h with
      | same hc => exact left_of_same hc

theorem lefts_of_replaced {cs : List (Const Nat)} {vs : List HValue} (h : List.Forall₂ (Replaced X l) cs vs) :
    constsLeft (copyPlace X false) cs = [] := by
  cases cs with
  | nil => rfl
  | cons c cs =>
      cases h with
      | cons hc hcs => exact List.append_eq_nil_iff.mpr ⟨left_of_replaced hc, lefts_of_replaced hcs⟩

end

theorem doMdOperand_replaced {k : Nat} {v : MdOperand Nat Nat} {code : List HInst} {w : HValue}
    (hv : doMdOperand (site P X n dbg) X.args k v = .ok (code, w)) (hl : ∀ i ∈ code, AnyInst.inst i ∈ l)
    (h : mdLeft (copyPlace X false) v = []) : MdReplaced X l v (asMd w) := by
  cases v with
  | const c =>
      obtain ⟨_, hc, hv⟩ := bind_eq_ok.mp hv
      cases hv
      exact ⟨_, doConst_replaced hc hl h, rfl⟩
  | arg | inst =>
      cases hv
      rfl

/-- Nothing that replaces a reference is dropped from a list of arguments. -/
theorem listed_of_replaced {c : Const Nat} {v : HValue} (h : Replaced X l c v) : listed v = v := by
  cases h with
  | loaded | expanded => rfl
  | same hc =>
      apply listed_cloneConst
      rintro g rfl
      cases hc
  | @inserted _ _ vs name _ _ => cases vs.length <;> rfl

theorem doArgList_replaced (hargs : Plain X.args) {k : Nat} {vs : List (MdOperand Nat Nat)} {code : List HInst}
    {ws : List (MdOperand HostSym HostId)} (hvs : doArgList (site P X n dbg) X.args k vs = .ok (code, ws))
    (hl : ∀ i ∈ code, AnyInst.inst i ∈ l) (h : ∀ v ∈ vs, mdLeft (copyPlace X false) v = []) :
    List.Forall₂ (MdReplaced X l) vs ws := by
  induction vs generalizing k code ws with
  | nil =>
      cases hvs
      exact .nil
  | cons v vs ih =>
      obtain ⟨⟨code₁, w⟩, hv, hvs⟩ := bind_eq_ok.mp hvs
      obtain ⟨⟨code₂, ws₂⟩, hrest, hvs⟩ := bind_eq_ok.mp hvs
      cases hvs
      obtain ⟨hl₁, hl₂⟩ := List.forall_mem_append.mp hl
      obtain ⟨hleft, hlefts⟩ := List.forall_mem_cons.mp h
      have hw := doMdOperand_replaced hv hl₁ hleft
      have hlisted : listed w = w := by
        cases v with
        | const c =>
            obtain ⟨_, hc, hv⟩ := bind_eq_ok.mp hv
            cases hv
            exact listed_of_replaced (doConst_replaced hc hl₁ hleft)
        | arg i =>
            cases hv
            rcases hargs i with ⟨x, hx⟩ | ⟨j, hj⟩
            · rw [hx]
              rfl
            · rw [hj]
              rfl
        | inst =>
            cases hv
            rfl
      rw [← hlisted] at hw
      exact .cons hw (ih hrest hl₂ hlefts)

theorem doOperand_replaced (hargs : Plain X.args) {k : Nat} {v : GValue} {code : List HInst} {w : HValue}
    (hv : doOperand (site P X n dbg) X.args k v = .ok (code, w)) (hl : ∀ i ∈ code, AnyInst.inst i ∈ l)
    (h : valueUnreplaced (copyPlace X false) v = []) : ValueReplaced X l v w := by
  cases v with
  | const c =>
      obtain ⟨_, hc, hv⟩ := bind_eq_ok.mp hv
      cases hv
      exact doConst_replaced hc hl h
  | metadata md =>
      obtain ⟨_, hmd, hv⟩ := bind_eq_ok.mp hv
      cases hv
      cases md with
      | value v =>
          obtain ⟨_, hmd', hmd⟩ := bind_eq_ok.mp hmd
          cases hmd
          exact ⟨_, doMdOperand_replaced hmd' hl h, rfl⟩
      | argList vs =>
          obtain ⟨_, hvs, hmd⟩ := bind_eq_ok.mp hmd
          cases hmd
          exact ⟨_, doArgList_replaced hargs hvs hl (List.flatMap_eq_nil_iff.mp h), rfl⟩
      | node =>
          cases hmd
          rfl
  | arg | inst | inlineAsm =>
      cases hv
      rfl

theorem doOperands_replaced (hargs : Plain X.args) {k : Nat} {vs : List GValue} {code : List HInst} {ws : List HValue}
    (hvs : doOperands (site P X n dbg) X.args k vs = .ok (code, ws)) (hl : ∀ i ∈ code, AnyInst.inst i ∈ l)
    (h : AllReplaced (copyPlace X false) vs) : List.Forall₂ (ValueReplaced X l) vs ws := by
  induction vs generalizing k code ws with
  | nil =>
      cases hvs
      exact .nil
  | cons v vs ih =>
      obtain ⟨⟨code₁, w⟩, hv, hvs⟩ := bind_eq_ok.mp hvs
      obtain ⟨⟨code₂, ws₂⟩, hrest, hvs⟩ := bind_eq_ok.mp hvs
      cases hvs
      obtain ⟨hl₁, hl₂⟩ := List.forall_mem_append.mp hl
      obtain ⟨hleft, hlefts⟩ := List.forall_mem_cons.mp h
      exact .cons (doOperand_replaced hargs hv hl₁ hleft) (ih hrest hl₂ hlefts)

theorem left_of_mdReplaced {v : MdOperand Nat Nat} {w : MdOperand HostSym HostId} (h : MdReplaced X l v w) :
    mdLeft (copyPlace X false) v = [] := by
  cases v with
  | const c =>
      obtain ⟨_, hc, _⟩ := h
      exact left_of_replaced hc
  | arg | inst => rfl

theorem unreplaced_eq_nil {v : GValue} {w : HValue} (h : ValueReplaced X l v w) :
    valueUnreplaced (copyPlace X false) v = [] := by
  cases v with
  | const c => exact left_of_replaced h
  | metadata md =>
      cases md with
      | value v =>
          obtain ⟨_, hv, _⟩ := h
          exact left_of_mdReplaced hv
      | argList vs =>
          obtain ⟨us, hvs, hw⟩ := h
          clear hw
          rw [valueUnreplaced]
          induction hvs with
          | nil => rfl
          | cons hv _ ih =>
              rw [List.flatMap_cons, left_of_mdReplaced hv, ih]
              rfl
      | node => rfl
  | arg | inst | inlineAsm => rfl

theorem allReplaced_of_forall₂ {vs : List GValue} {ws : List HValue} (h : List.Forall₂ (ValueReplaced X l) vs ws) :
    AllReplaced (copyPlace X false) vs := by
  induction h with
  | nil => exact List.forall_mem_nil _
  | cons hv _ ih => exact List.forall_mem_cons.mpr ⟨unreplaced_eq_nil hv, ih⟩

end Operands

section Body

variable {P : Input} {X : Copy} {l : List AnyInst} {f : GFunction}

/-- The called operand, unless it is a global value: that is always replaced. -/
def calleeValues (c : GCall) : List GValue :=
  match c.calledOperand with
  | .const (.global _) => []
  | v => [v]

def instValues : InstOp Nat Nat → List GValue
  | .call c => c.args.map Prod.snd ++ calleeValues c
  | op => Module.argOperands op

def blockValues (b : GBlock) : List GValue :=
  b.phis.flatMap (fun p => p.incoming.map Prod.fst) ++ b.insts.flatMap (fun i => instValues i.op) ++
    Module.termOperands b.term

theorem calleeValues_cases (c : GCall) : (∃ k, c.calledOperand = .const (.global k)) ∧ calleeValues c = [] ∨
    (∀ k, c.calledOperand ≠ .const (.global k)) ∧ calleeValues c = [c.calledOperand] := by
  unfold calleeValues
  split
  next k hk => exact .inl ⟨⟨k, hk⟩, rfl⟩
  next hother => exact .inr ⟨hother, rfl⟩

structure Callees (P : Input) (X : Copy) (c : GCall) : Prop where
  notWhite : ∀ k, P.route c ≠ .white k
  registered : ∀ k, c.calledOperand = .const (.global k) → P.route c = .callback → (X.refs k).isSome = true

theorem callee_unreplaced {c : GCall} (hc : Callees P X c) (hroute : P.route c = .callback)
    (h : AllReplaced (copyPlace X false) (calleeValues c)) :
    valueUnreplaced (copyPlace X false) c.calledOperand = [] := by
  rcases calleeValues_cases c with ⟨⟨r, hr⟩, _⟩ | ⟨_, hvalues⟩
  · simp [hr, valueUnreplaced, constLeft, copyPlace, hc.registered r hr hroute]
  · rw [hvalues] at h
    exact h _ (List.mem_singleton_self _)

/-- What is in front of a split call is apart from what the call becomes. -/
theorem forall_mem_split {pre : List HInst} {s : Split} (h : ∀ x ∈ pieceInstructions (.split pre s), x ∈ l) :
    (∀ i ∈ pre, AnyInst.inst i ∈ l) ∧ ∀ x ∈ pieceInstructions (.split [] s), x ∈ l := by
  simp only [pieceInstructions, List.map_append, List.forall_mem_append, List.forall_mem_map, List.nil_append] at h ⊢
  obtain ⟨⟨⟨⟨⟨hpre, hcheck⟩, hleft⟩, hright⟩, hbr⟩, hphi⟩ := h
  exact ⟨hpre, ⟨⟨⟨hcheck, hleft⟩, hright⟩, hbr⟩, hphi⟩

theorem doInstruction_replaced (hargs : Plain X.args) {i : GInst} {p : Piece} (hi : doInstruction P X i = .ok p)
    (hl : ∀ x ∈ pieceInstructions p, x ∈ l) (hcallees : ∀ c, i.op = .call c → Callees P X c)
    (h : AllReplaced (copyPlace X false) (instValues i.op)) : InstReplaced P X l i := by
  unfold InstReplaced
  cases doInstruction_made hi with
  | op hop hops =>
      rw [hop] at h ⊢
      obtain ⟨hcode, hlast⟩ := List.forall_mem_append.mp (List.forall_mem_map.mp hl)
      exact ⟨_, doOperands_replaced hargs hops hcode h, hlast _ (List.mem_singleton_self _)⟩
  | @direct c d code vs hop hvs hd =>
      rw [hop] at h ⊢
      obtain ⟨hleft, _⟩ := List.forall_mem_append.mp h
      obtain ⟨hcode, hlast⟩ := List.forall_mem_append.mp (List.forall_mem_map.mp hl)
      refine ⟨vs, doOperands_replaced hargs hvs hcode hleft, ?_⟩
      have hcall := hlast _ (List.mem_singleton_self _)
      rcases InstRun.route_cases (c := c) _ rfl with ⟨k, _, _, _, hroute⟩ | ⟨k, callee, id, hcallee, hid, hroute⟩ |
        ⟨k, callee, hcallee, _, hcopy, hroute⟩ | hroute
      · exact absurd hroute ((hcallees c hop).notWhite k)
      · rw [hroute] at hd
        exact .intrinsic hcallee hid hd hcall
      · rw [hroute] at hd
        exact .copy hcallee hcopy hd hcall
      · exact absurd hroute (directCall_route hd)
  | @callback c code code' code'' vs callee hop hvs hroute hcallee _ hcallback =>
      rw [hop] at h ⊢
      obtain ⟨hleft, hcalled⟩ := List.forall_mem_append.mp h
      obtain ⟨hcode, hlast⟩ := List.forall_mem_append.mp (List.forall_mem_map.mp hl)
      obtain ⟨hcode, hcode'⟩ := List.forall_mem_append.mp hcode
      exact ⟨vs, doOperands_replaced hargs hvs hcode hleft,
        .callback (doOperand_replaced hargs hcallee hcode' (callee_unreplaced (hcallees c hop) hroute hcalled)) hcallback
          hlast⟩
  | @split c code code' vs callee s hop hvs hroute hcallee _ hs =>
      rw [hop] at h ⊢
      obtain ⟨hleft, hcalled⟩ := List.forall_mem_append.mp h
      obtain ⟨hcode, hsplit⟩ := forall_mem_split hl
      obtain ⟨hcode, hcode'⟩ := List.forall_mem_append.mp hcode
      exact ⟨vs, doOperands_replaced hargs hvs hcode hleft,
        .split (doOperand_replaced hargs hcallee hcode' (callee_unreplaced (hcallees c hop) hroute hcalled)) hs hsplit⟩

theorem doPhi_replaced (hargs : Plain X.args) {p : Phi Nat Nat Nat} {q : List HInst × HPhi} (hp : doPhi P X p = .ok q)
    (hcode : ∀ i ∈ q.1, AnyInst.inst i ∈ l) (hl : AnyInst.phi q.2 ∈ l)
    (h : AllReplaced (copyPlace X false) (p.incoming.map Prod.fst)) : PhiReplaced X l p := by
  obtain ⟨⟨code, vs⟩, hvs, hp⟩ := bind_eq_ok.mp hp
  cases hp
  exact ⟨vs, doOperands_replaced hargs hvs hcode h, hl⟩

theorem doTerminator_replaced (hargs : Plain X.args) {n : Nat} {t : Term Nat Nat Nat} {q : List HInst × HTerm}
    (ht : doTerminator P X f n t = .ok q) (hcode : ∀ i ∈ q.1, AnyInst.inst i ∈ l) (hl : AnyInst.term q.2 ∈ l)
    (h : AllReplaced (copyPlace X false) (Module.termOperands t)) : TermReplaced P X l f n t := by
  cases t with
  | ret r =>
      cases r with
      | none => trivial
      | some r =>
          obtain ⟨⟨code, w⟩, hv, ht⟩ := bind_eq_ok.mp ht
          have hleft := h _ (List.mem_singleton_self _)
          dsimp only at ht
          split at ht
          next =>
            cases ht
            exact ⟨w, doOperand_replaced hargs hv hcode hleft, .inl hl⟩
          next =>
            cases ht
            obtain ⟨hcode, hstore⟩ := List.forall_mem_append.mp hcode
            exact ⟨w, doOperand_replaced hargs hv hcode hleft, .inr ⟨_, hstore _ (List.mem_singleton_self _)⟩⟩
  | condBr v a b =>
      obtain ⟨⟨code, w⟩, hv, ht⟩ := bind_eq_ok.mp ht
      cases ht
      exact ⟨w, doOperand_replaced hargs hv hcode (h _ (List.mem_singleton_self _)), hl⟩
  | switch v d cases =>
      obtain ⟨⟨code, w⟩, hv, ht⟩ := bind_eq_ok.mp ht
      cases ht
      exact ⟨w, doOperand_replaced hargs hv hcode (h _ (List.mem_singleton_self _)), hl⟩
  | indirectBr => cases ht
  | _ => trivial

theorem body_replaced (hargs : Plain X.args) {entry : List HInst} {blocks : List (HostBlock × HBlock)}
    (hbody : doBody P X f entry = .ok blocks) (hcallees : ∀ c ∈ Module.calls f, Callees P X c)
    (h : ∀ b ∈ f.blocks, AllReplaced (copyPlace X false) (blockValues b.2)) :
    BodyReplaced P X (blocksInstructions blocks) f := by
  have hparts : ∀ b ∈ f.blocks,
      (∀ p ∈ b.2.phis, PhiReplaced X (blocksInstructions blocks) p) ∧
      (∀ i ∈ b.2.insts, InstReplaced P X (blocksInstructions blocks) i) ∧
      TermReplaced P X (blocksInstructions blocks) f b.2.termId b.2.term := by
    intro b hb
    obtain ⟨o, ho, hl⟩ := (doBody_instructions hbody).1 b hb
    obtain ⟨hleft, hterm⟩ := List.forall_mem_append.mp (h b hb)
    obtain ⟨hphis, hinsts⟩ := List.forall_mem_append.mp hleft
    simp only [BlockCopy.instructions, List.forall_mem_append, List.forall_mem_map, List.forall_mem_flatMap,
      List.forall_mem_singleton] at hl
    obtain ⟨⟨⟨⟨hphiCode, hphi⟩, hpieces⟩, hcode⟩, hlast⟩ := hl
    refine ⟨fun p hp => ?_, fun i hi => ?_, doTerminator_replaced hargs ho.term hcode hlast hterm⟩
    · obtain ⟨q, hq, hpq⟩ := (mapM_ok_mem ho.phis).1 p hp
      exact doPhi_replaced hargs hpq (hphiCode q hq) (hphi q hq)
        (fun v hv => hphis v (List.mem_flatMap.mpr ⟨p, hp, hv⟩))
    · obtain ⟨piece, hpiece, hip⟩ := (mapM_ok_mem ho.pieces).1 i hi
      exact doInstruction_replaced hargs hip (hpieces piece hpiece) (fun c hc => hcallees c (mem_calls hb hi hc))
        (fun v hv => hinsts v (List.mem_flatMap.mpr ⟨i, hi, hv⟩))
  exact ⟨fun b hb => (hparts b hb).1, fun b hb => (hparts b hb).2.1, fun b hb => (hparts b hb).2.2⟩

theorem inst_allReplaced {i : GInst} (h : InstReplaced P X l i) :
    AllReplaced (copyPlace X false) (instValues i.op) := by
  unfold InstReplaced at h
  split at h
  next c hop =>
    obtain ⟨vs, hvs, hcall⟩ := h
    rw [hop]
    refine List.forall_mem_append.mpr ⟨allReplaced_of_forall₂ hvs, ?_⟩
    rcases calleeValues_cases c with ⟨_, hvalues⟩ | ⟨hindirect, hvalues⟩
    · rw [hvalues]
      exact List.forall_mem_nil _
    · rw [hvalues]
      cases hcall with
      | intrinsic hcallee | copy hcallee => exact absurd (InstRun.getCalledFunction_eq_some.mp hcallee).1 (hindirect _)
      | callback hv | split hv => exact List.forall_mem_singleton.mpr (unreplaced_eq_nil hv)
  next opcode ty is ops hop =>
    obtain ⟨vs, hvs, _⟩ := h
    rw [hop]
    exact allReplaced_of_forall₂ hvs
  next => exact h.elim

theorem term_allReplaced {n : Nat} {t : Term Nat Nat Nat} (h : TermReplaced P X l f n t) :
    AllReplaced (copyPlace X false) (Module.termOperands t) := by
  cases t with
  | ret r =>
      cases r with
      | none => exact List.forall_mem_nil _
      | some r =>
          obtain ⟨w, hw, _⟩ := h
          exact List.forall_mem_singleton.mpr (unreplaced_eq_nil hw)
  | condBr | switch =>
      obtain ⟨w, hw, _⟩ := h
      exact List.forall_mem_singleton.mpr (unreplaced_eq_nil hw)
  | indirectBr => exact h.elim
  | _ => exact List.forall_mem_nil _

theorem BodyReplaced.allReplaced (h : BodyReplaced P X l f) {b : Nat × GBlock} (hb : b ∈ f.blocks) :
    AllReplaced (copyPlace X false) (blockValues b.2) := by
  refine List.forall_mem_append.mpr ⟨List.forall_mem_append.mpr ⟨?_, ?_⟩, term_allReplaced (h.terms b hb)⟩
  · intro v hv
    obtain ⟨p, hp, hv⟩ := List.mem_flatMap.mp hv
    obtain ⟨vs, hvs, _⟩ := h.phis b hb p hp
    exact allReplaced_of_forall₂ hvs v hv
  · intro v hv
    obtain ⟨i, hi, hv⟩ := List.mem_flatMap.mp hv
    exact inst_allReplaced (h.insts b hb i hi) v hv

end Body

section Loads

variable {P : Input} {g : Nat} {f : GFunction} {info : FuncInfo} {X : Copy}

theorem inst_mem_place {pos i : Nat} {ops : List HOp} {op : HOp} (h : ops[i]? = some op) :
    ⟨entryName (pos + i), op⟩ ∈ place pos ops :=
  List.mem_map.mpr ⟨(op, i), List.mk_mem_zipIdx_iff_getElem?.mpr h, rfl⟩

theorem padFields_loads (ptr : HValue) {pos r : Nat} {keys : List Nat} {x : HostId}
    (hx : (r, x) ∈ fieldNames pos keys) : ∃ j, keys[j]? = some r ∧
      ⟨entryName pos, .load (.array ptrTy keys.length) ptr⟩ ∈ padFields pos ptr keys ∧
      ⟨x, .extractValue (.inst (entryName pos)) j⟩ ∈ padFields pos ptr keys := by
  obtain ⟨⟨r, j⟩, hj, heq⟩ := List.mem_map.mp hx
  cases heq
  have hkey : keys[j]? = some r := List.mk_mem_zipIdx_iff_getElem?.mp hj
  have hlt : j < keys.length := (List.getElem?_eq_some_iff.mp hkey).1
  have hne : keys ≠ [] := List.ne_nil_of_length_pos (Nat.zero_lt_of_lt hlt)
  refine ⟨j, hkey, ?_⟩
  rw [padFields, if_neg (by simpa using hne), loadFields]
  refine ⟨inst_mem_place (i := 0) rfl, ?_⟩
  rw [Nat.add_assoc, Nat.add_comm 1 j]
  refine inst_mem_place ?_
  simp [hlt]

/-- The named entries of a table are loaded through pointers to them. -/
theorem tableEntries_loads (tbl : HostSym) {R : Nat → Nat → Prop} {keys uids : List Nat} (h : List.Forall₂ R keys uids)
    {pos r : Nat} {x : HostId} (hx : (r, x) ∈ entryNames pos keys) : ∃ uid y z, R r uid ∧
      ⟨y, .load ptrTy (.const (.global tbl))⟩ ∈ tableEntries pos tbl uids ∧
      ⟨z, .elementPtr (.inst y) uid⟩ ∈ tableEntries pos tbl uids ∧
      ⟨x, .load ptrTy (.inst z)⟩ ∈ tableEntries pos tbl uids := by
  induction h generalizing pos with
  | nil => cases hx
  | @cons k uid keys uids hk _ ih =>
      rw [EntryRun.entryNames_cons] at hx
      rw [EntryRun.tableEntries_cons]
      rcases List.mem_cons.mp hx with heq | hx
      · cases heq
        exact ⟨uid, entryName pos, entryName (pos + 1), hk, by simp, by simp, by simp⟩
      · obtain ⟨uid', y, z, hr, htbl, hptr, hload⟩ := ih hx
        exact ⟨uid', y, z, hr, List.mem_append_right _ htbl, List.mem_append_right _ hptr, List.mem_append_right _ hload⟩

theorem fcpEntries_loads (base : HostId) {R : Nat → Nat → Prop} {keys uids : List Nat} (h : List.Forall₂ R keys uids)
    {pos r : Nat} {x : HostId} (hx : (r, x) ∈ fcpEntryNames pos keys) : ∃ uid z, R r uid ∧
      ⟨z, .elementPtr (.inst base) uid⟩ ∈ EntryRun.fcpEntries base pos uids ∧
      ⟨x, .load ptrTy (.inst z)⟩ ∈ EntryRun.fcpEntries base pos uids := by
  induction h generalizing pos with
  | nil => cases hx
  | @cons k uid keys uids hk _ ih =>
      rw [EntryRun.fcpEntryNames_cons] at hx
      rw [EntryRun.fcpEntries_cons]
      rcases List.mem_cons.mp hx with heq | hx
      · cases heq
        exact ⟨uid, entryName (pos + 1), hk, by simp, by simp⟩
      · obtain ⟨uid', z, hr, hptr, hload⟩ := ih hx
        exact ⟨uid', z, hr, List.mem_append_right _ hptr, List.mem_append_right _ hload⟩

theorem grefUids_forall₂ {uids : List Nat} (h : P.grefUids info = .ok uids) :
    List.Forall₂ (fun r uid => r ∈ info.extRefArgs ∧ ∃ gref, P.symtbl.greftbl.find? r = some gref ∧ gref.uid = uid)
      info.extRefArgs uids := by
  refine (List.forall₂_and_left _ _).mpr ⟨fun r hr => hr, ?_⟩
  refine (mapM_eq_ok.mp h).imp ?_
  intro r uid hr
  split at hr
  next gref hgref =>
    cases hr
    exact ⟨gref, hgref, rfl⟩
  next => cases hr

theorem refs_loadsRef {entry : List HInst} {gen : Generated} (h : Conversion P g f info X entry gen)
    {l : List AnyInst} (hl : ∀ i ∈ entry, AnyInst.inst i ∈ l) {r : Nat} {x : HostId} (hx : X.refs r = some x) :
    LoadsRef P l info r x := by
  cases h with
  | @plain _ pre pos pos' _ _ _ hX hentry _ =>
      subst hX hentry
      obtain ⟨j, hj, hpad, hfield⟩ := padFields_loads (.arg 2) (EntryRun.assign_mem hx)
      obtain ⟨hl, _⟩ := List.forall_mem_append.mp hl
      obtain ⟨_, hl⟩ := List.forall_mem_append.mp hl
      exact .field hj (hl _ hpad) (hl _ hfield)
  | @grt _ pre pos pos' uids uids' _ _ _ hrefs hX hentry _ =>
      subst hX hentry
      obtain ⟨uid, y, z, ⟨hr, gref, hgref, rfl⟩, htbl, hptr, hload⟩ :=
        tableEntries_loads .extreftbl (grefUids_forall₂ hrefs) (EntryRun.assign_mem hx)
      obtain ⟨hl, _⟩ := List.forall_mem_append.mp hl
      obtain ⟨_, hl⟩ := List.forall_mem_append.mp hl
      exact .entry hr hgref (hl _ htbl) (hl _ hptr) (hl _ hload)
  | @fcp pos uids uids' _ hrefs hX hentry _ =>
      subst hX hentry
      obtain ⟨hl, _⟩ := List.forall_mem_append.mp hl
      have hcode : fcpTableEntries 1 .extreftbl uids =
          [⟨entryName 1, .load ptrTy (.const (.global .extreftbl))⟩] ++ EntryRun.fcpEntries (entryName 1) 1 uids :=
        EntryRun.place_cons _ _ _
      rw [hcode] at hl
      obtain ⟨uid, z, ⟨hr, gref, hgref, rfl⟩, hptr, hload⟩ :=
        fcpEntries_loads (entryName 1) (grefUids_forall₂ hrefs) (EntryRun.assign_mem hx)
      obtain ⟨htbl, hl⟩ := List.forall_mem_append.mp hl
      exact .entry hr hgref (htbl _ (List.mem_singleton_self _)) (hl _ hptr) (hl _ hload)

theorem LoadsRef.mem {l : List AnyInst} {r : Nat} {x : HostId} (h : LoadsRef P l info r x) : r ∈ info.extRefArgs := by
  cases h with
  | field hj => exact List.mem_of_getElem? hj
  | entry hr => exact hr

theorem entry_mem {entry : List HInst} {blocks : List (HostBlock × HBlock)} (h : doBody P X f entry = .ok blocks) :
    ∀ i ∈ entry, AnyInst.inst i ∈ blocksInstructions blocks := by
  obtain ⟨rs, _, h⟩ := bind_eq_ok.mp h
  split at h
  next => cases h
  next =>
    cases h
    intro i hi
    simp [blocksInstructions, blockInstructions, hi]

end Loads

/-- The functions made for a guest function name no symbol of the guest module, in
bundles of calls neither, and in the one with the copied body every reference is
replaced. -/
structure Detached (P : Input) (bundles : Nat → List (Const Nat)) (g : Nat) (f : GFunction) (info : FuncInfo)
    (gen : Generated) : Prop where
  users : ∀ p ∈ gen.functions g info, ∀ x ∈ instructions p.2, x.users = []
  bundled : ∀ p ∈ gen.functions g info, ∀ x ∈ instructions p.2, ∀ c ∈ bundleConsts bundles x,
    constUsers (cloneConst (g, p.1) c) = []
  replaced : ∃ p ∈ gen.functions g info, ∃ X : Copy, X.func = g ∧ X.hfunc = p.1 ∧
    (∀ r x, X.refs r = some x → LoadsRef P (instructions p.2) info r x) ∧ BodyReplaced P X (instructions p.2) f ∧
      BundlesReplaced X (instructions p.2) bundles f

/-- What `Analyze` has to have registered of a function, and what it must not hold. -/
structure Replaceable (P : Input) (bundles : Nat → List (Const Nat)) (g : Nat) (f : GFunction) : Prop where
  operands : ∀ b ∈ f.blocks, AllReplaced (guestPlace P.module g f) (blockValues b.2)
  bundled : ∀ b ∈ f.blocks, ∀ i ∈ b.2.insts, ∀ c, i.op = .call c → ∀ d ∈ bundles i.id,
    constLeft ⟨fun _ => false, g, false⟩ d = []

section Functions

variable {P : Input} {g : Nat} {f : GFunction} {info : FuncInfo} {X : Copy} {entry : List HInst} {gen : Generated}

theorem mem_functions {p : HostSym × HFunction} : p ∈ gen.functions g info ↔
    p = (.hstub info.uid, gen.stub) ∨ ∃ hf, gen.copy = some hf ∧ p = (.fcpFunc g, hf) := by
  simp only [Generated.functions, List.mem_cons, List.mem_map, Option.mem_toList, eq_comm (a := p)]

theorem functions_ne_user {p : HostSym × HFunction} (hp : p ∈ gen.functions g info) : ∀ k, p.1 ≠ .user k := by
  rintro k hk
  rcases mem_functions.mp hp with rfl | ⟨hf, _, rfl⟩
  · cases hk
  · cases hk

/-- One of the functions has the copied body, the other one is the stub in front. -/
theorem conversion_functions (h : Conversion P g f info X entry gen) : ∃ hf, Copying P g f info X entry hf ∧
    (X.hfunc, hf) ∈ gen.functions g info ∧
      ∀ p ∈ gen.functions g info, p = (X.hfunc, hf) ∨ p.2 = fcpStub P g f info := by
  obtain ⟨hf, hX, hwhere⟩ := h.copying
  refine ⟨hf, hX, ?_⟩
  cases h with
  | plain _ _ hfields | grt _ _ _ hfields =>
      subst hfields
      rcases hwhere with ⟨hstub, _⟩ | ⟨_, hcopy⟩
      · refine ⟨mem_functions.mpr (.inl (by rw [hstub])), ?_⟩
        intro p hp
        rcases mem_functions.mp hp with rfl | ⟨_, hcopy, _⟩
        · exact .inl (by rw [hstub])
        · cases hcopy
      · cases hcopy
  | fcp _ hfields =>
      subst hfields
      rcases hwhere with ⟨_, hcopy⟩ | ⟨hstub, hcopy⟩
      · cases hcopy
      · refine ⟨mem_functions.mpr (.inr ⟨hf, hcopy, rfl⟩), ?_⟩
        intro p hp
        rcases mem_functions.mp hp with rfl | ⟨hf', hcopy', rfl⟩
        · exact .inr hstub
        · rw [hcopy] at hcopy'
          cases hcopy'
          exact .inl rfl

theorem bundles_users (h : Conversion P g f info X entry gen) {bundles : Nat → List (Const Nat)}
    (hleft : ∀ b ∈ f.blocks, ∀ i ∈ b.2.insts, ∀ c, i.op = .call c → ∀ d ∈ bundles i.id,
      constLeft ⟨fun _ => false, g, false⟩ d = []) :
    ∀ p ∈ gen.functions g info, ∀ x ∈ instructions p.2, ∀ c ∈ bundleConsts bundles x,
      constUsers (cloneConst (g, p.1) c) = [] := by
  obtain ⟨hf, hX, _, hall⟩ := conversion_functions h
  intro p hp x hx d hd
  have husers : constUsers (cloneConst (g, p.1) d) = _ := cloneConst_users (functions_ne_user hp) d
  rw [husers]
  cases x with
  | phi | term => cases hd
  | inst y =>
      rw [bundleConsts] at hd
      cases hn : bundleOwner y with
      | none =>
          rw [hn] at hd
          cases hd
      | some n =>
          rw [hn] at hd
          rcases hall p hp with rfl | hstub
          · obtain ⟨b, hb, i, hi, rfl, c, hop⟩ := doBody_bundles hX.body hX.entry hx hn
            exact hleft b hb i hi c hop d hd
          · rw [hstub] at hx
            rw [fcpStub_noBundles hx] at hn
            cases hn

theorem same_of_replaced {l : List AnyInst} {d : Const Nat} {u : Const HostSym} (h : Replaced X l d (.const u)) :
    constLeft ⟨fun _ => false, X.func, false⟩ d = [] := by
  generalize hv : (Value.const u : HValue) = v at h
  cases h with
  | same hd => exact hd
  | loaded | expanded => cases hv
  | @inserted _ ops vs _ hops _ =>
      cases hops with
      | nil => rfl
      | cons => cases hv

end Functions

section Analyzed

variable {H : HashOps} {L : Layout} {m : Module} {config : Config} {uid g : Nat} {f : GFunction} {info : FuncInfo}

theorem valueUnreplaced_eq_nil {p q : Place} {v : GValue} (hp : valueUnreplaced p v = []) (hself : p.self = q.self)
    (h : ∀ r, (p.replaced r || p.dropped) = true → (q.replaced r || q.dropped) = true) : valueUnreplaced q v = [] := by
  have hmd : ∀ {v : MdOperand Nat Nat}, mdLeft p v = [] → mdLeft q v = [] := by
    intro v hv
    cases v with
    | const c => exact constLeft_eq_nil hv hself (fun r _ => h r)
    | arg | inst => rfl
  cases v with
  | const c => exact constLeft_eq_nil hp hself (fun r _ => h r)
  | metadata md =>
      cases md with
      | value v => exact hmd hp
      | argList vs => exact List.flatMap_eq_nil_iff.mpr (fun v hv => hmd (List.flatMap_eq_nil_iff.mp hp v hv))
      | node => rfl
  | arg | inst | inlineAsm => rfl

/-- Nothing is left of an operand whose references are all replaced. -/
theorem valueLeft_eq_nil {p : Place} {v : GValue} (h : valueUnreplaced p v = []) : valueLeft p v = [] := by
  cases v with
  | const c => exact h
  | metadata md =>
      cases md with
      | value v => exact h
      | argList vs =>
          refine List.flatMap_eq_nil_iff.mpr (fun v hv => ?_)
          have hleft := List.flatMap_eq_nil_iff.mp h v hv
          unfold listedLeft
          split
          next => rfl
          next => exact hleft
      | node => rfl
  | arg | inst | inlineAsm => rfl

/-- Nothing is left of a block whose references are all replaced, also where they would
be dropped otherwise. -/
theorem blockLeft_eq_nil {P : Input} {X : Copy} {b : GBlock} (h : AllReplaced (copyPlace X false) (blockValues b))
    (hcallees : ∀ i ∈ b.insts, ∀ c, i.op = .call c → Callees P X c) : blockLeft P X b = [] := by
  have hvalue : ∀ {v : GValue} (dropped : Bool), valueUnreplaced (copyPlace X false) v = [] →
      valueLeft (copyPlace X dropped) v = [] := by
    intro v dropped hv
    refine valueLeft_eq_nil (valueUnreplaced_eq_nil hv rfl ?_)
    intro r hr
    rw [copyPlace, Bool.or_false] at hr
    exact Bool.or_eq_true_iff.mpr (.inl hr)
  have hvalues : ∀ {vs : List GValue} (dropped : Bool), AllReplaced (copyPlace X false) vs →
      valuesLeft (copyPlace X dropped) vs = [] :=
    fun dropped hvs => List.flatMap_eq_nil_iff.mpr (fun v hv => hvalue dropped (hvs v hv))
  obtain ⟨hleft, hterm⟩ := List.forall_mem_append.mp h
  obtain ⟨hphis, hinsts⟩ := List.forall_mem_append.mp hleft
  rw [blockLeft, hvalues false hphis, hvalues false hterm, List.nil_append, List.append_nil]
  refine List.flatMap_eq_nil_iff.mpr (fun i hi => ?_)
  have hinst : AllReplaced (copyPlace X false) (instValues i.op) :=
    fun v hv => hinsts v (List.mem_flatMap.mpr ⟨i, hi, hv⟩)
  unfold instLeft
  split
  next c hop =>
    rw [hop] at hinst
    obtain ⟨hargs, hcallee⟩ := List.forall_mem_append.mp hinst
    rw [callLeft, hvalues _ hargs, List.nil_append]
    split
    next hroute => exact hvalue _ (callee_unreplaced (hcallees i hi c hop) hroute hcallee)
    next => rfl
  next op hop =>
    refine hvalues false (fun v hv => hinst v ?_)
    cases hop' : i.op with
    | call c => exact absurd hop' (hop c)
    | _ =>
        rw [hop'] at hv
        exact hv

theorem callees_known {X : Copy} {entry : List HInst} {hf : HFunction}
    (hinfo : (analyze H L m .null uid).functbl.find? g = some info) (hfun : m.function? g = some f)
    (hX : Copying (analyzed H L m config .null uid) g f info X entry hf) {c : GCall} (hc : c ∈ Module.calls f) :
    Callees (analyzed H L m config .null uid) X c := by
  obtain ⟨f', scan, h, he⟩ := (analyze_wellFormed H L m .null uid).entries g info hinfo
  cases hfun.symm.trans he.function
  have haccepted := (scanFunction_scanned he.scanned).accepted
  refine ⟨?_, ?_⟩
  · intro k hroute
    rcases InstRun.route_cases _ hroute with ⟨_, _, _, hwhite, _⟩ | ⟨_, _, _, _, _, h⟩ | ⟨_, _, _, _, _, h⟩ | h
    · cases hwhite
    all_goals cases h
  · intro k hk hroute
    rw [hX.refs, mem_extRefArgs_iff hinfo hfun]
    exact callee_registered hc hk (registers_of_route hfun haccepted hc hroute)

end Analyzed

/-- The functions made for a function of the table are free of the guest module,
every reference replaced by the value loaded for it and every callee by that value,
a copy or an intrinsic, exactly when all references in its operands are registered
and no block address, `dso_local_equivalent`, `no_cfi` or bundle holds one. -/
theorem detached_iff (H : HashOps) (L : Layout) (m : Module) (config : Config) (uid : Nat)
    (bundles : Nat → List (Const Nat)) {M : HostModule} (hM : takeOut (analyzed H L m config .null uid) = .ok M)
    {g : Nat} {info : FuncInfo} {f : GFunction} (hinfo : (analyze H L m .null uid).functbl.find? g = some info)
    (hfun : m.function? g = some f) :
    ∃ gen, doHstubcvt (analyzed H L m config .null uid) g f info = .ok gen ∧
      (∀ p ∈ gen.functions g info, M.functions.lookup p.1 = some p.2) ∧
      (Detached (analyzed H L m config .null uid) bundles g f info gen ↔
        Replaceable (analyzed H L m config .null uid) bundles g f) := by
  have hfilled := HostTable.genHfuncs_filled (HostTable.takeOut_genHfuncs hM)
    (analyze_wellFormed H L m .null uid).functionUids hinfo
  unfold HostTable.Filled at hfilled
  rw [if_neg (by simp [Input.blackList, analyzed, BwList.null])] at hfilled
  obtain ⟨f', gen, hf', hgen, _, hstub, hcopy⟩ := hfilled
  cases hfun.symm.trans hf'
  refine ⟨gen, hgen, ?_, ?_⟩
  · intro p hp
    rcases mem_functions.mp hp with rfl | ⟨hf, hsome, rfl⟩
    · exact hstub
    · exact hcopy hf hsome
  obtain ⟨X, entry, hconv⟩ := doHstubcvt_cases hgen
  obtain ⟨hf, hX, hmem, hall⟩ := conversion_functions hconv
  have hcallees : ∀ c ∈ Module.calls f, Callees (analyzed H L m config .null uid) X c :=
    fun c hc => callees_known hinfo hfun hX hc
  have hoperands : Replaceable (analyzed H L m config .null uid) bundles g f → ∀ b ∈ f.blocks,
      AllReplaced (copyPlace X false) (blockValues b.2) := by
    intro h b hb
    rw [copyPlace_eq hinfo hfun hX]
    exact h.operands b hb
  constructor
  · intro h
    obtain ⟨p, _, X', hfunc, _, hloads, hbody, hbundles⟩ := h.replaced
    refine ⟨?_, fun b hb i hi c hop d hd => hfunc ▸ same_of_replaced (hbundles b hb i hi c hop d hd)⟩
    intro b hb v hv
    refine valueUnreplaced_eq_nil (hbody.allReplaced hb v hv) hfunc ?_
    intro r hr
    obtain ⟨x, hx⟩ := Option.isSome_iff_exists.mp ((Bool.or_false _).symm.trans hr)
    exact Bool.or_eq_true_iff.mpr (.inl (decide_eq_true
      ((mem_extRefArgs_iff hinfo hfun r).mp (hloads r x hx).mem)))
  · intro h
    refine ⟨?_, bundles_users hconv h.bundled, ?_⟩
    · intro p hp x hx
      apply List.eq_nil_iff_forall_not_mem.mpr
      intro r hr
      have hmem : r ∈ allUsers (instructions p.2) := List.mem_flatMap.mpr ⟨x, hx, hr⟩
      rcases hall p hp with rfl | hstub
      · obtain ⟨b, hb, hr⟩ := (doBody_users hX.hfunc hX.args hX.body hX.entry.users r).mp hmem
        rw [blockLeft_eq_nil (hoperands h b hb) (fun i hi c hc => hcallees c (mem_calls hb hi hc))] at hr
        cases hr
      · rw [hstub, fcpStub_users] at hmem
        cases hmem
    · refine ⟨_, hmem, X, hX.func, rfl, fun r x hx => refs_loadsRef hconv (entry_mem hX.body) hx,
        body_replaced hX.args hX.body hcallees (hoperands h), fun b hb i hi c hop d hd => .same ?_⟩
      rw [hX.func]
      exact h.bundled b hb i hi c hop d hd

theorem address_detached : ∃ M info gen, takeOut (returningInput (.global 1)) = .ok M ∧
    (∀ p ∈ gen.functions 0 info, M.functions.lookup p.1 = some p.2) ∧
    Detached (returningInput (.global 1)) (fun _ => []) 0 (returning (.global 1)) info gen := by
  obtain ⟨gen, _, hlookup, hiff⟩ := detached_iff HostTable.sumHash HostTable.plainLayout
    (returningModule (.global 1)) HostTable.chopAll 7 (fun _ => []) (M := _) rfl (g := 0) rfl rfl
  refine ⟨_, _, gen, rfl, hlookup, hiff.mpr ⟨?_, ?_⟩⟩
  · intro b hb
    cases List.mem_singleton.mp hb
    exact List.forall_mem_singleton.mpr rfl
  · intro b hb i hi
    cases List.mem_singleton.mp hb
    cases hi

/-- A `no_cfi` constant is copied as it is. -/
theorem noCfi_kept : ∃ M gen, takeOut (returningInput (.wrapper .noCfi 1)) = .ok M ∧
    M.functions.lookup (.hstub 0) = some gen ∧ ∃ x ∈ instructions gen, x.users = [1] :=
  ⟨_, _, rfl, rfl, _, List.mem_cons_of_mem _ (List.mem_cons_self), rfl⟩

end Comulator.Replacement
