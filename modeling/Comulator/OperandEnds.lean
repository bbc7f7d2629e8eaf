import Comulator.DepthWalk
import Comulator.SelfContained

namespace Comulator.OperandEnds

open Fallible DepthWalk Types Ir TypeHash Symtbl HostIr TakeOut Analyze AnalyzeSpec Lookups GuestSymbols SelfContained

section Graph

variable (replaced : Nat → Bool)

mutual

def constBelow : Const Nat → List Nat
  | .global g | .wrapper _ g => if replaced g then [] else [g]
  | .aggregate _ ops | .expr _ _ _ ops => constsBelow ops
  | _ => []

def constsBelow : List (Const Nat) → List Nat
  | [] => []
  | c :: cs => constBelow c ++ constsBelow cs

end

mutual

def constReplaced : Const Nat → Bool
  | .global g => replaced g
  | .aggregate _ ops | .expr _ _ _ ops => constsReplaced ops
  | _ => false

def constsReplaced : List (Const Nat) → Bool
  | [] => false
  | c :: cs => constReplaced c || constsReplaced cs

end

variable (m : Module)

def below (g : Nat) : List Nat := constsBelow replaced (m.globalOperands g)

def asserts (g : Nat) : Bool := constsReplaced replaced (m.globalOperands g)

end Graph

section Walk

variable (refs : Nat → Option HostId) (walk : Nat → Except Error Unit)

def hasRef (g : Nat) : Bool := (refs g).isSome

mutual

theorem constNew_eq (c : Const Nat) :
    constNew refs walk c = (do
      forM (constBelow (hasRef refs) c) walk
      return constReplaced (hasRef refs) c) := by
  cases c with
  | global g =>
      rw [constNew, constBelow, constReplaced, hasRef]
      cases (refs g).isSome with
      | true => rfl
      | false =>
          simp only [Bool.false_eq_true, if_false, List.forM_cons, List.forM_nil]
          cases walk g <;> rfl
  | wrapper kind g =>
      rw [constNew, constBelow, hasRef]
      cases (refs g).isSome with
      | true => rfl
      | false =>
          simp only [Bool.false_eq_true, if_false, List.forM_cons, List.forM_nil]
          cases walk g <;> rfl
  | aggregate kind ops => exact constsNew_eq ops
  | expr opcode ty is ops => exact constsNew_eq ops
  | int | nullPtr | undef | poison | data => rfl

theorem constsNew_eq (cs : List (Const Nat)) :
    constsNew refs walk cs = (do
      forM (constsBelow (hasRef refs) cs) walk
      return constsReplaced (hasRef refs) cs) := by
  cases cs with
  | nil => rfl
  | cons c cs =>
      rw [constsNew, constNew_eq c, constsNew_eq cs, constsBelow, constsReplaced, List.forM_append]
      cases forM (constBelow (hasRef refs) c) walk with
      | error e => rfl
      | ok u => cases forM (constsBelow (hasRef refs) cs) walk <;> rfl

end

theorem walkGlobal_eq (m : Module) (n : Nat) :
    walkGlobal m refs n =
      DepthWalk.walk (below (hasRef refs) m) (asserts (hasRef refs) m) .overflow .unexpectedGlobal n := by
  induction n with
  | zero => rfl
  | succ n ih =>
      funext g
      rw [walkGlobal, DepthWalk.walk, ih, constsNew_eq, bind_assoc]
      simp only [pure_bind]
      rfl

end Walk

section Operand

variable {S : Site} {e : Error}

theorem bind_pure_error {α β : Type} {x : Except Error α} {f : α → Except Error β} (hf : ∀ a, ∃ b, f a = .ok b) :
    (x >>= f) = .error e ↔ x = .error e := by
  rw [bind_eq_error]
  constructor
  · rintro (h | ⟨a, _, h⟩)
    · exact h
    · obtain ⟨b, hb⟩ := hf a
      cases hb.symm.trans h
  · exact .inl

/-- One part after the other stops as the ways of both, one after the other. -/
theorem bind_forM_error {α β : Type} {w : Nat → Except Error Unit} {x : Except Error α} {f : α → Except Error β}
    {l l' : List Nat} (hx : ∀ e, x = .error e ↔ forM l w = .error e)
    (hf : ∀ a e, f a = .error e ↔ forM l' w = .error e) (e : Error) :
    (x >>= f) = .error e ↔ forM (l ++ l') w = .error e := by
  rw [List.forM_append]
  cases hwalk : forM l w with
  | error e' =>
      rw [(hx e').mpr hwalk]
      simp [bind, Except.bind]
  | ok u =>
      cases x with
      | error e' => cases hwalk.symm.trans ((hx e').mp rfl)
      | ok a => exact hf a e

mutual

/-- `do_operand` stops for what stops the way through the global values, and for
nothing else. -/
theorem doConst_error (k : Nat) (c : Const Nat) (e : Error) :
    doConst S k c = .error e ↔ forM (constWalked S c) S.walk = .error e := by
  cases c with
  | global g =>
      rw [doConst, constWalked]
      cases hg : S.refs g with
      | some x => simp [pure, Except.pure]
      | none =>
          cases hdbg : S.dbg with
          | true => simp [pure, Except.pure]
          | false => cases hwalk : S.walk g <;> simp [hwalk, bind, Except.bind, pure, Except.pure]
  | wrapper kind g =>
      rw [doConst, constWalked]
      cases hskip : S.dbg || (!isOwn S.self.1 kind g && (S.refs g).isSome) with
      | true => simp [pure, Except.pure]
      | false => cases hwalk : S.walk g <;> simp [hwalk, bind, Except.bind, pure, Except.pure]
  | aggregate kind ops =>
      rw [doConst, constWalked, ← doConsts_error k ops e]
      apply bind_pure_error
      rintro ⟨code, vs, new⟩
      cases new <;> exact ⟨_, rfl⟩
  | expr opcode ty is ops =>
      rw [doConst, constWalked, ← doConsts_error k ops e]
      apply bind_pure_error
      rintro ⟨code, vs, new⟩
      cases new <;> exact ⟨_, rfl⟩
  | int | nullPtr | undef | poison | data => simp [doConst, constWalked, pure, Except.pure]

theorem doConsts_error (k : Nat) (cs : List (Const Nat)) (e : Error) :
    doConsts S k cs = .error e ↔ forM (constsWalked S cs) S.walk = .error e := by
  cases cs with
  | nil => simp [doConsts, constsWalked, pure, Except.pure]
  | cons c cs =>
      rw [doConsts, constsWalked]
      refine bind_forM_error (doConst_error k c) ?_ e
      intro r e'
      rw [← doConsts_error (k + r.1.length) cs e']
      exact bind_pure_error (fun _ => ⟨_, rfl⟩)

end

variable (args : Nat → HValue)

theorem doMdOperand_error (k : Nat) (v : MdOperand Nat Nat) (e : Error) :
    doMdOperand S args k v = .error e ↔ forM (mdOperandWalked S v) S.walk = .error e := by
  cases v with
  | const c =>
      rw [doMdOperand, mdOperandWalked, ← doConst_error k c e]
      exact bind_pure_error (fun _ => ⟨_, rfl⟩)
  | arg i => simp [doMdOperand, mdOperandWalked, pure, Except.pure]
  | inst x => simp [doMdOperand, mdOperandWalked, pure, Except.pure]

theorem doArgList_error (k : Nat) (vs : List (MdOperand Nat Nat)) (e : Error) :
    doArgList S args k vs = .error e ↔ forM (vs.flatMap (mdOperandWalked S)) S.walk = .error e := by
  induction vs generalizing k e with
  | nil => simp [doArgList, pure, Except.pure]
  | cons v vs ih =>
      rw [doArgList, List.flatMap_cons]
      refine bind_forM_error (doMdOperand_error args k v) ?_ e
      intro r e'
      rw [← ih (k + r.1.length) e']
      exact bind_pure_error (fun _ => ⟨_, rfl⟩)

theorem doOperand_error (k : Nat) (v : GValue) (e : Error) :
    doOperand S args k v = .error e ↔ forM (valueWalked S v) S.walk = .error e := by
  cases v with
  | const c =>
      rw [doOperand, valueWalked, ← doConst_error k c e]
      exact bind_pure_error (fun _ => ⟨_, rfl⟩)
  | metadata md =>
      rw [doOperand]
      refine (bind_pure_error (fun _ => ⟨_, rfl⟩)).trans ?_
      cases md with
      | value v =>
          rw [doMetadata, valueWalked, ← doMdOperand_error args k v e]
          exact bind_pure_error (fun _ => ⟨_, rfl⟩)
      | argList vs =>
          rw [doMetadata, valueWalked, ← doArgList_error args k vs e]
          exact bind_pure_error (fun _ => ⟨_, rfl⟩)
      | node n => simp [doMetadata, valueWalked, pure, Except.pure]
  | arg i => simp [doOperand, valueWalked, pure, Except.pure]
  | inst x => simp [doOperand, valueWalked, pure, Except.pure]
  | inlineAsm n => simp [doOperand, valueWalked, pure, Except.pure]

end Operand

section Met

variable (p : Place)

mutual

def constMet : Const Nat → List Nat
  | .global g => if p.dropped || p.replaced g then [] else [g]
  | .wrapper kind g => if p.dropped || (!isOwn p.self kind g && p.replaced g) then [] else [g]
  | .aggregate _ ops | .expr _ _ _ ops => constsMet ops
  | _ => []

def constsMet : List (Const Nat) → List Nat
  | [] => []
  | c :: cs => constMet c ++ constsMet cs

end

def mdMet : MdOperand Nat Nat → List Nat
  | .const c => constMet p c
  | _ => []

def valueMet : GValue → List Nat
  | .const c => constMet p c
  | .metadata (.value v) => mdMet p v
  | .metadata (.argList vs) => vs.flatMap (mdMet p)
  | _ => []

end Met

section Walked

variable (S : Site)

mutual

theorem constWalked_eq (c : Const Nat) : constWalked S c = constMet (placeOf S) c := by
  cases c with
  | aggregate kind ops => exact constsWalked_eq ops
  | expr opcode ty is ops => exact constsWalked_eq ops
  | int | nullPtr | undef | poison | data | global | wrapper => rfl

theorem constsWalked_eq (cs : List (Const Nat)) : constsWalked S cs = constsMet (placeOf S) cs := by
  cases cs with
  | nil => rfl
  | cons c cs => rw [constsWalked, constsMet, constWalked_eq c, constsWalked_eq cs]

end

theorem valueWalked_eq (v : GValue) : valueWalked S v = valueMet (placeOf S) v := by
  have hmd : mdOperandWalked S = mdMet (placeOf S) := by
    funext v
    cases v with
    | const c => exact constWalked_eq S c
    | arg i => rfl
    | inst x => rfl
  cases v with
  | const c => exact constWalked_eq S c
  | metadata md =>
      cases md with
      | value v => exact congrFun hmd v
      | argList vs =>
          rw [valueWalked, valueMet, hmd]
      | node n => rfl
  | arg | inst | inlineAsm => rfl

end Walked

section Ends

variable (P : Input) (X : Copy)

def siteAt (depth owner : Nat) (dbg : Bool) : Site :=
  ⟨X.refs, (X.func, X.hfunc), walkGlobal P.module X.refs depth, owner, dbg⟩

/-- `do_operand` comes to an end on an operand, be it a failed assertion: some depth
is enough. -/
def Ends (dbg : Bool) (v : GValue) : Prop :=
  ∃ depth, ∀ owner k, doOperand (siteAt P X depth owner dbg) X.args k v ≠ .error .overflow

/-- Going on from an operand, `do_operand` gets into a cycle of global values. -/
def Cyclic (m : Module) (p : Place) (v : GValue) : Prop :=
  EndlessFrom (below p.replaced m) (asserts p.replaced m) (valueMet p v)

variable {P X} {dbg : Bool} {v : GValue}

theorem below_bounded (replaced : Nat → Bool) (m : Module) (g : Nat) (h : below replaced m g ≠ []) :
    g ∈ List.range m.symbols.length := by
  rw [List.mem_range]
  by_contra hlen
  apply h
  rw [below, Module.globalOperands, List.getElem?_eq_none (Nat.le_of_not_lt hlen)]
  rfl

theorem doOperand_overflow (depth owner k : Nat) :
    doOperand (siteAt P X depth owner dbg) X.args k v = .error .overflow ↔
      forM (valueMet (copyPlace X dbg) v)
        (DepthWalk.walk (below (hasRef X.refs) P.module) (asserts (hasRef X.refs) P.module) Error.overflow
          Error.unexpectedGlobal depth) = .error Error.overflow := by
  rw [doOperand_error, valueWalked_eq, siteAt, walkGlobal_eq]
  rfl

/-- A depth of one more than there are global values tells whether there is an end. -/
theorem site_overflow (n k : Nat) :
    doOperand (site P X n dbg) X.args k v = .error .overflow ↔ Cyclic P.module (copyPlace X dbg) v := by
  have hsite : site P X n dbg = siteAt P X (P.module.symbols.length + 1) n dbg := rfl
  rw [hsite, doOperand_overflow]
  constructor
  · intro h
    have hne : Error.overflow ≠ Error.unexpectedGlobal := by decide
    apply endlessFrom_of_forM (List.range P.module.symbols.length) hne (below_bounded _ _)
    rw [List.length_range]
    exact h
  · intro h
    exact forM_endless h _

theorem ends_iff : Ends P X dbg v ↔ ¬ Cyclic P.module (copyPlace X dbg) v := by
  constructor
  · rintro ⟨depth, hdepth⟩ hcyclic
    apply hdepth 0 0
    rw [doOperand_overflow]
    exact forM_endless hcyclic depth
  · intro h
    refine ⟨P.module.symbols.length + 1, ?_⟩
    intro owner k hoverflow
    exact h ((site_overflow owner k).mp hoverflow)

end Ends

section Passed

variable (P : Input)

def passedInst (i : GInst) : List (Bool × GValue) :=
  match i.op with
  | .call c =>
      (c.args.map Prod.snd ++ if P.route c = .callback then [c.calledOperand] else []).map
        (fun v => (isDbgValueInst P.module c, v))
  | .op _ _ _ ops => ops.map (fun v => (false, v))
  | _ => []

def passedBlock (b : GBlock) : List (Bool × GValue) :=
  (b.phis.flatMap (fun p => p.incoming.map Prod.fst)).map (fun v => (false, v)) ++ b.insts.flatMap (passedInst P) ++
    (Module.termOperands b.term).map (fun v => (false, v))

def passed (f : GFunction) : List (Bool × GValue) := f.blocks.flatMap (fun b => passedBlock P b.2)

abbrev NoOverflow {α : Type} (x : Except Error α) : Prop := FailsOnly (fun e => e ≠ .overflow) x

variable {P} {X : Copy} {f : GFunction}

theorem Ends.doOperand {dbg : Bool} {v : GValue} (h : Ends P X dbg v) (n k : Nat) :
    NoOverflow (HostIr.doOperand (site P X n dbg) X.args k v) := by
  rintro e he rfl
  exact ends_iff.mp h ((site_overflow n k).mp he)

theorem doOperands_ends {dbg : Bool} {vs : List GValue} (h : ∀ v ∈ vs, Ends P X dbg v) (n k : Nat) :
    NoOverflow (doOperands (site P X n dbg) X.args k vs) := by
  induction vs generalizing k with
  | nil => exact .pure _
  | cons v vs ih =>
      refine ((h v List.mem_cons_self).doOperand n k).bind (fun r _ => ?_)
      exact (ih (fun u hu => h u (List.mem_cons_of_mem v hu)) _).bind (fun _ _ => .pure _)

theorem doCallback_ends (n k : Nat) (result : HostId) (c : GCall) (callee : HValue) (args : List (Ty × HValue)) :
    NoOverflow (doCallback P X n k result c callee args) := by
  rw [doCallback]
  split
  next => exact .throw (by simp)
  next =>
    split
    next => exact .throw (by simp)
    next => exact .pure _

theorem doInstruction_ends {i : GInst} (h : ∀ q ∈ passedInst P i, Ends P X q.1 q.2) :
    NoOverflow (doInstruction P X i) := by
  obtain ⟨n, op⟩ := i
  cases op with
  | call c =>
      have hops : ∀ v ∈ c.args.map Prod.snd ++ if P.route c = .callback then [c.calledOperand] else [],
          Ends P X (isDbgValueInst P.module c) v := by
        intro v hv
        exact h _ (List.mem_map_of_mem hv)
      refine (doOperands_ends (fun v hv => hops v (List.mem_append_left _ hv)) n 1).bind (fun r _ => ?_)
      simp only
      split
      next => exact .pure _
      next => exact .pure _
      next => exact .pure _
      next hroute =>
        have hcallee := hops c.calledOperand (List.mem_append_right _ (by simp [hroute]))
        refine (hcallee.doOperand n _).bind (fun r' _ => ?_)
        split
        next =>
          refine FailsOnly.bind ?_ (fun _ _ => .pure _)
          exact (doCallback_ends _ _ _ _ _ _).bind (fun _ _ => .pure _)
        next => exact (doCallback_ends _ _ _ _ _ _).bind (fun _ _ => .pure _)
  | op opcode ty is ops =>
      refine (doOperands_ends ?_ n 1).bind (fun _ _ => .pure _)
      intro v hv
      exact h (false, v) (List.mem_map_of_mem hv)
  | _ => exact .throw (by simp)

theorem doTerminator_ends {n : Nat} {t : Term Nat Nat Nat} (h : ∀ v ∈ Module.termOperands t, Ends P X false v) :
    NoOverflow (doTerminator P X f n t) := by
  cases t with
  | ret r =>
      cases r with
      | none => exact .pure _
      | some r =>
          refine ((h r.2 (List.mem_singleton.mpr rfl)).doOperand n 1).bind (fun _ _ => ?_)
          simp only
          split <;> exact .pure _
  | condBr v a b => exact ((h v (List.mem_singleton.mpr rfl)).doOperand n 1).bind (fun _ _ => .pure _)
  | switch v d cases => exact ((h v (List.mem_singleton.mpr rfl)).doOperand n 1).bind (fun _ _ => .pure _)
  | br | unreachable => exact .pure _
  | _ => exact .throw (by simp)

/-- If `do_operand` ends on all that is passed to it, so does the copying of the body. -/
theorem doBody_ends (h : ∀ q ∈ passed P f, Ends P X q.1 q.2) (entry : List HInst) :
    NoOverflow (doBody P X f entry) := by
  refine FailsOnly.bind (FailsOnly.mapM ?_) (fun blocks _ => ?_)
  · intro b hb
    have hblock : ∀ q ∈ passedBlock P b.2, Ends P X q.1 q.2 := fun q hq => h q (List.mem_flatMap.mpr ⟨b, hb, hq⟩)
    refine FailsOnly.bind (FailsOnly.mapM ?_) (fun phis _ => ?_)
    · intro p hp
      refine (doOperands_ends ?_ p.id 1).bind (fun _ _ => .pure _)
      intro v hv
      apply hblock (false, v)
      apply List.mem_append_left
      apply List.mem_append_left
      exact List.mem_map_of_mem (List.mem_flatMap.mpr ⟨p, hp, hv⟩)
    refine FailsOnly.bind (FailsOnly.mapM ?_) (fun pieces _ => ?_)
    · intro i hi
      apply doInstruction_ends
      intro q hq
      apply hblock q
      apply List.mem_append_left
      exact List.mem_append_right _ (List.mem_flatMap.mpr ⟨i, hi, hq⟩)
    refine (doTerminator_ends ?_).bind (fun _ _ => .pure _)
    intro v hv
    exact hblock (false, v) (List.mem_append_right _ (List.mem_map_of_mem hv))
  · split
    next => exact .throw (by simp)
    next => exact .pure _

end Passed

section Analyzed

variable (m : Module) (bw : BwList) (g : Nat) (f : GFunction)

def analyzedPlace (dbg : Bool) : Place := ⟨fun r => decide (r ∈ (functionItems m bw f).filterMap refOf), g, dbg⟩

structure IsCopy (g : Nat) (info : FuncInfo) (X : Copy) : Prop where
  func : X.func = g
  refs : ∀ r, (X.refs r).isSome = true ↔ r ∈ info.extRefArgs

variable {m bw g f} {P : Input} {L : Layout} {uid : Nat} {info : FuncInfo} {X : Copy}

theorem isCopy_assign {refNames : List (Nat × HostId)} (h : refNames.map Prod.fst = info.extRefArgs) (hfunc : HostSym)
    (cbStubs : HashCode → Option HostId) (args : Nat → HValue) :
    IsCopy g info ⟨g, hfunc, assign refNames, cbStubs, args⟩ :=
  ⟨rfl, assign_isSome_iff h⟩

/-- The copies that are made are of this kind. -/
theorem doHstubcvt_ends (h : ∀ X, IsCopy g info X → ∀ q ∈ passed P f, Ends P X q.1 q.2) :
    NoOverflow (doHstubcvt P g f info) := by
  have huids : NoOverflow (P.grefUids info) := by
    apply FailsOnly.mapM
    intro r _
    split
    next => exact .pure _
    next => exact .throw (by simp)
  have hstubs : NoOverflow (P.cbStubUids info) := by
    apply FailsOnly.mapM
    intro k _
    split
    next => exact .pure _
    next => exact .throw (by simp)
  have hargs : ∀ pos, NoOverflow (hstubArgs f info pos) := by
    intro pos
    rw [hstubArgs]
    split
    next => exact .pure _
    next => exact .throw (by simp)
  rw [doHstubcvt]
  split
  next =>
    split
    next =>
      rw [genFcp]
      split
      next =>
        refine huids.bind (fun _ _ => hstubs.bind (fun _ _ => FailsOnly.bind ?_ (fun _ _ => .pure _)))
        exact doBody_ends (h _ (isCopy_assign (fcpEntryNames_keys _ _) _ _ _)) _
      next => exact .throw (by simp)
    next =>
      refine (hargs _).bind (fun _ _ => huids.bind (fun _ _ => hstubs.bind (fun _ _ => FailsOnly.bind ?_ (fun _ _ => .pure _))))
      exact doBody_ends (h _ (isCopy_assign (entryNames_keys _ _) _ _ _)) _
  next =>
    split
    next => split <;> exact .throw (by simp)
    next =>
      refine (hargs _).bind (fun _ _ => FailsOnly.bind ?_ (fun _ _ => .pure _))
      exact doBody_ends (h _ (isCopy_assign (fieldNames_keys _ _) _ _ _)) _

theorem copyPlace_analyzed (hinfo : (analyze P.hash L m bw uid).functbl.find? g = some info)
    (hf : m.function? g = some f) (hX : IsCopy g info X) (dbg : Bool) :
    copyPlace X dbg = analyzedPlace m bw g f dbg := by
  obtain ⟨f', scan, h, he⟩ := (analyze_wellFormed P.hash L m bw uid).entries g info hinfo
  cases hf.symm.trans he.function
  have hrefs : (fun r => (X.refs r).isSome) = fun r => decide (r ∈ (functionItems m bw f).filterMap refOf) := by
    funext r
    rw [Bool.eq_iff_iff, hX.refs, decide_eq_true_eq, he.refs, (scanFunction_scanned he.scanned).refs, mem_refs]
  rw [copyPlace, analyzedPlace, hX.func, hrefs]

/-- `do_operand` ends on every operand of a function that `Analyze` accepts exactly if
from none of them it gets into a cycle of global values that are not registered. It
gets there through the operands of such values, and past one only if nothing below it
is on a cycle or holds a registered reference. -/
theorem operands_end_iff (hs : P.symtbl = analyze P.hash L P.module bw uid)
    (hinfo : P.symtbl.functbl.find? g = some info) (hf : P.module.function? g = some f) (hX : IsCopy g info X) :
    (∀ q ∈ passed P f, Ends P X q.1 q.2) ↔
      ∀ q ∈ passed P f, ¬ Cyclic P.module (analyzedPlace P.module bw g f q.1) q.2 := by
  rw [hs] at hinfo
  have hends : ∀ q : Bool × GValue,
      Ends P X q.1 q.2 ↔ ¬ Cyclic P.module (analyzedPlace P.module bw g f q.1) q.2 := by
    intro q
    rw [ends_iff, copyPlace_analyzed hinfo hf hX]
  simp only [hends]

end Analyzed

def loopModule (f : GFunction) (h : Module.verify [.function f, .variable (some (.global 1))] = true) : Module :=
  ⟨[.function f, .variable (some (.global 1))], h⟩

def addressReturned : Input :=
  analyzed HostTable.sumHash HostTable.plainLayout (loopModule (returning (.global 1)) rfl) HostTable.chopAll .null 7

def padCopy (refs : List Nat) : Copy := ⟨0, .hstub 0, assign (fieldNames 1 refs), fun _ => none, Value.arg⟩

/-- A returned address is registered. -/
theorem operands_end_returned :
    (∃ info, addressReturned.symtbl.functbl.find? 0 = some info ∧ IsCopy 0 info (padCopy [1])) ∧
      ∀ q ∈ passed addressReturned (returning (.global 1)), Ends addressReturned (padCopy [1]) q.1 q.2 := by
  obtain ⟨info, hinfo, hrefs⟩ : ∃ info, addressReturned.symtbl.functbl.find? 0 = some info ∧ info.extRefArgs = [1] :=
    ⟨_, rfl, rfl⟩
  have hcopy : IsCopy 0 info (padCopy [1]) := isCopy_assign ((fieldNames_keys 1 [1]).trans hrefs.symm) _ _ _
  refine ⟨⟨info, hinfo, hcopy⟩, (operands_end_iff rfl hinfo rfl hcopy).mpr ?_⟩
  intro q hq
  rw [List.mem_singleton.mp hq]
  rintro ⟨pre, a, post, h, _⟩
  exact List.append_ne_nil_of_right_ne_nil pre (List.cons_ne_nil a post) h.symm

def addressCallee : GValue := .const (.expr .getElementPtr ptrTy [] [.global 1, .int 64 8])

def addressCaller : GFunction :=
  ⟨⟨.void, [], false⟩, 0, ⟨[]⟩, none, [(0, ⟨[], [⟨0, .call ⟨⟨.void, [], false⟩, 0, ⟨[]⟩, addressCallee, []⟩⟩], 1,
    .ret none⟩)], [], none⟩

def addressCalled : Input :=
  analyzed HostTable.sumHash HostTable.plainLayout (loopModule addressCaller rfl) HostTable.chopAll .null 7

theorem addressCallee_cyclic : Cyclic addressCalled.module (copyPlace (padCopy []) false) addressCallee := by
  have hlive : Live (below (copyPlace (padCopy []) false).replaced addressCalled.module)
      (asserts (copyPlace (padCopy []) false).replaced addressCalled.module) 1 1 := ⟨[], [], rfl, by simp⟩
  exact ⟨[], 1, [], rfl, by simp, 1, .refl, .single hlive⟩

/-- A variable that holds its own address is not registered where the address is in an
expression that is called, and `do_operand` goes round in its initializer. -/
theorem called_address_endless : (∃ info, addressCalled.symtbl.functbl.find? 0 = some info ∧ IsCopy 0 info (padCopy [])) ∧
    (false, addressCallee) ∈ passed addressCalled addressCaller ∧
    ¬ Ends addressCalled (padCopy []) false addressCallee := by
  refine ⟨⟨_, rfl, isCopy_assign (fieldNames_keys _ _) _ _ _⟩, List.mem_singleton.mpr rfl, ?_⟩
  rw [ends_iff, not_not]
  exact addressCallee_cyclic

end Comulator.OperandEnds
