import Comulator.Analyze
import Comulator.CallbackRun
import Comulator.Fallible

namespace Comulator.OperandRun

open Fallible Types Ir TypeHash HostIr TakeOut Analyze Exec Simulation ExecRules Compose CallbackRun

mutual

def noWrapper : Const Nat → Bool
  | .wrapper _ _ => false
  | .aggregate _ ops => noWrappers ops
  | .expr _ _ _ ops => noWrappers ops
  | _ => true

def noWrappers : List (Const Nat) → Bool
  | [] => true
  | c :: cs => noWrapper c && noWrappers cs

end

variable {Sc W : Type} {E : Setting Sc W} {O : Offloaded} {fuel : Nat} {call : Caller Sc W}
variable {fcp : Nat → Interface → List (Val Sc) → Run Sc W (Val Sc)} {args : List (Val Sc)}
variable {P : Pads Sc} {env env' : Env HostId Sc} {S : Site}

def Loaded (refs : Nat → Option HostId) (env : Env HostId Sc) : Prop :=
  ∀ g x, refs g = some x → x.owner = none ∧ env x = some (.addr (.guest g))

theorem callName_add (n : Option Nat) (k d i : Nat) : callName n (k + d) i = callName n k (d + i) := by
  simp only [callName, Nat.add_assoc]

theorem Off.later {n : Option Nat} {k : Nat} (d : Nat) (h : Off (callName n (k + d)) env env') : Off (callName n k) env env' := by
  intro x hx
  refine h x (fun i hi => hx (d + i) ?_)
  rw [hi, callName_add]

theorem Stable.later {n k : Nat} (d : Nat) {v : HValue}
    (h : Stable E.sem hostSymbols args (callName n k) env v) :
    Stable E.sem hostSymbols args (callName n (k + d)) env v := fun env' hoff => h env' (Off.later d hoff)

theorem entry_ne_callName {x : HostId} (hx : x.owner = none) (n k i : Nat) : x ≠ callName n k i := by
  rintro rfl
  cases hx

theorem Loaded.off {refs : Nat → Option HostId} {n k : Nat} (h : Loaded refs env)
    (hoff : Off (callName n k) env env') : Loaded refs env' := by
  intro g x hx
  obtain ⟨howner, hval⟩ := h g x hx
  exact ⟨howner, (hoff x (entry_ne_callName howner n k)).trans hval⟩

theorem stable_const {n k : Nat} (c : Const HostSym) :
    Stable E.sem hostSymbols args (callName n k) env (.const c) := fun _ _ => rfl

theorem stable_inst {n k : Nat} {x : HostId} (hx : ∀ i, x ≠ callName n k i) :
    Stable E.sem hostSymbols args (callName n k) env (.inst x) := fun _ hoff => hoff x hx

theorem stable_metadata {n k : Nat} (md : Metadata HostSym HostId) :
    Stable E.sem hostSymbols args (callName n k) env (.metadata md) := by
  intro _ _
  cases md <;> rfl

section Consts

inductive ConstCopy (S : Site) (k : Nat) : Const Nat → List HInst → Option HValue → Prop
  | loaded {g : Nat} {x : HostId} (href : S.refs g = some x) : ConstCopy S k (.global g) [] (some (.inst x))
  | dropped {g : Nat} (href : S.refs g = none) (hdbg : S.dbg = true) :
      ConstCopy S k (.global g) [] (some (.const .poison))
  | named {g : Nat} (href : S.refs g = none) (hdbg : S.dbg = false) : ConstCopy S k (.global g) [] none
  | wrapper {kind : WrapperKind} {g : Nat} : ConstCopy S k (.wrapper kind g) [] none
  | inserted {kind : AggregateKind} {ops : List (Const Nat)} {code : List HInst} {vs : List HValue}
      (hops : doConsts S k ops = .ok (code, vs, true)) :
      ConstCopy S k (.aggregate kind ops) (code ++ insertChain (fun i => S.name (k + code.length + i)) vs)
        (some (chainValue (fun i => S.name (k + code.length + i)) vs.length vs.length))
  | aggregate {kind : AggregateKind} {ops : List (Const Nat)} {code : List HInst} {vs : List HValue}
      (hops : doConsts S k ops = .ok (code, vs, false)) : ConstCopy S k (.aggregate kind ops) code none
  | expanded {opcode : Opcode} {ty : Ty} {is : List Nat} {ops : List (Const Nat)} {code : List HInst}
      {vs : List HValue} (hops : doConsts S k ops = .ok (code, vs, true)) :
      ConstCopy S k (.expr opcode ty is ops) (code ++ [⟨S.name (k + code.length), .expand opcode ty is vs⟩])
        (some (.inst (S.name (k + code.length))))
  | expr {opcode : Opcode} {ty : Ty} {is : List Nat} {ops : List (Const Nat)} {code : List HInst} {vs : List HValue}
      (hops : doConsts S k ops = .ok (code, vs, false)) : ConstCopy S k (.expr opcode ty is ops) code none
  | int {w n : Nat} : ConstCopy S k (.int w n) [] none
  | nullPtr : ConstCopy S k .nullPtr [] none
  | undef {n : Nat} : ConstCopy S k (.undef n) [] none
  | poison : ConstCopy S k .poison [] none
  | data {ty : Ty} {n : Nat} : ConstCopy S k (.data ty n) [] none

theorem doConst_cases {k : Nat} {c : Const Nat} {code : List HInst} {v : Option HValue}
    (h : doConst S k c = .ok (code, v)) : ConstCopy S k c code v := by
  cases c with
  | global g =>
      rw [doConst] at h
      cases href : S.refs g with
      | some x =>
          rw [href] at h
          cases h
          exact .loaded href
      | none =>
          rw [href] at h
          cases hdbg : S.dbg with
          | true =>
              rw [hdbg] at h
              cases h
              exact .dropped href hdbg
          | false =>
              rw [hdbg] at h
              obtain ⟨_, _, h⟩ := bind_eq_ok.mp h
              cases h
              exact .named href hdbg
  | wrapper kind g =>
      rw [doConst] at h
      split at h
      next =>
        cases h
        exact .wrapper
      next =>
        obtain ⟨_, _, h⟩ := bind_eq_ok.mp h
        cases h
        exact .wrapper
  | aggregate kind ops =>
      rw [doConst] at h
      obtain ⟨⟨code₁, vs, new⟩, hops, h⟩ := bind_eq_ok.mp h
      cases new with
      | true =>
          cases h
          exact .inserted hops
      | false =>
          cases h
          exact .aggregate hops
  | expr opcode ty is ops =>
      rw [doConst] at h
      obtain ⟨⟨code₁, vs, new⟩, hops, h⟩ := bind_eq_ok.mp h
      cases new with
      | true =>
          cases h
          exact .expanded hops
      | false =>
          cases h
          exact .expr hops
  | int | nullPtr | undef | poison | data =>
      cases h
      constructor

theorem evalValues_map_const {γ ι : Type} {sem : Sem Sc W} {A : Symbols γ Sc} {env : Env ι Sc} (cs : List (Const γ)) :
    evalValues sem A args env (cs.map Value.const) = evalConsts sem A cs := by
  induction cs with
  | nil => rfl
  | cons c cs ih =>
      rw [List.map_cons, evalValues_cons, ih, evalConsts]
      change (evalConst sem A c).bind _ = _
      cases evalConst sem A c with
      | none => rfl
      | some v =>
          change (evalConsts sem A cs).map _ = _
          cases evalConsts sem A cs <;> rfl

theorem doConsts_old {k : Nat} {cs : List (Const Nat)} {code : List HInst} {vs : List HValue}
    (h : doConsts S k cs = .ok (code, vs, false)) : vs = (cloneConsts S.self cs).map Value.const := by
  induction cs generalizing k code vs with
  | nil =>
      cases h
      rfl
  | cons c cs ih =>
      rw [doConsts] at h
      obtain ⟨⟨code₁, v⟩, _, h⟩ := bind_eq_ok.mp h
      obtain ⟨⟨code₂, vs₂, new⟩, h₂, h⟩ := bind_eq_ok.mp h
      simp only [pure, Except.pure, Except.ok.injEq, Prod.mk.injEq, Bool.or_eq_false_iff] at h
      obtain ⟨-, rfl, hv, rfl⟩ := h
      have hv : v = none := by simpa using hv
      rw [ih h₂, hv, cloneConsts]
      rfl

theorem doConsts_length {k : Nat} {cs : List (Const Nat)} {code : List HInst} {vs : List HValue} {new : Bool}
    (h : doConsts S k cs = .ok (code, vs, new)) : vs.length = cs.length := by
  induction cs generalizing k code vs new with
  | nil =>
      cases h
      rfl
  | cons c cs ih =>
      rw [doConsts] at h
      obtain ⟨⟨code₁, v⟩, _, h⟩ := bind_eq_ok.mp h
      obtain ⟨⟨code₂, vs₂, new₂⟩, h₂, h⟩ := bind_eq_ok.mp h
      cases h
      rw [List.length_cons, List.length_cons, ih h₂]

theorem doConsts_new {k : Nat} {cs : List (Const Nat)} {code : List HInst} {vs : List HValue}
    (h : doConsts S k cs = .ok (code, vs, true)) : vs ≠ [] := by
  cases cs with
  | nil => cases h
  | cons c cs =>
      intro hvs
      have hlen := doConsts_length h
      rw [hvs] at hlen
      cases hlen

end Consts

def Known (S : Site) (refs : List Nat) : Prop := S.dbg = true ∨ ∀ g ∈ refs, (S.refs g).isSome

variable (E O fuel call fcp args P) in
structure Computes (n : Option Nat) (k : Nat) (env : Env HostId Sc) (code : List HInst) (env' : Env HostId Sc) : Prop where
  run : Silent Machine.withPads P env' P (execInsts E.sem (hostCtx E O fuel call fcp) args env code)
  off : Off (callName n k) env env'

theorem Computes.nil (n : Option Nat) (k : Nat) (env : Env HostId Sc) : Computes E O fuel call fcp args P n k env [] env :=
  ⟨.pure _, Off.refl⟩

theorem Computes.append {n : Option Nat} {k : Nat} {env₁ env₂ env₃ : Env HostId Sc} {code code' : List HInst}
    (h : Computes E O fuel call fcp args P n k env₁ code env₂)
    (h' : Computes E O fuel call fcp args P n (k + code.length) env₂ code' env₃) :
    Computes E O fuel call fcp args P n k env₁ (code ++ code') env₃ :=
  ⟨Silent.append h.run h'.run, h.off.trans (Off.later _ h'.off)⟩

theorem Silent.computes {n : Option Nat} {k : Nat} {op : HOp} {v : Val Sc}
    (h : Silent Machine.withPads P v P (execOp E.sem (hostCtx E O fuel call fcp) args env op))
    (hop : isVoidCall op = false) : Computes E O fuel call fcp args P n k env [⟨callName n k 0, op⟩]
      (Function.update env (callName n k 0) (some v)) :=
  ⟨Silent.single (Silent.inst h hop), Off.update 0 _⟩

mutual

theorem doConst_run {env : Env HostId Sc} {c : Const Nat} {k : Nat} {code : List HInst} {ov : Option HValue}
    (hloaded : Loaded S.refs env) (hplain : noWrapper c = true) (hknown : Known S (constRefs c))
    (h : doConst S k c = .ok (code, ov)) :
    ∃ env' w, Computes E O fuel call fcp args P S.owner k env code env' ∧
      Stable E.sem hostSymbols args (callName S.owner (k + code.length)) env'
        (ov.getD (.const (cloneConst S.self c))) ∧
      evalValue E.sem hostSymbols args env' (ov.getD (.const (cloneConst S.self c))) = some w ∧
      ((∀ g ∈ constRefs c, (S.refs g).isSome) → evalConst E.sem guestSymbols c = some w) := by
  cases c with
  | global g =>
      have hself : g ∈ constRefs (.global g) := List.mem_singleton.mpr rfl
      cases doConst_cases h with
      | loaded href =>
          obtain ⟨howner, hval⟩ := hloaded g _ href
          exact ⟨env, _, Computes.nil _ _ _, stable_inst (entry_ne_callName howner _ _), hval, fun _ => rfl⟩
      | dropped href _ =>
          refine ⟨env, .poison, Computes.nil _ _ _, stable_const _, rfl, fun hall => ?_⟩
          exact absurd (hall g hself) (by simp [href])
      | named href hdbg =>
          rcases hknown with hknown | hall
          · exact absurd hknown (by simp [hdbg])
          · exact absurd (hall g hself) (by simp [href])
  | wrapper kind g => cases hplain
  | aggregate kind ops =>
      cases doConst_cases h with
      | inserted hops =>
          obtain ⟨env₁, ws, hcode, hstable, hval, heval⟩ := doConsts_run hloaded hplain hknown hops
          obtain ⟨_, hchain⟩ := insertChain_run (P := P) (C := hostCtx E O fuel call fcp) hstable (doConsts_new hops)
          obtain ⟨env₂, hrun, hoff, hagg⟩ := hchain ws hval
          refine ⟨env₂, .agg ws, hcode.append ⟨hrun, hoff⟩, ?_, hagg, ?_⟩
          · obtain ⟨v, us, rfl⟩ := List.exists_cons_of_ne_nil (doConsts_new hops)
            refine stable_inst (fun i hi => ?_)
            simp [Site.name, callName, insertChain] at hi
            omega
          · intro hall
            rw [evalConst, heval hall]
            rfl
      | aggregate hops =>
          obtain ⟨env₁, ws, hcode, hstable, hval, heval⟩ := doConsts_run hloaded hplain hknown hops
          refine ⟨env₁, .agg ws, hcode, stable_const _, ?_, ?_⟩
          · rw [doConsts_old hops, evalValues_map_const] at hval
            change evalConst E.sem hostSymbols (cloneConst S.self (.aggregate kind ops)) = _
            rw [cloneConst, evalConst, hval]
            rfl
          · intro hall
            rw [evalConst, heval hall]
            rfl
  | expr opcode ty is ops =>
      cases doConst_cases h with
      | @expanded _ _ _ _ code₁ vs hops =>
          obtain ⟨env₁, ws, hcode, hstable, hval, heval⟩ := doConsts_run hloaded hplain hknown hops
          have hsilent : Silent Machine.withPads P (E.sem.expr opcode ty is ws) P
              (execOp E.sem (hostCtx E O fuel call fcp) args env₁ (.expand opcode ty is vs)) := expand_silent hval
          have hexpand := Silent.computes (n := S.owner) (k := k + code₁.length) hsilent rfl
          refine ⟨_, E.sem.expr opcode ty is ws, hcode.append hexpand, ?_, Function.update_self _ _ _, ?_⟩
          · refine stable_inst (fun i hi => ?_)
            simp [Site.name, callName] at hi
            omega
          · intro hall
            rw [evalConst, heval hall]
            rfl
      | expr hops =>
          obtain ⟨env₁, ws, hcode, hstable, hval, heval⟩ := doConsts_run hloaded hplain hknown hops
          refine ⟨env₁, E.sem.expr opcode ty is ws, hcode, stable_const _, ?_, ?_⟩
          · rw [doConsts_old hops, evalValues_map_const] at hval
            change evalConst E.sem hostSymbols (cloneConst S.self (.expr opcode ty is ops)) = _
            rw [cloneConst, evalConst, hval]
            rfl
          · intro hall
            rw [evalConst, heval hall]
            rfl
  | undef n =>
      cases h
      cases n with
      | zero => exact ⟨env, _, Computes.nil _ _ _, stable_const _, rfl, fun _ => rfl⟩
      | succ n => exact ⟨env, _, Computes.nil _ _ _, stable_const _, rfl, fun _ => rfl⟩
  | int | nullPtr | poison | data =>
      cases h
      exact ⟨env, _, Computes.nil _ _ _, stable_const _, rfl, fun _ => rfl⟩

theorem doConsts_run {env : Env HostId Sc} {cs : List (Const Nat)} {k : Nat} {code : List HInst} {vs : List HValue}
    {new : Bool}
    (hloaded : Loaded S.refs env) (hplain : noWrappers cs = true) (hknown : Known S (constsRefs cs))
    (h : doConsts S k cs = .ok (code, vs, new)) :
    ∃ env' ws, Computes E O fuel call fcp args P S.owner k env code env' ∧
      (∀ v ∈ vs, Stable E.sem hostSymbols args (callName S.owner (k + code.length)) env' v) ∧
      evalValues E.sem hostSymbols args env' vs = some ws ∧
      ((∀ g ∈ constsRefs cs, (S.refs g).isSome) → evalConsts E.sem guestSymbols cs = some ws) := by
  cases cs with
  | nil =>
      cases h
      exact ⟨env, [], Computes.nil _ _ _, by simp, rfl, fun _ => rfl⟩
  | cons c cs =>
      rw [doConsts] at h
      obtain ⟨⟨code₁, ov⟩, hc, h⟩ := bind_eq_ok.mp h
      obtain ⟨⟨code₂, us, new₂⟩, hcs, h⟩ := bind_eq_ok.mp h
      cases h
      rw [noWrappers, Bool.and_eq_true] at hplain
      have hknown₁ : Known S (constRefs c) :=
        hknown.imp id (fun hall g hg => hall g (by rw [constsRefs]; exact List.mem_append_left _ hg))
      have hknown₂ : Known S (constsRefs cs) :=
        hknown.imp id (fun hall g hg => hall g (by rw [constsRefs]; exact List.mem_append_right _ hg))
      obtain ⟨env₁, w, hcode₁, hstable₁, hval₁, heval₁⟩ := doConst_run hloaded hplain.1 hknown₁ hc
      obtain ⟨env₂, ws, hcode₂, hstable₂, hval₂, heval₂⟩ := doConsts_run (hloaded.off hcode₁.off) hplain.2 hknown₂ hcs
      refine ⟨env₂, w :: ws, hcode₁.append hcode₂, ?_, ?_, ?_⟩
      · intro v hv
        rw [List.length_append, ← Nat.add_assoc]
        rcases List.mem_cons.mp hv with rfl | hv
        · exact Stable.later _ (hstable₁.off hcode₂.off)
        · exact hstable₂ v hv
      · rw [evalValues_cons, hstable₁ env₂ hcode₂.off, hval₁, hval₂]
        rfl
      · intro hall
        rw [evalConsts, heval₁ (fun g hg => hall g (by rw [constsRefs]; exact List.mem_append_left _ hg)),
          heval₂ (fun g hg => hall g (by rw [constsRefs]; exact List.mem_append_right _ hg))]
        rfl

end

section Operands

variable (E) in
structure Matches (X : Copy) (gargs args : List (Val Sc)) (e : Env Nat Sc) (env : Env HostId Sc) : Prop where
  body : ∀ n, env (bodyId n) = e n
  refs : Loaded X.refs env
  cbStubs : ∀ h x, X.cbStubs h = some x → x.owner = none ∧ env x = some (.addr (.cbStub h))
  args : ∀ i, i < gargs.length → (∀ x, X.args i = .inst x → x.owner = none) ∧
    evalValue E.sem hostSymbols args env (X.args i) = gargs[i]?

variable {X : Copy} {gargs : List (Val Sc)} {e : Env Nat Sc} {n k : Nat}

theorem bodyId_ne_callName (hk : 0 < k) (x n i : Nat) : bodyId x ≠ callName n k i := by
  intro h
  simp only [bodyId, callName, HostId.mk.injEq] at h
  omega

theorem stable_entry {v : HValue} (hv : ∀ x, v = .inst x → x.owner = none) :
    Stable E.sem hostSymbols args (callName n k) env v := by
  cases v with
  | inst x => exact stable_inst (entry_ne_callName (hv x rfl) n k)
  | metadata md => exact stable_metadata md
  | const | arg | inlineAsm => exact fun _ _ => rfl

theorem Matches.off (h : Matches E X gargs args e env) (hk : 0 < k) (hoff : Off (callName n k) env env') :
    Matches E X gargs args e env' where
  body := fun x => (hoff _ (bodyId_ne_callName hk x n)).trans (h.body x)
  refs := h.refs.off hoff
  cbStubs := fun c x hx =>
    ⟨(h.cbStubs c x hx).1, (hoff x (entry_ne_callName (h.cbStubs c x hx).1 n k)).trans (h.cbStubs c x hx).2⟩
  args := fun i hi => ⟨(h.args i hi).1, (stable_entry (h.args i hi).1 env' hoff).trans (h.args i hi).2⟩

def mdOperandConsts : MdOperand Nat Nat → List (Const Nat)
  | .const c => [c]
  | _ => []

def mdConsts : Metadata Nat Nat → List (Const Nat)
  | .value v => mdOperandConsts v
  | .argList vs => vs.flatMap mdOperandConsts
  | .node _ => []

def Seen (S : Site) (numArgs : Nat) : GValue → Prop
  | .const c => noWrapper c = true ∧ ∀ g ∈ constRefs c, (S.refs g).isSome
  | .arg i => i < numArgs
  | .metadata md => ∀ c ∈ mdConsts md, noWrapper c = true ∧ Known S (constRefs c)
  | _ => True

theorem doMdOperand_run {v : MdOperand Nat Nat} {code : List HInst} {v' : HValue} (hloaded : Loaded S.refs env)
    (hseen : ∀ c ∈ mdOperandConsts v, noWrapper c = true ∧ Known S (constRefs c))
    (h : doMdOperand S X.args k v = .ok (code, v')) :
    ∃ env', Computes E O fuel call fcp args P S.owner k env code env' := by
  cases v with
  | const c =>
      obtain ⟨⟨code₁, ov⟩, hc, h⟩ := bind_eq_ok.mp h
      cases h
      obtain ⟨hplain, hknown⟩ := hseen c (List.mem_singleton.mpr rfl)
      obtain ⟨env', _, hcode, _⟩ := doConst_run hloaded hplain hknown hc
      exact ⟨env', hcode⟩
  | arg | inst =>
      cases h
      exact ⟨env, Computes.nil _ _ _⟩

theorem doArgList_run {vs : List (MdOperand Nat Nat)} {code : List HInst} {vs' : List (MdOperand HostSym HostId)}
    (hloaded : Loaded S.refs env)
    (hseen : ∀ c ∈ vs.flatMap mdOperandConsts, noWrapper c = true ∧ Known S (constRefs c))
    (h : doArgList S X.args k vs = .ok (code, vs')) :
    ∃ env', Computes E O fuel call fcp args P S.owner k env code env' := by
  induction vs generalizing env k code vs' with
  | nil =>
      cases h
      exact ⟨env, Computes.nil _ _ _⟩
  | cons v vs ih =>
      obtain ⟨⟨code₁, v₁⟩, hv, h⟩ := bind_eq_ok.mp h
      obtain ⟨⟨code₂, vs₂⟩, hvs, h⟩ := bind_eq_ok.mp h
      cases h
      obtain ⟨env₁, hcode₁⟩ := doMdOperand_run hloaded
        (fun c hc => hseen c (List.mem_flatMap.mpr ⟨v, List.mem_cons_self, hc⟩)) hv
      obtain ⟨env₂, hcode₂⟩ := ih (hloaded.off hcode₁.off)
        (fun c hc => hseen c (by rw [List.flatMap_cons]; exact List.mem_append_right _ hc)) hvs
      exact ⟨env₂, hcode₁.append hcode₂⟩

theorem doMetadata_run {md : Metadata Nat Nat} {code : List HInst} {md' : Metadata HostSym HostId}
    (hloaded : Loaded S.refs env) (hseen : ∀ c ∈ mdConsts md, noWrapper c = true ∧ Known S (constRefs c))
    (h : doMetadata S X.args k md = .ok (code, md')) :
    (∃ env', Computes E O fuel call fcp args P S.owner k env code env') ∧
      ∀ env' : Env HostId Sc, evalValue E.sem hostSymbols args env' (.metadata md') =
        evalValue E.sem guestSymbols gargs e (.metadata md) := by
  cases md with
  | value v =>
      obtain ⟨⟨code₁, v₁⟩, hv, h⟩ := bind_eq_ok.mp h
      cases h
      exact ⟨doMdOperand_run hloaded hseen hv, fun _ => rfl⟩
  | argList vs =>
      obtain ⟨⟨code₁, vs₁⟩, hvs, h⟩ := bind_eq_ok.mp h
      cases h
      exact ⟨doArgList_run hloaded hseen hvs, fun _ => rfl⟩
  | node m =>
      cases h
      exact ⟨⟨env, Computes.nil _ _ _⟩, fun _ => rfl⟩

variable (O fuel call fcp P) in
/-- The value `do_operand` returns is that of the operand, and what is named
later does not change it. -/
theorem doOperand_run {v : GValue} {code : List HInst} {v' : HValue} (hm : Matches E X gargs args e env) (hk : 0 < k)
    (hrefs : S.refs = X.refs) (hseen : Seen S gargs.length v) (h : doOperand S X.args k v = .ok (code, v')) :
    ∃ env', Computes E O fuel call fcp args P S.owner k env code env' ∧
      Stable E.sem hostSymbols args (callName S.owner (k + code.length)) env' v' ∧
      evalValue E.sem hostSymbols args env' v' = evalValue E.sem guestSymbols gargs e v := by
  cases v with
  | const c =>
      obtain ⟨⟨code₁, ov⟩, hc, h⟩ := bind_eq_ok.mp h
      cases h
      obtain ⟨env', w, hcode, hstable, hval, heval⟩ := doConst_run (hrefs ▸ hm.refs) hseen.1 (.inr hseen.2) hc
      exact ⟨env', hcode, hstable, hval.trans (heval hseen.2).symm⟩
  | arg i =>
      cases h
      exact ⟨env, Computes.nil _ _ _, stable_entry (hm.args i hseen).1, (hm.args i hseen).2⟩
  | inst x =>
      cases h
      exact ⟨env, Computes.nil _ _ _, stable_inst (bodyId_ne_callName (Nat.add_pos_left hk _) x _), hm.body x⟩
  | metadata md =>
      obtain ⟨⟨code₁, md₁⟩, hmd, h⟩ := bind_eq_ok.mp h
      cases h
      obtain ⟨⟨env', hcode⟩, heval⟩ := doMetadata_run (hrefs ▸ hm.refs) hseen hmd
      exact ⟨env', hcode, stable_metadata _, heval env'⟩
  | inlineAsm m =>
      cases h
      exact ⟨env, Computes.nil _ _ _, fun _ _ => rfl, rfl⟩

variable (O fuel call fcp P) in
theorem doOperands_run {vs : List GValue} {code : List HInst} {vs' : List HValue} (hm : Matches E X gargs args e env)
    (hk : 0 < k) (hrefs : S.refs = X.refs) (hseen : ∀ v ∈ vs, Seen S gargs.length v)
    (h : doOperands S X.args k vs = .ok (code, vs')) :
    ∃ env', Computes E O fuel call fcp args P S.owner k env code env' ∧
      (∀ v ∈ vs', Stable E.sem hostSymbols args (callName S.owner (k + code.length)) env' v) ∧
      List.Forall₂ (fun v v' => evalValue E.sem hostSymbols args env' v' = evalValue E.sem guestSymbols gargs e v)
        vs vs' := by
  induction vs generalizing env k code vs' with
  | nil =>
      cases h
      exact ⟨env, Computes.nil _ _ _, by simp, .nil⟩
  | cons v vs ih =>
      obtain ⟨⟨code₁, v₁⟩, hv, h⟩ := bind_eq_ok.mp h
      obtain ⟨⟨code₂, vs₂⟩, hvs, h⟩ := bind_eq_ok.mp h
      cases h
      obtain ⟨env₁, hcode₁, hstable₁, hval₁⟩ := doOperand_run O fuel call fcp P hm hk hrefs (hseen v List.mem_cons_self) hv
      obtain ⟨env₂, hcode₂, hstable₂, hval₂⟩ := ih (hm.off hk hcode₁.off) (Nat.add_pos_left hk _)
        (fun u hu => hseen u (List.mem_cons_of_mem _ hu)) hvs
      refine ⟨env₂, hcode₁.append hcode₂, ?_, .cons ((hstable₁ env₂ hcode₂.off).trans hval₁) hval₂⟩
      intro u hu
      rw [List.length_append, ← Nat.add_assoc]
      rcases List.mem_cons.mp hu with rfl | hu
      · exact Stable.later _ (hstable₁.off hcode₂.off)
      · exact hstable₂ u hu

end Operands

end Comulator.OperandRun
