import Comulator.Lookups
import Comulator.OperandRun

namespace Comulator.GuestSymbols

open Fallible Types Ir TypeHash Symtbl HostIr TakeOut Analyze AnalyzeSpec Lookups

mutual

def constUsers : Const HostSym → List Nat
  | .global (.user g) => [g]
  | .wrapper _ (.user g) => [g]
  | .aggregate _ ops => constsUsers ops
  | .expr _ _ _ ops => constsUsers ops
  | _ => []

def constsUsers : List (Const HostSym) → List Nat
  | [] => []
  | c :: cs => constUsers c ++ constsUsers cs

end

def mdUsers : MdOperand HostSym HostId → List Nat
  | .const c => constUsers c
  | _ => []

def valueUsers : HValue → List Nat
  | .const c => constUsers c
  | .metadata (.value v) => mdUsers v
  | .metadata (.argList vs) => vs.flatMap mdUsers
  | _ => []

def valuesUsers (vs : List HValue) : List Nat := vs.flatMap valueUsers

def opUsers : HOp → List Nat
  | .call c => valueUsers c.calledOperand ++ valuesUsers (c.args.map Prod.snd)
  | .op _ _ _ vs | .expand _ _ _ vs => valuesUsers vs
  | .store _ v p | .insertValue v p _ | .icmpEq v p => valueUsers v ++ valueUsers p
  | .load _ v | .elementPtr v _ | .extractValue v _ | .stackRestore v | .intToPtr v | .xorMagic _ v => valueUsers v
  | .landingPad | .catchPad | .cleanupPad | .alloca _ | .stackSave => []

def codeUsers (l : List HInst) : List Nat := l.flatMap (fun i => opUsers i.op)

inductive AnyInst
  | phi (p : HPhi)
  | inst (i : HInst)
  | term (t : HTerm)

def termUsers : HTerm → List Nat
  | .ret (some (_, v)) | .condBr v _ _ | .switch v _ _ | .indirectBr v _ => valueUsers v
  | .invoke c _ _ => valueUsers c.calledOperand ++ valuesUsers (c.args.map Prod.snd)
  | _ => []

def AnyInst.users : AnyInst → List Nat
  | .phi p => valuesUsers (p.incoming.map Prod.fst)
  | .inst i => opUsers i.op
  | .term t => termUsers t

def blockInstructions (b : HBlock) : List AnyInst := b.phis.map .phi ++ b.insts.map .inst ++ [.term b.term]

def blocksInstructions (l : List (HostBlock × HBlock)) : List AnyInst := l.flatMap (fun b => blockInstructions b.2)

def instructions (f : HFunction) : List AnyInst := blocksInstructions f.blocks

def allUsers (l : List AnyInst) : List Nat := l.flatMap AnyInst.users

@[simp] theorem codeUsers_nil : codeUsers [] = [] := rfl

@[simp] theorem codeUsers_cons (i : HInst) (l : List HInst) : codeUsers (i :: l) = opUsers i.op ++ codeUsers l := rfl

@[simp] theorem codeUsers_append (l k : List HInst) : codeUsers (l ++ k) = codeUsers l ++ codeUsers k :=
  List.flatMap_append

@[simp] theorem allUsers_nil : allUsers [] = [] := rfl

@[simp] theorem allUsers_cons (x : AnyInst) (l : List AnyInst) : allUsers (x :: l) = x.users ++ allUsers l := rfl

@[simp] theorem allUsers_append (l k : List AnyInst) : allUsers (l ++ k) = allUsers l ++ allUsers k :=
  List.flatMap_append

@[simp] theorem allUsers_inst (l : List HInst) : allUsers (l.map .inst) = codeUsers l :=
  List.flatMap_map _ _ l

@[simp] theorem valuesUsers_nil : valuesUsers [] = [] := rfl

@[simp] theorem valuesUsers_cons (v : HValue) (vs : List HValue) :
    valuesUsers (v :: vs) = valueUsers v ++ valuesUsers vs := rfl

@[simp] theorem valueUsers_inst (x : HostId) : valueUsers (.inst x) = [] := rfl

theorem constsUsers_eq (cs : List (Const HostSym)) : constsUsers cs = valuesUsers (cs.map Value.const) := by
  induction cs with
  | nil => rfl
  | cons c cs ih =>
      rw [constsUsers, ih]
      rfl

/-- What is known of the copy at an operand: the references that are replaced,
the function that is copied, and whether a reference that is not replaced is
dropped. -/
structure Place where
  replaced : Nat → Bool
  self : Nat
  dropped : Bool

section Left

variable (p : Place)

mutual

def constLeft : Const Nat → List Nat
  | .global g => if p.replaced g || p.dropped then [] else [g]
  | .wrapper (.blockAddress _) g => if g = p.self then [] else [g]
  | .wrapper _ g => [g]
  | .aggregate _ ops => constsLeft ops
  | .expr _ _ _ ops => constsLeft ops
  | _ => []

def constsLeft : List (Const Nat) → List Nat
  | [] => []
  | c :: cs => constLeft c ++ constsLeft cs

end

def mdLeft : MdOperand Nat Nat → List Nat
  | .const c => constLeft p c
  | _ => []

def listedLeft : MdOperand Nat Nat → List Nat
  | .const (.global _) => []
  | v => mdLeft p v

def valueLeft : GValue → List Nat
  | .const c => constLeft p c
  | .metadata (.value v) => mdLeft p v
  | .metadata (.argList vs) => vs.flatMap (listedLeft p)
  | _ => []

def valuesLeft (vs : List GValue) : List Nat := vs.flatMap (valueLeft p)

end Left

section Operand

variable {S : Site}

def placeOf (S : Site) : Place := ⟨fun g => (S.refs g).isSome, S.self.1, S.dbg⟩

theorem mem_codeUsers_insertChain {name : Nat → HostId} {vs : List HValue} {r : Nat} :
    r ∈ codeUsers (insertChain name vs) ↔ r ∈ valuesUsers vs := by
  have hchain : ∀ n i, valueUsers (chainValue name n i) = [] := by
    intro n i
    cases i <;> rfl
  simp only [codeUsers, insertChain, List.mem_flatMap, List.mem_map, valuesUsers]
  constructor
  · rintro ⟨_, ⟨q, hq, rfl⟩, hr⟩
    refine ⟨q.1, List.fst_mem_of_mem_zipIdx hq, ?_⟩
    simpa [opUsers, hchain] using hr
  · rintro ⟨v, hv, hr⟩
    obtain ⟨i, hi⟩ := List.mem_iff_getElem?.mp hv
    refine ⟨_, ⟨(v, i), List.mk_mem_zipIdx_iff_getElem?.mpr hi, rfl⟩, ?_⟩
    simpa [opUsers, hchain] using hr

theorem valueUsers_chainValue (name : Nat → HostId) (n i : Nat) : valueUsers (chainValue name n i) = [] := by
  cases i <;> rfl

mutual

/-- The copy of a constant and the code for it refer to what is left of it. -/
theorem doConst_users (hself : ∀ g, S.self.2 ≠ .user g) {k : Nat} {c : Const Nat} {code : List HInst} {v : Option HValue}
    (h : doConst S k c = .ok (code, v)) (r : Nat) :
    r ∈ codeUsers code ∨ r ∈ valueUsers (v.getD (.const (cloneConst S.self c))) ↔ r ∈ constLeft (placeOf S) c := by
  cases c with
  | global g =>
      simp only [constLeft, placeOf]
      cases OperandRun.doConst_cases h with
      | loaded href => simp [href]
      | dropped _ hdbg => simp [hdbg, valueUsers, constUsers]
      | named href hdbg => simp [href, hdbg, valueUsers, cloneConst, constUsers]
  | wrapper kind g =>
      cases OperandRun.doConst_cases h
      cases kind with
      | blockAddress b =>
          by_cases hg : g = S.self.1
          · have hsym : constUsers (.wrapper (.blockAddress b) S.self.2) = [] := by
              cases hs : S.self.2 with
              | user g => exact absurd hs (hself g)
              | _ => rfl
            simp [valueUsers, cloneConst, constLeft, placeOf, hg, hsym]
          · simp [valueUsers, cloneConst, constUsers, constLeft, placeOf, hg]
      | dsoLocalEquivalent | noCfi => simp [valueUsers, cloneConst, constUsers, constLeft]
  | aggregate kind ops =>
      cases OperandRun.doConst_cases h with
      | inserted hops =>
          simp only [constLeft, ← doConsts_users hself hops r]
          simp [mem_codeUsers_insertChain, valueUsers_chainValue]
      | aggregate hops =>
          simp only [constLeft, ← doConsts_users hself hops r]
          rw [OperandRun.doConsts_old hops]
          simp [valueUsers, cloneConst, constUsers, constsUsers_eq]
  | expr opcode ty is ops =>
      cases OperandRun.doConst_cases h with
      | expanded hops =>
          simp only [constLeft, ← doConsts_users hself hops r]
          simp [opUsers]
      | expr hops =>
          simp only [constLeft, ← doConsts_users hself hops r]
          rw [OperandRun.doConsts_old hops]
          simp [valueUsers, cloneConst, constUsers, constsUsers_eq]
  | int | nullPtr | undef | poison | data =>
      cases h
      simp [valueUsers, cloneConst, constUsers, constLeft]

theorem doConsts_users (hself : ∀ g, S.self.2 ≠ .user g) {k : Nat} {cs : List (Const Nat)} {code : List HInst}
    {vs : List HValue} {new : Bool} (h : doConsts S k cs = .ok (code, vs, new)) (r : Nat) :
    r ∈ codeUsers code ∨ r ∈ valuesUsers vs ↔ r ∈ constsLeft (placeOf S) cs := by
  cases cs with
  | nil =>
      cases h
      simp [constsLeft]
  | cons c cs =>
      simp only [doConsts] at h
      obtain ⟨⟨code₁, v⟩, h₁, h⟩ := bind_eq_ok.mp h
      obtain ⟨⟨code₂, vs₂, new₂⟩, h₂, h⟩ := bind_eq_ok.mp h
      cases h
      rw [constsLeft, List.mem_append, ← doConst_users hself h₁ r, ← doConsts_users hself h₂ r]
      simp only [codeUsers_append, valuesUsers_cons, List.mem_append]
      exact or_or_or_comm

end

variable {args : Nat → HValue}

def Plain (args : Nat → HValue) : Prop := ∀ i, (∃ x, args i = .inst x) ∨ ∃ j, args i = .arg j

theorem Plain.value (h : Plain args) (i : Nat) : valueUsers (args i) = [] := by
  rcases h i with ⟨x, hx⟩ | ⟨j, hj⟩
  · rw [hx]
    rfl
  · rw [hj]
    rfl

theorem Plain.md (h : Plain args) (i : Nat) : mdUsers (asMd (args i)) = [] := by
  rcases h i with ⟨x, hx⟩ | ⟨j, hj⟩
  · rw [hx]
    rfl
  · rw [hj]
    rfl

/-- What a constant is replaced by refers to no symbol itself. -/
theorem doConst_value {k : Nat} {c : Const Nat} {code : List HInst} {v : Option HValue}
    (h : doConst S k c = .ok (code, v)) :
    v = none ∨ (∃ x, v = some (.inst x)) ∨ ∃ d, v = some (.const d) ∧ constUsers d = [] := by
  cases OperandRun.doConst_cases h with
  | loaded | expanded => exact .inr (.inl ⟨_, rfl⟩)
  | dropped => exact .inr (.inr ⟨_, rfl, rfl⟩)
  | inserted hops =>
      obtain ⟨w, ws, rfl⟩ := List.exists_cons_of_ne_nil (OperandRun.doConsts_new hops)
      exact .inr (.inl ⟨_, rfl⟩)
  | named | wrapper | aggregate | expr | int | nullPtr | undef | poison | data => exact .inl rfl

theorem doMdOperand_users (hself : ∀ g, S.self.2 ≠ .user g) (hargs : Plain args) {k : Nat} {v : MdOperand Nat Nat}
    {code : List HInst} {w : HValue} (h : doMdOperand S args k v = .ok (code, w)) (r : Nat) :
    r ∈ codeUsers code ∨ r ∈ mdUsers (asMd w) ↔ r ∈ mdLeft (placeOf S) v := by
  cases v with
  | const c =>
      obtain ⟨⟨code₁, u⟩, h₁, h⟩ := bind_eq_ok.mp h
      cases h
      have husers := doConst_users hself h₁ r
      rcases doConst_value h₁ with rfl | ⟨x, rfl⟩ | ⟨d, rfl, _⟩
      all_goals exact husers
  | arg i =>
      cases h
      simp [hargs.md, mdLeft]
  | inst x =>
      cases h
      simp [mdLeft, asMd, mdUsers]

def listed : HValue → HValue
  | .const (.global _) => .const .poison
  | v => v

theorem listed_cloneConst {self : Nat × HostSym} {c : Const Nat} (hc : ∀ g, c ≠ .global g) :
    listed (.const (cloneConst self c)) = .const (cloneConst self c) := by
  cases c with
  | global g => exact absurd rfl (hc g)
  | wrapper kind g => cases kind <;> rfl
  | _ => rfl

theorem listed_const {d : Const HostSym} (hd : constUsers d = []) : mdUsers (asMd (listed (.const d))) = [] := by
  unfold listed
  split
  next => rfl
  next => exact hd

theorem doMdOperand_listed (hself : ∀ g, S.self.2 ≠ .user g) (hargs : Plain args) {k : Nat} {v : MdOperand Nat Nat}
    {code : List HInst} {w : HValue} (h : doMdOperand S args k v = .ok (code, w)) (r : Nat) :
    r ∈ codeUsers code ∨ r ∈ mdUsers (asMd (listed w)) ↔ r ∈ listedLeft (placeOf S) v := by
  have husers := doMdOperand_users hself hargs h r
  cases v with
  | const c =>
      obtain ⟨⟨code₁, u⟩, h₁, h⟩ := bind_eq_ok.mp h
      cases h
      by_cases hc : ∃ g, c = .global g
      · obtain ⟨g, rfl⟩ := hc
        -- neither a value that replaces it nor the global value itself is left
        have hcode : code = [] := by
          simp only [doConst] at h₁
          split at h₁
          next => cases h₁; rfl
          next =>
            split at h₁
            next => cases h₁; rfl
            next =>
              obtain ⟨_, _, h₁⟩ := bind_eq_ok.mp h₁
              cases h₁
              rfl
        subst hcode
        rcases doConst_value h₁ with rfl | ⟨x, rfl⟩ | ⟨d, rfl, hd⟩
        · simp [listedLeft, listed, cloneConst, asMd, mdUsers, constUsers]
        · simp [listedLeft, listed, asMd, mdUsers]
        · rw [Option.getD_some, listed_const hd]
          simp [listedLeft]
      · have hleft : listedLeft (placeOf S) (.const c) = mdLeft (placeOf S) (.const c) := by
          cases c with
          | global g => exact absurd ⟨g, rfl⟩ hc
          | _ => rfl
        rw [hleft, ← husers]
        rcases doConst_value h₁ with rfl | ⟨x, rfl⟩ | ⟨d, rfl, hd⟩
        · rw [Option.getD_none, listed_cloneConst (fun g hg => hc ⟨g, hg⟩)]
        · rfl
        · rw [Option.getD_some, listed_const hd]
          simp only [asMd, mdUsers, hd]
  | arg i =>
      cases h
      have hlisted : listed (args i) = args i := by
        rcases hargs i with ⟨x, hx⟩ | ⟨j, hj⟩
        · rw [hx]
          rfl
        · rw [hj]
          rfl
      rw [hlisted]
      exact husers
  | inst x =>
      cases h
      exact husers

theorem doArgList_users (hself : ∀ g, S.self.2 ≠ .user g) (hargs : Plain args) {k : Nat}
    {vs : List (MdOperand Nat Nat)} {code : List HInst} {ws : List (MdOperand HostSym HostId)}
    (h : doArgList S args k vs = .ok (code, ws)) (r : Nat) :
    r ∈ codeUsers code ∨ r ∈ ws.flatMap mdUsers ↔ r ∈ vs.flatMap (listedLeft (placeOf S)) := by
  induction vs generalizing k code ws with
  | nil =>
      cases h
      simp
  | cons v vs ih =>
      simp only [doArgList] at h
      obtain ⟨⟨code₁, w⟩, h₁, h⟩ := bind_eq_ok.mp h
      obtain ⟨⟨code₂, ws₂⟩, h₂, h⟩ := bind_eq_ok.mp h
      cases h
      change r ∈ codeUsers (code₁ ++ code₂) ∨ r ∈ (asMd (listed w) :: ws₂).flatMap mdUsers ↔ _
      rw [List.flatMap_cons, List.flatMap_cons, codeUsers_append, List.mem_append, List.mem_append, List.mem_append,
        ← doMdOperand_listed hself hargs h₁ r, ← ih h₂]
      exact or_or_or_comm

theorem doOperand_users (hself : ∀ g, S.self.2 ≠ .user g) (hargs : Plain args) {k : Nat} {v : GValue}
    {code : List HInst} {w : HValue} (h : doOperand S args k v = .ok (code, w)) (r : Nat) :
    r ∈ codeUsers code ∨ r ∈ valueUsers w ↔ r ∈ valueLeft (placeOf S) v := by
  cases v with
  | const c =>
      obtain ⟨⟨code₁, u⟩, h₁, h⟩ := bind_eq_ok.mp h
      cases h
      exact doConst_users hself h₁ r
  | arg i =>
      cases h
      simp [hargs.value, valueLeft]
  | inst x =>
      cases h
      simp [valueLeft]
  | metadata md =>
      obtain ⟨⟨code₁, md'⟩, h₁, h⟩ := bind_eq_ok.mp h
      cases h
      cases md with
      | value v =>
          obtain ⟨⟨code₂, w⟩, h₂, h₁⟩ := bind_eq_ok.mp h₁
          cases h₁
          exact doMdOperand_users hself hargs h₂ r
      | argList vs =>
          obtain ⟨⟨code₂, ws⟩, h₂, h₁⟩ := bind_eq_ok.mp h₁
          cases h₁
          exact doArgList_users hself hargs h₂ r
      | node n =>
          cases h₁
          simp [valueLeft, valueUsers]
  | inlineAsm n =>
      cases h
      simp [valueLeft, valueUsers]

theorem doOperands_users (hself : ∀ g, S.self.2 ≠ .user g) (hargs : Plain args) {k : Nat} {vs : List GValue}
    {code : List HInst} {ws : List HValue} (h : doOperands S args k vs = .ok (code, ws)) (r : Nat) :
    r ∈ codeUsers code ∨ r ∈ valuesUsers ws ↔ r ∈ valuesLeft (placeOf S) vs := by
  induction vs generalizing k code ws with
  | nil =>
      cases h
      simp [valuesLeft]
  | cons v vs ih =>
      simp only [doOperands] at h
      obtain ⟨⟨code₁, w⟩, h₁, h⟩ := bind_eq_ok.mp h
      obtain ⟨⟨code₂, ws₂⟩, h₂, h⟩ := bind_eq_ok.mp h
      cases h
      have hvs : r ∈ valuesLeft (placeOf S) (v :: vs) ↔
          r ∈ valueLeft (placeOf S) v ∨ r ∈ valuesLeft (placeOf S) vs := by
        rw [valuesLeft, List.flatMap_cons, List.mem_append]
        rfl
      rw [hvs, ← doOperand_users hself hargs h₁ r, ← ih h₂]
      simp only [codeUsers_append, valuesUsers_cons, List.mem_append]
      exact or_or_or_comm

end Operand

end Comulator.GuestSymbols
