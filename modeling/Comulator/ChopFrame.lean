import Comulator.ChopOff
import Comulator.IrConsts
import Comulator.SymtblJson

namespace Comulator.ChopFrame

open Types Ir TypeHash Symtbl HostIr ChopOff SymtblJson

inductive Linkage
  | externalLinkage | availableExternallyLinkage | linkOnceAnyLinkage | linkOnceOdrLinkage | weakAnyLinkage
  | weakOdrLinkage | appendingLinkage | internalLinkage | privateLinkage | externalWeakLinkage | commonLinkage
  deriving DecidableEq

inductive Visibility
  | defaultVisibility | hiddenVisibility | protectedVisibility
  deriving DecidableEq

/-- A function with what the rest of the model leaves out, and the block that
`chop_gfuncs` gives it. -/
structure FunctionState where
  name : String
  linkage : Linkage
  visibility : Visibility
  func : GFunction
  generated : Option (Block GuestSym Nat Unit)

structure VariableState where
  name : String
  linkage : Linkage
  visibility : Visibility
  initializer : Option (Const Nat)

inductive SymbolState
  | function (f : FunctionState)
  | globalVar (v : VariableState)
  | globalAlias (name : String) (aliasee : Const Nat)
  | globalIfunc (name : String) (resolver : Const Nat)

def SymbolState.name : SymbolState → String
  | .function f => f.name
  | .globalVar v => v.name
  | .globalAlias name _ | .globalIfunc name _ => name

def SymbolState.consts : SymbolState → List (Const Nat)
  | .function f => f.func.consts
  | .globalVar v => v.initializer.toList
  | .globalAlias _ c | .globalIfunc _ c => [c]

def SymbolState.mapConst (φ : Const Nat → Const Nat) : SymbolState → SymbolState
  | .function f => .function { f with func := f.func.mapConst φ }
  | .globalVar v => .globalVar { v with initializer := v.initializer.map φ }
  | .globalAlias name c => .globalAlias name (φ c)
  | .globalIfunc name c => .globalIfunc name (φ c)

inductive Added
  | declaration
  | debugFmt (text : String)
  | qlibUid (uid : Nat)
  | cbStub (stub : Stub)
  | cbstubtbl (l : List (Option HashCode))
  | extreftbl (l : List (Option Nat))
  | gfunctbl (l : List (Option Nat))
  | tor (callee : String)
  | torList (element : Const Nat)

def Added.isFunction : Added → Bool
  | .declaration | .cbStub _ | .tor _ => true
  | _ => false

/-- The module during the pass: the symbols it had, by their positions, and those
that have been added behind them. -/
structure ModuleState where
  symbols : List SymbolState
  added : List (String × Added)

/-- How a symbol is named whose name is taken. -/
structure Naming where
  fresh : List String → String → String
  unused : ∀ taken s, fresh taken s ∉ taken
  kept : ∀ taken s, s ∉ taken → fresh taken s = s

namespace ModuleState

variable (N : Naming) (s : ModuleState)

def names : List String := s.symbols.map SymbolState.name ++ s.added.map Prod.fst

def add (name : String) (a : Added) : ModuleState := { s with added := s.added ++ [(N.fresh s.names name, a)] }

def getFunction (name : String) : Bool :=
  s.symbols.any (fun x => match x with | .function f => f.name = name | _ => false) ||
    s.added.any (fun a => a.1 = name && a.2.isFunction)

def demand (name : String) : Option Unit := if s.getFunction name then some () else none

end ModuleState

section Constants

/-- What the destructor of a block puts in place of its address. -/
def noBlock : Const Nat := .expr .intToPtr ptrTy [] [.int 32 1]

mutual

def forgetConst (g : Nat) : Const Nat → Const Nat
  | .wrapper (.blockAddress b) k => if k = g then noBlock else .wrapper (.blockAddress b) k
  | .aggregate kind ops => .aggregate kind (forgetConsts g ops)
  | .expr opcode ty is ops => .expr opcode ty is (forgetConsts g ops)
  | c => c

def forgetConsts (g : Nat) : List (Const Nat) → List (Const Nat)
  | [] => []
  | c :: cs => forgetConst g c :: forgetConsts g cs

end

mutual

def addressed : Const Nat → List Nat
  | .wrapper (.blockAddress _) k => [k]
  | .aggregate _ ops => addresseds ops
  | .expr _ _ _ ops => addresseds ops
  | _ => []

def addresseds : List (Const Nat) → List Nat
  | [] => []
  | c :: cs => addressed c ++ addresseds cs

end

end Constants

section Pass

variable (N : Naming) (config : Config) (bw : BwList) (symtbl : Symtbl)

def template : List String :=
  ["__gyh_debug__", "__gyh_ctor__", "__gyh_dtor__", "__gyh_call__", "__gyh_callback_return__", "__gyh_ctor_grt__",
    "__gyh_call_grt__", "__gyh_ctor_fcp_cm__"]

def injectModule (s : ModuleState) : ModuleState := template.foldl (fun s name => s.add N name .declaration) s

def genDebugFmt (text : String) (s : ModuleState) : ModuleState := s.add N "__gyh_debug_fmt__" (.debugFmt text)

def genDebug (s : ModuleState) : Option ModuleState := do
  s.demand "__gyh_debug__"
  let s := genDebugFmt N (if config.useGRT then "__g_yh_call_grt__(%p, %d, %p, %p)\n"
    else "__g_yh_call__(%p, %d, %p, %p, %p, %p)\n") s
  return genDebugFmt N "__g_yh_callback_%016llX(%p, %p, %p)\n" s

def genUid (s : ModuleState) : ModuleState :=
  s.add N ("__gyh_qlib_uid_" ++ utohexstr symtbl.uid 8) (.qlibUid symtbl.uid)

def addCbStubs (s : ModuleState) : ModuleState :=
  (genCbStubs config symtbl).foldl (fun s e => s.add N ("__gyh_callback_" ++ hash2str e.1) (.cbStub e.2)) s

def genGrt (s : ModuleState) : ModuleState :=
  (s.add N "__gyh_cbstubtbl__" (.cbstubtbl (genCbstubtbl symtbl))).add N "__gyh_extreftbl__" (.extreftbl (genExtreftbl symtbl))

def demandCalls (s : ModuleState) : Option Unit := do
  s.demand "__gyh_call__"
  s.demand "__gyh_callback_return__"
  if config.useGRT then s.demand "__gyh_call_grt__" else some ()

/-- The part of `ChopOff::operator()` before `calc_benefits`. -/
def prepare (s : ModuleState) : Option ModuleState := do
  let s ← genDebug N config (injectModule N s)
  let s := genUid N symtbl s
  demandCalls config s
  let s := addCbStubs N config symtbl s
  return if config.useGRT then genGrt N symtbl s else s

def withPrefixData (g : Nat) (info : FuncInfo) : SymbolState → SymbolState
  | .function f => .function { f with func := { f.func with prefixData := prefixData config bw g f.func info } }
  | x => x

/-- What `calc_benefits` does to the functions on its way. -/
def setPrefixes (s : ModuleState) : ModuleState :=
  { s with symbols := symtbl.functbl.entries.foldl (fun l e => l.modify e.1 (withPrefixData config bw e.1 e.2)) s.symbols }

def intrinsicAt (symbols : List SymbolState) (g : Nat) : Option IntrinsicId :=
  match symbols[g]? with
  | some (.function f) => f.func.intrinsicId
  | _ => none

def isSelected (symbols : List SymbolState) (g : Nat) : Bool :=
  match symbols[g]? with
  | some (.function f) => (symtbl.functbl.find? g).isSome && isBenefit config bw (intrinsicAt symbols) g f.func
  | _ => false

def benefits (s : ModuleState) : List (Nat × FuncInfo) :=
  symtbl.functbl.entries.filter (fun e => isSelected config bw symtbl s.symbols e.1)

/-- `llvm::Function::deleteBody` takes the personality, prologue and prefix data
with it. -/
def dropBody : SymbolState → SymbolState
  | .function f =>
      .function { f with
        linkage := .externalLinkage, func := { f.func with blocks := [], operands := [], prefixData := none } }
  | x => x

def deleteBody (g : Nat) (symbols : List SymbolState) : List SymbolState :=
  (symbols.map (SymbolState.mapConst (forgetConst g))).modify g dropBody

def withStub (saved : Option (Const Nat)) (block : Option (Block GuestSym Nat Unit)) : SymbolState → SymbolState
  | .function f => .function { f with func := { f.func with prefixData := saved }, generated := block }
  | x => x

def chop (symbols : List SymbolState) (e : Nat × FuncInfo) : Option (List SymbolState) :=
  match symbols[e.1]? with
  | some (.function f) => do
      let stub ← chopGfunc config bw symtbl e.1 f.func e.2
      -- a saved constant with the address of a block of this function goes with the block
      return (deleteBody e.1 symbols).modify e.1
        (withStub (f.func.prefixData.map (forgetConst e.1)) (stub.blocks.head?.map Prod.snd))
  | _ => none

def torElement (pos : Nat) : Const Nat := .aggregate .struct [.int 32 0, .global pos, .nullPtr]

def appendElement (c : Const Nat) : Option (Const Nat) → Option (Const Nat)
  | some (.aggregate kind ops) => some (.aggregate kind (ops ++ [c]))
  | _ => some (.aggregate .array [c])

def isTorList (list : String) : SymbolState → Bool
  | .globalVar v => v.name = list
  | _ => false

def withElement (c : Const Nat) : SymbolState → SymbolState
  | .globalVar v => .globalVar { v with initializer := appendElement c v.initializer }
  | x => x

def appendToGlobal (list : String) (pos : Nat) (s : ModuleState) : ModuleState :=
  match s.symbols.findIdx? (isTorList list) with
  | some i => { s with symbols := s.symbols.modify i (withElement (torElement pos)) }
  | none => s.add N list (.torList (torElement pos))

def genTor (list name callee text : String) (table : Option Added) (s : ModuleState) : Option ModuleState := do
  let pos := s.symbols.length + s.added.length
  let s := s.add N (name ++ utohexstr symtbl.uid 8) (.tor callee)
  s.demand callee
  let s := match table with
    | some tbl => s.add N "__gyh_gfunctbl__" tbl
    | none => s
  let s := if config.debug then genDebugFmt N text s else s
  return appendToGlobal N list pos s

def genCtor : ModuleState → Option ModuleState :=
  if !config.useGRT then
    genTor N config symtbl "llvm.global_ctors" "__gyh_ctor_" "__gyh_ctor__" "__g_yh_ctor__(%p)\n" none
  else if !config.useFCPcm then
    genTor N config symtbl "llvm.global_ctors" "__gyh_ctor_" "__gyh_ctor_grt__" "__g_yh_ctor_grt__(%p, %p, %p)\n" none
  else
    genTor N config symtbl "llvm.global_ctors" "__gyh_ctor_" "__gyh_ctor_fcp_cm__"
      "__g_yh_ctor_fcp_cm__(%p, %p, %p, %p, %d)\n" (some (.gfunctbl (genGfunctbl symtbl)))

def genDtor : ModuleState → Option ModuleState :=
  genTor N config symtbl "llvm.global_dtors" "__gyh_dtor_" "__gyh_dtor__" "__g_yh_dtor__(%p)\n" none

def chopModule (symbols : List SymbolState) : Option ModuleState := do
  let s ← prepare N config symtbl ⟨symbols, []⟩
  let s := setPrefixes config bw symtbl s
  let symbols ← (benefits config bw symtbl s).foldlM (chop config bw symtbl) s.symbols
  let s ← genCtor N config symtbl { s with symbols }
  genDtor N config symtbl s

end Pass

section Constants

mutual

theorem forgetConst_eq_self {g : Nat} {c : Const Nat} (h : g ∉ addressed c) : forgetConst g c = c := by
  cases c with
  | aggregate kind ops => rw [forgetConst, forgetConsts_eq_self h]
  | expr opcode ty is ops => rw [forgetConst, forgetConsts_eq_self h]
  | wrapper kind k =>
      cases kind with
      | blockAddress b =>
          have hne : k ≠ g := fun heq => h (List.mem_singleton.mpr heq.symm)
          rw [forgetConst, if_neg hne]
      | dsoLocalEquivalent | noCfi => rfl
  | int | nullPtr | undef | poison | data | global => rfl

theorem forgetConsts_eq_self {g : Nat} {cs : List (Const Nat)} (h : g ∉ addresseds cs) : forgetConsts g cs = cs := by
  cases cs with
  | nil => rfl
  | cons c cs =>
      rw [addresseds, List.mem_append, not_or] at h
      rw [forgetConsts, forgetConst_eq_self h.1, forgetConsts_eq_self h.2]

end

mutual

theorem addressed_forgetConst (g : Nat) (c : Const Nat) : addressed (forgetConst g c) = (addressed c).filter (· ≠ g) := by
  cases c with
  | aggregate kind ops => exact addresseds_forgetConsts g ops
  | expr opcode ty is ops => exact addresseds_forgetConsts g ops
  | wrapper kind k =>
      cases kind with
      | blockAddress b =>
          rw [forgetConst]
          split
          next heq => simp [addressed, addresseds, noBlock, heq]
          next hne => simp [addressed, hne]
      | dsoLocalEquivalent | noCfi => rfl
  | int | nullPtr | undef | poison | data | global => rfl

theorem addresseds_forgetConsts (g : Nat) (cs : List (Const Nat)) :
    addresseds (forgetConsts g cs) = (addresseds cs).filter (· ≠ g) := by
  cases cs with
  | nil => rfl
  | cons c cs =>
      rw [forgetConsts, addresseds, addresseds, List.filter_append, addressed_forgetConst, addresseds_forgetConsts]

end

def forgetAll (gs : List Nat) (c : Const Nat) : Const Nat := gs.foldl (fun c g => forgetConst g c) c

theorem addressed_forgetAll {gs : List Nat} {g : Nat} (hg : g ∈ gs) (c : Const Nat) : g ∉ addressed (forgetAll gs c) := by
  have hsub : ∀ (gs : List Nat) (c : Const Nat), addressed (forgetAll gs c) ⊆ addressed c := by
    intro gs
    induction gs with
    | nil => exact fun c => List.Subset.refl _
    | cons k gs ih =>
        intro c
        refine List.Subset.trans (ih (forgetConst k c)) ?_
        rw [addressed_forgetConst]
        exact List.filter_subset_self _
  obtain ⟨l, l', rfl⟩ := List.append_of_mem hg
  intro hmem
  rw [forgetAll, List.foldl_append, List.foldl_cons] at hmem
  have hlast := hsub l' _ hmem
  rw [addressed_forgetConst, List.mem_filter] at hlast
  simp at hlast

theorem forgetAll_eq_self_iff {gs : List Nat} {c : Const Nat} : forgetAll gs c = c ↔ ∀ g ∈ gs, g ∉ addressed c := by
  constructor
  · intro h g hg hmem
    rw [← h] at hmem
    exact addressed_forgetAll hg c hmem
  · intro h
    induction gs with
    | nil => rfl
    | cons g gs ih =>
        rw [forgetAll, List.foldl_cons, forgetConst_eq_self (h g List.mem_cons_self)]
        exact ih (fun k hk => h k (List.mem_cons_of_mem _ hk))

theorem map_forgetAll_eq_self_iff {gs : List Nat} {o : Option (Const Nat)} :
    o.map (forgetAll gs) = o ↔ ∀ c ∈ o.toList, ∀ g ∈ gs, g ∉ addressed c := by
  cases o with
  | none => simp
  | some c => simp [forgetAll_eq_self_iff]

end Constants

section Symbols

variable {φ : Const Nat → Const Nat} {x : SymbolState}

theorem SymbolState.consts_mapConst (φ : Const Nat → Const Nat) (x : SymbolState) :
    (x.mapConst φ).consts = x.consts.map φ := by
  cases x with
  | function f => exact f.func.consts_mapConst φ
  | globalVar v => cases v with | mk name linkage visibility init => cases init <;> rfl
  | globalAlias | globalIfunc => rfl

theorem SymbolState.mapConst_eq_self (h : ∀ c ∈ x.consts, φ c = c) : x.mapConst φ = x := by
  cases x with
  | function f => rw [mapConst, Function.mapConst_eq_self h]
  | globalVar v =>
      cases v with
      | mk name linkage visibility init =>
          cases init with
          | none => rfl
          | some c =>
              have hc : φ c = c := h c (List.mem_singleton_self c)
              simp only [mapConst, Option.map_some, hc]
  | globalAlias name c => rw [mapConst, h c (List.mem_singleton_self c)]
  | globalIfunc name c => rw [mapConst, h c (List.mem_singleton_self c)]

def forgotten (gs : List Nat) (x : SymbolState) : SymbolState :=
  gs.foldl (fun x g => x.mapConst (forgetConst g)) x

theorem consts_forgotten (gs : List Nat) (x : SymbolState) : (forgotten gs x).consts = x.consts.map (forgetAll gs) := by
  induction gs generalizing x with
  | nil => exact (List.map_id _).symm
  | cons g gs ih =>
      change (forgotten gs (x.mapConst (forgetConst g))).consts = _
      rw [ih, SymbolState.consts_mapConst, List.map_map]
      rfl

theorem forgotten_eq_self_iff {gs : List Nat} : forgotten gs x = x ↔ ∀ c ∈ x.consts, ∀ g ∈ gs, g ∉ addressed c := by
  constructor
  · intro h c hc
    have hconsts := congrArg SymbolState.consts h
    rw [consts_forgotten] at hconsts
    exact forgetAll_eq_self_iff.mp (List.map_inj_left.mp (hconsts.trans (List.map_id _).symm) c hc)
  · intro h
    induction gs with
    | nil => rfl
    | cons g gs ih =>
        rw [forgotten, List.foldl_cons,
          SymbolState.mapConst_eq_self (fun c hc => forgetConst_eq_self (h c hc g List.mem_cons_self))]
        exact ih (fun c hc k hk => h c hc k (List.mem_cons_of_mem _ hk))

structure SameHeader (f f' : FunctionState) : Prop where
  name : f'.name = f.name
  type : f'.func.type = f.func.type
  visibility : f'.visibility = f.visibility
  callingConv : f'.func.callingConv = f.func.callingConv
  attributes : f'.func.attributes = f.func.attributes

theorem forgotten_function (gs : List Nat) (f : FunctionState) : ∃ f', forgotten gs (.function f) = .function f' ∧
    SameHeader f f' ∧ f'.linkage = f.linkage ∧ f'.func.prefixData = f.func.prefixData.map (forgetAll gs) ∧
      f'.generated = f.generated ∧ (f.func.blocks = [] → f'.func.blocks = []) := by
  induction gs generalizing f with
  | nil =>
      refine ⟨f, rfl, ⟨rfl, rfl, rfl, rfl, rfl⟩, rfl, ?_, rfl, id⟩
      cases f.func.prefixData <;> rfl
  | cons g gs ih =>
      obtain ⟨f', hf', hsame, hlinkage, hdata, hgenerated, hblocks⟩ :=
        ih { f with func := f.func.mapConst (forgetConst g) }
      refine ⟨f', hf', ⟨hsame.name, hsame.type, hsame.visibility, hsame.callingConv, hsame.attributes⟩, hlinkage, ?_,
        hgenerated, ?_⟩
      · rw [hdata, Function.mapConst, Option.map_map]
        rfl
      · intro hnil
        exact hblocks (by simp [Function.mapConst, hnil])

theorem isTorList_forgotten (list : String) (gs : List Nat) (x : SymbolState) :
    isTorList list (forgotten gs x) = isTorList list x := by
  induction gs generalizing x with
  | nil => rfl
  | cons g gs ih =>
      refine (ih (x.mapConst (forgetConst g))).trans ?_
      cases x <;> rfl

end Symbols

section Chop

variable {config : Config} {bw : BwList} {symtbl : Symtbl} {symbols symbols' : List SymbolState}

theorem chop_of_ne {e : Nat × FuncInfo} (h : chop config bw symtbl symbols e = some symbols') {i : Nat} (hi : i ≠ e.1) :
    symbols'[i]? = symbols[i]?.map (SymbolState.mapConst (forgetConst e.1)) := by
  unfold chop at h
  split at h
  next f _ =>
    obtain ⟨stub, _, h⟩ := Option.bind_eq_some_iff.mp h
    cases h
    simp only [deleteBody, List.getElem?_modify, List.getElem?_map, if_neg hi.symm]
    cases symbols[i]? <;> rfl
  next => cases h

theorem chopGfunc_block {g : Nat} {f : GFunction} {info : FuncInfo} {stub : Stub}
    (h : chopGfunc config bw symtbl g f info = some stub) : (stub.blocks.head?.map Prod.snd).isSome = true := by
  simp only [chopGfunc, Option.ite_none_right_eq_some, Option.some.injEq] at h
  rw [← h.2]
  rfl

theorem chop_self {e : Nat × FuncInfo} (h : chop config bw symtbl symbols e = some symbols') {f : FunctionState}
    (hf : symbols[e.1]? = some (.function f)) : ∃ f', symbols'[e.1]? = some (.function f') ∧ SameHeader f f' ∧
      f'.linkage = .externalLinkage ∧ f'.func.prefixData = f.func.prefixData.map (forgetConst e.1) ∧
        f'.func.blocks = [] ∧ f'.generated.isSome = true := by
  unfold chop at h
  rw [hf] at h
  obtain ⟨stub, hstub, h⟩ := Option.bind_eq_some_iff.mp h
  cases h
  simp only [deleteBody, List.getElem?_modify, List.getElem?_map, hf]
  refine ⟨_, rfl, ⟨rfl, rfl, rfl, rfl, rfl⟩, rfl, rfl, rfl, chopGfunc_block hstub⟩

theorem foldlM_chop_of_not_mem {es : List (Nat × FuncInfo)} (h : es.foldlM (chop config bw symtbl) symbols = some symbols')
    {i : Nat} (hi : i ∉ es.map Prod.fst) : symbols'[i]? = symbols[i]?.map (forgotten (es.map Prod.fst)) := by
  induction es generalizing symbols with
  | nil =>
      cases h
      cases symbols'[i]? <;> rfl
  | cons e es ih =>
      rw [List.foldlM_cons] at h
      obtain ⟨middle, hmiddle, h⟩ := Option.bind_eq_some_iff.mp h
      rw [List.map_cons, List.mem_cons, not_or] at hi
      rw [ih h hi.2, chop_of_ne hmiddle hi.1, Option.map_map]
      rfl

theorem foldlM_chop_of_mem {es : List (Nat × FuncInfo)} (h : es.foldlM (chop config bw symtbl) symbols = some symbols')
    (hnodup : (es.map Prod.fst).Nodup) {g : Nat} (hg : g ∈ es.map Prod.fst) {f : FunctionState}
    (hf : symbols[g]? = some (.function f)) : ∃ f', symbols'[g]? = some (.function f') ∧ SameHeader f f' ∧
      f'.linkage = .externalLinkage ∧ f'.func.prefixData = f.func.prefixData.map (forgetAll (es.map Prod.fst)) ∧
        f'.func.blocks = [] ∧ f'.generated.isSome = true := by
  obtain ⟨e, he, rfl⟩ := List.mem_map.mp hg
  obtain ⟨es₁, es₂, rfl⟩ := List.append_of_mem he
  rw [List.map_append, List.map_cons] at hnodup
  have hbefore : e.1 ∉ es₁.map Prod.fst := fun hmem => (List.nodup_append.mp hnodup).2.2 _ hmem _ List.mem_cons_self rfl
  have hafter : e.1 ∉ es₂.map Prod.fst := (List.nodup_cons.mp (List.nodup_append.mp hnodup).2.1).1
  rw [List.foldlM_append] at h
  obtain ⟨symbols₁, h₁, h⟩ := Option.bind_eq_some_iff.mp h
  rw [List.foldlM_cons] at h
  obtain ⟨symbols₂, h₂, h₃⟩ := Option.bind_eq_some_iff.mp h
  -- the function before its turn, after it and at the end
  have hget₁ := foldlM_chop_of_not_mem h₁ hbefore
  obtain ⟨f₁, hf₁, hsame₁, _, hdata₁, _⟩ := forgotten_function (es₁.map Prod.fst) f
  rw [hf, Option.map_some, hf₁] at hget₁
  obtain ⟨f₂, hf₂, hsame₂, hlinkage₂, hdata₂, hblocks₂, hgenerated₂⟩ := chop_self h₂ hget₁
  have hget₃ := foldlM_chop_of_not_mem h₃ hafter
  obtain ⟨f₃, hf₃, hsame₃, hlinkage₃, hdata₃, hgenerated₃, hblocks₃⟩ := forgotten_function (es₂.map Prod.fst) f₂
  rw [hf₂, Option.map_some, hf₃] at hget₃
  refine ⟨f₃, hget₃, ⟨?_, ?_, ?_, ?_, ?_⟩, hlinkage₃.trans hlinkage₂, ?_, hblocks₃ hblocks₂, hgenerated₃ ▸ hgenerated₂⟩
  · rw [hsame₃.name, hsame₂.name, hsame₁.name]
  · rw [hsame₃.type, hsame₂.type, hsame₁.type]
  · rw [hsame₃.visibility, hsame₂.visibility, hsame₁.visibility]
  · rw [hsame₃.callingConv, hsame₂.callingConv, hsame₁.callingConv]
  · rw [hsame₃.attributes, hsame₂.attributes, hsame₁.attributes]
  · rw [hdata₃, hdata₂, hdata₁, Option.map_map, Option.map_map, List.map_append, List.map_cons]
    congr 1
    funext c
    simp only [Function.comp_apply, forgetAll, List.foldl_append, List.foldl_cons]

end Chop

section Run

variable {N : Naming} {config : Config} {bw : BwList} {symtbl : Symtbl}

@[simp] theorem add_symbols (s : ModuleState) (name : String) (a : Added) : (s.add N name a).symbols = s.symbols := rfl

@[simp] theorem genDebugFmt_symbols (text : String) (s : ModuleState) : (genDebugFmt N text s).symbols = s.symbols := rfl

theorem foldl_symbols {α : Type} {f : ModuleState → α → ModuleState} (hf : ∀ s a, (f s a).symbols = s.symbols) (l : List α)
    (s : ModuleState) : (l.foldl f s).symbols = s.symbols := by
  induction l generalizing s with
  | nil => rfl
  | cons e l ih => rw [List.foldl_cons, ih, hf]

theorem genTor_get {list name callee text : String} {table : Option Added} {s s' : ModuleState}
    (h : genTor N config symtbl list name callee text table s = some s') {i : Nat} {x : SymbolState}
    (hx : s.symbols[i]? = some x) (hlist : isTorList list x = false) : s'.symbols[i]? = some x := by
  obtain ⟨_, _, h⟩ := Option.bind_eq_some_iff.mp h
  cases h
  have hsymbols : ∀ s₁ : ModuleState, s₁.symbols = s.symbols → ∀ pos,
      (appendToGlobal N list pos s₁).symbols[i]? = some x := by
    intro s₁ hs₁ pos
    unfold appendToGlobal
    split
    next j hj =>
      obtain ⟨hlt, hp, _⟩ := List.findIdx?_eq_some_iff_getElem.mp hj
      have hne : j ≠ i := by
        rintro rfl
        obtain ⟨_, hget⟩ := List.getElem?_eq_some_iff.mp (hs₁ ▸ hx)
        rw [hget, hlist] at hp
        cases hp
      simp only [List.getElem?_modify, if_neg hne, hs₁, hx]
      rfl
    next => rw [add_symbols, hs₁, hx]
  refine hsymbols _ ?_ _
  cases table <;> cases config.debug <;> rfl

theorem setPrefixes_symbols (hcm : config.useFCPcm = false) (s : ModuleState) :
    (setPrefixes config bw symtbl s).symbols = s.symbols := by
  have hsame : ∀ (l : List SymbolState) (e : Nat × FuncInfo), l.modify e.1 (withPrefixData config bw e.1 e.2) = l := by
    intro l e
    have hid : withPrefixData config bw e.1 e.2 = id := by
      funext x
      cases x with
      | function f => simp [withPrefixData, prefixData, hcm]
      | globalVar | globalAlias | globalIfunc => rfl
    rw [hid, List.modify_id]
  unfold setPrefixes
  dsimp only
  induction symtbl.functbl.entries with
  | nil => rfl
  | cons e es ih => rw [List.foldl_cons, hsame, ih]

theorem addCbStubs_symbols (s : ModuleState) : (addCbStubs N config symtbl s).symbols = s.symbols := by
  apply foldl_symbols
  intro s e
  exact add_symbols _ _ _

theorem injectModule_symbols (s : ModuleState) : (injectModule N s).symbols = s.symbols := by
  apply foldl_symbols
  intro s name
  exact add_symbols _ _ _

theorem prepare_symbols {s s' : ModuleState} (h : prepare N config symtbl s = some s') : s'.symbols = s.symbols := by
  obtain ⟨s₁, hdebug, h⟩ := Option.bind_eq_some_iff.mp h
  obtain ⟨_, _, hdebug⟩ := Option.bind_eq_some_iff.mp hdebug
  obtain ⟨_, _, h⟩ := Option.bind_eq_some_iff.mp h
  cases hdebug
  cases h
  split
  next => simp only [genGrt, addCbStubs_symbols, genUid, add_symbols, genDebugFmt_symbols, injectModule_symbols]
  next => simp only [addCbStubs_symbols, genUid, add_symbols, genDebugFmt_symbols, injectModule_symbols]

theorem genCtor_get {s s' : ModuleState} (h : genCtor N config symtbl s = some s') {i : Nat} {x : SymbolState}
    (hx : s.symbols[i]? = some x) (hlist : isTorList "llvm.global_ctors" x = false) : s'.symbols[i]? = some x := by
  unfold genCtor at h
  split at h
  next => exact genTor_get h hx hlist
  next =>
    split at h
    next => exact genTor_get h hx hlist
    next => exact genTor_get h hx hlist

/-- The pass chops the functions it has selected, and otherwise works on the
lists of constructors and destructors only. -/
theorem chopModule_eq_some (hcm : config.useFCPcm = false) {symbols : List SymbolState} {s : ModuleState}
    (h : chopModule N config bw symtbl symbols = some s) : ∃ chopped : List SymbolState,
      (benefits config bw symtbl ⟨symbols, []⟩).foldlM (chop config bw symtbl) symbols = some chopped ∧
        ∀ (i : Nat) (x : SymbolState), chopped[i]? = some x → isTorList "llvm.global_ctors" x = false →
          isTorList "llvm.global_dtors" x = false → s.symbols[i]? = some x := by
  obtain ⟨s₁, hprepare, h⟩ := Option.bind_eq_some_iff.mp h
  obtain ⟨chopped, hchopped, h⟩ := Option.bind_eq_some_iff.mp h
  obtain ⟨s₂, hctor, hdtor⟩ := Option.bind_eq_some_iff.mp h
  refine ⟨chopped, ?_, ?_⟩
  · unfold benefits at hchopped
    rw [setPrefixes_symbols hcm, prepare_symbols hprepare] at hchopped
    exact hchopped
  · intro i x hx hctors hdtors
    exact genTor_get hdtor (genCtor_get hctor hx hctors) hdtors

theorem mem_benefits {symbols : List SymbolState} {added : List (String × Added)} {g : Nat} :
    g ∈ (benefits config bw symtbl ⟨symbols, added⟩).map Prod.fst ↔ isSelected config bw symtbl symbols g = true := by
  unfold benefits
  constructor
  · intro h
    obtain ⟨e, he, rfl⟩ := List.mem_map.mp h
    exact (List.mem_filter.mp he).2
  · intro h
    have hfind : (symtbl.functbl.find? g).isSome = true := by
      unfold isSelected at h
      split at h
      next => exact (Bool.and_eq_true_iff.mp h).1
      next => cases h
    obtain ⟨info, hinfo⟩ := Option.isSome_iff_exists.mp hfind
    exact List.mem_map.mpr ⟨(g, info), List.mem_filter.mpr ⟨OrderedMap.mem_entries.mpr hinfo, h⟩, rfl⟩

theorem benefits_nodup (s : ModuleState) : ((benefits config bw symtbl s).map Prod.fst).Nodup :=
  List.Nodup.sublist (List.Sublist.map Prod.fst List.filter_sublist) symtbl.functbl.nodup

end Run

section Frame

structure KeepsProperties (f f' : FunctionState) : Prop extends SameHeader f f' where
  linkage : f'.linkage = f.linkage
  prefixData : f'.func.prefixData = f.func.prefixData

/-- The module `symbols` after only the bodies of the `selected` functions have been
replaced. -/
structure Framed (selected : Nat → Bool) (symbols : List SymbolState) (s : ModuleState) : Prop where
  others : ∀ (g : Nat) (f : FunctionState), symbols[g]? = some (.function f) → selected g = false →
    s.symbols[g]? = some (.function f)
  chopped : ∀ (g : Nat) (f : FunctionState), symbols[g]? = some (.function f) → selected g = true →
    ∃ f', s.symbols[g]? = some (.function f') ∧ KeepsProperties f f' ∧ f'.func.blocks = [] ∧ f'.generated.isSome = true
  globals : ∀ (i : Nat) (v : VariableState), symbols[i]? = some (.globalVar v) → v.name ≠ "llvm.global_ctors" →
    v.name ≠ "llvm.global_dtors" → s.symbols[i]? = some (.globalVar v)

def keptConsts (selected : Nat → Bool) (i : Nat) : SymbolState → List (Const Nat)
  | .function f => if selected i then f.func.prefixData.toList else f.func.consts
  | .globalVar v =>
      if v.name = "llvm.global_ctors" ∨ v.name = "llvm.global_dtors" then [] else v.initializer.toList
  | .globalAlias _ _ | .globalIfunc _ _ => []

section Kept

variable {selected : Nat → Bool} {i : Nat}

theorem keptConsts_others (h : selected i = false) (f : FunctionState) :
    keptConsts selected i (.function f) = f.func.consts :=
  if_neg (Bool.eq_false_iff.mp h)

theorem keptConsts_chopped (h : selected i = true) (f : FunctionState) :
    keptConsts selected i (.function f) = f.func.prefixData.toList :=
  if_pos h

theorem keptConsts_globalVar {v : VariableState} (hctors : v.name ≠ "llvm.global_ctors")
    (hdtors : v.name ≠ "llvm.global_dtors") : keptConsts selected i (.globalVar v) = v.initializer.toList :=
  if_neg (not_or.mpr ⟨hctors, hdtors⟩)

theorem keptConsts_tors {v : VariableState} (h : v.name = "llvm.global_ctors" ∨ v.name = "llvm.global_dtors") :
    keptConsts selected i (.globalVar v) = [] :=
  if_pos h

end Kept

section Final

variable {N : Naming} {config : Config} {bw : BwList} {symtbl : Symtbl} {symbols : List SymbolState} {s : ModuleState}

theorem isSelected_globalVar {i : Nat} {v : VariableState} (hv : symbols[i]? = some (.globalVar v)) :
    isSelected config bw symtbl symbols i = false := by
  unfold isSelected
  rw [hv]

/-- The addresses that are lost are those of blocks of selected functions. -/
theorem lost_iff {c : Const Nat} : (∀ g ∈ (benefits config bw symtbl ⟨symbols, []⟩).map Prod.fst, g ∉ addressed c) ↔
    ∀ g ∈ addressed c, isSelected config bw symtbl symbols g = false := by
  constructor
  · intro hc g hg
    rw [Bool.eq_false_iff]
    exact fun hsel => hc g (mem_benefits.mpr hsel) hg
  · intro hc g hg hmem
    exact Bool.eq_false_iff.mp (hc g hmem) (mem_benefits.mp hg)

theorem unchanged_iff (hcm : config.useFCPcm = false) (h : chopModule N config bw symtbl symbols = some s) {i : Nat}
    {x : SymbolState} (hx : symbols[i]? = some x) (hsel : isSelected config bw symtbl symbols i = false)
    (hctors : isTorList "llvm.global_ctors" x = false) (hdtors : isTorList "llvm.global_dtors" x = false) :
    s.symbols[i]? = some x ↔ ∀ c ∈ x.consts, ∀ g ∈ addressed c, isSelected config bw symtbl symbols g = false := by
  obtain ⟨chopped, hchopped, hrest⟩ := chopModule_eq_some hcm h
  have hget := foldlM_chop_of_not_mem hchopped (fun hmem => Bool.eq_false_iff.mp hsel (mem_benefits.mp hmem))
  rw [hx, Option.map_some] at hget
  rw [hrest i _ hget ((isTorList_forgotten _ _ _).trans hctors) ((isTorList_forgotten _ _ _).trans hdtors),
    Option.some.injEq, forgotten_eq_self_iff]
  exact forall₂_congr (fun c _ => lost_iff)

theorem chopped_function (hcm : config.useFCPcm = false) (h : chopModule N config bw symtbl symbols = some s) {g : Nat}
    {f : FunctionState} (hf : symbols[g]? = some (.function f)) (hsel : isSelected config bw symtbl symbols g = true) :
    ∃ f', s.symbols[g]? = some (.function f') ∧ SameHeader f f' ∧ f'.linkage = .externalLinkage ∧
      (f'.func.prefixData = f.func.prefixData ↔
        ∀ c ∈ f.func.prefixData.toList, ∀ k ∈ addressed c, isSelected config bw symtbl symbols k = false) ∧
      f'.func.blocks = [] ∧ f'.generated.isSome = true := by
  obtain ⟨chopped, hchopped, hrest⟩ := chopModule_eq_some hcm h
  obtain ⟨f', hf', hsame, hlinkage, hdata, hblocks, hgenerated⟩ :=
    foldlM_chop_of_mem hchopped (benefits_nodup _) (mem_benefits.mpr hsel) hf
  refine ⟨f', hrest g _ hf' rfl rfl, hsame, hlinkage, ?_, hblocks, hgenerated⟩
  rw [hdata, map_forgetAll_eq_self_iff]
  exact forall₂_congr (fun c _ => lost_iff)

end Final

/-- Chopping frames a module exactly when each chopped function has external linkage
already and no block of one has its address in what is to stay. -/
theorem framed_iff (N : Naming) (config : Config) (bw : BwList) (symtbl : Symtbl) (symbols : List SymbolState)
    (hcm : config.useFCPcm = false) {s : ModuleState} (h : chopModule N config bw symtbl symbols = some s) :
    Framed (isSelected config bw symtbl symbols) symbols s ↔
      (∀ g f, symbols[g]? = some (.function f) → isSelected config bw symtbl symbols g = true →
        f.linkage = .externalLinkage) ∧
      ∀ i x, symbols[i]? = some x → ∀ c ∈ keptConsts (isSelected config bw symtbl symbols) i x, ∀ g ∈ addressed c,
        isSelected config bw symtbl symbols g = false := by
  constructor
  · intro hframed
    refine ⟨?_, ?_⟩
    · intro g f hf hsel
      obtain ⟨f', hf', hkeeps, _⟩ := hframed.chopped g f hf hsel
      obtain ⟨f'', hf'', _, hlinkage, _⟩ := chopped_function hcm h hf hsel
      cases hf'.symm.trans hf''
      exact hkeeps.linkage.symm.trans hlinkage
    · intro i x hx c hc
      cases x with
      | function f =>
          cases hsel : isSelected config bw symtbl symbols i with
          | true =>
              rw [keptConsts_chopped hsel] at hc
              obtain ⟨f', hf', hkeeps, _⟩ := hframed.chopped i f hx hsel
              obtain ⟨f'', hf'', _, _, hdata, _⟩ := chopped_function hcm h hx hsel
              cases hf'.symm.trans hf''
              exact hdata.mp hkeeps.prefixData c hc
          | false =>
              rw [keptConsts_others hsel] at hc
              exact (unchanged_iff hcm h hx hsel rfl rfl).mp (hframed.others i f hx hsel) c hc
      | globalVar v =>
          by_cases htors : v.name = "llvm.global_ctors" ∨ v.name = "llvm.global_dtors"
          · rw [keptConsts_tors htors] at hc
            cases hc
          · obtain ⟨hctors, hdtors⟩ := not_or.mp htors
            rw [keptConsts_globalVar hctors hdtors] at hc
            exact (unchanged_iff hcm h hx (isSelected_globalVar hx) (decide_eq_false hctors) (decide_eq_false hdtors)).mp
              (hframed.globals i v hx hctors hdtors) c hc
      | globalAlias | globalIfunc => cases hc
  · rintro ⟨hlinkages, hkept⟩
    refine ⟨?_, ?_, ?_⟩
    · intro g f hf hsel
      refine (unchanged_iff hcm h hf hsel rfl rfl).mpr (fun c hc => hkept g _ hf c ?_)
      rw [keptConsts_others hsel]
      exact hc
    · intro g f hf hsel
      obtain ⟨f', hf', hsame, hlinkage, hdata, hblocks, hgenerated⟩ := chopped_function hcm h hf hsel
      refine ⟨f', hf', ⟨hsame, hlinkage.trans (hlinkages g f hf hsel).symm, hdata.mpr (fun c hc => ?_)⟩, hblocks, hgenerated⟩
      refine hkept g _ hf c ?_
      rw [keptConsts_chopped hsel]
      exact hc
    · intro i v hv hctors hdtors
      refine (unchanged_iff hcm h hv (isSelected_globalVar hv) (decide_eq_false hctors) (decide_eq_false hdtors)).mpr
        (fun c hc => hkept i _ hv c ?_)
      rw [keptConsts_globalVar hctors hdtors]
      exact hc

def padding (taken : List String) : List Char := List.replicate ((taken.map String.toList).flatten.length + 1) '.'

theorem padding_unused (taken : List String) (s : String) : s ++ String.ofList (padding taken) ∉ taken := by
  intro hmem
  have hchars : (s ++ String.ofList (padding taken)).toList ∈ taken.map String.toList := List.mem_map_of_mem hmem
  have hle := (List.sublist_flatten_of_mem hchars).length_le
  rw [String.toList_append, String.toList_ofList, List.length_append, padding, List.length_replicate] at hle
  omega

def padded : Naming where
  fresh taken s := if s ∈ taken then s ++ String.ofList (padding taken) else s
  unused taken s := by
    split
    next => exact padding_unused taken s
    next h => exact h
  kept _ _ h := if_neg h

def emptySymtbl : Symtbl :=
  Analyze.analyze HostTable.sumHash HostTable.plainLayout HostTable.emptyModule (HostTable.takeOutList none) 7

def linkedEmpty (linkage : Linkage) : List SymbolState :=
  [.function ⟨"f", linkage, .defaultVisibility, HostTable.emptyFunction, none⟩]

theorem external_framed : ∃ s,
    chopModule padded HostTable.chopAll (HostTable.takeOutList none) emptySymtbl (linkedEmpty .externalLinkage) = some s ∧
      isSelected HostTable.chopAll (HostTable.takeOutList none) emptySymtbl (linkedEmpty .externalLinkage) 0 = true ∧
        Framed (isSelected HostTable.chopAll (HostTable.takeOutList none) emptySymtbl (linkedEmpty .externalLinkage))
          (linkedEmpty .externalLinkage) s := by
  refine ⟨_, rfl, rfl, ?_⟩
  refine (framed_iff padded HostTable.chopAll (HostTable.takeOutList none) emptySymtbl (linkedEmpty .externalLinkage) rfl
    rfl).mpr ⟨?_, ?_⟩
  · intro g f hf _
    obtain ⟨hlt, hget⟩ := List.getElem?_eq_some_iff.mp hf
    cases Nat.lt_one_iff.mp hlt
    cases hget
    rfl
  · intro i x hx c hc
    obtain ⟨hlt, hget⟩ := List.getElem?_eq_some_iff.mp hx
    cases Nat.lt_one_iff.mp hlt
    cases hget
    cases hc

theorem internal_not_framed : ∃ s,
    chopModule padded HostTable.chopAll (HostTable.takeOutList none) emptySymtbl (linkedEmpty .internalLinkage) = some s ∧
      ¬ Framed (isSelected HostTable.chopAll (HostTable.takeOutList none) emptySymtbl (linkedEmpty .internalLinkage))
        (linkedEmpty .internalLinkage) s := by
  refine ⟨_, rfl, ?_⟩
  intro hframed
  obtain ⟨f', hf', hkeeps, _⟩ := hframed.chopped 0 _ rfl rfl
  cases hf'
  cases hkeeps.linkage

end Frame

end Comulator.ChopFrame
