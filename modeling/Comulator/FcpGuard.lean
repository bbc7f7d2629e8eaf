import Comulator.CalleeList
import Comulator.FcpPrefix

namespace Comulator.FcpGuard

open Fallible QlibTable Types Ir TypeHash Symtbl Analyze AnalyzeSpec SymtblSpec HostIr TakeOut Lookups CalleeList
  ChopOff FcpPrefix

structure Library where
  hash : HashOps
  layout : Layout
  module : Module
  config : Config
  bw : BwList
  linkUid : UInt32
  useGRT : config.useGRT = true
  useFCPcm : config.useFCPcm = true
  guest : GuestModule
  chopped : chopOff module config bw (analyze hash layout module bw linkUid.toNat) = some guest
  host : HostModule
  takenOut : takeOut (analyzed hash layout module config bw linkUid.toNat) = .ok host
  functbl : List HEntry
  functbl_eq : host.functbl = some functbl
  place : Place
  size : UInt32
  size_eq : size.toNat = guest.gfunctbl.length
  fits : place.Fits size.toNat
  extreftbl : Nat
  cbstubtbl : Nat

theorem genFunctbl_hasFcpFunc {P : Input} {tbl : List HEntry} (h : genFunctbl P = .ok tbl) :
    ∀ e ∈ P.symtbl.functbl.entries, P.blackList e.1 = false → P.hasFcpFunc e.1 = true := by
  unfold genFunctbl at h
  generalize List.replicate P.symtbl.functbl.size HEntry.unset = s at h
  generalize P.symtbl.functbl.entries = l at h ⊢
  induction l generalizing s with
  | nil => exact fun e he => absurd he List.not_mem_nil
  | cons d l ih =>
      rw [List.foldlM_cons] at h
      obtain ⟨u, hu, h⟩ := bind_eq_ok.mp h
      intro e he hblack
      rcases List.mem_cons.mp he with rfl | he
      · rw [hblack, if_neg Bool.false_ne_true] at hu
        by_contra hno
        rw [if_neg hno] at hu
        cases hu
      · exact ih u h e he hblack

theorem genFcp_copy {P : Input} {g : Nat} {f : GFunction} {info : FuncInfo} {gen : Generated}
    (h : genFcp P g f info = .ok gen) : gen.copy ≠ none := by
  unfold genFcp at h
  split at h
  next =>
    obtain ⟨_, _, h⟩ := bind_eq_ok.mp h
    obtain ⟨_, _, h⟩ := bind_eq_ok.mp h
    obtain ⟨_, _, h⟩ := bind_eq_ok.mp h
    cases h
    exact Option.some_ne_none _
  next => cases h

namespace Library

variable (A : Library)

def symtbl : Symtbl := analyze A.hash A.layout A.module A.bw A.linkUid.toNat

def Cell (x : Nat) : Prop := A.place.Cell A.size.toNat x

def data : Nat → Option (Const GuestSym) := prefixOf A.module A.config A.bw A.symtbl A.guest

def Written (g : Nat) : Prop :=
  ∃ f, A.module.function? g = some f ∧ f.prefixData = none ∧ (A.bw.funcs g).bind FuncBw.chopOff ≠ some false

variable {A} {g : Nat} {info : FuncInfo}

theorem uids : OrderedMap.Numbered FuncInfo.uid A.symtbl.functbl :=
  (analyze_wellFormed A.hash A.layout A.module A.bw A.linkUid.toNat).functionUids

theorem gfunctbl_eq : A.guest.gfunctbl = genGfunctbl A.symtbl := by
  have h := chopOff_gfunctbl A.chopped
  rw [A.useGRT, A.useFCPcm] at h
  exact h

theorem gfunctbl_get (h : A.symtbl.functbl.find? g = some info) : A.guest.gfunctbl[info.uid]? = some (some g) := by
  rw [gfunctbl_eq]
  exact tableOf_get uids (OrderedMap.mem_entries.mpr h)

theorem size_symtbl : A.size.toNat = A.symtbl.functbl.size := by
  rw [A.size_eq, gfunctbl_eq]
  exact (tableOf_covers uids).length

theorem uid_lt (h : A.symtbl.functbl.find? g = some info) : info.uid < A.size.toNat := by
  rw [size_symtbl]
  exact uids.lt h

theorem genFunctbl_ok : genFunctbl (analyzed A.hash A.layout A.module A.config A.bw A.linkUid.toNat) = .ok A.functbl :=
  takeOut_functbl A.takenOut A.functbl_eq

theorem functbl_length : A.functbl.length = A.size.toNat := by
  rw [size_symtbl]
  exact (genFunctbl_covers genFunctbl_ok uids).length

theorem functbl_get (h : A.symtbl.functbl.find? g = some info) :
    A.functbl[info.uid]? =
      some (if (A.bw.funcs g).bind FuncBw.takeOut = some false then .null else .func (.fcpFunc g)) := by
  have hget := genFunctbl_get genFunctbl_ok uids h
  by_cases hb : (A.bw.funcs g).bind FuncBw.takeOut = some false
  · have hblack : (analyzed A.hash A.layout A.module A.config A.bw A.linkUid.toNat).blackList g = true :=
      decide_eq_true hb
    rw [if_pos hb, hget, fcpEntry, if_pos hblack]
  · rw [if_neg hb, hget, fcpEntry, blackList_eq_false.mpr hb]
    rfl

/-- A function that is taken out has a copy. -/
theorem copy_ne_none (h : A.symtbl.functbl.find? g = some info)
    (htaken : (A.bw.funcs g).bind FuncBw.takeOut ≠ some false) : A.host.functions.lookup (.fcpFunc g) ≠ none := by
  have hfcp := genFunctbl_hasFcpFunc genFunctbl_ok (g, info) (OrderedMap.mem_entries.mpr h)
    (blackList_eq_false.mpr htaken)
  have huse : A.config.useFCP = true := (hasFcpFunc_iff.mp hfcp).1
  obtain ⟨f, scan, k, he⟩ :=
    (analyze_wellFormed A.hash A.layout A.module A.bw A.linkUid.toNat).entries g info h
  obtain ⟨gen, hgen, _, hcopy⟩ := takenOut_functions A.takenOut h he.function htaken
  have hfast : genFcp (analyzed A.hash A.layout A.module A.config A.bw A.linkUid.toNat) g f info = .ok gen := by
    rw [← hgen, doHstubcvt]
    simp only [analyzed, A.useGRT, huse, if_true]
  rw [hcopy]
  exact genFcp_copy hfast

theorem data_eq (h : A.symtbl.functbl.find? g = some info) (hw : A.Written g) :
    A.data g = some (.aggregate .array [.int 64 kFCPcmMagic, .int 64 info.uid]) := by
  obtain ⟨f, hf, hdata, hchop⟩ := hw
  have heq : A.data g = _ := prefixOf_eq A.chopped hf h
  rw [heq, prefixData, A.useFCPcm, hdata, if_pos ⟨rfl, hchop, rfl⟩]
  rfl

end Library

inductive Status
  | fresh
  | live
  | closed
  deriving DecidableEq

structure HostLib (Lib : Type) where
  lib : Lib
  handle : Nat
  symbols : HostSym → Nat

structure World (Lib : Type) where
  table : State Lib
  status : Lib → Status
  loaded : List (HostLib Lib)

def entryAddr (symbols : HostSym → Nat) : HEntry → Nat
  | .func s => symbols s
  | _ => 0

def guard (memory : Nat → Nat) (a : Nat) : Prop := memory (a - 16) = kFCPcmMagic ^^^ memory (a - 8)

section Check

open Exec ExecRules

def wordSem : Sem Nat (Nat → Nat) where
  op opcode _ _ vs w := match opcode, vs with
    | .getElementPtr, [.scalar a, .int 64 k] => some (.scalar ((a + 8 * k) % 2 ^ 64), w)
    | .load, [.scalar a] => some (.int 64 (w a), w)
    | .xor, [.int 64 a, .int 64 b] => some (.int 64 (a ^^^ b), w)
    | .icmp, [.int 64 a, .int 64 b] => some (.int 1 (if a = b then 1 else 0), w)
    | _, _ => none
  expr _ _ _ _ := .undef
  intrinsic _ _ _ _ := none
  truth
    | .int 1 n => some (n = 1)
    | _ => none
  isCase _ _ := false

variable {C : Ctx HostSym Nat (Nat → Nat)} {vs : List (Val Nat)} {env env' : Env HostId Nat}
  {x : Machine Nat (Nat → Nat)}

theorem execInsts_step {id : HostId} {op : HOp} {l : List HInst} {v : Val Nat} {Q : Env HostId Nat → Prop}
    (hop : execOp wordSem C vs env op x = .ok v x) (hvoid : isVoidCall op = false)
    (hrest : ∃ env', execInsts wordSem C vs (Function.update env id (some v)) l x = .ok env' x ∧ Q env') :
    ∃ env', execInsts wordSem C vs env (⟨id, op⟩ :: l) x = .ok env' x ∧ Q env' := by
  have hinst : execInst wordSem C vs env ⟨id, op⟩ x = .ok (Function.update env id (some v)) x := by
    rw [execInst]
    simp only [hvoid]
    change EStateM.bind (execOp wordSem C vs env op) _ x = _
    rw [EStateM.bind, hop]
    rfl
  obtain ⟨env', hrun, hq⟩ := hrest
  refine ⟨env', ?_, hq⟩
  rw [execInsts_cons]
  change EStateM.bind (execInst wordSem C vs env ⟨id, op⟩) _ x = _
  rw [EStateM.bind, hinst]
  exact hrun

theorem elementPtr_word {ptr : HValue} {a b : Nat} {k : Int}
    (h : evalValue wordSem C.toSymbols vs env ptr = some (.scalar a)) (hb : (a + 8 * (k % 2 ^ 64).toNat) % 2 ^ 64 = b) :
    execOp wordSem C vs env (.elementPtr ptr k) x = .ok (.scalar b) x := by
  subst hb
  simp only [execOp, h]
  rfl

theorem load_word {ptr : HValue} {a : Nat} (h : evalValue wordSem C.toSymbols vs env ptr = some (.scalar a)) :
    execOp wordSem C vs env (.load (.integer 64) ptr) x = .ok (.int 64 (x.world a)) x := by
  simp only [execOp, h]
  rfl

theorem xorMagic_word {v : HValue} {a magic : Nat} (h : evalValue wordSem C.toSymbols vs env v = some (.int 64 a)) :
    execOp wordSem C vs env (.xorMagic magic v) x = .ok (.int 64 (magic ^^^ a)) x := by
  simp only [execOp, h]
  rfl

theorem icmpEq_word {v w : HValue} {a b : Nat} (hv : evalValue wordSem C.toSymbols vs env v = some (.int 64 a))
    (hw : evalValue wordSem C.toSymbols vs env w = some (.int 64 b)) :
    execOp wordSem C vs env (.icmpEq v w) x = .ok (.int 1 (if a = b then 1 else 0)) x := by
  simp only [execOp, hv, hw]
  rfl

/-- The code that `do_fcp_cm` puts before the two ways decides the guard. -/
theorem check_run {P : Input} {X : Copy} {n k : Nat} {c : GCall} {callee : HValue} {args : List (Ty × HValue)}
    {s : Split} (h : doFcpCm P X n k c callee args = .ok s) {a : Nat} (hroom : 16 ≤ a) (hword : a < 2 ^ 64)
    (hcallee : evalValue wordSem C.toSymbols vs env callee = some (.scalar a))
    (hstable : Stable wordSem C.toSymbols vs (fun i => (⟨some n, k + i⟩ : HostId)) env callee) :
    ∃ env', execInsts wordSem C vs env s.check x = .ok env' x ∧
      ∃ v, evalValue wordSem C.toSymbols vs env' s.cond = some v ∧ (wordSem.truth v = some true ↔ guard x.world a) := by
  obtain ⟨right, _, h⟩ := bind_eq_ok.mp h
  cases h
  have h2 : (a + 8 * ((-2 : Int) % 2 ^ 64).toNat) % 2 ^ 64 = a - 16 := by
    have hk : ((-2 : Int) % 2 ^ 64).toNat = 2 ^ 64 - 2 := by decide
    omega
  have h1 : (a + 8 * ((-1 : Int) % 2 ^ 64).toNat) % 2 ^ 64 = a - 8 := by
    have hk : ((-1 : Int) % 2 ^ 64).toNat = 2 ^ 64 - 1 := by decide
    omega
  have hlater : ∀ (e : Env HostId Nat), Off (fun i => (⟨some n, k + i⟩ : HostId)) env e →
      evalValue wordSem C.toSymbols vs e callee = some (.scalar a) := fun e he => (hstable e he).trans hcallee
  refine execInsts_step (elementPtr_word hcallee h2) rfl ?_
  refine execInsts_step (load_word (Function.update_self ..)) rfl ?_
  refine execInsts_step (elementPtr_word (hlater _ ((Off.update 0 _).trans (Off.update 1 _))) h1) rfl ?_
  refine execInsts_step (load_word (Function.update_self ..)) rfl ?_
  refine execInsts_step (xorMagic_word (Function.update_self ..)) rfl ?_
  refine execInsts_step (icmpEq_word (a := x.world (a - 16)) (b := kFCPcmMagic ^^^ x.world (a - 8)) ?_ ?_) rfl ?_
  · simp [evalValue]
  · simp [evalValue, kFCPcmMagic]
  · refine ⟨_, rfl, _, Function.update_self .., ?_⟩
    by_cases hg : x.world (a - 16) = kFCPcmMagic ^^^ x.world (a - 8) <;> simp [wordSem, guard, hg]

end Check

section System

variable {Lib : Type} [DecidableEq Lib] (configDir : String) (pageSize : Nat) (lay : PrefixLayout) (libs : Lib → Library)

def GuestCell (x : Nat) : Prop := ∃ lib, (libs lib).Cell x

/-- A library is constructed while it is not live and destructed while it is;
in between the program runs and leaves the prefixes and their table alone. -/
inductive Step : World Lib → World Lib → Prop
  | ctor (x : World Lib) (t : State Lib) (lib : Lib) (ld : Loader) (cbFunc : Nat)
      (I : HostImage configDir ld (x.table.qlibUid lib)) (symbols : HostSym → Nat)
      (hstatus : x.status lib ≠ .live) (hhandle : ∀ h ∈ x.loaded, h.handle ≠ I.handle)
      (hapart : I.Apart (GuestCell libs) (libs lib).size.toNat) (hsymbols : ∀ s, symbols s ≠ 0)
      (hfunctbl : ∀ i e, (libs lib).functbl[i]? = some e → x.table.memory (I.functbl + 8 * i) = entryAddr symbols e)
      (hserve : serve configDir ld pageSize (.ctor (.fcpCm (libs lib).extreftbl (libs lib).cbstubtbl
        (libs lib).place.gfunctbl (libs lib).size) lib cbFunc) x.table = .ok t) :
      Step x ⟨t, Function.update x.status lib .live, ⟨lib, I.handle, symbols⟩ :: x.loaded⟩
  | dtor (x : World Lib) (t : State Lib) (lib : Lib) (ld : Loader) (qlib : Qlib) (handle : Nat)
      (hstatus : x.status lib = .live) (hslot : slot? x.table.qlibs (x.table.qlibUid lib) = some qlib)
      (hhandle : qlib.handle = some handle) (hserve : serve configDir ld pageSize (.dtor lib) x.table = .ok t) :
      Step x ⟨t, Function.update x.status lib .closed, x.loaded.filter (fun h => h.handle ≠ handle)⟩
  | program (x : World Lib) (memory : Nat → Nat) (hmemory : ∀ a, GuestCell libs a → memory a = x.table.memory a) :
      Step x ⟨{ x.table with memory }, x.status, x.loaded⟩

def init (memory : Nat → Nat) : World Lib :=
  ⟨State.init (fun lib => (libs lib).linkUid) memory, fun _ => .fresh, []⟩

structure Start (memory : Nat → Nat) : Prop where
  loaded : ∀ lib, Loaded lay (libs lib).data (libs lib).guest.gfunctbl (libs lib).place memory
  apart : ∀ lib lib', lib ≠ lib' → ∀ x, (libs lib).Cell x → ¬ (libs lib').Cell x

def Reached (x : World Lib) : Prop :=
  ∃ memory, Start lay libs memory ∧ Relation.ReflTransGen (Step configDir pageSize libs) (init libs memory) x

/-- If the check passes for the function `g` with the number `uid`, the word
before it is the address of the host copy in a library that is open. -/
def GuardSound (x : World Lib) (lib : Lib) (g uid : Nat) : Prop :=
  let a := (libs lib).place.addr uid
  guard x.table.memory a → ∃ h ∈ x.loaded, h.lib = lib ∧ (libs lib).host.functions.lookup (.fcpFunc g) ≠ none ∧
    x.table.memory (a - 8) = h.symbols (.fcpFunc g) ∧ x.table.memory (a - 8) ≠ 0

end System

structure Words (lay : PrefixLayout) (A : Library) (status : Status) (memory : Nat → Nat) : Prop where
  table : ∀ i < A.size.toNat, memory (A.place.gfunctbl + 8 * i) = A.place.addr i
  fresh : status = .fresh → ∀ i g c, A.guest.gfunctbl[i]? = some (some g) → A.data g = some c →
    (memory (A.place.addr i - 16), memory (A.place.addr i - 8)) = lay.words c
  patched : status ≠ .fresh → ∀ i < A.size.toNat, guard memory (A.place.addr i)

def Holds (A : Library) (symbols : HostSym → Nat) (memory : Nat → Nat) : Prop :=
  ∀ i e, A.functbl[i]? = some e → memory (A.place.addr i - 8) = entryAddr symbols e

section Words

variable {lay : PrefixLayout} {A : Library} {status : Status} {memory memory' : Nat → Nat}

theorem prefix_cell {i x : Nat} (hi : i < A.size.toNat) (h : InPrefix (A.place.addr i) x) : A.Cell x :=
  .inl ⟨i, hi, h⟩

theorem Words.congr (h : Words lay A status memory) (hcells : ∀ x, A.Cell x → memory' x = memory x) :
    Words lay A status memory' := by
  have hwords : ∀ i < A.size.toNat, memory' (A.place.addr i - 16) = memory (A.place.addr i - 16) ∧
      memory' (A.place.addr i - 8) = memory (A.place.addr i - 8) :=
    fun i hi => ⟨hcells _ (prefix_cell hi (.inl rfl)), hcells _ (prefix_cell hi (.inr rfl))⟩
  refine ⟨?_, ?_, ?_⟩
  · intro i hi
    rw [hcells _ (.inr ⟨i, hi, rfl⟩), h.table i hi]
  · intro hs i g c hg hc
    have hi : i < A.size.toNat := by
      rw [A.size_eq]
      exact (List.getElem?_eq_some_iff.mp hg).1
    obtain ⟨h16, h8⟩ := hwords i hi
    rw [h16, h8]
    exact h.fresh hs i g c hg hc
  · intro hs i hi
    obtain ⟨h16, h8⟩ := hwords i hi
    unfold guard
    rw [h16, h8]
    exact h.patched hs i hi

theorem Holds.congr {symbols : HostSym → Nat} (h : Holds A symbols memory)
    (hcells : ∀ x, A.Cell x → memory' x = memory x) : Holds A symbols memory' := by
  intro i e he
  have hi : i < A.size.toNat := by
    rw [← Library.functbl_length]
    exact (List.getElem?_eq_some_iff.mp he).1
  rw [hcells _ (prefix_cell hi (.inr rfl))]
  exact h i e he

theorem Words.closed (h : Words lay A .live memory) : Words lay A .closed memory :=
  ⟨h.table, fun hs => Status.noConfusion hs, fun _ => h.patched (by decide)⟩

variable {configDir : String} {ld : Loader} {uid : UInt32} {I : HostImage configDir ld uid}

theorem Words.rewritten (h : Words lay A status memory) (hapart : I.Apart A.Cell A.size.toNat)
    (hr : Rewritten I A.place A.size.toNat memory memory') : Words lay A .live memory' := by
  refine ⟨?_, fun hs => Status.noConfusion hs, ?_⟩
  · intro i hi
    have hcell : A.Cell (A.place.gfunctbl + 8 * i) := .inr ⟨i, hi, rfl⟩
    rw [hr.others _ (fun j hj => A.fits.table j hj i hi) (fun he => hapart.extreftbl (he ▸ hcell))
      (fun hc => hapart.cbstubtbl (hc ▸ hcell))]
    exact h.table i hi
  · intro _ i hi
    unfold guard
    rw [hr.magic i hi, hr.hfunc i hi]

theorem holds_of_rewritten {symbols : HostSym → Nat} (hr : Rewritten I A.place A.size.toNat memory memory')
    (hfunctbl : ∀ i e, A.functbl[i]? = some e → memory (I.functbl + 8 * i) = entryAddr symbols e) :
    Holds A symbols memory' := by
  intro i e he
  have hi : i < A.size.toNat := by
    rw [← Library.functbl_length]
    exact (List.getElem?_eq_some_iff.mp he).1
  rw [hr.hfunc i hi]
  exact hfunctbl i e he

theorem HostImage.Apart.mono {n : Nat} {cell cell' : Nat → Prop} (h : I.Apart cell n) (hc : ∀ x, cell' x → cell x) :
    I.Apart cell' n := by
  refine ⟨fun hx => h.extreftbl (hc _ hx), fun hx => h.cbstubtbl (hc _ hx), ?_⟩
  intro j hj
  obtain ⟨hcell, hne⟩ := h.functbl j hj
  exact ⟨fun hx => hcell (hc _ hx), hne⟩

end Words

section Run

variable {Lib : Type} [DecidableEq Lib] {configDir : String} {pageSize : Nat} {lay : PrefixLayout}
  {libs : Lib → Library} {x y : World Lib}

structure Inv (lay : PrefixLayout) (libs : Lib → Library) (x : World Lib) : Prop where
  words : ∀ lib, Words lay (libs lib) (x.status lib) x.table.memory
  live : ∀ lib, x.status lib = .live ↔ ∃ h ∈ x.loaded, h.lib = lib
  symbols : ∀ h ∈ x.loaded, ∀ s, h.symbols s ≠ 0
  holds : ∀ h ∈ x.loaded, Holds (libs h.lib) h.symbols x.table.memory
  placed : ∀ h ∈ x.loaded, ∃ qlib, slot? x.table.qlibs (x.table.qlibUid h.lib) = some qlib ∧
    qlib.handle = some h.handle
  handles : ∀ h ∈ x.loaded, ∀ h' ∈ x.loaded, h.handle = h'.handle → h.lib = h'.lib

omit [DecidableEq Lib] in
theorem init_inv {memory : Nat → Nat} (h : Start lay libs memory) : Inv lay libs (init libs memory) := by
  refine ⟨?_, ?_, ?_, ?_, ?_, ?_⟩
  · intro lib
    have hl := h.loaded lib
    have hsize := (libs lib).size_eq
    refine ⟨?_, fun _ => hl.words, fun hs => absurd rfl hs⟩
    intro i hi
    exact hl.table i (hsize ▸ hi)
  · intro lib
    refine iff_of_false (fun hs => Status.noConfusion hs) ?_
    rintro ⟨h, hh, _⟩
    exact absurd hh List.not_mem_nil
  · exact fun h hh => absurd hh List.not_mem_nil
  · exact fun h hh => absurd hh List.not_mem_nil
  · exact fun h hh => absurd hh List.not_mem_nil
  · exact fun h hh => absurd hh List.not_mem_nil

omit [DecidableEq Lib] in
/-- A constructor leaves the words of the other libraries alone. -/
theorem rewritten_other {memory memory' : Nat → Nat} {ld : Loader} {uid : UInt32} {I : HostImage configDir ld uid}
    {lib lib' : Lib} (hne : lib ≠ lib') (hcells : ∀ a b, a ≠ b → ∀ x, (libs a).Cell x → ¬ (libs b).Cell x)
    (hapart : I.Apart (GuestCell libs) (libs lib).size.toNat)
    (hr : Rewritten I (libs lib).place (libs lib).size.toNat memory memory') :
    ∀ a, (libs lib').Cell a → memory' a = memory a := by
  intro a ha
  apply hr.others
  · intro i hi hin
    exact hcells lib lib' hne a (prefix_cell hi hin) ha
  · rintro rfl
    exact hapart.extreftbl ⟨lib', ha⟩
  · rintro rfl
    exact hapart.cbstubtbl ⟨lib', ha⟩

theorem ctor_inv (hx : Inv lay libs x) (hcells : ∀ a b, a ≠ b → ∀ x, (libs a).Cell x → ¬ (libs b).Cell x)
    {t : State Lib} {lib : Lib} {ld : Loader} {cbFunc : Nat} (I : HostImage configDir ld (x.table.qlibUid lib))
    {symbols : HostSym → Nat} (hstatus : x.status lib ≠ .live) (hhandle : ∀ h ∈ x.loaded, h.handle ≠ I.handle)
    (hapart : I.Apart (GuestCell libs) (libs lib).size.toNat) (hsymbols : ∀ s, symbols s ≠ 0)
    (hfunctbl : ∀ i e, (libs lib).functbl[i]? = some e → x.table.memory (I.functbl + 8 * i) = entryAddr symbols e)
    (hserve : serve configDir ld pageSize (.ctor (.fcpCm (libs lib).extreftbl (libs lib).cbstubtbl
      (libs lib).place.gfunctbl (libs lib).size) lib cbFunc) x.table = .ok t) :
    Inv lay libs ⟨t, Function.update x.status lib .live, ⟨lib, I.handle, symbols⟩ :: x.loaded⟩ := by
  obtain ⟨⟨t', idx⟩, hctor, ht⟩ := map_eq_ok.mp hserve
  obtain rfl : t' = t := ht
  have hown : I.Apart (libs lib).Cell (libs lib).size.toNat := HostImage.Apart.mono hapart (fun a ha => ⟨lib, ha⟩)
  have hr := doCtorFcpCm_rewritten I (libs lib).fits hown (hx.words lib).table hctor
  obtain ⟨image, hreg⟩ := doCtorOf_registers hctor
  -- the library was not live, so none of the open ones is its own
  have hother : ∀ h ∈ x.loaded, lib ≠ h.lib := by
    rintro h hh rfl
    exact hstatus ((hx.live h.lib).mpr ⟨h, hh, rfl⟩)
  refine ⟨?_, ?_, ?_, ?_, ?_, ?_⟩
  · intro lib'
    by_cases hl : lib = lib'
    · subst hl
      simp only [Function.update_self]
      exact (hx.words lib).rewritten hown hr
    · simp only [Function.update_of_ne (Ne.symm hl)]
      exact (hx.words lib').congr (rewritten_other hl hcells hapart hr)
  · intro lib'
    by_cases hl : lib = lib'
    · subst hl
      simp
    · simp only [Function.update_of_ne (Ne.symm hl), hx.live lib', List.exists_mem_cons_iff, hl, false_or]
  · intro h hh
    rcases List.mem_cons.mp hh with rfl | hh
    · exact hsymbols
    · exact hx.symbols h hh
  · intro h hh
    rcases List.mem_cons.mp hh with rfl | hh
    · exact holds_of_rewritten hr hfunctbl
    · exact (hx.holds h hh).congr (rewritten_other (hother h hh) hcells hapart hr)
  · intro h hh
    rcases List.mem_cons.mp hh with rfl | hh
    · refine ⟨t'.qlibs idx, ?_, (registers_image I hreg).1⟩
      simp only [hreg.qlibUid, Function.update_self, slot?_ofNat]
    · obtain ⟨qlib, hq, hqh⟩ := hx.placed h hh
      refine ⟨qlib, ?_, hqh⟩
      simp only [hreg.qlibUid, Function.update_of_ne (Ne.symm (hother h hh))]
      refine slot?_congr hq ?_
      intro i hi
      rw [hreg.others i ?_, hi]
      rintro rfl
      have hfree := hreg.handle_none
      rw [hi, hqh] at hfree
      cases hfree
  · intro h hh h' hh' heq
    rcases List.mem_cons.mp hh with rfl | hh <;> rcases List.mem_cons.mp hh' with rfl | hh'
    · rfl
    · exact absurd heq.symm (hhandle h' hh')
    · exact absurd heq (hhandle h hh)
    · exact hx.handles h hh h' hh' heq

theorem dtor_inv (hx : Inv lay libs x) {t : State Lib} {lib : Lib} {ld : Loader} {qlib : Qlib} {handle : Nat}
    (hstatus : x.status lib = .live) (hslot : slot? x.table.qlibs (x.table.qlibUid lib) = some qlib)
    (hhandle : qlib.handle = some handle) (hserve : serve configDir ld pageSize (.dtor lib) x.table = .ok t) :
    Inv lay libs ⟨t, Function.update x.status lib .closed, x.loaded.filter (fun h => h.handle ≠ handle)⟩ := by
  obtain ⟨_, _, _, _, rfl⟩ := gyhDtor_ok hserve
  -- the handle that is closed is the library's own
  have hmine : ∀ h ∈ x.loaded, h.lib = lib ↔ h.handle = handle := by
    intro h hh
    obtain ⟨q, hq, hqh⟩ := hx.placed h hh
    constructor
    · rintro rfl
      rw [hslot] at hq
      cases hq
      rw [hhandle] at hqh
      exact (Option.some.inj hqh).symm
    · intro heq
      obtain ⟨own, hown, rfl⟩ := (hx.live lib).mp hstatus
      obtain ⟨q', hq', hqh'⟩ := hx.placed own hown
      rw [hslot] at hq'
      cases hq'
      rw [hhandle] at hqh'
      exact hx.handles h hh own hown (heq.trans (Option.some.inj hqh'))
  have hmem : ∀ h, h ∈ x.loaded.filter (fun h => h.handle ≠ handle) ↔ h ∈ x.loaded ∧ h.lib ≠ lib := by
    intro h
    rw [List.mem_filter]
    refine and_congr_right (fun hh => ?_)
    rw [decide_eq_true_eq]
    exact not_congr (hmine h hh).symm
  refine ⟨?_, ?_, ?_, ?_, ?_, ?_⟩
  · intro lib'
    by_cases hl : lib' = lib
    · subst hl
      simp only [Function.update_self]
      exact (hstatus ▸ hx.words lib').closed
    · simp only [Function.update_of_ne hl]
      exact hx.words lib'
  · intro lib'
    by_cases hl : lib' = lib
    · subst hl
      simp only [Function.update_self]
      refine iff_of_false (fun hs => Status.noConfusion hs) ?_
      rintro ⟨h, hh, rfl⟩
      exact ((hmem h).mp hh).2 rfl
    · simp only [Function.update_of_ne hl, hx.live lib']
      constructor
      · rintro ⟨h, hh, rfl⟩
        exact ⟨h, (hmem h).mpr ⟨hh, hl⟩, rfl⟩
      · rintro ⟨h, hh, rfl⟩
        exact ⟨h, ((hmem h).mp hh).1, rfl⟩
  · exact fun h hh => hx.symbols h ((hmem h).mp hh).1
  · exact fun h hh => hx.holds h ((hmem h).mp hh).1
  · intro h hh
    obtain ⟨hold, hne⟩ := (hmem h).mp hh
    obtain ⟨q, hq, hqh⟩ := hx.placed h hold
    refine ⟨q, ?_, hqh⟩
    simp only [Function.update_of_ne hne]
    exact hq
  · exact fun h hh h' hh' => hx.handles h ((hmem h).mp hh).1 h' ((hmem h').mp hh').1

theorem step_inv (hcells : ∀ a b, a ≠ b → ∀ x, (libs a).Cell x → ¬ (libs b).Cell x) (hx : Inv lay libs x)
    (h : Step configDir pageSize libs x y) : Inv lay libs y := by
  cases h with
  | ctor t lib ld cbFunc I symbols hstatus hhandle hapart hsymbols hfunctbl hserve =>
      exact ctor_inv hx hcells I hstatus hhandle hapart hsymbols hfunctbl hserve
  | dtor t lib ld qlib handle hstatus hslot hhandle hserve => exact dtor_inv hx hstatus hslot hhandle hserve
  | program memory hmemory =>
      refine ⟨?_, hx.live, hx.symbols, ?_, hx.placed, hx.handles⟩
      · intro lib
        exact (hx.words lib).congr (fun a ha => hmemory a ⟨lib, ha⟩)
      · intro h hh
        exact (hx.holds h hh).congr (fun a ha => hmemory a ⟨h.lib, ha⟩)

theorem reached_inv (h : Reached configDir pageSize lay libs x) : Inv lay libs x := by
  obtain ⟨memory, hstart, hrun⟩ := h
  induction hrun with
  | refl => exact init_inv hstart
  | tail _ hstep ih => exact step_inv hstart.apart ih hstep

theorem xor_magic_iff (n : Nat) : kFCPcmMagic = kFCPcmMagic ^^^ n ↔ n = 0 := by
  constructor
  · intro h
    have hx := congrArg (kFCPcmMagic ^^^ ·) h
    simp only [Nat.xor_self, ← Nat.xor_assoc, Nat.zero_xor] at hx
    exact hx.symm
  · rintro rfl
    rw [Nat.xor_zero]

omit [DecidableEq Lib] in
/-- The words that `ChopOff` puts before a function. -/
theorem fresh_words {lib : Lib} {g : Nat} {info : FuncInfo} (hx : Inv lay libs x)
    (hinfo : (libs lib).symtbl.functbl.find? g = some info) (hfresh : x.status lib = .fresh)
    (hwritten : (libs lib).Written g) :
    x.table.memory ((libs lib).place.addr info.uid - 16) = kFCPcmMagic ∧
      x.table.memory ((libs lib).place.addr info.uid - 8) = info.uid := by
  have hwords := (hx.words lib).fresh hfresh info.uid g _ (Library.gfunctbl_get hinfo) (Library.data_eq hinfo hwritten)
  rw [lay.pair, Prod.mk.injEq] at hwords
  have huid : info.uid < 2 ^ 64 :=
    lt_trans (lt_trans (Library.uid_lt hinfo) (UInt32.toNat_lt _)) (by decide)
  rw [Nat.mod_eq_of_lt huid] at hwords
  exact hwords

/-- In every state of every run the check is sound for a function that carries
a prefix exactly if the library has not been constructed and the function is not
the first one, or if it is open and the function has been taken out. -/
theorem guardSound_iff (hx : Reached configDir pageSize lay libs x) (lib : Lib) (g : Nat) (info : FuncInfo)
    (hinfo : (libs lib).symtbl.functbl.find? g = some info)
    (hcarries : x.status lib = .fresh → (libs lib).Written g) :
    GuardSound libs x lib g info.uid ↔
      match x.status lib with
      | .fresh => info.uid ≠ 0
      | .live => ((libs lib).bw.funcs g).bind FuncBw.takeOut ≠ some false
      | .closed => False := by
  have hinv := reached_inv hx
  have hopen := hinv.live lib
  unfold GuardSound
  cases hstatus : x.status lib with
  | fresh =>
      obtain ⟨hmagic, hword⟩ := fresh_words hinv hinfo hstatus (hcarries hstatus)
      simp only [guard, hmagic, hword, xor_magic_iff]
      constructor
      · rintro h huid
        obtain ⟨l, hl, hlib, _⟩ := h huid
        rw [hopen.mpr ⟨l, hl, hlib⟩] at hstatus
        cases hstatus
      · intro hne huid
        exact absurd huid hne
  | live =>
      have hguard := (hinv.words lib).patched (by rw [hstatus]; decide) info.uid (Library.uid_lt hinfo)
      have hget := Library.functbl_get hinfo
      constructor
      · rintro h hblack
        obtain ⟨l, hl, rfl, _, _, hne⟩ := h hguard
        rw [if_pos hblack] at hget
        exact hne (hinv.holds l hl _ _ hget)
      · intro htaken _ _
        obtain ⟨l, hl, rfl⟩ := hopen.mp hstatus
        rw [if_neg htaken] at hget
        have hword := hinv.holds l hl _ _ hget
        refine ⟨l, hl, rfl, Library.copy_ne_none hinfo htaken, hword, ?_⟩
        rw [hword]
        exact hinv.symbols l hl _
  | closed =>
      refine iff_of_false ?_ id
      intro h
      have hguard := (hinv.words lib).patched (by rw [hstatus]; decide) info.uid (Library.uid_lt hinfo)
      obtain ⟨l, hl, hlib, _⟩ := h hguard
      rw [hopen.mpr ⟨l, hl, hlib⟩] at hstatus
      cases hstatus

end Run

def emptyLibrary : Library where
  hash := HostTable.sumHash
  layout := HostTable.plainLayout
  module := HostTable.emptyModule
  config := cmConfig
  bw := .null
  linkUid := 7
  useGRT := rfl
  useFCPcm := rfl
  guest := _
  chopped := rfl
  host := _
  takenOut := rfl
  functbl := [.func (.fcpFunc 0)]
  functbl_eq := rfl
  place := onePlace
  size := 1
  size_eq := rfl
  fits := onePlace_fits
  extreftbl := 0
  cbstubtbl := 0

def emptyMemory (x : Nat) : Nat :=
  if x = 8192 then 4096 else if x = 4080 then kFCPcmMagic else if x = 1408 then 12288 else 0

theorem emptyMemory_start : Start pairLayout (fun _ : Unit => emptyLibrary) emptyMemory := by
  refine ⟨fun _ => ⟨?_, ?_⟩, fun lib lib' hne => absurd rfl hne⟩
  · intro i hi
    have hi : i < 1 := hi
    obtain rfl : i = 0 := by omega
    rfl
  · intro i g c hg hc
    have hi : i < 1 := (List.getElem?_eq_some_iff.mp hg).1
    obtain rfl : i = 0 := by omega
    cases hg
    cases hc
    rfl

theorem emptyLibrary_apart : spacedImage.Apart (GuestCell (fun _ : Unit => emptyLibrary)) 1 :=
  HostImage.Apart.mono spacedImage_apart (fun _ ⟨_, h⟩ => h)

/-- After its constructor the check is sound for the function of the library. -/
theorem guardSound_live : ∃ x info, Reached "" 4096 pairLayout (fun _ : Unit => emptyLibrary) x ∧
    x.status () = .live ∧ emptyLibrary.symtbl.functbl.find? 0 = some info ∧
      GuardSound (fun _ : Unit => emptyLibrary) x () 0 info.uid := by
  have hctor : ∃ t, doCtorFcpCm "" spacedLoader 4096 () 0 0 onePlace.gfunctbl 1 64
      (init (fun _ : Unit => emptyLibrary) emptyMemory).table = .ok (t, 0) := by
    refine doCtorFcpCm_ok spacedImage onePlace_fits spacedImage_apart ?_ (fun _ _ => rfl) (.inl rfl)
      (QlibCalls.freeIdx_const _ rfl)
    intro i hi
    have hi : i < 1 := hi
    obtain rfl : i = 0 := by omega
    rfl
  obtain ⟨t, ht⟩ := hctor
  have hserve : serve "" spacedLoader 4096 (.ctor (.fcpCm 0 0 onePlace.gfunctbl 1) () 64)
      (init (fun _ : Unit => emptyLibrary) emptyMemory).table = .ok t := map_eq_ok.mpr ⟨_, ht, rfl⟩
  have hfunctbl : ∀ i e, emptyLibrary.functbl[i]? = some e →
      emptyMemory (spacedImage.functbl + 8 * i) = entryAddr (fun _ => 12288) e := by
    intro i e he
    have hi : i < 1 := (List.getElem?_eq_some_iff.mp he).1
    obtain rfl : i = 0 := by omega
    cases he
    rfl
  have hstep : Step "" 4096 (fun _ : Unit => emptyLibrary) (init (fun _ => emptyLibrary) emptyMemory)
      ⟨t, Function.update (fun _ => .fresh) () .live, [⟨(), 1, fun _ => 12288⟩]⟩ := by
    refine .ctor (init (fun _ => emptyLibrary) emptyMemory) t () spacedLoader 64 spacedImage (fun _ => 12288) ?_ ?_
      emptyLibrary_apart (fun _ => by decide) hfunctbl hserve
    · exact fun hs => Status.noConfusion hs
    · exact fun h hh => absurd hh List.not_mem_nil
  have hreached := Relation.ReflTransGen.tail Relation.ReflTransGen.refl hstep
  refine ⟨_, _, ⟨emptyMemory, emptyMemory_start, hreached⟩, rfl, rfl, ?_⟩
  refine (guardSound_iff ⟨emptyMemory, emptyMemory_start, hreached⟩ () 0 _ rfl ?_).mpr ?_
  · exact fun hs => Status.noConfusion hs
  · exact (Option.some_ne_none false).symm

/-- Before the constructor has run, the check passes for the function with the
number 0. -/
theorem firstFunction_passes : ∃ x info, Reached "" 4096 pairLayout (fun _ : Unit => emptyLibrary) x ∧
    emptyLibrary.symtbl.functbl.find? 0 = some info ∧ info.uid = 0 ∧ emptyLibrary.Written 0 ∧
      guard x.table.memory (emptyLibrary.place.addr 0) ∧ x.table.memory (emptyLibrary.place.addr 0 - 8) = 0 ∧
      ¬ GuardSound (fun _ : Unit => emptyLibrary) x () 0 0 := by
  have hguard : guard emptyMemory 4096 := by
    unfold guard
    decide
  refine ⟨init (fun _ => emptyLibrary) emptyMemory, _, ⟨emptyMemory, emptyMemory_start, .refl⟩, rfl, rfl,
    ⟨_, rfl, rfl, (Option.some_ne_none false).symm⟩, hguard, rfl, ?_⟩
  intro h
  obtain ⟨l, hl, _⟩ := h hguard
  exact absurd hl List.not_mem_nil

end Comulator.FcpGuard
