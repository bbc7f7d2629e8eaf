import Comulator.SortedSearch
import Comulator.SymtblJson

namespace Comulator.PickUp

open Ir Symtbl SymtblJson SortedSearch

/-- An element of the initializer of `llvm.global.annotations`: the function in
its first operand, if it is one, and the text the second one leads to, unless a
cast on the way fails. -/
structure Annotation where
  func : Option Nat
  text : Option String

/-- The module with its annotations; an element that is no `ConstantStruct` is
missing. There are none if there is no variable of the name, its initializer is
no `ConstantArray` or has elements of some other type. -/
structure PickModule extends NamedModule where
  distinct : ∀ g k, g < symbols.length → k < symbols.length → name g = name k → name g ≠ "" → g = k
  annotations : List (Option Annotation)

structure PickConfig where
  funcs : List (String × FuncBw)
  callees : List (String × Bool)
  fcpCmChop : List String
  fcpCmChopOthers : Bool
  funcs_nodup : (funcs.map Prod.fst).Nodup
  callees_nodup : (callees.map Prod.fst).Nodup

/-- LLVM's numbers of intrinsics, by their names in its enumeration and as the
ids of functions. All are below `UINT_MAX`. -/
structure IntrinsicNumbers where
  named : String → Nat
  number : IntrinsicId → Nat
  number_lt : ∀ id, number id < 2 ^ 32 - 1

def unset : FuncBw := ⟨none, none, none, none⟩

def setStage (info : String) (anno : FuncBw) : Option FuncBw :=
  match info with
  | "gyhcall:outline" => some { anno with outline := some true }
  | "gyhcall:no-outline" => some { anno with outline := some false }
  | "gyhcall:analyze" => some { anno with analyze := some true }
  | "gyhcall:no-analyze" => some { anno with analyze := some false }
  | "gyhcall:chop-off" => some { anno with chopOff := some true }
  | "gyhcall:no-chop-off" => some { anno with chopOff := some false }
  | "gyhcall:take-out" => some { anno with takeOut := some true }
  | "gyhcall:no-take-out" => some { anno with takeOut := some false }
  | _ => none

def visitOp (funcs : Nat → Option FuncBw) : Option Annotation → Option (Nat → Option FuncBw)
  | none => none
  | some ⟨none, _⟩ => some funcs
  | some ⟨some _, none⟩ => none
  | some ⟨some g, some info⟩ =>
      match setStage info ((funcs g).getD unset) with
      | none => some funcs
      | some anno => some (Function.update funcs g (some anno))

def whites : List String :=
  ["stacksave", "stackrestore", "abs", "smax", "smin", "umax", "umin", "memcpy", "memcpy_inline", "memmove", "memset",
    "memset_inline", "sqrt", "powi", "sin", "cos", "pow", "exp", "exp2", "exp10", "ldexp", "frexp", "log", "log10",
    "log2", "fma", "fabs", "minnum", "maxnum", "minimum", "maximum", "copysign", "floor", "ceil", "trunc", "rint",
    "nearbyint", "round", "roundeven", "lround", "llround", "lrint", "llrint", "experimental_constrained_fadd",
    "experimental_constrained_fsub", "experimental_constrained_fmul", "experimental_constrained_fdiv",
    "experimental_constrained_frem", "experimental_constrained_fma", "experimental_constrained_fptoui",
    "experimental_constrained_fptosi", "experimental_constrained_uitofp", "experimental_constrained_sitofp",
    "experimental_constrained_fptrunc", "experimental_constrained_fpext", "experimental_constrained_fcmp",
    "experimental_constrained_fcmps", "experimental_constrained_fmuladd", "experimental_constrained_sqrt",
    "experimental_constrained_pow", "experimental_constrained_powi", "experimental_constrained_ldexp",
    "experimental_constrained_sin", "experimental_constrained_cos", "experimental_constrained_exp",
    "experimental_constrained_exp2", "experimental_constrained_log", "experimental_constrained_log10",
    "experimental_constrained_log2", "experimental_constrained_rint", "experimental_constrained_lrint",
    "experimental_constrained_llrint", "experimental_constrained_nearbyint", "experimental_constrained_maxnum",
    "experimental_constrained_minnum", "experimental_constrained_maximum", "experimental_constrained_minimum",
    "experimental_constrained_ceil", "experimental_constrained_floor", "experimental_constrained_round",
    "experimental_constrained_roundeven", "experimental_constrained_lround", "experimental_constrained_llround",
    "experimental_constrained_trunc", "experimental_noalias_scope_decl", "bitreverse", "bswap", "ctpop", "ctlz",
    "cttz", "fshl", "fshr", "sadd_with_overflow", "uadd_with_overflow", "ssub_with_overflow", "usub_with_overflow",
    "smul_with_overflow", "umul_with_overflow", "sadd_sat", "uadd_sat", "ssub_sat", "usub_sat", "sshl_sat",
    "ushl_sat", "smul_fix", "umul_fix", "smul_fix_sat", "umul_fix_sat", "sdiv_fix", "udiv_fix", "sdiv_fix_sat",
    "udiv_fix_sat", "canonicalize", "fmuladd", "vector_reduce_add", "vector_reduce_fadd", "vector_reduce_mul",
    "vector_reduce_fmul", "vector_reduce_and", "vector_reduce_or", "vector_reduce_xor", "vector_reduce_smax",
    "vector_reduce_smin", "vector_reduce_umax", "vector_reduce_umin", "vector_reduce_fmax", "vector_reduce_fmin",
    "vector_reduce_fmaximum", "vector_reduce_fminimum", "vector_insert", "vector_extract", "matrix_transpose",
    "matrix_multiply", "matrix_column_major_load", "matrix_column_major_store", "fptoui_sat", "fptosi_sat",
    "fptrunc_round", "dbg_assign", "dbg_declare", "dbg_label", "dbg_value", "vp_select", "vp_merge", "vp_add",
    "vp_sub", "vp_mul", "vp_sdiv", "vp_udiv", "vp_srem", "vp_urem", "vp_ashr", "vp_lshr", "vp_shl", "vp_or", "vp_and",
    "vp_xor", "vp_abs", "vp_smax", "vp_smin", "vp_umax", "vp_umin", "vp_copysign", "vp_minnum", "vp_maxnum",
    "vp_minimum", "vp_maximum", "vp_fadd", "vp_fsub", "vp_fmul", "vp_fdiv", "vp_frem", "vp_fneg", "vp_fabs",
    "vp_sqrt", "vp_fma", "vp_fmuladd", "vp_reduce_add", "vp_reduce_fadd", "vp_reduce_mul", "vp_reduce_fmul",
    "vp_reduce_and", "vp_reduce_or", "vp_reduce_xor", "vp_reduce_smax", "vp_reduce_smin", "vp_reduce_umax",
    "vp_reduce_umin", "vp_reduce_fmax", "vp_reduce_fmin", "get_active_lane_mask", "experimental_vp_splice",
    "experimental_vp_reverse", "vp_load", "vp_store", "experimental_vp_strided_load", "experimental_vp_strided_store",
    "vp_gather", "vp_scatter", "vp_trunc", "vp_zext", "vp_sext", "vp_fptrunc", "vp_fpext", "vp_fptoui", "vp_fptosi",
    "vp_uitofp", "vp_sitofp", "vp_ptrtoint", "vp_inttoptr", "vp_fcmp", "vp_icmp", "vp_ceil", "vp_floor", "vp_rint",
    "vp_nearbyint", "vp_round", "vp_roundeven", "vp_roundtozero", "vp_bitreverse", "vp_bswap", "vp_ctpop", "vp_ctlz",
    "vp_cttz", "vp_fshl", "vp_fshr", "vp_is_fpclass", "masked_load", "masked_store", "masked_gather",
    "masked_scatter", "masked_expandload", "masked_compressstore", "lifetime_start", "lifetime_end",
    "invariant_start", "invariant_end", "launder_invariant_group", "strip_invariant_group", "is_fpclass",
    "var_annotation", "ptr_annotation", "annotation", "objectsize", "expect", "expect_with_probability", "assume",
    "donothing", "is_constant", "ptrmask"]

section Run

variable (N : IntrinsicNumbers) (m : PickModule) (config : PickConfig)

def doAnnotation (bw : BwList) : Option BwList := do
  let funcs ← m.annotations.foldlM visitOp bw.funcs
  return { bw with funcs }

/-- The array ends with `UINT_MAX`, so that the search never does. -/
def kSortedWhites : List Nat := bubbleSort (whites.map N.named ++ [2 ^ 32 - 1])

/-- The test of `do_builtins` for the number `x`, with `ret` for the array before
it is sorted; missing if it reads past the end. -/
def isOutside (ret : List Nat) (x : Nat) : Option Bool :=
  (lowerBound x (exchangeSort ret)).map (fun found => decide (x ≠ found))

def visitBuiltin (callees : Nat → Option Bool) (g : Nat) : Nat → Option Bool :=
  match (m.function? g).bind Function.intrinsicId with
  | none => callees
  | some id =>
      if lowerBound (N.number id) (kSortedWhites N) ≠ some (N.number id) then Function.update callees g (some false)
      else callees

def doBuiltins (bw : BwList) : BwList := { bw with callees := m.functions.foldl (visitBuiltin N m) bw.callees }

def assign {β : Type} (map : Nat → Option β) (e : String × β) : Nat → Option β :=
  match m.getFunction e.1 with
  | none => map
  | some g => Function.update map g (some e.2)

/-- The names of the third list go into the same map as those of the second. -/
def doConfig (bw : BwList) : BwList where
  funcs := config.funcs.foldl (assign m) bw.funcs
  callees := (config.fcpCmChop.map (fun name => (name, true))).foldl (assign m)
    (config.callees.foldl (assign m) bw.callees)
  fcpCmChop := bw.fcpCmChop
  fcpCmChopOthers := config.fcpCmChopOthers

def pickUp : Option BwList := do
  let bw ← doAnnotation m .null
  return doConfig m config (doBuiltins N m bw)

def configured {β : Type} (l : List (String × β)) (g : Nat) : Option β :=
  if (m.function? g).isSome && m.name g ≠ "" then l.lookup (m.name g) else none

def annotate (g : Nat) (entry : Option FuncBw) : Option Annotation → Option FuncBw
  | some ⟨some k, some info⟩ =>
      if k = g then (setStage info (entry.getD unset)).or entry else entry
  | _ => entry

def annotated (g : Nat) : Option FuncBw := m.annotations.foldl (annotate g) none

def isBlack (g : Nat) : Bool :=
  match (m.function? g).bind Function.intrinsicId with
  | some id => N.number id ∉ whites.map N.named
  | none => false

def lists : BwList where
  funcs g := (configured m config.funcs g).or (annotated m g)
  callees g := (configured m config.callees g).or (if isBlack N m g then some false else none)
  fcpCmChop g := (m.function? g).isSome && m.name g ≠ "" && m.name g ∈ config.fcpCmChop
  fcpCmChopOthers := config.fcpCmChopOthers

end Run

section Config

variable {m : PickModule} {β : Type}

theorem getFunction_eq_some {s : String} {g : Nat} :
    m.getFunction s = some g ↔ s ≠ "" ∧ m.name g = s ∧ (m.function? g).isSome := by
  unfold NamedModule.getFunction NamedModule.getNamedValue
  rw [Option.filter_eq_some_iff]
  by_cases hs : s = ""
  · subst hs
    simp
  · have hempty : s.isEmpty = false := by simpa using hs
    simp only [hempty, Bool.false_eq_true, if_false]
    constructor
    · rintro ⟨hfind, hfunction⟩
      exact ⟨hs, by simpa using List.find?_some hfind, hfunction⟩
    · rintro ⟨_, hname, hfunction⟩
      have hlt : g < m.symbols.length := by
        obtain ⟨f, hf⟩ := Option.isSome_iff_exists.mp hfunction
        exact (List.getElem?_eq_some_iff.mp (Module.function?_eq_some.mp hf)).1
      refine ⟨?_, hfunction⟩
      cases hfind : (List.range m.symbols.length).find? (fun k => m.name k == s) with
      | none =>
          have hno := List.find?_eq_none.mp hfind g (List.mem_range.mpr hlt)
          simp [hname] at hno
      | some k =>
          have hk : m.name k = s := by simpa using List.find?_some hfind
          have hklt := List.mem_range.mp (List.mem_of_find?_eq_some hfind)
          rw [m.distinct k g hklt hlt (hk.trans hname.symm) (by rw [hk]; exact hs)]

/-- The loop leaves behind the entry of the list for the function's name. -/
theorem foldl_assign {l : List (String × β)} (hl : (l.map Prod.fst).Nodup) (map : Nat → Option β) (g : Nat) :
    l.foldl (assign m) map g = (configured m l g).or (map g) := by
  induction l generalizing map with
  | nil => simp [configured]
  | cons e l ih =>
      obtain ⟨s, b⟩ := e
      obtain ⟨hs, hl⟩ := List.nodup_cons.mp hl
      rw [List.foldl_cons, ih hl]
      by_cases hget : m.getFunction s = some g
      · obtain ⟨hne, hname, hfunction⟩ := getFunction_eq_some.mp hget
        have hlookup : l.lookup s = none := by
          rw [List.lookup_eq_none_iff]
          intro p hp
          rw [bne_iff_ne]
          rintro rfl
          exact hs (List.mem_map.mpr ⟨p, hp, rfl⟩)
        simp [configured, hfunction, hname, hne, hlookup, assign, hget]
      · have hassign : assign m map (s, b) g = map g := by
          unfold assign
          cases hk : m.getFunction s with
          | none => rfl
          | some k =>
              have hkg : g ≠ k := by
                rintro rfl
                exact hget hk
              simp [hkg]
        have hconfigured : configured m ((s, b) :: l) g = configured m l g := by
          unfold configured
          split
          next hnamed =>
            simp only [Bool.and_eq_true, decide_eq_true_eq, ne_eq] at hnamed
            have hne : (m.name g == s) = false := by
              rw [beq_eq_false_iff_ne]
              rintro rfl
              exact hget (getFunction_eq_some.mpr ⟨hnamed.2, rfl, hnamed.1⟩)
            rw [List.lookup_cons, hne]
          next => rfl
        rw [hassign, hconfigured]

theorem foldl_assign_unknown {l : List (String × β)} (hl : ∀ e ∈ l, m.getFunction e.1 = none) (map : Nat → Option β) :
    l.foldl (assign m) map = map := by
  induction l with
  | nil => rfl
  | cons e l ih =>
      have he : assign m map e = map := by
        rw [assign, hl e List.mem_cons_self]
      rw [List.foldl_cons, he, ih (fun e' he' => hl e' (List.mem_cons_of_mem _ he'))]

end Config

section Builtins

variable {N : IntrinsicNumbers} {m : PickModule}

/-- With the guard at its end, the array is sorted and the search decides what is
in it. -/
theorem isOutside_exact (ws : List Nat) :
    (exchangeSort (ws ++ [2 ^ 32 - 1])).Pairwise (· ≤ ·) ∧ (exchangeSort (ws ++ [2 ^ 32 - 1])).Perm (ws ++ [2 ^ 32 - 1]) ∧
      ∀ x < 2 ^ 32 - 1, isOutside (ws ++ [2 ^ 32 - 1]) x = some (decide (x ∉ ws ++ [2 ^ 32 - 1])) := by
  have hsorted := bubbleSort_sorted (ws ++ [2 ^ 32 - 1])
  have hperm := bubbleSort_perm (ws ++ [2 ^ 32 - 1])
  rw [← exchangeSort_eq] at hsorted hperm
  refine ⟨hsorted, hperm, fun x hx => ?_⟩
  have hguard : 2 ^ 32 - 1 ∈ exchangeSort (ws ++ [2 ^ 32 - 1]) :=
    hperm.mem_iff.mpr (List.mem_append_right _ List.mem_cons_self)
  obtain ⟨found, hfound⟩ := Option.ne_none_iff_exists'.mp (lowerBound_ne_none hguard (Nat.le_of_lt hx))
  have hself := lowerBound_eq_self_iff (x := x) hsorted
  rw [hfound, Option.some.injEq, hperm.mem_iff] at hself
  rw [isOutside, hfound, Option.map_some, Option.some.injEq, decide_eq_decide, ← hself]
  exact ne_comm

/-- Out of order and with a number twice. -/
theorem isOutside_exact_twice : isOutside ([7, 3, 7] ++ [2 ^ 32 - 1]) 3 = some false ∧
    isOutside ([7, 3, 7] ++ [2 ^ 32 - 1]) 5 = some true :=
  ⟨(isOutside_exact [7, 3, 7]).2.2 3 (by decide), (isOutside_exact [7, 3, 7]).2.2 5 (by decide)⟩

variable (N) in
theorem isOutside_kSortedWhites (id : IntrinsicId) :
    isOutside (whites.map N.named ++ [2 ^ 32 - 1]) (N.number id) = some true ↔
      lowerBound (N.number id) (kSortedWhites N) ≠ some (N.number id) := by
  have hguard : 2 ^ 32 - 1 ∈ kSortedWhites N :=
    (bubbleSort_perm _).mem_iff.mpr (List.mem_append_right _ List.mem_cons_self)
  obtain ⟨found, hfound⟩ := Option.ne_none_iff_exists'.mp (lowerBound_ne_none hguard (Nat.le_of_lt (N.number_lt id)))
  rw [isOutside, exchangeSort_eq, ← kSortedWhites, hfound, Option.map_some, Option.some.injEq, decide_eq_true_iff,
    ne_eq (some found), Option.some.injEq]
  exact ne_comm

theorem mem_kSortedWhites (id : IntrinsicId) :
    lowerBound (N.number id) (kSortedWhites N) = some (N.number id) ↔ N.number id ∈ whites.map N.named := by
  rw [kSortedWhites, lowerBound_eq_self_iff (bubbleSort_sorted _), (bubbleSort_perm _).mem_iff, List.mem_append,
    List.mem_singleton]
  exact or_iff_left (Nat.ne_of_lt (N.number_lt id))

theorem visitBuiltin_eq (callees : Nat → Option Bool) (g : Nat) :
    visitBuiltin N m callees g = if isBlack N m g then Function.update callees g (some false) else callees := by
  unfold visitBuiltin isBlack
  cases (m.function? g).bind Function.intrinsicId with
  | none => rfl
  | some id => simp only [ne_eq, mem_kSortedWhites, decide_eq_true_eq]

theorem foldl_visitBuiltin (l : List Nat) (callees : Nat → Option Bool) (g : Nat) :
    l.foldl (visitBuiltin N m) callees g = if g ∈ l ∧ isBlack N m g = true then some false else callees g := by
  induction l generalizing callees with
  | nil => simp
  | cons k l ih =>
      rw [List.foldl_cons, ih, visitBuiltin_eq]
      by_cases hgk : g = k
      · subst hgk
        by_cases hblack : isBlack N m g = true
        · simp [hblack]
        · simp [hblack]
      · by_cases hblack : isBlack N m k = true
        · simp [hblack, hgk]
        · simp [hblack, hgk]

theorem isBlack_mem {g : Nat} (h : isBlack N m g = true) : g ∈ m.functions := by
  unfold isBlack at h
  cases hf : m.function? g with
  | none => simp [hf] at h
  | some f => exact Module.mem_functions hf

end Builtins

section Annotations

def readable : Option Annotation → Bool
  | none => false
  | some a => a.func.isNone || a.text.isSome

theorem visitOp_eq (funcs : Nat → Option FuncBw) (a : Option Annotation) :
    visitOp funcs a = if readable a then some (fun g => annotate g (funcs g) a) else none := by
  rcases a with _ | ⟨_ | k, _ | info⟩
  · rfl
  · rfl
  · rfl
  · rfl
  · simp only [visitOp, readable, Option.isSome_some, Bool.or_true, if_true]
    cases hset : setStage info ((funcs k).getD unset) with
    | none =>
        simp only [Option.some.injEq]
        funext g
        by_cases hkg : k = g
        · subst hkg
          simp [annotate, hset]
        · simp [annotate, hkg]
    | some anno =>
        simp only [Option.some.injEq]
        funext g
        by_cases hkg : k = g
        · subst hkg
          simp [annotate, hset]
        · simp [annotate, hkg, Function.update_of_ne (Ne.symm hkg)]

theorem foldlM_visitOp (l : List (Option Annotation)) (funcs : Nat → Option FuncBw) : l.foldlM visitOp funcs =
    if l.all readable then some (fun g => l.foldl (annotate g) (funcs g)) else none := by
  induction l generalizing funcs with
  | nil => rfl
  | cons a l ih =>
      rw [List.foldlM_cons, visitOp_eq, List.all_cons]
      cases ha : readable a with
      | false => rfl
      | true =>
          simp only [if_true, Bool.true_and]
          exact ih _

end Annotations

/-- The result is the configured one exactly if no cast fails on an annotation
and no function of the module is in the list for FCP-CM. -/
theorem pickUp_eq_iff (N : IntrinsicNumbers) (m : PickModule) (config : PickConfig) :
    pickUp N m config = some (lists N m config) ↔
      (∀ a ∈ m.annotations, readable a = true) ∧ ∀ name ∈ config.fcpCmChop, m.getFunction name = none := by
  have hpick : pickUp N m config = if m.annotations.all readable then
      some (doConfig m config (doBuiltins N m { BwList.null with funcs := annotated m })) else none := by
    unfold pickUp doAnnotation
    rw [foldlM_visitOp]
    cases m.annotations.all readable <;> rfl
  rw [hpick, ← List.all_eq_true]
  constructor
  · intro h
    cases hall : m.annotations.all readable with
    | false => simp [hall] at h
    | true =>
        refine ⟨rfl, fun name hname => ?_⟩
        rw [hall, if_pos rfl, Option.some.injEq] at h
        by_contra hsome
        obtain ⟨g, hg⟩ := Option.ne_none_iff_exists'.mp hsome
        obtain ⟨hne, hgname, hfunction⟩ := getFunction_eq_some.mp hg
        have hchop : false = ((m.function? g).isSome && m.name g ≠ "" && m.name g ∈ config.fcpCmChop) :=
          congrFun (congrArg BwList.fcpCmChop h) g
        simp [hfunction, hgname, hne, hname] at hchop
  · rintro ⟨hall, hchop⟩
    rw [hall, if_pos rfl, Option.some.injEq]
    have hunknown : ∀ e ∈ config.fcpCmChop.map (fun name => (name, true)), m.getFunction e.1 = none := by
      intro e he
      obtain ⟨name, hname, rfl⟩ := List.mem_map.mp he
      exact hchop name hname
    have hfuncs : config.funcs.foldl (assign m) (annotated m) = (lists N m config).funcs := by
      funext g
      exact foldl_assign config.funcs_nodup _ g
    have hcallees : config.callees.foldl (assign m) (m.functions.foldl (visitBuiltin N m) (fun _ => none)) =
        (lists N m config).callees := by
      funext g
      have hblack : (g ∈ m.functions ∧ isBlack N m g = true) ↔ isBlack N m g = true := and_iff_right_of_imp isBlack_mem
      rw [foldl_assign config.callees_nodup, foldl_visitBuiltin, if_congr hblack rfl rfl]
      rfl
    have hfcp : (fun _ => false) = (lists N m config).fcpCmChop := by
      funext g
      refine (Bool.eq_false_iff.mpr (fun hlisted => ?_)).symm
      simp only [lists, Bool.and_eq_true, decide_eq_true_eq, ne_eq] at hlisted
      have hsome := getFunction_eq_some.mpr ⟨hlisted.1.2, rfl, hlisted.1.1⟩
      rw [hchop _ hlisted.2] at hsome
      cases hsome
    unfold doConfig
    rw [foldl_assign_unknown hunknown]
    simp only [doBuiltins, BwList.null, hfuncs, hcallees, hfcp]
    rfl

def oneNumber : IntrinsicNumbers := ⟨fun s => s.length, fun _ => 0, fun _ => by decide⟩

def oneFunction (annotations : List (Option Annotation)) : PickModule where
  symbols := [.function ⟨⟨.void, [], false⟩, 0, ⟨[]⟩, none, [(0, ⟨[], [], 0, .ret none⟩)], [], none⟩]
  verified := by decide
  name g := if g = 0 then "f" else ""
  distinct := by
    intro g k hg hk _ _
    simp only [List.length_singleton, Nat.lt_one_iff] at hg hk
    rw [hg, hk]
  annotations

def chopConfig (fcpCmChop : List String) : PickConfig := ⟨[], [], fcpCmChop, false, .nil, .nil⟩

/-- The function in the list for FCP-CM becomes a callee that is offloaded; and
an annotation with an empty text, which is no `ConstantDataArray`, is the end. -/
theorem fcpCmChop_misplaced :
    (pickUp oneNumber (oneFunction []) (chopConfig ["f"])).map (fun bw => (bw.fcpCmChop 0, bw.callees 0)) =
      some (false, some true) ∧
    (lists oneNumber (oneFunction []) (chopConfig ["f"])).fcpCmChop 0 = true ∧
    (lists oneNumber (oneFunction []) (chopConfig ["f"])).callees 0 = none ∧
    pickUp oneNumber (oneFunction [some ⟨some 0, none⟩]) (chopConfig []) = none :=
  ⟨by decide, by decide, by decide, rfl⟩

end Comulator.PickUp
