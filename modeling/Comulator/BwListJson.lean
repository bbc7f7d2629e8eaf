import Comulator.ConfigJson

namespace Comulator.BwListJson

open Fallible Ir Symtbl SymtblJson JsonText PickUp ConfigJson

section Codec

variable {Text : Type} (D : MemberOrder) (m : PickModule)

/-- The orders in which the containers of a list are iterated. Their keys are the
addresses of the functions. -/
structure Iteration where
  funcs : List Nat
  callees : List Nat
  fcpCmChop : List Nat
  funcs_perm : funcs.Perm m.functions
  callees_perm : callees.Perm m.functions
  fcpCmChop_perm : fcpCmChop.Perm m.functions

def addEntry {V : Type} (map : Nat → Option V) (t : OrderedMap String V) (g : Nat) : OrderedMap String V :=
  match map g with
  | none => t
  | some v => t.assign (m.name g) v

def table {V : Type} (order : List Nat) (map : Nat → Option V) : OrderedMap String V :=
  order.foldl (addEntry m map) .empty

def dump (F : Iteration m) (bw : BwList) : Json :=
  .object (D.order [
    ("Funcs", .object (D.order ((table m F.funcs bw.funcs).entries.map (fun e => (e.1, dumpFuncBw D e.2))))),
    ("Callees", .object (D.order ((table m F.callees bw.callees).entries.map (fun e => (e.1, .boolean e.2))))),
    ("FCPcmChop", .array (((F.fcpCmChop.filter bw.fcpCmChop).map m.name).map .string)),
    ("FCPcmChopOthers", .boolean bw.fcpCmChopOthers)])

def loadEntry {V : Type} (read : Json → Load V) (map : Nat → Option V) (e : String × Json) : Load (Nat → Option V) :=
  match m.getFunction e.1 with
  | none => .ok map
  | some g => do
      let v ← read e.2
      return Function.update map g (some v)

def loadAnno (path : List Segment) (j : Json) : Load FuncBw := do
  let _ ← mapper path j
  loadFuncBw path j

def insertName (set : Nat → Bool) (name : String) : Nat → Bool :=
  match m.getFunction name with
  | none => set
  | some g => Function.update set g true

def loadName (path : List Segment) (set : Nat → Bool) (e : Json × Nat) : Load (Nat → Bool) := do
  let name ← getElement (path ++ [.index e.2]) e.1
  return insertName m set name

def load (path : List Segment) (bw : BwList) (j : Json) : Load BwList := do
  let o ← mapper path j
  let funcs ← getObject path o "Funcs"
  let mFuncs ← funcs.foldlM (loadEntry m (loadAnno (path ++ [.field "Funcs"]))) bw.funcs
  let callees ← getObject path o "Callees"
  let mCallees ← callees.foldlM (loadEntry m (loadCallee (path ++ [.field "Callees"]))) bw.callees
  let fcpCmChop ← getArray path o "FCPcmChop"
  let mFCPcmChop ← fcpCmChop.zipIdx.foldlM (loadName m (path ++ [.field "FCPcmChop"])) bw.fcpCmChop
  let mFCPcmChopOthers ← mapBool path o "FCPcmChopOthers"
  return ⟨mFuncs, mCallees, mFCPcmChop, mFCPcmChopOthers⟩

/-- The printer and the parser of LLVM, with texts left open. -/
structure Printer (Text : Type) where
  print : Json → Text
  parse : Text → Option Json
  parse_print : ∀ j, Plain j → ∃ j', parse (print j) = some j' ∧ Same j j'

variable (C : Printer Text)

def toFile (F : Iteration m) (bw : BwList) : Text := C.print (dump D m F bw)

def fromFile (text : Text) : Option (Load BwList) := (C.parse text).map (load m [] .null)

def isNamed (g : Nat) : Bool := (m.function? g).isSome && m.name g ≠ ""

def restored (bw : BwList) : BwList where
  funcs g := if isNamed m g then bw.funcs g else none
  callees g := if isNamed m g then bw.callees g else none
  fcpCmChop g := isNamed m g && bw.fcpCmChop g
  fcpCmChopOthers := bw.fcpCmChopOthers

end Codec

section Tables

variable {V : Type} {m : PickModule} {map : Nat → Option V} {g : Nat}

theorem getFunction_name (h : isNamed m g = true) : m.getFunction (m.name g) = some g := by
  simp only [isNamed, Bool.and_eq_true, decide_eq_true_eq] at h
  exact getFunction_eq_some.mpr ⟨h.2, rfl, h.1⟩

theorem isNamed_of_getFunction {s : String} (h : m.getFunction s = some g) : isNamed m g = true ∧ m.name g = s := by
  obtain ⟨hne, hname, hfunction⟩ := getFunction_eq_some.mp h
  subst hname
  simp [isNamed, hfunction, hne]

/-- No other function has the name. -/
theorem eq_of_name {h : Nat} (hg : isNamed m g = true) (hh : h ∈ m.functions) (heq : m.name h = m.name g) : h = g := by
  have hfunction := (List.mem_filter.mp hh).2
  have hne : m.name g ≠ "" := (getFunction_eq_some.mp (getFunction_name hg)).1
  have hget : m.getFunction (m.name g) = some h := getFunction_eq_some.mpr ⟨hne, heq, hfunction⟩
  exact Option.some.inj (hget.symm.trans (getFunction_name hg))

theorem mem_functions_of_named (hg : isNamed m g = true) : g ∈ m.functions := by
  obtain ⟨_, _, hfunction⟩ := getFunction_eq_some.mp (getFunction_name hg)
  obtain ⟨f, hf⟩ := Option.isSome_iff_exists.mp hfunction
  exact Module.mem_functions hf

theorem find?_addEntry (t : OrderedMap String V) (h : Nat) (s : String) :
    (addEntry m map t h).find? s = if s = m.name h then (map h).or (t.find? s) else t.find? s := by
  unfold addEntry
  cases map h with
  | none => simp
  | some v => rw [OrderedMap.find?_assign]; rfl

theorem find?_foldl (hg : isNamed m g = true) {order : List Nat} (horder : order ⊆ m.functions) (t : OrderedMap String V) :
    (order.foldl (addEntry m map) t).find? (m.name g) =
      if g ∈ order then (map g).or (t.find? (m.name g)) else t.find? (m.name g) := by
  induction order generalizing t with
  | nil => rfl
  | cons h order ih =>
      obtain ⟨hh, horder⟩ := List.cons_subset.mp horder
      rw [List.foldl_cons, ih horder, find?_addEntry]
      by_cases heq : g = h
      · subst heq
        cases map g <;> simp
      · have hname : m.name g ≠ m.name h := fun hname => heq (eq_of_name hg hh hname.symm).symm
        simp [heq, hname]

theorem find?_table (hg : isNamed m g = true) {order : List Nat} (hperm : order.Perm m.functions) :
    (table m order map).find? (m.name g) = map g := by
  rw [table, find?_foldl hg hperm.subset, if_pos (hperm.mem_iff.mpr (mem_functions_of_named hg))]
  exact Option.or_none

theorem lookup_map_keys (f : String → V) (l : List (String × Json)) (k : String) :
    (l.map (fun e => (e.1, f e.1))).lookup k = if k ∈ l.map Prod.fst then some (f k) else none := by
  induction l with
  | nil => rfl
  | cons e l ih =>
      rw [List.map_cons, List.lookup_cons, ih]
      by_cases hk : k = e.1
      · subst hk
        simp
      · have hne : (k == e.1) = false := beq_eq_false_iff_ne.mpr hk
        simp only [hne, List.map_cons, List.mem_cons, hk, false_or]

theorem foldlM_loadEntry {read : Json → Load V} {l : List (String × Json)} (f : String → V)
    (h : ∀ e ∈ l, read e.2 = .ok (f e.1)) (map : Nat → Option V) :
    l.foldlM (loadEntry m read) map = .ok ((l.map (fun e => (e.1, f e.1))).foldl (assign m) map) := by
  induction l generalizing map with
  | nil => rfl
  | cons e l ih =>
      have hentry : loadEntry m read map e = .ok (assign m map (e.1, f e.1)) := by
        unfold loadEntry assign
        rw [h e List.mem_cons_self]
        cases m.getFunction e.1 <;> rfl
      rw [List.foldlM_cons, hentry]
      exact ih (fun d hd => h d (List.mem_cons_of_mem _ hd)) _

/-- A map that has been written is read again, without the functions that have no name. -/
theorem load_table {order : List Nat} (hperm : order.Perm m.functions) (map : Nat → Option V) {dump : V → Json}
    {read : Json → Load V} (hread : ∀ v j, Same (dump v) j → read j = .ok v) (d : V) {l : List (String × Json)}
    (h : SameObject ((table m order map).entries.map (fun e => (e.1, dump e.2))) l) :
    l.foldlM (loadEntry m read) (fun _ => none) = .ok (fun g => if isNamed m g then map g else none) := by
  have hall : ∀ e ∈ l, read e.2 = .ok (((table m order map).find? e.1).getD d) := by
    intro e he
    obtain ⟨v, hv, hsame⟩ := table_value h he
    rw [hread v e.2 hsame, hv]
    rfl
  have hkeys : ((l.map (fun e => (e.1, ((table m order map).find? e.1).getD d))).map Prod.fst).Nodup := by
    rw [List.map_map]
    exact h.nodup_right
  rw [foldlM_loadEntry (fun k => ((table m order map).find? k).getD d) hall]
  congr 1
  funext g
  rw [foldl_assign hkeys, configured, ← isNamed]
  cases hg : isNamed m g with
  | false => rfl
  | true =>
      have htable : (table m order map).find? (m.name g) = map g := find?_table hg hperm
      have hiff := table_keys h (m.name g)
      rw [htable] at hiff
      have hlookup := lookup_map_keys (fun k => ((table m order map).find? k).getD d) l (m.name g)
      rw [if_pos rfl, hlookup, htable]
      cases hv : map g with
      | none =>
          rw [if_neg (by rw [hiff, hv]; exact Bool.false_ne_true)]
          rfl
      | some v =>
          rw [if_pos (by rw [hiff, hv]; rfl)]
          rfl

end Tables

section Names

variable {m : PickModule}

theorem insertName_apply (set : Nat → Bool) (s : String) (g : Nat) :
    insertName m set s g = (set g || (isNamed m g && decide (m.name g = s))) := by
  unfold insertName
  by_cases hget : m.getFunction s = some g
  · obtain ⟨hg, hname⟩ := isNamed_of_getFunction hget
    simp [hget, hg, hname]
  · have hno : (isNamed m g && decide (m.name g = s)) = false := by
      rw [Bool.and_eq_false_iff, decide_eq_false_iff_not]
      by_cases hg : isNamed m g = true
      · refine .inr ?_
        rintro rfl
        exact hget (getFunction_name hg)
      · exact .inl (Bool.eq_false_iff.mpr hg)
    rw [hno, Bool.or_false]
    cases hk : m.getFunction s with
    | none => rfl
    | some k =>
        have hne : g ≠ k := by
          rintro rfl
          exact hget hk
        exact Function.update_of_ne hne _ set

theorem foldlM_loadName (path : List Segment) (names : List String) (n : Nat) (set : Nat → Bool) :
    ((names.map Json.string).zipIdx n).foldlM (loadName m path) set =
      .ok (fun g => set g || (isNamed m g && decide (m.name g ∈ names))) := by
  induction names generalizing n set with
  | nil =>
      simp
      rfl
  | cons s names ih =>
      rw [List.map_cons, List.zipIdx_cons, List.foldlM_cons]
      have hname : loadName m path set (.string s, n) = .ok (insertName m set s) := rfl
      rw [hname]
      refine (ih (n + 1) (insertName m set s)).trans ?_
      congr 1
      funext g
      rw [insertName_apply]
      cases isNamed m g <;> simp [Bool.or_assoc, List.mem_cons]

theorem mem_names {order : List Nat} (hperm : order.Perm m.functions) (chop : Nat → Bool) (g : Nat) :
    (isNamed m g && decide (m.name g ∈ (order.filter chop).map m.name)) = (isNamed m g && chop g) := by
  cases hg : isNamed m g with
  | false => rfl
  | true =>
      rw [Bool.true_and, Bool.true_and, Bool.eq_iff_iff, decide_eq_true_iff, List.mem_map]
      constructor
      · rintro ⟨h, hh, heq⟩
        obtain ⟨hmem, hchop⟩ := List.mem_filter.mp hh
        rw [← eq_of_name hg (hperm.mem_iff.mp hmem) heq]
        exact hchop
      · intro hchop
        exact ⟨g, List.mem_filter.mpr ⟨hperm.mem_iff.mpr (mem_functions_of_named hg), hchop⟩, rfl⟩

end Names

section RoundTrip

variable {D : MemberOrder} {m : PickModule} {l l' : List (String × Json)}

theorem asOptional_dump (b : Option Bool) : asOptional (dumpOptional b) = some b := by cases b <;> rfl

theorem loadAnno_of_same (path : List Segment) {bw : FuncBw} {j : Json} (h : Same (dumpFuncBw D bw) j) :
    loadAnno path j = .ok bw := by
  obtain ⟨o, rfl, hobject⟩ := h.exists_ordered
  refine bind_eq_ok.mpr ⟨o, rfl, ?_⟩
  refine bind_eq_ok.mpr ⟨o, rfl, ?_⟩
  refine bind_eq_ok.mpr ⟨_, mapOptional_of_same hobject path (asOptional_dump _), ?_⟩
  refine bind_eq_ok.mpr ⟨_, mapOptional_of_same hobject path (asOptional_dump _), ?_⟩
  refine bind_eq_ok.mpr ⟨_, mapOptional_of_same hobject path (asOptional_dump _), ?_⟩
  refine bind_eq_ok.mpr ⟨_, mapOptional_of_same hobject path (asOptional_dump _), ?_⟩
  rfl

theorem getArray_of_same (h : SameObject l l') (path : List Segment) {name : String} {names : List String}
    (hv : l.lookup name = some (.array (names.map .string))) : getArray path l' name = .ok (names.map .string) := by
  obtain ⟨v', hv', hsame⟩ := h.lookup_some hv
  unfold getArray
  rw [hv']
  cases hsame with
  | array helements =>
      rw [helements.strings]
      rfl

theorem load_of_same (path : List Segment) (F : Iteration m) (bw : BwList) {j : Json} (h : Same (dump D m F bw) j) :
    load m path .null j = .ok (restored m bw) := by
  obtain ⟨o, rfl, hobject⟩ := h.exists_ordered
  obtain ⟨funcs, hfuncs, hsameFuncs⟩ := getObject_of_same "Funcs" hobject path rfl
  obtain ⟨callees, hcallees, hsameCallees⟩ := getObject_of_same "Callees" hobject path rfl
  refine bind_eq_ok.mpr ⟨o, rfl, ?_⟩
  refine bind_eq_ok.mpr ⟨funcs, hfuncs, ?_⟩
  refine bind_eq_ok.mpr ⟨_, load_table F.funcs_perm bw.funcs (fun _ _ => loadAnno_of_same _) unset hsameFuncs.of_order, ?_⟩
  refine bind_eq_ok.mpr ⟨callees, hcallees, ?_⟩
  refine bind_eq_ok.mpr ⟨_, load_table F.callees_perm bw.callees (fun _ _ => loadCallee_of_same _) false
    hsameCallees.of_order, ?_⟩
  refine bind_eq_ok.mpr ⟨_, getArray_of_same hobject path rfl, ?_⟩
  refine bind_eq_ok.mpr ⟨_, foldlM_loadName _ _ 0 _, ?_⟩
  refine bind_eq_ok.mpr ⟨_, mapBool_of_same hobject path rfl, ?_⟩
  have hnames : (fun g => BwList.null.fcpCmChop g || (isNamed m g &&
      decide (m.name g ∈ (F.fcpCmChop.filter bw.fcpCmChop).map m.name))) = (fun g => isNamed m g && bw.fcpCmChop g) := by
    funext g
    exact (Bool.false_or _).trans (mem_names F.fcpCmChop_perm bw.fcpCmChop g)
  rw [hnames]
  rfl

theorem plain_dump (F : Iteration m) (bw : BwList) : Plain (dump D m F bw) := by
  apply plain_order
  · simp
  · intro e he
    simp only [List.mem_cons, List.not_mem_nil, or_false] at he
    rcases he with rfl | rfl | rfl | rfl
    · obtain ⟨hnodup, hplain⟩ := plain_table (table m F.funcs bw.funcs).nodup (plain_funcBw D)
      exact plain_order D hnodup hplain
    · obtain ⟨hnodup, hplain⟩ := plain_table (table m F.callees bw.callees).nodup Same.boolean
      exact plain_order D hnodup hplain
    · exact plain_strings _
    · exact .boolean _

theorem restored_eq {bw : BwList}
    (h : ∀ g, isNamed m g = false → bw.funcs g = none ∧ bw.callees g = none ∧ bw.fcpCmChop g = false) : restored m bw = bw := by
  obtain ⟨funcs, callees, fcpCmChop, others⟩ := bw
  simp only [restored, BwList.mk.injEq, and_true]
  refine ⟨funext (fun g => ?_), funext (fun g => ?_), funext (fun g => ?_)⟩ <;> cases hg : isNamed m g
  · exact (h g hg).1.symm
  · rfl
  · exact (h g hg).2.1.symm
  · rfl
  · exact (h g hg).2.2.symm
  · exact Bool.true_and _

/-- A list that is written to a file and read for the same module is the list again, in
whatever order its containers and the members of objects come, but for the entries of
functions without a name. -/
theorem list_restored {Text : Type} (C : Printer Text) (D : MemberOrder) (m : PickModule) (F : Iteration m) (bw : BwList) :
    fromFile m C (toFile D m C F bw) = some (.ok (restored m bw)) ∧
      ((∀ g, isNamed m g = false → bw.funcs g = none ∧ bw.callees g = none ∧ bw.fcpCmChop g = false) →
        restored m bw = bw) := by
  obtain ⟨j, hparse, hsame⟩ := C.parse_print _ (plain_dump F bw)
  refine ⟨?_, restored_eq⟩
  rw [fromFile, toFile, hparse, Option.map_some, load_of_same [] F bw hsame]

def plainPrinter : Printer Json := ⟨id, some, fun j h => ⟨j, rfl, h⟩⟩

def Iteration.plain (m : PickModule) : Iteration m :=
  ⟨m.functions, m.functions, m.functions, List.Perm.refl _, List.Perm.refl _, List.Perm.refl _⟩

def oneList : BwList where
  funcs g := if g = 0 then some { unset with chopOff := some false } else none
  callees g := if g = 0 then some false else none
  fcpCmChop _ := false
  fcpCmChopOthers := false

theorem oneList_restored :
    fromFile (oneFunction []) plainPrinter (toFile plainOrder (oneFunction []) plainPrinter (.plain _) oneList) =
      some (.ok oneList) := by
  obtain ⟨hload, heq⟩ := list_restored plainPrinter plainOrder (oneFunction []) (.plain _) oneList
  rw [hload, heq]
  intro g hg
  have hne : g ≠ 0 := by
    rintro rfl
    exact Bool.false_ne_true (hg.symm.trans (by decide))
  simp [oneList, hne]

end RoundTrip

end Comulator.BwListJson
