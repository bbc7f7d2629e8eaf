import Comulator.JsonText
import Comulator.PickUp
import Mathlib.Data.List.Dedup

namespace Comulator.ConfigJson

open Fallible Ir Symtbl SymtblJson JsonText PickUp

section Python

structure FuncBwModel where
  outline : Option Bool
  analyze : Option Bool
  takeOut : Option Bool
  chopOff : Option Bool

structure NameSet where
  elements : List String
  nodup : elements.Nodup

def NameSet.ofList (l : List String) : NameSet := ⟨l.dedup, l.nodup_dedup⟩

structure BwListModel where
  funcs : OrderedMap String FuncBwModel
  callees : OrderedMap String Bool
  fcpCmChop : NameSet
  fcpCmChopOthers : Bool

def BwListModel.empty : BwListModel := ⟨.empty, .empty, .ofList [], false⟩

structure ConfigModel where
  debug : Bool
  llOrBc : Bool
  minBasicBlocks : Int
  minInstructions : Int
  usePFO : Bool
  useGRT : Bool
  useFCP : Bool
  useFCPcm : Bool
  bwList : Option BwListModel

def replace (a b : Char) (s : String) : String := String.ofList (s.toList.map (fun c => if c = a then b else c))

variable {Text : Type} (J : Libraries Text)

def FuncBwModel.dict (f : FuncBwModel) : List (String × Option Bool) :=
  [("outline", f.outline), ("analyze", f.analyze), ("take_out", f.takeOut), ("chop_off", f.chopOff)]

def FuncBwModel.data (f : FuncBwModel) : List (String × Json) :=
  f.dict.filterMap (fun e => e.2.map (fun value => (replace '_' '-' e.1, .boolean value)))

def FuncBwModel.modelDumpJson (f : FuncBwModel) (indent : Nat) : Text := J.dumps (some indent) false (.object f.data)

def BwListModel.modelDumpJson (b : BwListModel) (indent : Nat) : Option Text := do
  let funcs ← b.funcs.entries.mapM (fun e => (J.loads (e.2.modelDumpJson J 2)).map (fun j => (e.1, j)))
  return J.dumps (some indent) false (.object [("Funcs", .object funcs),
    ("Callees", .object (b.callees.entries.map (fun e => (e.1, .boolean e.2)))),
    ("FCPcmChop", .array (b.fcpCmChop.elements.map .string)), ("FCPcmChopOthers", .boolean b.fcpCmChopOthers)])

def ConfigModel.bwData (c : ConfigModel) : Option Json :=
  match c.bwList with
  | none => some .null
  | some b => (b.modelDumpJson J 2).bind J.loads

def ConfigModel.modelDumpJson (c : ConfigModel) (indent : Nat) : Option Text := do
  let bwList ← c.bwData J
  return J.dumps (some indent) false (.object [("Debug", .boolean c.debug), ("LLorBC", .boolean c.llOrBc),
    ("MinBasicBlocks", .integer c.minBasicBlocks), ("MinInstructions", .integer c.minInstructions),
    ("UsePFO", .boolean c.usePFO), ("UseGRT", .boolean c.useGRT), ("UseFCP", .boolean c.useFCP),
    ("UseFCPcm", .boolean c.useFCPcm), ("BwList", bwList)])

/-- A keyword argument. The constructors take values of any type; the model stops
at one that is not of the type the field is declared with. -/
def kwarg {α : Type} (cast : Json → Option α) (default : α) (data : List (String × Json)) (name : String) : Option α :=
  match data.lookup name with
  | none => some default
  | some v => cast v

def checkNames (fields : List String) (data : List (String × Json)) : Option Unit :=
  if data.all (fun e => e.1 ∈ fields) then some () else none

def asBool : Json → Option Bool
  | .boolean b => some b
  | _ => none

def asOptional : Json → Option (Option Bool)
  | .null => some none
  | .boolean b => some (some b)
  | _ => none

def asInt : Json → Option Int
  | .integer n => some n
  | _ => none

def FuncBwModel.ofJson (value : Json) : Option FuncBwModel := do
  let members ← value.getAsObject
  let data := (members.map (fun e => (replace '-' '_' e.1, e.2))).reverse
  checkNames ["outline", "analyze", "take_out", "chop_off"] data
  let outline ← kwarg asOptional none data "outline"
  let analyze ← kwarg asOptional none data "analyze"
  let takeOut ← kwarg asOptional none data "take_out"
  let chopOff ← kwarg asOptional none data "chop_off"
  return ⟨outline, analyze, takeOut, chopOff⟩

def toDict {α : Type} (cast : Json → Option α) (value : Json) : Option (OrderedMap String α) := do
  let members ← value.getAsObject
  let entries ← members.mapM (fun e => (cast e.2).map (fun x => (e.1, x)))
  if h : (entries.map Prod.fst).Nodup then some ⟨entries, h⟩ else none

def toSet : Json → Option NameSet
  | .array l => (l.mapM Json.getAsString).map NameSet.ofList
  | .string s => some (NameSet.ofList (s.toList.map String.singleton))
  | .object members => some (NameSet.ofList (members.map Prod.fst))
  | _ => none

def BwListModel.modelValidateJson (text : Text) : Option BwListModel := do
  let data ← (J.loads text).bind Json.getAsObject
  checkNames ["Funcs", "Callees", "FCPcmChop", "FCPcmChopOthers"] data
  let funcs ← kwarg (toDict FuncBwModel.ofJson) .empty data "Funcs"
  let callees ← kwarg (toDict asBool) .empty data "Callees"
  let fcpCmChop ← kwarg toSet (.ofList []) data "FCPcmChop"
  let fcpCmChopOthers ← kwarg asBool false data "FCPcmChopOthers"
  return ⟨funcs, callees, fcpCmChop, fcpCmChopOthers⟩

/-- An empty dictionary is not converted, and is then neither of the two. -/
def toBwList : Json → Option (Option BwListModel)
  | .null => some none
  | .object (e :: l) => (BwListModel.modelValidateJson J (J.dumps none true (.object (e :: l)))).map some
  | _ => none

def ConfigModel.modelValidateJson (text : Text) : Option ConfigModel := do
  let loaded ← (J.loads text).bind Json.getAsObject
  let data := loaded.filter (fun e => e.1 ≠ "name")
  checkNames ["Debug", "LLorBC", "MinBasicBlocks", "MinInstructions", "UsePFO", "UseGRT", "UseFCP", "UseFCPcm", "BwList"]
    data
  let debug ← kwarg asBool true data "Debug"
  let llOrBc ← kwarg asBool true data "LLorBC"
  let minBasicBlocks ← kwarg asInt 0 data "MinBasicBlocks"
  let minInstructions ← kwarg asInt 0 data "MinInstructions"
  let usePFO ← kwarg asBool false data "UsePFO"
  let useGRT ← kwarg asBool false data "UseGRT"
  let useFCP ← kwarg asBool false data "UseFCP"
  let useFCPcm ← kwarg asBool false data "UseFCPcm"
  let bwList ← kwarg (toBwList J) none data "BwList"
  return ⟨debug, llOrBc, minBasicBlocks, minInstructions, usePFO, useGRT, useFCP, useFCPcm, bwList⟩

end Python

section Cxx

structure FullConfig where
  llOrBc : Bool
  debug : Bool
  usePFO : Bool
  useGRT : Bool
  useFCP : Bool
  useFCPcm : Bool
  minBasicBlocks : Nat
  minInstructions : Nat
  bwList : PickConfig

def noPick : PickConfig := ⟨[], [], [], false, List.nodup_nil, List.nodup_nil⟩

def FullConfig.initial : FullConfig := ⟨false, false, false, false, false, false, 2, 10, noPick⟩

variable (D : MemberOrder)

def dumpOptional : Option Bool → Json
  | none => .null
  | some b => .boolean b

def dumpFuncBw (bw : FuncBw) : Json :=
  .object (D.order [("outline", dumpOptional bw.outline), ("analyze", dumpOptional bw.analyze),
    ("chop-off", dumpOptional bw.chopOff), ("take-out", dumpOptional bw.takeOut)])

def dumpPickUp (config : PickConfig) : Json :=
  .object (D.order [("Funcs", .object (D.order (config.funcs.map (fun e => (e.1, dumpFuncBw D e.2))))),
    ("Callees", .object (D.order (config.callees.map (fun e => (e.1, .boolean e.2))))),
    ("FCPcmChop", .array (config.fcpCmChop.map .string)), ("FCPcmChopOthers", .boolean config.fcpCmChopOthers)])

def dumpConfig (config : FullConfig) : Json :=
  .object (D.order [("LLorBC", .boolean config.llOrBc), ("Debug", .boolean config.debug),
    ("UsePFO", .boolean config.usePFO), ("UseGRT", .boolean config.useGRT), ("UseFCP", .boolean config.useFCP),
    ("UseFCPcm", .boolean config.useFCPcm), ("MinBasicBlocks", .integer config.minBasicBlocks),
    ("MinInstructions", .integer config.minInstructions), ("BwList", dumpPickUp D config.bwList)])

variable (path : List Segment) (o : List (String × Json)) (prop : String)

def mapBool : Load Bool :=
  match o.lookup prop with
  | none => fail (path ++ [.field prop]) "missing value" none
  | some v =>
      match asBool v with
      | some b => .ok b
      | none => fail (path ++ [.field prop]) "expected boolean" none

def mapOptional : Load (Option Bool) :=
  match o.lookup prop with
  | none => .ok none
  | some v =>
      match asOptional v with
      | some b => .ok b
      | none => fail (path ++ [.field prop]) "expected boolean" none

def readString (e : Json × Nat) : Load String :=
  match e.1.getAsString with
  | some s => .ok s
  | none => fail (path ++ [.field prop, .index e.2]) "expected string" none

def mapStrings : Load (List String) :=
  match o.lookup prop with
  | none => fail (path ++ [.field prop]) "missing value" none
  | some v =>
      match v.getAsArray with
      | none => fail (path ++ [.field prop]) "expected array" none
      | some l => l.zipIdx.mapM (readString path prop)

def loadFuncBw (j : Json) : Load FuncBw := do
  let o ← mapper path j
  let outline ← mapOptional path o "outline"
  let analyze ← mapOptional path o "analyze"
  let chopOff ← mapOptional path o "chop-off"
  let takeOut ← mapOptional path o "take-out"
  return ⟨outline, analyze, chopOff, takeOut⟩

def loadCallee (j : Json) : Load Bool :=
  match asBool j with
  | some b => .ok b
  | none => fail path "expect a boolean" none

def loadTable {V : Type} (read : String × Json → Load V) : List (String × Json) → OrderedMap String V →
    Load (OrderedMap String V)
  | [], table => .ok table
  | e :: l, table => do
      let v ← read e
      loadTable read l (table.assign e.1 v)

def loadPickUp (config : PickConfig) (j : Json) : Load PickConfig := do
  let o ← mapper path j
  let funcs ← getObject path o "Funcs"
  let mFuncs ← loadTable (fun e => loadFuncBw (path ++ [.field "Funcs", .field e.1]) e.2) funcs
    ⟨config.funcs, config.funcs_nodup⟩
  let callees ← getObject path o "Callees"
  let mCallees ← loadTable (fun e => loadCallee (path ++ [.field "Callees"]) e.2) callees
    ⟨config.callees, config.callees_nodup⟩
  let fcpCmChop ← mapStrings path o "FCPcmChop"
  let fcpCmChopOthers ← mapBool path o "FCPcmChopOthers"
  return ⟨mFuncs.entries, mCallees.entries, fcpCmChop, fcpCmChopOthers, mFuncs.nodup, mCallees.nodup⟩

def loadBwList (config : PickConfig) : Load PickConfig :=
  match (o.lookup "BwList").bind Json.getAsObject with
  | some l => loadPickUp (path ++ [.field "BwList"]) config (.object l)
  | none => .ok config

def loadConfig (config : FullConfig) (j : Json) : Load FullConfig := do
  let o ← mapper path j
  let llOrBc ← mapBool path o "LLorBC"
  let debug ← mapBool path o "Debug"
  let usePFO ← mapBool path o "UsePFO"
  let useGRT ← mapBool path o "UseGRT"
  let useFCP ← mapBool path o "UseFCP"
  let useFCPcm ← mapBool path o "UseFCPcm"
  let minBasicBlocks ← mapUint32 path o "MinBasicBlocks"
  let minInstructions ← mapUint32 path o "MinInstructions"
  let bwList ← loadBwList path o config.bwList
  return ⟨llOrBc, debug, usePFO, useGRT, useFCP, useFCPcm, minBasicBlocks, minInstructions, bwList⟩

end Cxx

section Tables

variable {V β : Type} {l l' : List (String × Json)}

theorem mapM_table {cast : Json → Option β} (f : String → β) (h : ∀ e ∈ l, cast e.2 = some (f e.1)) :
    l.mapM (fun e => (cast e.2).map (fun x => (e.1, x))) = some (l.map (fun e => (e.1, f e.1))) := by
  induction l with
  | nil => rfl
  | cons e l ih =>
      rw [List.mapM_cons, h e List.mem_cons_self, ih (fun d hd => h d (List.mem_cons_of_mem _ hd))]
      rfl

theorem loadTable_ok {read : String × Json → Load β} (f : String → β) (h : ∀ e ∈ l, read e = .ok (f e.1))
    (table : OrderedMap String β) : ∃ t, loadTable read l table = .ok t ∧
      ∀ k, t.find? k = if k ∈ l.map Prod.fst then some (f k) else table.find? k := by
  induction l generalizing table with
  | nil => exact ⟨table, rfl, fun k => (if_neg List.not_mem_nil).symm⟩
  | cons e l ih =>
      obtain ⟨t, ht, hfind⟩ := ih (fun d hd => h d (List.mem_cons_of_mem _ hd)) (table.assign e.1 (f e.1))
      refine ⟨t, ?_, fun k => ?_⟩
      · rw [loadTable, h e List.mem_cons_self]
        exact ht
      · rw [hfind, OrderedMap.find?_assign, List.map_cons]
        by_cases hmem : k ∈ l.map Prod.fst
        · rw [if_pos hmem, if_pos (List.mem_cons_of_mem _ hmem)]
        · by_cases hk : k = e.1
          · rw [if_neg hmem, if_pos hk, if_pos (List.mem_cons.mpr (.inl hk)), hk]
          · rw [if_neg hmem, if_neg hk, if_neg (List.not_mem_cons_of_ne_of_not_mem hk hmem)]

variable {m : OrderedMap String V} {dump : V → Json} (h : SameObject (m.entries.map (fun e => (e.1, dump e.2))) l')
include h

theorem table_value {e : String × Json} (he : e ∈ l') : ∃ v, m.find? e.1 = some v ∧ Same (dump v) e.2 := by
  obtain ⟨j, hj, hsame⟩ := h.mem_of he
  obtain ⟨⟨k, v⟩, hkv, heq⟩ := List.mem_map.mp hj
  cases heq
  exact ⟨v, OrderedMap.mem_entries.mp hkv, hsame⟩

theorem table_keys (k : String) : k ∈ l'.map Prod.fst ↔ (m.find? k).isSome = true := by
  have hkeys : (m.entries.map (fun e => (e.1, dump e.2))).map Prod.fst = m.entries.map Prod.fst := by
    rw [List.map_map]
    rfl
  rw [h.keys.mem_iff, hkeys, ← not_iff_not, ← OrderedMap.find?_eq_none]
  cases m.find? k <;> simp

variable (m dump) in
/-- A table that is read member by member has the entries that were written. -/
theorem loadTable_of_same (read : String × Json → Load β) (g : V → β) (d : β)
    (hread : ∀ k v v', Same (dump v) v' → read (k, v') = .ok (g v)) :
    ∃ t, loadTable read l' .empty = .ok t ∧ ∀ k, t.find? k = (m.find? k).map g := by
  have hall : ∀ e ∈ l', read e = .ok (((m.find? e.1).map g).getD d) := by
    intro e he
    obtain ⟨v, hv, hsame⟩ := table_value h he
    rw [hread e.1 v e.2 hsame, hv]
    rfl
  obtain ⟨t, ht, hfind⟩ := loadTable_ok (fun k => ((m.find? k).map g).getD d) hall .empty
  refine ⟨t, ht, fun k => ?_⟩
  rw [hfind]
  cases hv : m.find? k with
  | none =>
      rw [if_neg (by rw [table_keys h, hv]; exact Bool.false_ne_true)]
      rfl
  | some v =>
      rw [if_pos (by rw [table_keys h, hv]; rfl)]
      rfl

variable (m dump) in
theorem toDict_of_same (cast : Json → Option β) (g : V → β) (d : β)
    (hcast : ∀ v v', Same (dump v) v' → cast v' = some (g v)) :
    ∃ t, toDict cast (.object l') = some t ∧ ∀ k, t.find? k = (m.find? k).map g := by
  have hall : ∀ e ∈ l', cast e.2 = some (((m.find? e.1).map g).getD d) := by
    intro e he
    obtain ⟨v, hv, hsame⟩ := table_value h he
    rw [hcast v e.2 hsame, hv]
    rfl
  have hkeys : (l'.map (fun e => (e.1, ((m.find? e.1).map g).getD d))).map Prod.fst = l'.map Prod.fst := by
    rw [List.map_map]
    rfl
  have hnodup : ((l'.map (fun e => (e.1, ((m.find? e.1).map g).getD d))).map Prod.fst).Nodup := by
    rw [hkeys]
    exact h.nodup_right
  refine ⟨⟨_, hnodup⟩, ?_, fun k => ?_⟩
  · simp only [toDict, Json.getAsObject, Option.bind_eq_bind, Option.bind_some]
    rw [mapM_table (fun k => ((m.find? k).map g).getD d) hall, Option.bind_some, dif_pos hnodup]
  · cases hv : m.find? k with
    | none =>
        rw [Option.map_none, OrderedMap.find?_eq_none, hkeys, table_keys h, hv]
        exact Bool.false_ne_true
    | some v =>
        have hmem : k ∈ l'.map Prod.fst := by
          rw [table_keys h, hv]
          rfl
        obtain ⟨e, he, rfl⟩ := List.mem_map.mp hmem
        refine OrderedMap.mem_entries.mp (List.mem_map.mpr ⟨e, he, ?_⟩)
        rw [hv]
        rfl

end Tables

section Fields

variable {l l' : List (String × Json)} {name : String} {v : Json}

variable (h : SameObject l l')
include h

theorem checkNames_of_same {fields : List String} (hfields : l.map Prod.fst ⊆ fields) : checkNames fields l' = some () := by
  refine if_pos (List.all_eq_true.mpr (fun e he => decide_eq_true (hfields ?_)))
  exact h.keys.mem_iff.mp (List.mem_map_of_mem he)

theorem kwarg_bool {b d : Bool} (hv : l.lookup name = some (.boolean b)) : kwarg asBool d l' name = some b := by
  obtain ⟨v', hv', hsame⟩ := h.lookup_some hv
  unfold kwarg
  rw [hv']
  cases hsame
  rfl

theorem kwarg_int {n d : Int} (hv : l.lookup name = some (.integer n)) : kwarg asInt d l' name = some n := by
  obtain ⟨v', hv', hsame⟩ := h.lookup_some hv
  unfold kwarg
  rw [hv']
  cases hsame
  rfl

theorem kwarg_optional {b d : Option Bool} (hv : l.lookup name = some (dumpOptional b)) :
    kwarg asOptional d l' name = some b := by
  obtain ⟨v', hv', hsame⟩ := h.lookup_some hv
  unfold kwarg
  rw [hv']
  cases b <;> cases hsame <;> rfl

variable (name) in
theorem kwarg_dict {V α : Type} {D : MemberOrder} {entries : List (String × V)} (hnodup : (entries.map Prod.fst).Nodup)
    (dump : V → Json) (cast : Json → Option α) (g : V → α) (d : α)
    (hv : l.lookup name = some (.object (D.order (entries.map (fun e => (e.1, dump e.2))))))
    (hcast : ∀ v v', Same (dump v) v' → cast v' = some (g v)) :
    ∃ t, kwarg (toDict cast) .empty l' name = some t ∧ ∀ k, t.find? k = (entries.lookup k).map g := by
  obtain ⟨v', hv', hsame⟩ := h.lookup_some hv
  obtain ⟨members, rfl, hobject⟩ := hsame.exists_ordered
  unfold kwarg
  rw [hv']
  exact toDict_of_same ⟨entries, hnodup⟩ dump hobject cast g d hcast

variable (name) in
theorem kwarg_set {names : List String} {d : NameSet} (hv : l.lookup name = some (.array (names.map .string))) :
    ∃ x, kwarg toSet d l' name = some x ∧ ∀ s, s ∈ x.elements ↔ s ∈ names := by
  obtain ⟨v', hv', hsame⟩ := h.lookup_some hv
  have hstrings : (names.map Json.string).mapM Json.getAsString = some names := by
    rw [List.mapM_map]
    exact List.mapM_pure.trans (congrArg some (List.map_id _))
  unfold kwarg
  rw [hv']
  cases hsame with
  | array helements =>
      refine ⟨NameSet.ofList names, ?_, fun s => List.mem_dedup⟩
      dsimp only
      rw [helements.strings, toSet, hstrings]
      rfl

variable (path : List Segment)

theorem mapBool_of_same {b : Bool} (hv : l.lookup name = some (.boolean b)) : mapBool path l' name = .ok b := by
  obtain ⟨v', hv', hsame⟩ := h.lookup_some hv
  unfold mapBool
  rw [hv']
  cases hsame
  rfl

theorem mapUint32_of_same {n : Int} (hv : l.lookup name = some (.integer n)) (hn : 0 ≤ n ∧ n < 2 ^ 32) :
    mapUint32 path l' name = .ok n.toNat := by
  obtain ⟨v', hv', hsame⟩ := h.lookup_some hv
  unfold mapUint32
  rw [hv']
  cases hsame
  obtain ⟨k, rfl⟩ := Int.eq_ofNat_of_zero_le hn.1
  exact if_pos (by omega)

/-- A member that is missing or null stands for no value. -/
theorem mapOptional_of_same {b : Option Bool} (hv : (l.lookup name).elim (some none) asOptional = some b) :
    mapOptional path l' name = .ok b := by
  rw [mapOptional]
  cases hl : l.lookup name with
  | none =>
      rw [hl] at hv
      cases hv
      rw [h.lookup_none hl]
  | some v =>
      obtain ⟨v', hv', hsame⟩ := h.lookup_some hl
      rw [hl] at hv
      have hb : asOptional v' = some b := by
        cases hsame with
        | null | boolean => exact hv
        | _ => cases hv
      simp only [hv', hb]

variable (name) in
theorem getObject_of_same {members : List (String × Json)} (hv : l.lookup name = some (.object members)) :
    ∃ members', getObject path l' name = .ok members' ∧ SameObject members members' := by
  obtain ⟨v', hv', hsame⟩ := h.lookup_some hv
  obtain ⟨members', rfl, hobject⟩ := hsame.exists_object
  refine ⟨members', ?_, hobject⟩
  unfold getObject
  rw [hv']
  rfl

theorem mapStrings_of_same {names : List String} (hv : l.lookup name = some (.array (names.map .string))) :
    mapStrings path l' name = .ok names := by
  obtain ⟨v', hv', hsame⟩ := h.lookup_some hv
  have hread : ∀ n, ((names.map Json.string).zipIdx n).mapM (readString path name) = .ok names := by
    clear hv hsame
    induction names with
    | nil => exact fun n => rfl
    | cons s names ih =>
        intro n
        rw [List.map_cons, List.zipIdx_cons, List.mapM_cons, ih]
        rfl
  unfold mapStrings
  rw [hv']
  cases hsame with
  | array helements =>
      rw [helements.strings]
      exact hread 0

end Fields

section Functions

def FuncBwModel.settings (f : FuncBwModel) : FuncBw := ⟨f.outline, f.analyze, f.chopOff, f.takeOut⟩

def modelOf (bw : FuncBw) : FuncBwModel := ⟨bw.outline, bw.analyze, bw.takeOut, bw.chopOff⟩

def present (l : List (String × Option Bool)) : List (String × Json) :=
  l.filterMap (fun e => e.2.map (fun value => (e.1, .boolean value)))

theorem mem_keys_present {l : List (String × Option Bool)} {k : String} (h : k ∈ (present l).map Prod.fst) :
    k ∈ l.map Prod.fst := by
  obtain ⟨e, he, rfl⟩ := List.mem_map.mp h
  obtain ⟨d, hd, heq⟩ := List.mem_filterMap.mp he
  obtain ⟨b, _, rfl⟩ := Option.map_eq_some_iff.mp heq
  exact List.mem_map_of_mem hd

theorem present_plain {l : List (String × Option Bool)} (hl : (l.map Prod.fst).Nodup) : Plain (.object (present l)) := by
  refine plain_object ?_ (fun e he => ?_)
  · induction l with
    | nil => exact List.nodup_nil
    | cons e l ih =>
        obtain ⟨k, b⟩ := e
        rw [List.map_cons, List.nodup_cons] at hl
        cases b with
        | none => exact ih hl.2
        | some b => exact List.nodup_cons.mpr ⟨fun hmem => hl.1 (mem_keys_present hmem), ih hl.2⟩
  · obtain ⟨d, _, hd⟩ := List.mem_filterMap.mp he
    obtain ⟨b, _, rfl⟩ := Option.map_eq_some_iff.mp hd
    exact .boolean b

theorem lookup_present {l : List (String × Option Bool)} (hl : (l.map Prod.fst).Nodup) {k : String} {b : Option Bool}
    (h : (k, b) ∈ l) : (present l).lookup k = b.map Json.boolean := by
  induction l with
  | nil => cases h
  | cons e l ih =>
      obtain ⟨k', b'⟩ := e
      rw [List.map_cons, List.nodup_cons] at hl
      rcases List.mem_cons.mp h with heq | hmem
      · cases heq
        cases b with
        | none =>
            cases hv : (present l).lookup k with
            | none => exact hv
            | some v => exact absurd (mem_keys_present (List.mem_map_of_mem (OrderedMap.mem_of_lookup hv))) hl.1
        | some b => exact List.lookup_cons_self
      · have hne : k ≠ k' := by
          rintro rfl
          exact hl.1 (List.mem_map.mpr ⟨_, hmem, rfl⟩)
        cases b' with
        | none => exact ih hl.2 hmem
        | some b' =>
            refine Eq.trans ?_ (ih hl.2 hmem)
            simp only [present, List.filterMap_cons, Option.map_some, List.lookup_cons, beq_false_of_ne hne]

namespace FuncBwModel

variable (f : FuncBwModel)

def named : List (String × Option Bool) :=
  [("outline", f.outline), ("analyze", f.analyze), ("take-out", f.takeOut), ("chop-off", f.chopOff)]

theorem named_nodup : (f.named.map Prod.fst).Nodup := by
  simp [named]

theorem data_eq : f.data = present f.named := by
  have hnamed : f.named = f.dict.map (fun e => (replace '_' '-' e.1, e.2)) := by
    have houtline : replace '_' '-' "outline" = "outline" := rfl
    have hanalyze : replace '_' '-' "analyze" = "analyze" := rfl
    have htakeOut : replace '_' '-' "take_out" = "take-out" := rfl
    have hchopOff : replace '_' '-' "chop_off" = "chop-off" := rfl
    simp only [named, dict, List.map_cons, List.map_nil, houtline, hanalyze, htakeOut, hchopOff]
  rw [hnamed, present, List.filterMap_map]
  rfl

end FuncBwModel

theorem loadFuncBw_of_same (path : List Segment) {f : FuncBwModel} {j : Json} (h : Same (.object f.data) j) :
    loadFuncBw path j = .ok f.settings := by
  rw [f.data_eq] at h
  obtain ⟨o, rfl, hobject⟩ := h.exists_object
  have hlookup : ∀ k b, (k, b) ∈ f.named → mapOptional path o k = .ok b :=
    fun k b hmem => mapOptional_of_same hobject path (by rw [lookup_present f.named_nodup hmem]; cases b <;> rfl)
  refine bind_eq_ok.mpr ⟨o, rfl, ?_⟩
  refine bind_eq_ok.mpr ⟨_, hlookup "outline" f.outline (by simp [FuncBwModel.named]), ?_⟩
  refine bind_eq_ok.mpr ⟨_, hlookup "analyze" f.analyze (by simp [FuncBwModel.named]), ?_⟩
  refine bind_eq_ok.mpr ⟨_, hlookup "chop-off" f.chopOff (by simp [FuncBwModel.named]), ?_⟩
  refine bind_eq_ok.mpr ⟨_, hlookup "take-out" f.takeOut (by simp [FuncBwModel.named]), ?_⟩
  rfl

theorem loadCallee_of_same (path : List Segment) {b : Bool} {j : Json} (h : Same (.boolean b) j) :
    loadCallee path j = .ok b := by
  cases h
  rfl

theorem asBool_of_same {b : Bool} {j : Json} (h : Same (.boolean b) j) : asBool j = some b := by
  cases h
  rfl

theorem plain_optional (b : Option Bool) : Plain (dumpOptional b) := by
  cases b with
  | none => exact .null
  | some b => exact .boolean b

theorem plain_funcBw (D : MemberOrder) (bw : FuncBw) : Plain (dumpFuncBw D bw) := by
  apply plain_order
  · simp
  · intro e he
    simp only [List.mem_cons, List.not_mem_nil, or_false] at he
    rcases he with rfl | rfl | rfl | rfl <;> exact plain_optional _

theorem ofJson_of_same {D : MemberOrder} {bw : FuncBw} {j : Json} (h : Same (dumpFuncBw D bw) j) :
    FuncBwModel.ofJson j = some (modelOf bw) := by
  obtain ⟨o, rfl, hobject⟩ := h.exists_ordered
  have hnames : [("outline", dumpOptional bw.outline), ("analyze", dumpOptional bw.analyze),
      ("chop-off", dumpOptional bw.chopOff), ("take-out", dumpOptional bw.takeOut)].map
        (fun e => (replace '-' '_' e.1, e.2)) =
      [("outline", dumpOptional bw.outline), ("analyze", dumpOptional bw.analyze),
        ("chop_off", dumpOptional bw.chopOff), ("take_out", dumpOptional bw.takeOut)] := by
    have houtline : replace '-' '_' "outline" = "outline" := rfl
    have hanalyze : replace '-' '_' "analyze" = "analyze" := rfl
    have htakeOut : replace '-' '_' "take-out" = "take_out" := rfl
    have hchopOff : replace '-' '_' "chop-off" = "chop_off" := rfl
    simp only [List.map_cons, List.map_nil, houtline, hanalyze, htakeOut, hchopOff]
  have hdata := hobject.renamed (by rw [hnames]; simp)
  rw [hnames] at hdata
  refine Option.bind_eq_some_iff.mpr ⟨(), checkNames_of_same hdata (by simp), ?_⟩
  refine Option.bind_eq_some_iff.mpr ⟨_, kwarg_optional hdata rfl, ?_⟩
  refine Option.bind_eq_some_iff.mpr ⟨_, kwarg_optional hdata rfl, ?_⟩
  refine Option.bind_eq_some_iff.mpr ⟨_, kwarg_optional hdata rfl, ?_⟩
  refine Option.bind_eq_some_iff.mpr ⟨_, kwarg_optional hdata rfl, ?_⟩
  rfl

end Functions

section Lists

structure SameList (b : BwListModel) (p : PickConfig) : Prop where
  funcs : ∀ name, p.funcs.lookup name = (b.funcs.find? name).map FuncBwModel.settings
  callees : ∀ name, p.callees.lookup name = b.callees.find? name
  fcpCmChop : ∀ name, name ∈ p.fcpCmChop ↔ name ∈ b.fcpCmChop.elements
  fcpCmChopOthers : p.fcpCmChopOthers = b.fcpCmChopOthers

structure BwListModel.Equal (b b' : BwListModel) : Prop where
  funcs : ∀ name, b.funcs.find? name = b'.funcs.find? name
  callees : ∀ name, b.callees.find? name = b'.callees.find? name
  fcpCmChop : ∀ name, name ∈ b.fcpCmChop.elements ↔ name ∈ b'.fcpCmChop.elements
  fcpCmChopOthers : b.fcpCmChopOthers = b'.fcpCmChopOthers

variable {Text : Type} (J : Libraries Text)

def BwListModel.members (b : BwListModel) : List (String × Json) :=
  [("Funcs", .object (b.funcs.entries.map (fun e => (e.1, .object e.2.data)))),
    ("Callees", .object (b.callees.entries.map (fun e => (e.1, .boolean e.2)))),
    ("FCPcmChop", .array (b.fcpCmChop.elements.map .string)), ("FCPcmChopOthers", .boolean b.fcpCmChopOthers)]

theorem plain_table {V : Type} {l : List (String × V)} (hnodup : (l.map Prod.fst).Nodup) {dump : V → Json}
    (h : ∀ v, Plain (dump v)) : ((l.map (fun e => (e.1, dump e.2))).map Prod.fst).Nodup ∧
      ∀ e ∈ l.map (fun e => (e.1, dump e.2)), Plain e.2 := by
  constructor
  · rw [List.map_map]
    exact hnodup
  · intro e he
    obtain ⟨d, _, rfl⟩ := List.mem_map.mp he
    exact h d.2

theorem data_plain (f : FuncBwModel) : Plain (.object f.data) := by
  rw [f.data_eq]
  exact present_plain f.named_nodup

theorem members_plain (b : BwListModel) : Plain (.object b.members) := by
  apply plain_object
  · simp [BwListModel.members]
  · intro e he
    simp only [BwListModel.members, List.mem_cons, List.not_mem_nil, or_false] at he
    rcases he with rfl | rfl | rfl | rfl
    · obtain ⟨hnodup, hplain⟩ := plain_table b.funcs.nodup data_plain
      exact plain_object hnodup hplain
    · obtain ⟨hnodup, hplain⟩ := plain_table b.callees.nodup Same.boolean
      exact plain_object hnodup hplain
    · exact plain_strings _
    · exact .boolean _

theorem dump_bwList (b : BwListModel) (indent : Nat) :
    b.modelDumpJson J indent = some (J.dumps (some indent) false (.object b.members)) := by
  have hloads : ∀ e : String × FuncBwModel, (J.loads (e.2.modelDumpJson J 2)).map (fun j => (e.1, j)) =
      some (e.1, .object e.2.data) := by
    intro e
    rw [FuncBwModel.modelDumpJson, J.loads_dumps _ _ _ (data_plain e.2)]
    rfl
  have hfuncs : b.funcs.entries.mapM (fun e => (J.loads (e.2.modelDumpJson J 2)).map (fun j => (e.1, j))) =
      some (b.funcs.entries.map (fun e => (e.1, .object e.2.data))) := by
    simp only [hloads]
    exact List.mapM_pure
  exact Option.bind_eq_some_iff.mpr ⟨_, hfuncs, rfl⟩

/-- What the scripts write of a list is loaded as this list. -/
theorem loadPickUp_of_same (path : List Segment) {b : BwListModel} {j : Json} (h : Same (.object b.members) j) :
    ∃ p, loadPickUp path noPick j = .ok p ∧ SameList b p := by
  obtain ⟨o, rfl, hobject⟩ := h.exists_object
  obtain ⟨funcs, hfuncs, hfuncsSame⟩ := getObject_of_same "Funcs" hobject path rfl
  obtain ⟨callees, hcallees, hcalleesSame⟩ := getObject_of_same "Callees" hobject path rfl
  obtain ⟨mFuncs, hmFuncs, hfindFuncs⟩ := loadTable_of_same b.funcs (fun f => .object f.data) hfuncsSame
    (fun e => loadFuncBw (path ++ [.field "Funcs", .field e.1]) e.2) FuncBwModel.settings unset
    (fun k _ _ hv => loadFuncBw_of_same (path ++ [.field "Funcs", .field k]) hv)
  obtain ⟨mCallees, hmCallees, hfindCallees⟩ := loadTable_of_same b.callees Json.boolean hcalleesSame
    (fun e => loadCallee (path ++ [.field "Callees"]) e.2) id false
    (fun _ _ _ hv => loadCallee_of_same (path ++ [.field "Callees"]) hv)
  refine ⟨⟨mFuncs.entries, mCallees.entries, b.fcpCmChop.elements, b.fcpCmChopOthers, mFuncs.nodup, mCallees.nodup⟩, ?_,
    hfindFuncs, ?_, ?_, ?_⟩
  · refine bind_eq_ok.mpr ⟨o, rfl, ?_⟩
    refine bind_eq_ok.mpr ⟨funcs, hfuncs, ?_⟩
    refine bind_eq_ok.mpr ⟨mFuncs, hmFuncs, ?_⟩
    refine bind_eq_ok.mpr ⟨callees, hcallees, ?_⟩
    refine bind_eq_ok.mpr ⟨mCallees, hmCallees, ?_⟩
    refine bind_eq_ok.mpr ⟨_, mapStrings_of_same hobject path rfl, ?_⟩
    refine bind_eq_ok.mpr ⟨_, mapBool_of_same hobject path rfl, ?_⟩
    rfl
  · intro name
    exact (hfindCallees name).trans (congrFun Option.map_id _)
  · exact fun name => Iff.rfl
  · rfl

variable (D : MemberOrder)

theorem plain_pickUp (p : PickConfig) : Plain (dumpPickUp D p) := by
  apply plain_order
  · simp
  · intro e he
    simp only [List.mem_cons, List.not_mem_nil, or_false] at he
    rcases he with rfl | rfl | rfl | rfl
    · obtain ⟨hnodup, hplain⟩ := plain_table p.funcs_nodup (plain_funcBw D)
      exact plain_order D hnodup hplain
    · obtain ⟨hnodup, hplain⟩ := plain_table p.callees_nodup Same.boolean
      exact plain_order D hnodup hplain
    · exact plain_strings _
    · exact .boolean _

variable {D}

/-- What is written of a list is read by the scripts as an equal one. -/
theorem validate_bwList {b : BwListModel} {p : PickConfig} (hsame : SameList b p) {j : Json}
    (h : Same (dumpPickUp D p) j) (indent : Option Nat) (ascii : Bool) :
    ∃ b', BwListModel.modelValidateJson J (J.dumps indent ascii j) = some b' ∧ b'.Equal b := by
  have hplain := h.right
  obtain ⟨o, rfl, hobject⟩ := h.exists_ordered
  obtain ⟨funcs, hfuncs, hfindFuncs⟩ := kwarg_dict "Funcs" hobject p.funcs_nodup (dumpFuncBw D) FuncBwModel.ofJson modelOf
    (modelOf unset) rfl (fun _ _ hv => ofJson_of_same hv)
  obtain ⟨callees, hcallees, hfindCallees⟩ := kwarg_dict "Callees" hobject p.callees_nodup Json.boolean asBool id false rfl
    (fun _ _ hv => asBool_of_same hv)
  obtain ⟨names, hnames, hmem⟩ := kwarg_set "FCPcmChop" hobject rfl
  refine ⟨⟨funcs, callees, names, p.fcpCmChopOthers⟩, ?_, ?_, ?_, ?_, hsame.fcpCmChopOthers⟩
  · refine Option.bind_eq_some_iff.mpr ⟨o, ?_, ?_⟩
    · rw [J.loads_dumps _ _ _ hplain]
      rfl
    refine Option.bind_eq_some_iff.mpr ⟨(), checkNames_of_same hobject (by simp), ?_⟩
    refine Option.bind_eq_some_iff.mpr ⟨funcs, hfuncs, ?_⟩
    refine Option.bind_eq_some_iff.mpr ⟨callees, hcallees, ?_⟩
    refine Option.bind_eq_some_iff.mpr ⟨names, hnames, ?_⟩
    refine Option.bind_eq_some_iff.mpr ⟨_, kwarg_bool hobject rfl, ?_⟩
    rfl
  · intro name
    rw [hfindFuncs, hsame.funcs, Option.map_map]
    exact congrFun Option.map_id _
  · intro name
    rw [hfindCallees, hsame.callees]
    exact congrFun Option.map_id _
  · exact fun name => (hmem name).trans (hsame.fcpCmChop name)

end Lists

section Configs

/-- The two configurations have the same flags, thresholds and lists; no list reads
as the empty one. -/
structure Agrees (c : ConfigModel) (config : FullConfig) : Prop where
  llOrBc : config.llOrBc = c.llOrBc
  debug : config.debug = c.debug
  usePFO : config.usePFO = c.usePFO
  useGRT : config.useGRT = c.useGRT
  useFCP : config.useFCP = c.useFCP
  useFCPcm : config.useFCPcm = c.useFCPcm
  minBasicBlocks : (config.minBasicBlocks : Int) = c.minBasicBlocks
  minInstructions : (config.minInstructions : Int) = c.minInstructions
  bwList : SameList (c.bwList.getD .empty) config.bwList

structure ConfigModel.Equal (c c' : ConfigModel) : Prop where
  debug : c.debug = c'.debug
  llOrBc : c.llOrBc = c'.llOrBc
  minBasicBlocks : c.minBasicBlocks = c'.minBasicBlocks
  minInstructions : c.minInstructions = c'.minInstructions
  usePFO : c.usePFO = c'.usePFO
  useGRT : c.useGRT = c'.useGRT
  useFCP : c.useFCP = c'.useFCP
  useFCPcm : c.useFCPcm = c'.useFCPcm
  bwList : Option.Rel BwListModel.Equal c.bwList c'.bwList

def ConfigModel.filled (c : ConfigModel) : ConfigModel := { c with bwList := some (c.bwList.getD .empty) }

def ConfigModel.bwMember (c : ConfigModel) : Json :=
  match c.bwList with
  | none => .null
  | some b => .object b.members

def ConfigModel.members (c : ConfigModel) : List (String × Json) :=
  [("Debug", .boolean c.debug), ("LLorBC", .boolean c.llOrBc), ("MinBasicBlocks", .integer c.minBasicBlocks),
    ("MinInstructions", .integer c.minInstructions), ("UsePFO", .boolean c.usePFO), ("UseGRT", .boolean c.useGRT),
    ("UseFCP", .boolean c.useFCP), ("UseFCPcm", .boolean c.useFCPcm), ("BwList", c.bwMember)]

variable {Text : Type} (J : Libraries Text) (D : MemberOrder) (c : ConfigModel)

theorem dump_config (indent : Nat) :
    c.modelDumpJson J indent = some (J.dumps (some indent) false (.object c.members)) := by
  refine Option.bind_eq_some_iff.mpr ⟨c.bwMember, ?_, rfl⟩
  unfold ConfigModel.bwData ConfigModel.bwMember
  cases c.bwList with
  | none => rfl
  | some b =>
      refine Option.bind_eq_some_iff.mpr ⟨_, dump_bwList J b 2, ?_⟩
      exact J.loads_dumps _ _ _ (members_plain b)

def IsUint32 (n : Int) : Prop := 0 ≤ n ∧ n < 2 ^ 32

theorem IsUint32.plain {n : Int} (h : IsUint32 n) : Plain (.integer n) :=
  .integer ⟨by have := h.1; omega, by have := h.2; omega⟩

variable {c} (hblocks : IsUint32 c.minBasicBlocks) (hinsts : IsUint32 c.minInstructions)
include hblocks hinsts

theorem config_plain : Plain (.object c.members) := by
  apply plain_object
  · simp [ConfigModel.members]
  · intro e he
    simp only [ConfigModel.members, List.mem_cons, List.not_mem_nil, or_false] at he
    rcases he with rfl | rfl | rfl | rfl | rfl | rfl | rfl | rfl | rfl
    · exact .boolean _
    · exact .boolean _
    · exact hblocks.plain
    · exact hinsts.plain
    · exact .boolean _
    · exact .boolean _
    · exact .boolean _
    · exact .boolean _
    · dsimp only [ConfigModel.bwMember]
      cases c.bwList with
      | none => exact .null
      | some b => exact members_plain b

omit hblocks hinsts in
theorem loadBwList_of_same {l : List (String × Json)} (h : SameObject c.members l) :
    ∃ p, loadBwList [] l noPick = .ok p ∧ SameList (c.bwList.getD .empty) p := by
  obtain ⟨v', hv', hsame⟩ := h.lookup_some (k := "BwList") rfl
  unfold loadBwList
  rw [hv']
  unfold ConfigModel.bwMember at hsame
  cases hb : c.bwList with
  | none =>
      rw [hb] at hsame
      cases hsame
      exact ⟨noPick, rfl, fun _ => rfl, fun _ => rfl, fun _ => Iff.rfl, rfl⟩
  | some b =>
      rw [hb] at hsame
      obtain ⟨l', rfl, _⟩ := hsame.exists_object
      exact loadPickUp_of_same _ hsame

/-- What the scripts write is loaded as the same configuration. -/
theorem loadConfig_of_same {j : Json} (h : Same (.object c.members) j) :
    ∃ config, loadConfig [] .initial j = .ok config ∧ Agrees c config := by
  obtain ⟨o, rfl, hobject⟩ := h.exists_object
  obtain ⟨p, hp, hlist⟩ := loadBwList_of_same hobject
  refine ⟨⟨c.llOrBc, c.debug, c.usePFO, c.useGRT, c.useFCP, c.useFCPcm, c.minBasicBlocks.toNat, c.minInstructions.toNat, p⟩,
    ?_, rfl, rfl, rfl, rfl, rfl, rfl, Int.toNat_of_nonneg hblocks.1, Int.toNat_of_nonneg hinsts.1, hlist⟩
  refine bind_eq_ok.mpr ⟨o, rfl, ?_⟩
  refine bind_eq_ok.mpr ⟨_, mapBool_of_same hobject [] rfl, ?_⟩
  refine bind_eq_ok.mpr ⟨_, mapBool_of_same hobject [] rfl, ?_⟩
  refine bind_eq_ok.mpr ⟨_, mapBool_of_same hobject [] rfl, ?_⟩
  refine bind_eq_ok.mpr ⟨_, mapBool_of_same hobject [] rfl, ?_⟩
  refine bind_eq_ok.mpr ⟨_, mapBool_of_same hobject [] rfl, ?_⟩
  refine bind_eq_ok.mpr ⟨_, mapBool_of_same hobject [] rfl, ?_⟩
  refine bind_eq_ok.mpr ⟨_, mapUint32_of_same hobject [] rfl hblocks, ?_⟩
  refine bind_eq_ok.mpr ⟨_, mapUint32_of_same hobject [] rfl hinsts, ?_⟩
  refine bind_eq_ok.mpr ⟨p, hp, ?_⟩
  rfl

variable {config : FullConfig} (hagrees : Agrees c config)
include hagrees

theorem dumpConfig_plain : Plain (dumpConfig D config) := by
  apply plain_order
  · simp
  · intro e he
    simp only [List.mem_cons, List.not_mem_nil, or_false] at he
    rcases he with rfl | rfl | rfl | rfl | rfl | rfl | rfl | rfl | rfl
    · exact .boolean _
    · exact .boolean _
    · exact .boolean _
    · exact .boolean _
    · exact .boolean _
    · exact .boolean _
    · exact IsUint32.plain (hagrees.minBasicBlocks ▸ hblocks)
    · exact IsUint32.plain (hagrees.minInstructions ▸ hinsts)
    · exact plain_pickUp D config.bwList

omit hblocks hinsts in
theorem toBwList_of_same {j : Json} (h : Same (dumpPickUp D config.bwList) j) :
    ∃ b', toBwList J j = some (some b') ∧ b'.Equal (c.bwList.getD .empty) := by
  obtain ⟨b', hb', hequal⟩ := validate_bwList J hagrees.bwList h none true
  refine ⟨b', ?_, hequal⟩
  obtain ⟨o, rfl, hobject⟩ := h.exists_ordered
  cases o with
  | nil => exact absurd hobject.keys.length_eq (by simp)
  | cons e l => exact Option.map_eq_some_iff.mpr ⟨b', hb', rfl⟩

omit hblocks hinsts in
/-- What is written of the configuration is read by the scripts as an equal one. -/
theorem validate_config {j : Json} (h : Same (dumpConfig D config) j) {text : Text} (htext : J.loads text = some j) :
    ∃ c', ConfigModel.modelValidateJson J text = some c' ∧ c'.Equal c.filled := by
  obtain ⟨o, rfl, hobject⟩ := h.exists_ordered
  obtain ⟨v', hv', hsame⟩ := hobject.lookup_some (k := "BwList") rfl
  obtain ⟨b', hb', hequal⟩ := toBwList_of_same J D hagrees hsame
  have hname := hobject.filter (k := "name") (by simp)
  refine ⟨⟨config.debug, config.llOrBc, config.minBasicBlocks, config.minInstructions, config.usePFO, config.useGRT,
    config.useFCP, config.useFCPcm, some b'⟩, ?_, hagrees.debug, hagrees.llOrBc, hagrees.minBasicBlocks,
    hagrees.minInstructions, hagrees.usePFO, hagrees.useGRT, hagrees.useFCP, hagrees.useFCPcm, .some hequal⟩
  refine Option.bind_eq_some_iff.mpr ⟨o, ?_, ?_⟩
  · rw [htext]
    rfl
  rw [hname]
  refine Option.bind_eq_some_iff.mpr ⟨(), checkNames_of_same hobject (by simp), ?_⟩
  refine Option.bind_eq_some_iff.mpr ⟨_, kwarg_bool hobject rfl, ?_⟩
  refine Option.bind_eq_some_iff.mpr ⟨_, kwarg_bool hobject rfl, ?_⟩
  refine Option.bind_eq_some_iff.mpr ⟨_, kwarg_int hobject rfl, ?_⟩
  refine Option.bind_eq_some_iff.mpr ⟨_, kwarg_int hobject rfl, ?_⟩
  refine Option.bind_eq_some_iff.mpr ⟨_, kwarg_bool hobject rfl, ?_⟩
  refine Option.bind_eq_some_iff.mpr ⟨_, kwarg_bool hobject rfl, ?_⟩
  refine Option.bind_eq_some_iff.mpr ⟨_, kwarg_bool hobject rfl, ?_⟩
  refine Option.bind_eq_some_iff.mpr ⟨_, kwarg_bool hobject rfl, ?_⟩
  refine Option.bind_eq_some_iff.mpr ⟨some b', ?_, rfl⟩
  unfold kwarg
  rw [hv']
  exact hb'

omit hagrees in
/-- The two codecs agree on every configuration of the scripts. -/
theorem codecs_agree (indent : Nat) : ∃ text j config, c.modelDumpJson J indent = some text ∧ J.parse text = some j ∧
    loadConfig [] .initial j = .ok config ∧ Agrees c config ∧
      ∃ c', ConfigModel.modelValidateJson J (J.print (dumpConfig D config)) = some c' ∧ c'.Equal c.filled := by
  obtain ⟨j, hparse, hsame⟩ := J.parse_dumps (some indent) false _ (config_plain hblocks hinsts)
  obtain ⟨config, hload, hagrees⟩ := loadConfig_of_same hblocks hinsts hsame
  obtain ⟨j', hloads, hsame'⟩ := J.loads_print _ (dumpConfig_plain D hblocks hinsts hagrees)
  exact ⟨_, j, config, dump_config J c indent, hparse, hload, hagrees,
    validate_config J D hagrees hsame' hloads⟩

omit hblocks hinsts hagrees

def values : Libraries Json where
  dumps _ _ j := j
  loads j := some j
  print j := j
  parse j := some j
  loads_dumps _ _ _ _ := rfl
  parse_dumps _ _ j h := ⟨j, rfl, h⟩
  loads_print j h := ⟨j, rfl, h⟩

def plainOrder : MemberOrder := ⟨id, fun l => List.Perm.refl l⟩

def listed : ConfigModel :=
  ⟨true, false, 0, 2 ^ 32 - 1, true, false, true, false,
    some ⟨⟨[("f", ⟨some true, none, some false, none⟩)], by decide⟩, ⟨[("λ", true)], by decide⟩, ⟨["f"], by decide⟩, true⟩⟩

theorem listed_agrees : ∃ text j config, listed.modelDumpJson values 2 = some text ∧ values.parse text = some j ∧
    loadConfig [] .initial j = .ok config ∧ Agrees listed config ∧
      ∃ c', ConfigModel.modelValidateJson values (values.print (dumpConfig plainOrder config)) = some c' ∧
        c'.Equal listed.filled :=
  codecs_agree values plainOrder ⟨by decide, by decide⟩ ⟨by decide, by decide⟩ 2

end Configs

end Comulator.ConfigJson
