import Comulator.HostTable

namespace Comulator.SymtblJson

open Fallible Types Ir TypeHash Symtbl Analyze AnalyzeSpec

/-- `llvm::json::Value`. The members of an object are in the order in which its
`DenseMap` is iterated. -/
inductive Json
  | null
  | boolean (b : Bool)
  | integer (n : Int)
  | double (payload : Nat)
  | string (s : String)
  | array (elements : List Json)
  | object (members : List (String × Json))

namespace Json

def getAsObject : Json → Option (List (String × Json))
  | .object members => some members
  | _ => none

def getAsArray : Json → Option (List Json)
  | .array elements => some elements
  | _ => none

def getAsString : Json → Option String
  | .string s => some s
  | _ => none

def getAsUINT64 : Json → Option Nat
  | .integer (.ofNat n) => some n
  | _ => none

end Json

/-- `llvm::utohexstr` with a width, which gives the number 0 a digit more. -/
def utohexstr (n width : Nat) : String :=
  String.ofList ((if n = 0 then ['0'] else []) ++ ((Nat.toDigits 16 n).map Char.toUpper).leftpad width '0')

def hash2str (h : HashCode) : String := utohexstr h 16

def hexDigit (c : Char) : Option Nat :=
  if '0' ≤ c ∧ c ≤ '9' then some (c.toNat - '0'.toNat)
  else if 'a' ≤ c ∧ c ≤ 'f' then some (c.toNat - 'a'.toNat + 10)
  else if 'A' ≤ c ∧ c ≤ 'F' then some (c.toNat - 'A'.toNat + 10)
  else none

def str2hash (s : String) : Option HashCode :=
  if s.isEmpty then none
  else s.toList.foldlM (fun n c => do
    let d ← hexDigit c
    if 16 * n + d < 2 ^ 64 then some (16 * n + d) else none) 0

/-- What LLVM does with the text of a declaration: `parse` finds the function
named `stub` in a text, if it is one and there is. -/
structure Text where
  print : FunctionType → AttributeList → String
  parse : String → Option (Option (FunctionType × AttributeList))

structure NamedModule extends Module where
  name : Nat → String

namespace NamedModule

variable (m : NamedModule)

def getNamedValue (s : String) : Option Nat :=
  if s.isEmpty then none else (List.range m.symbols.length).find? (fun g => m.name g == s)

def getFunction (s : String) : Option Nat :=
  (m.getNamedValue s).filter (fun g => (m.function? g).isSome)

end NamedModule

/-- The order in which the members of an object come, after they have been put
into its `DenseMap`. -/
structure MemberOrder where
  order : List (String × Json) → List (String × Json)
  perm : ∀ l, (order l).Perm l

section Dump

variable (H : HashOps) (T : Text) (m : NamedModule) (D : MemberOrder)

def dumpStub (st : StubInfo) : Json :=
  .object (D.order [("Uid", .integer st.uid), ("Func", .string (T.print st.func st.attrs))])

def dumpStubs (l : List (HashCode × StubInfo)) : Json :=
  .object (D.order (l.map (fun e => (hash2str e.1, dumpStub T D e.2))))

def dumpFunc (info : FuncInfo) : Option Json := do
  let typeHash ← functionTypeHash H info.stubType.func
  return .object (D.order [("Uid", .integer info.uid), ("StubInfo", .string (hash2str typeHash)),
    ("ExtRefArgs", .array (info.extRefArgs.map (fun r => .string (m.name r)))),
    ("CbStubArgs", .array (info.cbStubArgs.map (fun h => .string (hash2str h))))])

def dumpGref (info : GrefInfo) : Json := .object (D.order [("Uid", .integer info.uid)])

def dumpJson (t : Symtbl) : Option Json := do
  let functbl ← t.functbl.entries.mapM (fun e => (dumpFunc H m D e.2).map (fun j => (m.name e.1, j)))
  return .object (D.order [("Uid", .integer t.uid), ("CallingStubs", dumpStubs T D t.callingStubs.entries),
    ("CallbackStubs", dumpStubs T D t.callbackStubs.entries), ("Functbl", .object (D.order functbl)),
    ("Greftbl", .object (D.order (t.greftbl.entries.map (fun e => (m.name e.1, dumpGref D e.2)))))])

end Dump

inductive Segment
  | field (name : String)
  | index (i : Nat)
  deriving DecidableEq

structure Report where
  path : List Segment
  message : String
  deriving DecidableEq

structure LoadError where
  report : Report
  text : Option String
  deriving DecidableEq

abbrev Load := Except LoadError

def fail {α : Type} (path : List Segment) (message : String) (text : Option String) : Load α :=
  .error ⟨⟨path, message⟩, text⟩

def mapper (path : List Segment) (j : Json) : Load (List (String × Json)) :=
  match j.getAsObject with
  | some o => .ok o
  | none => fail path "expected object" none

def mapUint32 (path : List Segment) (o : List (String × Json)) (prop : String) : Load Nat :=
  match o.lookup prop with
  | none => fail (path ++ [.field prop]) "missing value" none
  | some v =>
      match v.getAsUINT64 with
      | some n => if n < 2 ^ 32 then .ok n else fail (path ++ [.field prop]) "expect uint32_t" none
      | none => fail (path ++ [.field prop]) "expect uint32_t" none

def mapString (path : List Segment) (o : List (String × Json)) (prop : String) : Load String :=
  match o.lookup prop with
  | none => fail (path ++ [.field prop]) "missing value" none
  | some v =>
      match v.getAsString with
      | some s => .ok s
      | none => fail (path ++ [.field prop]) "expected string" none

def getObject (path : List Segment) (o : List (String × Json)) (prop : String) : Load (List (String × Json)) :=
  match (o.lookup prop).bind Json.getAsObject with
  | some l => .ok l
  | none => fail (path ++ [.field prop]) "expect an object" none

def getArray (path : List Segment) (o : List (String × Json)) (prop : String) : Load (List Json) :=
  match (o.lookup prop).bind Json.getAsArray with
  | some l => .ok l
  | none => fail (path ++ [.field prop]) "expect an array" none

def getHash (path : List Segment) (s : String) : Load HashCode :=
  match str2hash s with
  | some h => .ok h
  | none => fail path "invalid type hash" (some "not a hex number")

def getElement (path : List Segment) (e : Json) : Load String :=
  match e.getAsString with
  | some s => .ok s
  | none => fail path "expect a string" none

section LoadParts

variable (T : Text) (m : NamedModule)

def loadStub (path : List Segment) (j : Json) : Load StubInfo := do
  let o ← mapper path j
  let uid ← mapUint32 path o "Uid"
  let funcStr ← mapString path o "Func"
  match T.parse funcStr with
  | none => fail (path ++ [.field "Func"]) "fail to parse IR" (some "")
  | some none => fail (path ++ [.field "Func"]) "no function named 'stub'" none
  | some (some (func, attrs)) => return { StubInfo.ofType func with attrs, uid }

def loadFunc (callingStubs : OrderedMap HashCode StubInfo) (path : List Segment) (j : Json) : Load FuncInfo := do
  let o ← mapper path j
  let uid ← mapUint32 path o "Uid"
  let stubTypeStr ← mapString path o "StubInfo"
  let typeHash ← getHash (path ++ [.field "StubInfo"]) stubTypeStr
  match callingStubs.find? typeHash with
  | none => fail (path ++ [.field "StubInfo"]) "Type not found" none
  | some stubType =>
      let extRefArgs ← (← getArray path o "ExtRefArgs").zipIdx.mapM (fun e => do
        let here := path ++ [.field "ExtRefArgs", .index e.2]
        let name ← getElement here e.1
        match m.getNamedValue name with
        | some r => return r
        | none => fail here "Value not found" none)
      let cbStubArgs ← (← getArray path o "CbStubArgs").zipIdx.mapM (fun e => do
        let here := path ++ [.field "CbStubArgs", .index e.2]
        let name ← getElement here e.1
        getHash here name)
      return ⟨uid, stubType, extRefArgs, cbStubArgs⟩

def loadGref (path : List Segment) (j : Json) : Load GrefInfo := do
  let o ← mapper path j
  let uid ← mapUint32 path o "Uid"
  return ⟨uid⟩

end LoadParts

inductive Member (K V : Type)
  | entry (k : K) (v : V)
  | skipped (r : Report)

/-- The loops: an entry is emplaced, so that the first one under a key stays. -/
def loadMembers {K V : Type} [DecidableEq K] (before : K → K → Bool) (read : String × Json → Load (Member K V)) :
    List (String × Json) → OrderedMap K V → List Report → Load (OrderedMap K V × List Report)
  | [], map, reports => .ok (map, reports)
  | e :: l, map, reports => do
      match ← read e with
      | .entry k v => loadMembers before read l (map.tryEmplace before k v) reports
      | .skipped r => loadMembers before read l map (reports ++ [r])

section Load

variable (T : Text) (m : NamedModule) (before : Nat → Nat → Bool)

def readStub (path : List Segment) (e : String × Json) : Load (Member HashCode StubInfo) := do
  let h ← getHash (path ++ [.field e.1]) e.1
  let st ← loadStub T (path ++ [.field e.1]) e.2
  return .entry h st

def readFunc (callingStubs : OrderedMap HashCode StubInfo) (path : List Segment) (e : String × Json) :
    Load (Member Nat FuncInfo) :=
  match m.getFunction e.1 with
  | none => return .skipped ⟨path ++ [.field e.1], "Function not found"⟩
  | some g => do
      let info ← loadFunc m callingStubs (path ++ [.field e.1]) e.2
      return .entry g info

def readGref (path : List Segment) (e : String × Json) : Load (Member Nat GrefInfo) :=
  match m.getNamedValue e.1 with
  | none => return .skipped ⟨path ++ [.field e.1], "GlobalValue not found"⟩
  | some g => do
      let info ← loadGref (path ++ [.field e.1]) e.2
      return .entry g info

def loadJson (j : Json) : Load (Symtbl × List Report) := do
  let o ← mapper [] j
  let uid ← mapUint32 [] o "Uid"
  let calling ← getObject [] o "CallingStubs"
  let (callingStubs, reports) ← loadMembers hashBefore (readStub T [.field "CallingStubs"]) calling .empty []
  let callback ← getObject [] o "CallbackTypes"
  let (callbackStubs, reports) ← loadMembers hashBefore (readStub T [.field "CallbackTypes"]) callback .empty reports
  let functions ← getObject [] o "Functbl"
  let (functbl, reports) ← loadMembers before (readFunc m callingStubs [.field "Functbl"]) functions .empty reports
  let grefs ← getObject [] o "Greftbl"
  let (greftbl, reports) ← loadMembers before (readGref m [.field "Greftbl"]) grefs .empty reports
  return (⟨uid, callingStubs, callbackStubs, functbl, greftbl⟩, reports)

end Load

section RoundTrip

variable {H : HashOps} {T : Text} {m : NamedModule} {D : MemberOrder}

variable (T m D) in
/-- The stub of a function in the table of `Analyze` has a hashable type. -/
theorem dump_analyze (L : Layout) (bw : BwList) (uid : Nat) :
    ∃ j, dumpJson H T m D (analyze H L m.toModule bw uid) = some j := by
  have hwf := analyze_wellFormed H L m.toModule bw uid
  have hall : ∃ r, (analyze H L m.toModule bw uid).functbl.entries.mapM
      (fun e => (dumpFunc H m D e.2).map (fun j => (m.name e.1, j))) = some r := by
    apply mapM_some_of_mem
    rintro ⟨g, info⟩ he
    obtain ⟨f, scan, h, hentry⟩ := hwf.entries g info (OrderedMap.mem_entries.mp he)
    obtain ⟨g', f', _, hhash, hst⟩ := hwf.calling h info.stubType hentry.stub
    have hfunc : info.stubType.func = f'.type := congrArg StubInfo.func hst
    obtain ⟨k, hk, _⟩ := Option.bind_eq_some_iff.mp hhash
    refine ⟨_, Option.map_eq_some_iff.mpr ⟨_, Option.bind_eq_some_iff.mpr ⟨k, ?_, rfl⟩, rfl⟩⟩
    rw [hfunc]
    exact hk
  obtain ⟨r, hr⟩ := hall
  exact ⟨_, Option.bind_eq_some_iff.mpr ⟨r, hr, rfl⟩⟩

theorem dump_keys {t : Symtbl} {j : Json} (h : dumpJson H T m D t = some j) :
    ∃ o, j = .object o ∧ (o.map Prod.fst).Perm ["Uid", "CallingStubs", "CallbackStubs", "Functbl", "Greftbl"] := by
  obtain ⟨functbl, _, h⟩ := Option.bind_eq_some_iff.mp h
  cases h
  exact ⟨_, rfl, (D.perm _).map Prod.fst⟩

theorem lookup_dump {t : Symtbl} {o : List (String × Json)} (h : dumpJson H T m D t = some (.object o)) :
    o.lookup "CallbackTypes" = none := by
  obtain ⟨o', ho, hkeys⟩ := dump_keys h
  cases ho
  cases hlookup : o.lookup "CallbackTypes" with
  | none => rfl
  | some v =>
      have hmem : "CallbackTypes" ∈ o.map Prod.fst := List.mem_map.mpr ⟨_, OrderedMap.mem_of_lookup hlookup, rfl⟩
      exact absurd (hkeys.mem_iff.mp hmem) (by decide)

end RoundTrip

/-- No table that `Analyze` builds can be loaded after it has been dumped: the
callback stubs are written under one name and looked for under another. -/
theorem load_dump_fails (H : HashOps) (L : Layout) (T : Text) (m : NamedModule) (D : MemberOrder) (bw : BwList)
    (uid : Nat) : ∃ j e, dumpJson H T m D (analyze H L m.toModule bw uid) = some j ∧
      loadJson T m L.before j = .error e := by
  obtain ⟨j, hj⟩ := dump_analyze T m D L bw uid
  obtain ⟨o, rfl, _⟩ := dump_keys hj
  cases hload : loadJson T m L.before (.object o) with
  | error e => exact ⟨_, e, hj, hload⟩
  | ok r =>
      obtain ⟨_, hmapper, hload⟩ := bind_eq_ok.mp hload
      cases hmapper
      obtain ⟨_, _, hload⟩ := bind_eq_ok.mp hload
      obtain ⟨_, _, hload⟩ := bind_eq_ok.mp hload
      obtain ⟨_, _, hload⟩ := bind_eq_ok.mp hload
      obtain ⟨_, hcallback, _⟩ := bind_eq_ok.mp hload
      rw [getObject, lookup_dump hj] at hcallback
      cases hcallback

def voidText : Text := ⟨fun _ _ => "declare void @stub()", fun _ => some (some (⟨.void, [], false⟩, ⟨[]⟩))⟩

def namedEmpty : NamedModule := ⟨HostTable.emptyModule, fun g => if g = 0 then "f" else ""⟩

/-- The table of the module with one function that does nothing. -/
theorem emptyTable_lost : ∃ j,
    dumpJson HostTable.sumHash voidText namedEmpty ⟨id, fun l => .refl l⟩
        (analyze HostTable.sumHash HostTable.plainLayout namedEmpty.toModule .null 7) = some j ∧
      (voidText.parse (voidText.print ⟨.void, [], false⟩ ⟨[]⟩) = some (some (⟨.void, [], false⟩, ⟨[]⟩))) ∧
      loadJson voidText namedEmpty HostTable.plainLayout.before j =
        .error ⟨⟨[.field "CallbackTypes"], "expect an object"⟩, none⟩ := by
  exact ⟨_, rfl, rfl, rfl⟩

end Comulator.SymtblJson
