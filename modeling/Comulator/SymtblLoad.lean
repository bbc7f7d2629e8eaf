import Comulator.FirstSeen
import Comulator.SymtblJson

namespace Comulator.SymtblLoad

open Fallible Types Ir TypeHash Symtbl Analyze SymtblJson
open FirstSeen (add firsts add_of_mem add_of_not_mem)

section Firsts

variable {K R : Type} [DecidableEq K]

variable {V : Type} {before : K → K → Bool} {proj : V → R}

def projected (proj : V → R) (map : OrderedMap K V) : List (K × R) := map.entries.map (fun e => (e.1, proj e.2))

theorem mem_keys_projected (proj : V → R) {map : OrderedMap K V} {k : K} :
    k ∈ (projected proj map).map Prod.fst ↔ map.find? k ≠ none := by
  rw [Ne, OrderedMap.find?_eq_none, not_not, projected, List.map_map]
  rfl

theorem tryEmplace_add {map : OrderedMap K V} {acc : List (K × R)} (h : (projected proj map).Perm acc) (k : K)
    (v : V) : (projected proj (map.tryEmplace before k v)).Perm (add Prod.fst acc (k, proj v)) := by
  have hkey : k ∈ acc.map Prod.fst ↔ map.find? k ≠ none := by
    rw [← (h.map Prod.fst).mem_iff]
    exact mem_keys_projected proj
  cases hfind : map.find? k with
  | none =>
      have hnew : k ∉ acc.map Prod.fst := by
        rw [hkey, not_not]
        exact hfind
      rw [add_of_not_mem hnew]
      refine ((OrderedMap.entries_tryEmplace hfind).map _).trans ?_
      rw [List.map_cons]
      exact (h.cons _).trans (List.perm_append_singleton _ _).symm
  | some u =>
      have hold : k ∈ acc.map Prod.fst := by
        rw [hkey, hfind]
        exact Option.some_ne_none u
      rw [add_of_mem hold, OrderedMap.tryEmplace_of_some hfind]
      exact h

end Firsts

/-- The loop over the members of an object fills the map with the first rows. -/
theorem loadMembers_perm {K V R : Type} [DecidableEq K] {before : K → K → Bool}
    {read : String × Json → Load (Member K V)} {row : String × Json → Option (K × R)} {proj : V → R}
    (hentry : ∀ e k v, read e = .ok (.entry k v) → row e = some (k, proj v))
    (hskipped : ∀ e r, read e = .ok (.skipped r) → row e = none) {l : List (String × Json)}
    {map map' : OrderedMap K V} {reports reports' : List Report} {acc : List (K × R)}
    (hacc : (projected proj map).Perm acc) (h : loadMembers before read l map reports = .ok (map', reports')) :
    (projected proj map').Perm ((l.filterMap row).foldl (add Prod.fst) acc) := by
  induction l generalizing map reports acc with
  | nil =>
      cases h
      exact hacc
  | cons e l ih =>
      obtain ⟨member, hread, h⟩ := bind_eq_ok.mp h
      cases member with
      | entry k v =>
          rw [List.filterMap_cons, hentry e k v hread]
          exact ih (tryEmplace_add hacc k v) h
      | skipped r =>
          rw [List.filterMap_cons, hskipped e r hread]
          exact ih hacc h

structure Safe (t : Symtbl) : Prop where
  functions : OrderedMap.Numbered FuncInfo.uid t.functbl
  grefs : OrderedMap.Numbered GrefInfo.uid t.greftbl
  callbacks : OrderedMap.Numbered StubInfo.uid t.callbackStubs
  extRefs : ∀ g info, t.functbl.find? g = some info → ∀ r ∈ info.extRefArgs, t.greftbl.find? r ≠ none
  cbStubs : ∀ g info, t.functbl.find? g = some info → ∀ h ∈ info.cbStubArgs, t.callbackStubs.find? h ≠ none

def members (j : Json) (prop : String) : List (String × Json) :=
  ((j.getAsObject.bind (fun o => o.lookup prop)).bind Json.getAsObject).getD []

def uidOf (j : Json) : Option Nat := (j.getAsObject.bind (fun o => o.lookup "Uid")).bind Json.getAsUINT64

def texts (j : Json) (prop : String) : List String :=
  (((j.getAsObject.bind (fun o => o.lookup prop)).bind Json.getAsArray).getD []).filterMap Json.getAsString

structure FuncRow where
  uid : Nat
  extRefs : List Nat
  cbStubs : List HashCode

section Rows

variable (m : NamedModule)

def stubRow (e : String × Json) : Option (HashCode × Nat) := do
  let h ← str2hash e.1
  let uid ← uidOf e.2
  return (h, uid)

def funcRow (e : String × Json) : Option (Nat × FuncRow) := do
  let g ← m.getFunction e.1
  let uid ← uidOf e.2
  return (g, ⟨uid, (texts e.2 "ExtRefArgs").filterMap m.getNamedValue, (texts e.2 "CbStubArgs").filterMap str2hash⟩)

def grefRow (e : String × Json) : Option (Nat × Nat) := do
  let g ← m.getNamedValue e.1
  let uid ← uidOf e.2
  return (g, uid)

def callbackRows (j : Json) : List (HashCode × Nat) := firsts Prod.fst ((members j "CallbackTypes").filterMap stubRow)

def functionRows (j : Json) : List (Nat × FuncRow) := firsts Prod.fst ((members j "Functbl").filterMap (funcRow m))

def grefRows (j : Json) : List (Nat × Nat) := firsts Prod.fst ((members j "Greftbl").filterMap (grefRow m))

def Numbers (l : List Nat) : Prop := l.Perm (List.range l.length)
  deriving Decidable

structure Consistent (j : Json) : Prop where
  functions : Numbers ((functionRows m j).map (fun e => e.2.uid))
  grefs : Numbers ((grefRows m j).map Prod.snd)
  callbacks : Numbers ((callbackRows j).map Prod.snd)
  extRefs : ∀ e ∈ functionRows m j, ∀ r ∈ e.2.extRefs, r ∈ (grefRows m j).map Prod.fst
  cbStubs : ∀ e ∈ functionRows m j, ∀ h ∈ e.2.cbStubs, h ∈ (callbackRows j).map Prod.fst

end Rows

section Reading

variable {T : Text} {m : NamedModule} {path : List Segment} {j : Json} {o : List (String × Json)}

theorem mapper_ok (h : mapper path j = .ok o) : j.getAsObject = some o := by
  unfold mapper at h
  split at h
  next o' ho =>
    cases h
    exact ho
  next => cases h

theorem mapUint32_ok {prop : String} {n : Nat} (h : mapUint32 path o prop = .ok n) :
    (o.lookup prop).bind Json.getAsUINT64 = some n := by
  unfold mapUint32 at h
  split at h
  next => cases h
  next v hv =>
    split at h
    next k hk =>
      split at h
      next =>
        cases h
        rw [hv, Option.bind_some, hk]
      next => cases h
    next => cases h

theorem getObject_ok {prop : String} {l : List (String × Json)} (h : getObject path o prop = .ok l) :
    (o.lookup prop).bind Json.getAsObject = some l := by
  unfold getObject at h
  split at h
  next l' hl =>
    cases h
    exact hl
  next => cases h

theorem getArray_ok {prop : String} {l : List Json} (h : getArray path o prop = .ok l) :
    (o.lookup prop).bind Json.getAsArray = some l := by
  unfold getArray at h
  split at h
  next l' hl =>
    cases h
    exact hl
  next => cases h

theorem getHash_ok {s : String} {h : HashCode} (hh : getHash path s = .ok h) : str2hash s = some h := by
  unfold getHash at hh
  split at hh
  next k hk =>
    cases hh
    exact hk
  next => cases hh

theorem getElement_ok {e : Json} {s : String} (h : getElement path e = .ok s) : e.getAsString = some s := by
  unfold getElement at h
  split at h
  next s' hs =>
    cases h
    exact hs
  next => cases h

theorem uidOf_eq {n : Nat} (ho : mapper path j = .ok o) (hn : mapUint32 path o "Uid" = .ok n) : uidOf j = some n := by
  rw [uidOf, mapper_ok ho]
  exact mapUint32_ok hn

theorem members_eq {prop : String} {l : List (String × Json)} (ho : mapper path j = .ok o)
    (hl : getObject path o prop = .ok l) : members j prop = l := by
  rw [members, mapper_ok ho]
  simp only [Option.bind_some, getObject_ok hl, Option.getD_some]

/-- Elements that are all read give the texts that are all found. -/
theorem texts_filterMap {α : Type} {f : String → Option α} {prop : String} {l : List Json} {rs : List α}
    (ho : mapper path j = .ok o) (hl : getArray path o prop = .ok l)
    (h : List.Forall₂ (fun e r => e.1.getAsString.bind f = some r) l.zipIdx rs) :
    (texts j prop).filterMap f = rs := by
  have hall : ∀ (n : Nat) (l : List Json) (rs : List α),
      List.Forall₂ (fun (e : Json × Nat) r => e.1.getAsString.bind f = some r) (l.zipIdx n) rs →
        (l.filterMap Json.getAsString).filterMap f = rs := by
    intro n l
    induction l generalizing n with
    | nil =>
        intro rs h
        cases h
        rfl
    | cons e l ih =>
        intro rs h
        rw [List.zipIdx_cons] at h
        cases h with
        | cons he h =>
            obtain ⟨s, hs, hf⟩ := Option.bind_eq_some_iff.mp he
            rw [List.filterMap_cons, hs, List.filterMap_cons, hf, ih _ _ h]
  rw [texts, mapper_ok ho]
  simp only [Option.bind_some, getArray_ok hl, Option.getD_some]
  exact hall 0 l rs h

theorem readStub_row {e : String × Json} {k : HashCode} {st : StubInfo}
    (h : readStub T path e = .ok (.entry k st)) : stubRow e = some (k, st.uid) := by
  obtain ⟨hash, hhash, h⟩ := bind_eq_ok.mp h
  obtain ⟨st', hst, h⟩ := bind_eq_ok.mp h
  cases h
  obtain ⟨o, ho, hst⟩ := bind_eq_ok.mp hst
  obtain ⟨uid, huid, hst⟩ := bind_eq_ok.mp hst
  obtain ⟨func, _, hst⟩ := bind_eq_ok.mp hst
  have hst : st.uid = uid := by
    split at hst
    next => cases hst
    next => cases hst
    next =>
      cases hst
      rfl
  simp only [stubRow, getHash_ok hhash, uidOf_eq ho huid, hst]
  rfl

theorem readStub_not_skipped {e : String × Json} {r : Report} : readStub T path e ≠ .ok (.skipped r) := by
  intro h
  obtain ⟨_, _, h⟩ := bind_eq_ok.mp h
  obtain ⟨_, _, h⟩ := bind_eq_ok.mp h
  cases h

theorem loadFunc_row {callingStubs : OrderedMap HashCode StubInfo} {info : FuncInfo}
    (h : loadFunc m callingStubs path j = .ok info) : uidOf j = some info.uid ∧
      (texts j "ExtRefArgs").filterMap m.getNamedValue = info.extRefArgs ∧
      (texts j "CbStubArgs").filterMap str2hash = info.cbStubArgs := by
  obtain ⟨o, ho, h⟩ := bind_eq_ok.mp h
  obtain ⟨uid, huid, h⟩ := bind_eq_ok.mp h
  obtain ⟨_, _, h⟩ := bind_eq_ok.mp h
  obtain ⟨hash, _, h⟩ := bind_eq_ok.mp h
  split at h
  next => cases h
  next stubType _ =>
    obtain ⟨exts, hexts, h⟩ := bind_eq_ok.mp h
    obtain ⟨extRefs, hext, h⟩ := bind_eq_ok.mp h
    obtain ⟨cbs, hcbs, h⟩ := bind_eq_ok.mp h
    obtain ⟨cbStubs, hcb, h⟩ := bind_eq_ok.mp h
    cases h
    refine ⟨uidOf_eq ho huid, texts_filterMap ho hexts ?_, texts_filterMap ho hcbs ?_⟩
    · refine (mapM_eq_ok.mp hext).imp (fun e r he => ?_)
      obtain ⟨s, hs, he⟩ := bind_eq_ok.mp he
      rw [getElement_ok hs, Option.bind_some]
      split at he
      next r' hr =>
        cases he
        exact hr
      next => cases he
    · refine (mapM_eq_ok.mp hcb).imp (fun e r he => ?_)
      obtain ⟨s, hs, he⟩ := bind_eq_ok.mp he
      rw [getElement_ok hs, Option.bind_some]
      exact getHash_ok he

def rowOf (info : FuncInfo) : FuncRow := ⟨info.uid, info.extRefArgs, info.cbStubArgs⟩

theorem readFunc_row {callingStubs : OrderedMap HashCode StubInfo} {e : String × Json} {g : Nat} {info : FuncInfo}
    (h : readFunc m callingStubs path e = .ok (.entry g info)) : funcRow m e = some (g, rowOf info) := by
  unfold readFunc at h
  split at h
  next => cases h
  next k hk =>
    obtain ⟨info', hinfo, h⟩ := bind_eq_ok.mp h
    cases h
    obtain ⟨huid, hext, hcb⟩ := loadFunc_row hinfo
    simp only [funcRow, hk, huid, hext, hcb]
    rfl

theorem readFunc_skipped {callingStubs : OrderedMap HashCode StubInfo} {e : String × Json} {r : Report}
    (h : readFunc m callingStubs path e = .ok (.skipped r)) : funcRow m e = none := by
  unfold readFunc at h
  split at h
  next hk =>
    rw [funcRow, hk]
    rfl
  next k hk =>
    obtain ⟨_, _, h⟩ := bind_eq_ok.mp h
    cases h

theorem readGref_row {e : String × Json} {g : Nat} {info : GrefInfo}
    (h : readGref m path e = .ok (.entry g info)) : grefRow m e = some (g, info.uid) := by
  unfold readGref at h
  split at h
  next => cases h
  next k hk =>
    obtain ⟨info', hinfo, h⟩ := bind_eq_ok.mp h
    cases h
    obtain ⟨o, ho, hinfo⟩ := bind_eq_ok.mp hinfo
    obtain ⟨uid, huid, hinfo⟩ := bind_eq_ok.mp hinfo
    cases hinfo
    simp only [grefRow, hk, uidOf_eq ho huid]
    rfl

theorem readGref_skipped {e : String × Json} {r : Report}
    (h : readGref m path e = .ok (.skipped r)) : grefRow m e = none := by
  unfold readGref at h
  split at h
  next hk =>
    rw [grefRow, hk]
    rfl
  next k hk =>
    obtain ⟨_, _, h⟩ := bind_eq_ok.mp h
    cases h

end Reading

structure Holds (m : NamedModule) (j : Json) (t : Symtbl) : Prop where
  functions : (projected rowOf t.functbl).Perm (functionRows m j)
  grefs : (projected GrefInfo.uid t.greftbl).Perm (grefRows m j)
  callbacks : (projected StubInfo.uid t.callbackStubs).Perm (callbackRows j)

theorem loadJson_holds {T : Text} {m : NamedModule} {before : Nat → Nat → Bool} {j : Json} {t : Symtbl}
    {reports : List Report} (h : loadJson T m before j = .ok (t, reports)) : Holds m j t := by
  obtain ⟨o, ho, h⟩ := bind_eq_ok.mp h
  obtain ⟨uid, _, h⟩ := bind_eq_ok.mp h
  obtain ⟨calling, _, h⟩ := bind_eq_ok.mp h
  obtain ⟨⟨callingStubs, _⟩, _, h⟩ := bind_eq_ok.mp h
  obtain ⟨callback, hcallback, h⟩ := bind_eq_ok.mp h
  obtain ⟨⟨callbackStubs, _⟩, hcallbacks, h⟩ := bind_eq_ok.mp h
  obtain ⟨functions, hfunctions, h⟩ := bind_eq_ok.mp h
  obtain ⟨⟨functbl, _⟩, hfunctbl, h⟩ := bind_eq_ok.mp h
  obtain ⟨grefs, hgrefs, h⟩ := bind_eq_ok.mp h
  obtain ⟨⟨greftbl, _⟩, hgreftbl, h⟩ := bind_eq_ok.mp h
  cases h
  refine ⟨?_, ?_, ?_⟩
  · rw [functionRows, members_eq ho hfunctions]
    exact loadMembers_perm (fun _ _ _ => readFunc_row) (fun _ _ => readFunc_skipped) (.refl _) hfunctbl
  · rw [grefRows, members_eq ho hgrefs]
    exact loadMembers_perm (fun _ _ _ => readGref_row) (fun _ _ => readGref_skipped) (.refl _) hgreftbl
  · rw [callbackRows, members_eq ho hcallback]
    exact loadMembers_perm (fun _ _ _ => readStub_row) (fun _ _ hs => absurd hs readStub_not_skipped) (.refl _)
      hcallbacks

section Safety

variable {K V R : Type} [DecidableEq K] {map : OrderedMap K V} {proj : V → R} {rows : List (K × R)}

omit [DecidableEq K] in
theorem numbered_iff (uid : R → Nat) (h : (projected proj map).Perm rows) :
    OrderedMap.Numbered (fun v => uid (proj v)) map ↔ Numbers (rows.map (fun e => uid e.2)) := by
  have hmap : (map.entries.map (fun e => uid (proj e.2))).Perm (rows.map (fun e => uid e.2)) := by
    have hp := h.map (fun e => uid e.2)
    rw [projected, List.map_map] at hp
    exact hp
  have hlen : map.size = (rows.map (fun e => uid e.2)).length := by
    rw [← hmap.length_eq, List.length_map]
    rfl
  unfold OrderedMap.Numbered Numbers
  rw [hlen]
  exact ⟨fun hn => hmap.symm.trans hn, fun hn => hmap.trans hn⟩

theorem key_iff (h : (projected proj map).Perm rows) {k : K} : map.find? k ≠ none ↔ k ∈ rows.map Prod.fst := by
  rw [← mem_keys_projected proj, (h.map Prod.fst).mem_iff]

theorem row_iff (h : (projected proj map).Perm rows) {P : K → R → Prop} :
    (∀ k v, map.find? k = some v → P k (proj v)) ↔ ∀ e ∈ rows, P e.1 e.2 := by
  constructor
  · intro hall e he
    obtain ⟨d, hd, rfl⟩ := List.mem_map.mp (h.mem_iff.mpr he)
    exact hall d.1 d.2 (OrderedMap.mem_entries.mp hd)
  · intro hall k v hv
    exact hall (k, proj v) (h.mem_iff.mp (List.mem_map.mpr ⟨(k, v), OrderedMap.mem_entries.mpr hv, rfl⟩))

end Safety

/-- A table that loads is safe exactly if the file is consistent, which nothing
checks. -/
theorem loaded_safe_iff (T : Text) (m : NamedModule) (before : Nat → Nat → Bool) (j : Json) {t : Symtbl}
    {reports : List Report} (h : loadJson T m before j = .ok (t, reports)) : Safe t ↔ Consistent m j := by
  obtain ⟨hf, hg, hc⟩ := loadJson_holds h
  have hfunctions := numbered_iff FuncRow.uid hf
  have hgrefs := numbered_iff id hg
  have hcallbacks := numbered_iff id hc
  have hext := row_iff hf (P := fun _ row => ∀ r ∈ row.extRefs, r ∈ (grefRows m j).map Prod.fst)
  have hcb := row_iff hf (P := fun _ row => ∀ h ∈ row.cbStubs, h ∈ (callbackRows j).map Prod.fst)
  simp only [← key_iff hg] at hext
  simp only [← key_iff hc] at hcb
  constructor
  · intro hs
    refine ⟨hfunctions.mp hs.functions, hgrefs.mp hs.grefs, hcallbacks.mp hs.callbacks, ?_, ?_⟩
    · have hall := hext.mp hs.extRefs
      simpa only [← key_iff hg] using hall
    · have hall := hcb.mp hs.cbStubs
      simpa only [← key_iff hc] using hall
  · intro hs
    refine ⟨hfunctions.mpr hs.functions, hgrefs.mpr hs.grefs, hcallbacks.mpr hs.callbacks, hext.mpr ?_, hcb.mpr ?_⟩
    · simpa only [key_iff hg] using hs.extRefs
    · simpa only [key_iff hc] using hs.cbStubs

def stubJson (uid : Nat) : Json := .object [("Uid", .integer uid), ("Func", .string "declare void @stub()")]

def oneFunction (uid : Nat) (callbacks grefs : List (String × Json)) : Json :=
  .object [("Uid", .integer 7), ("CallingStubs", .object [("0", stubJson 0)]), ("CallbackTypes", .object callbacks),
    ("Functbl", .object [("f", .object [("Uid", .integer uid), ("StubInfo", .string "0"),
      ("ExtRefArgs", .array [.string "f"]), ("CbStubArgs", .array [.string "0"])])]),
    ("Greftbl", .object grefs)]

def voidStub (uid : Nat) : StubInfo := { StubInfo.ofType ⟨.void, [], false⟩ with uid }

def consistentFile : Json := oneFunction 0 [("0", stubJson 0)] [("f", .object [("Uid", .integer 0)])]

theorem consistentFile_consistent : Consistent namedEmpty consistentFile := by
  refine ⟨?_, ?_, ?_, ?_, ?_⟩
  all_goals decide +kernel

theorem consistentFile_safe : ∃ t reports,
    loadJson voidText namedEmpty HostTable.plainLayout.before consistentFile = .ok (t, reports) ∧ Safe t :=
  ⟨_, _, rfl, (loaded_safe_iff voidText namedEmpty HostTable.plainLayout.before consistentFile rfl).mpr
    consistentFile_consistent⟩

/-- The number 5 of the one function, and names that no table has, are all
taken. -/
theorem inconsistentFile_loads : ∃ t,
    loadJson voidText namedEmpty HostTable.plainLayout.before (oneFunction 5 [] []) = .ok (t, []) ∧
      ¬ OrderedMap.Numbered FuncInfo.uid t.functbl ∧
      (∃ info, t.functbl.find? 0 = some info ∧ (∃ r ∈ info.extRefArgs, t.greftbl.find? r = none) ∧
        ∃ h ∈ info.cbStubArgs, t.callbackStubs.find? h = none) ∧ ¬ Safe t := by
  have hnumber : ¬ OrderedMap.Numbered FuncInfo.uid (OrderedMap.empty.tryEmplace HostTable.plainLayout.before 0
      (⟨5, voidStub 0, [0], [0]⟩ : FuncInfo)) := by
    intro h
    have hlt : 5 < 1 := h.lt (k := 0) rfl
    omega
  exact ⟨_, rfl, hnumber, ⟨_, rfl, ⟨0, .head _, rfl⟩, ⟨0, .head _, rfl⟩⟩, fun hs => hnumber hs.functions⟩

end Comulator.SymtblLoad
