import Comulator.LayoutFree

namespace Comulator.Accounts

open Fallible Types Ir TypeHash Symtbl Analyze AnalyzeSpec SelfContained FirstSeen CallbackStubs LayoutFree
open Numbering hiding callbacks

inductive Sym
  | original (g : Nat)
  | outliner (h : HashCode)
  deriving DecidableEq

inductive Event
  | ref (s : Sym)
  | callback (h : HashCode) (stub : StubInfo)
  | refusal
  deriving DecidableEq

def Event.ref? : Event → Option Sym
  | .ref s => some s
  | _ => none

def Event.callback? : Event → Option (HashCode × StubInfo)
  | .callback h stub => some (h, stub)
  | _ => none

def Event.passes : Event → Bool
  | .refusal => false
  | _ => true

def event (H : HashOps) (k : Nat → Sym) : Item → Event
  | .ref g => .ref (k g)
  | .callback c =>
      if c.functionType.isVarArg then .refusal
      else match callSiteHash H c with
        | some h => .callback h (callbackStub c)
        | none => .refusal
  | .reject _ => .refusal

def refs (events : List Event) : List Sym := firsts id (events.filterMap Event.ref?)

def calls (events : List Event) : List (HashCode × StubInfo) := firsts Prod.fst (events.filterMap Event.callback?)

section Scanning

variable {H : HashOps} {k : Nat → Sym}

theorem event_passes (i : Item) : (event H k i).passes = isSupported H i := by
  cases i with
  | ref g => rfl
  | reject e => rfl
  | callback c =>
      simp only [event, isSupported]
      cases c.functionType.isVarArg with
      | true => rfl
      | false => cases callSiteHash H c <;> rfl

theorem all_passes (items : List Item) : (items.map (event H k)).all Event.passes = items.all (isSupported H) := by
  rw [List.all_map]
  exact congrArg items.all (funext event_passes)

structure Learned (k : Nat → Sym) (events : List Event) (s : Scan) : Prop where
  refs : s.extRefs.map k = refs events
  stubs : Holds Prod.fst (fun p => p.1.2) hashBefore s.cbStubs s.cbStubArgs.length (calls events)
  hashes : s.cbStubArgs = (calls events).map Prod.fst

theorem learned_empty : Learned k [] Scan.empty := ⟨rfl, holds_empty, rfl⟩

theorem visit_learned (hk : Function.Injective k) {events : List Event} {s t : Scan} {i : Item} (hs : Learned k events s)
    (h : s.visit H i = .ok t) : Learned k (events ++ [event H k i]) t := by
  cases i with
  | ref g =>
      cases h
      have hcalls : calls (events ++ [event H k (.ref g)]) = calls events := by
        rw [calls, List.filterMap_append]
        exact congrArg (firsts Prod.fst) (List.append_nil _)
      have hrest : (s.addRef g).cbStubs = s.cbStubs ∧ (s.addRef g).cbStubArgs = s.cbStubArgs := by
        unfold Scan.addRef
        split <;> exact ⟨rfl, rfl⟩
      refine ⟨?_, ?_, ?_⟩
      · rw [refs, List.filterMap_append]
        refine Eq.trans ?_ (firsts_concat _ (k g)).symm
        have hadd : (s.addRef g).extRefs = [g].foldl (add id) s.extRefs := by
          simp only [Scan.addRef, List.foldl_cons, List.foldl_nil, add, List.map_id, id_eq]
          split <;> rfl
        have hmap : ([g].map k).foldl (add id) (s.extRefs.map k) = ([g].foldl (add id) s.extRefs).map k := by
          apply foldl_add_map
          exact fun a b => hk.eq_iff
        rw [hadd, ← hmap, hs.refs]
        rfl
      · rw [hcalls, hrest.1, hrest.2]
        exact hs.stubs
      · rw [hcalls, hrest.2]
        exact hs.hashes
  | reject e => cases h
  | callback c =>
      simp only [Scan.visit, Scan.addCallback] at h
      cases hfixed : c.functionType.isVarArg with
      | true =>
          rw [hfixed, if_pos rfl] at h
          cases h
      | false =>
          cases hhash : callSiteHash H c with
          | none =>
              rw [hfixed, if_neg Bool.false_ne_true, hhash] at h
              cases h
          | some x =>
              rw [hfixed, if_neg Bool.false_ne_true, hhash] at h
              have hevent : event H k (.callback c) = .callback x (callbackStub c) := by simp [event, hfixed, hhash]
              have hrefs : refs (events ++ [event H k (.callback c)]) = refs events := by
                rw [hevent, refs, List.filterMap_append]
                exact congrArg (firsts id) (List.append_nil _)
              have hcalls : calls (events ++ [event H k (.callback c)]) = add Prod.fst (calls events) (x, callbackStub c) := by
                rw [hevent, calls, List.filterMap_append]
                exact firsts_concat _ (x, callbackStub c)
              dsimp only at h
              by_cases hnew : s.cbStubs.find? x = none
              · rw [if_pos hnew] at h
                cases h
                have hfresh : x ∉ (calls events).map Prod.fst := hs.stubs.find?_eq_none.mp hnew
                refine ⟨by rw [hrefs]; exact hs.refs, ?_, ?_⟩
                · rw [hcalls, List.length_append]
                  exact hs.stubs.tryEmplace (a := (x, callbackStub c)) hnew
                · rw [hcalls, add_of_not_mem hfresh, List.map_append, ← hs.hashes]
                  rfl
              · rw [if_neg hnew] at h
                cases h
                have hold : x ∈ (calls events).map Prod.fst := not_not.mp (fun hx => hnew (hs.stubs.find?_eq_none.mpr hx))
                rw [add_of_mem (a := (x, callbackStub c)) hold] at hcalls
                refine ⟨by rw [hrefs]; exact hs.refs, by rw [hcalls]; exact hs.stubs, by rw [hcalls]; exact hs.hashes⟩

theorem callback?_event {i : Item} {e : HashCode × StubInfo} (h : (event H k i).callback? = some e) :
    ∃ c, e.2 = callbackStub c := by
  cases i with
  | ref g => cases h
  | reject e => cases h
  | callback c =>
      simp only [event] at h
      split at h
      next => cases h
      next =>
        cases hhash : callSiteHash H c with
        | none =>
            rw [hhash] at h
            cases h
        | some x =>
            rw [hhash] at h
            cases h
            exact ⟨c, rfl⟩

theorem mem_calls {items : List Item} {e : HashCode × StubInfo} (he : e ∈ calls (items.map (event H k))) :
    ∃ c, e.2 = callbackStub c := by
  obtain ⟨ev, hev, h⟩ := List.mem_filterMap.mp (mem_of_mem_firsts he)
  obtain ⟨i, _, rfl⟩ := List.mem_map.mp hev
  exact callback?_event h

theorem foldlM_learned (hk : Function.Injective k) {events : List Event} {s t : Scan} {items : List Item}
    (hs : Learned k events s) (h : items.foldlM (Scan.visit H) s = .ok t) :
    Learned k (events ++ items.map (event H k)) t := by
  induction items generalizing events s with
  | nil =>
      cases h
      rwa [List.map_nil, List.append_nil]
  | cons i items ih =>
      rw [List.foldlM_cons] at h
      obtain ⟨u, hu, h⟩ := bind_eq_ok.mp h
      have hrest := ih (visit_learned hk hs hu) h
      rwa [List.append_assoc] at hrest

end Scanning

structure Account where
  g : Nat
  refs : List Sym
  calls : List (HashCode × StubInfo)

def Account.hashes (a : Account) : List HashCode := a.calls.map Prod.fst

def Account.row (a : Account) : Nat × List Sym × List HashCode := (a.g, a.refs, a.hashes)

structure Describes (sig : Nat → HashCode × StubInfo) (k : Nat → Sym) (v : Verdict) (a : Account) : Prop where
  g : v.g = a.g
  name : k v.g = .original a.g
  signature : sig a.g = (v.hash, callingStub v.func 0)
  refs : v.scan.extRefs.map k = a.refs
  stubs : Holds Prod.fst (fun p => p.1.2) hashBefore v.scan.cbStubs v.scan.cbStubArgs.length a.calls
  hashes : v.scan.cbStubArgs = a.hashes
  unnumbered : ∀ e ∈ a.calls, { e.2 with uid := 2 ^ 32 - 1 } = e.2

structure Entry where
  uid : Nat
  stubType : StubInfo
  extRefs : List Sym
  cbStubArgs : List HashCode

def entry (k : Nat → Sym) (info : FuncInfo) : Entry := ⟨info.uid, info.stubType, info.extRefArgs.map k, info.cbStubArgs⟩

structure SameTables (k k' : Nat → Sym) (t t' : Symtbl) : Prop where
  calling : ∀ h, t.callingStubs.find? h = t'.callingStubs.find? h
  callback : ∀ h, t.callbackStubs.find? h = t'.callbackStubs.find? h
  function : ∀ s, (keyed k (entry k) t.functbl).lookup s = (keyed k' (entry k') t'.functbl).lookup s
  gref : ∀ s, (keyed k GrefInfo.uid t.greftbl).lookup s = (keyed k' GrefInfo.uid t'.greftbl).lookup s

section Lists

variable {α β γ : Type}

theorem map_eq_of_forall₂ {R : α → β → Prop} {f : α → γ} {g : β → γ} {l : List α} {r : List β} (h : List.Forall₂ R l r)
    (heq : ∀ a ∈ l, ∀ b, R a b → f a = g b) : l.map f = r.map g := by
  induction h with
  | nil => rfl
  | cons hab _ ih =>
      rw [List.map_cons, List.map_cons, heq _ List.mem_cons_self _ hab, ih (fun a ha => heq a (List.mem_cons_of_mem _ ha))]

theorem flatMap_eq_of_forall₂ {R : α → β → Prop} {f : α → List γ} {g : β → List γ} {l : List α} {r : List β}
    (h : List.Forall₂ R l r) (heq : ∀ a ∈ l, ∀ b, R a b → f a = g b) : l.flatMap f = r.flatMap g := by
  rw [List.flatMap_def, List.flatMap_def, map_eq_of_forall₂ h heq]

theorem lookup_flatMap_congr {f : α → List (HashCode × γ)} {g : β → List (HashCode × γ)} {R : α → β → Prop} {l : List α}
    {r : List β} (h : List.Forall₂ R l r) {x : HashCode} (heq : ∀ a b, R a b → (f a).lookup x = (g b).lookup x) :
    (l.flatMap f).lookup x = (r.flatMap g).lookup x := by
  induction h with
  | nil => rfl
  | cons hab _ ih => rw [List.flatMap_cons, List.flatMap_cons, List.lookup_append, List.lookup_append, heq _ _ hab, ih]

/-- The value under a key is that of the element seen first with it. -/
theorem map_seen {l : List (HashCode × γ)} (hl : (l.map Prod.fst).Nodup) (x : HashCode) :
    (seen Prod.fst l x).map (fun p => p.1.2) = l.lookup x := by
  cases hseen : seen Prod.fst l x with
  | none =>
      rw [Option.map_none, eq_comm, lookup_eq_none]
      exact seen_eq_none.mp hseen
  | some p =>
      obtain ⟨hget, hkey⟩ := getElem?_of_seen (a := p.1) (i := p.2) hseen
      rw [Option.map_some, ← hkey, eq_comm]
      exact OrderedMap.lookup_eq_some_of_mem hl (List.mem_of_getElem? hget)

end Lists

section Comparison

variable {sig : Nat → HashCode × StubInfo} {k k' : Nat → Sym} {L L' : Layout} {uid uid' : Nat} {vs vs' : List Verdict}
  {st st' : State} {as as' : List Account}

theorem Describes.lookup_entries {v : Verdict} {a : Account} (h : Describes sig k v a) (x : HashCode) :
    v.scan.cbStubs.entries.lookup x = a.calls.lookup x := by
  have hfind := h.stubs.find? x
  rw [map_seen h.stubs.nodup] at hfind
  exact hfind

/-- The temporary map is sorted by hash. -/
theorem Describes.keys {v : Verdict} {a : Account} (h : Describes sig k v a) :
    v.scan.cbStubs.entries.map Prod.fst = a.hashes.mergeSort := by
  have hperm : (v.scan.cbStubs.entries.map Prod.fst).Perm a.hashes := by
    refine (List.perm_ext_iff_of_nodup v.scan.cbStubs.nodup h.stubs.nodup).mpr (fun x => ?_)
    have hnone := h.stubs.find?_eq_none (k := x)
    rw [OrderedMap.find?_eq_none] at hnone
    exact not_iff_not.mp hnone
  have hsorted : (v.scan.cbStubs.entries.map Prod.fst).Pairwise (· ≤ ·) := by
    rw [List.pairwise_map]
    refine (h.stubs.built.sorted strictOrder_hash).imp (fun hlt => ?_)
    exact Nat.le_of_lt (of_decide_eq_true hlt)
  exact (hperm.trans (List.mergeSort_perm _ _).symm).eq_of_pairwise (fun x y _ _ => Nat.le_antisymm) hsorted
    (List.pairwise_mergeSort' (· ≤ ·) a.hashes)

variable (hvs : List.Forall₂ (Describes sig k) vs as) (hvs' : List.Forall₂ (Describes sig k') vs' as')

include hvs in
theorem callings_eq : callings vs = firsts Prod.fst (as.map (fun a => sig a.g)) := by
  rw [callings, map_eq_of_forall₂ hvs (fun v _ a h => h.signature.symm)]

include hvs in
theorem lookup_callbacks (x : HashCode) : (Numbering.callbacks vs).lookup x = (as.flatMap Account.calls).lookup x := by
  rw [Numbering.callbacks, lookup_firsts]
  exact lookup_flatMap_congr hvs (fun v a h => h.lookup_entries x)

include hvs in
theorem keys_callbacks : (vs.flatMap (fun v => v.scan.cbStubs.entries)).map Prod.fst =
    (as.map Account.row).flatMap (fun r => r.2.2.mergeSort) := by
  rw [List.map_flatMap, List.flatMap_map]
  exact flatMap_eq_of_forall₂ hvs (fun v _ a h => h.keys)

def rowEntry (stubs : List (HashCode × StubInfo)) (sig : Nat → HashCode × StubInfo)
    (p : (Nat × List Sym × List HashCode) × Nat) : Sym × Entry :=
  (.original p.1.1, ⟨p.2, ((seen Prod.fst stubs (sig p.1.1).1).map numberStub).getD (sig p.1.1).2, p.1.2.1, p.1.2.2⟩)

include hvs in
theorem rows_eq (stubs : List (HashCode × StubInfo)) :
    vs.zipIdx.map (fun p => (k p.1.g, entry k (funcInfo stubs p))) = (as.map Account.row).zipIdx.map (rowEntry stubs sig) := by
  have hrows : vs.map (fun v => (v.g, v.scan.extRefs.map k, v.scan.cbStubArgs)) = as.map Account.row := by
    refine map_eq_of_forall₂ hvs (fun v _ a h => ?_)
    rw [h.g, h.refs, h.hashes]
    rfl
  rw [← hrows, List.zipIdx_map, List.map_map]
  refine List.map_congr_left ?_
  rintro ⟨v, i⟩ hv
  obtain ⟨j, hj⟩ := List.mem_iff_getElem?.mp (List.fst_mem_of_mem_zipIdx hv)
  obtain ⟨a, _, h⟩ := Outline.forall₂_getElem? hvs hj
  have hsig : sig v.g = (v.hash, callingStub v.func 0) := by rw [h.g, h.signature]
  have hname : k v.g = .original v.g := by rw [h.name, h.g]
  simp only [rowEntry, entry, funcInfo, Function.comp_apply, Prod.map_apply, id_eq, hsig, hname]

def Sym.number : Sym → Nat
  | .original g => g
  | .outliner h => h

variable (sig) in
theorem map_rowEntry (stubs : List (HashCode × StubInfo)) (l : List (Nat × List Sym × List HashCode)) :
    (l.zipIdx.map (rowEntry stubs sig)).map (fun e => (e.1.number, e.2.extRefs, e.2.cbStubArgs)) = l := by
  rw [List.map_map]
  exact List.zipIdx_map_fst 0 l

/-- Callback stubs get no number before they come into the table. -/
theorem find?_callback (hrep : Represents L uid vs st) (hvs : List.Forall₂ (Describes sig k) vs as) (x : HashCode) :
    (st.symtbl.callbackStubs.find? x).map (fun s => { s with uid := 2 ^ 32 - 1 }) = (as.flatMap Account.calls).lookup x := by
  rw [hrep.callback.find?, Option.map_map, ← lookup_callbacks hvs, ← map_seen hrep.callback.nodup]
  cases hseen : seen Prod.fst (Numbering.callbacks vs) x with
  | none => rfl
  | some p =>
      obtain ⟨hget, hkey⟩ := getElem?_of_seen (a := p.1) (i := p.2) hseen
      have hlookup : (as.flatMap Account.calls).lookup x = some p.1.2 := by
        rw [← lookup_callbacks hvs, ← map_seen hrep.callback.nodup, hseen]
        rfl
      obtain ⟨a, ha, hcall⟩ := List.mem_flatMap.mp (OrderedMap.mem_of_lookup hlookup)
      obtain ⟨v, _, h⟩ := Outline.forall₂_mem_right hvs ha
      exact congrArg some (h.unnumbered (x, p.1.2) hcall)

include hvs in
theorem function_rows (hk : Function.Injective k) (hrep : Represents L uid vs st) :
    Rows (fun s => (keyed k (entry k) st.symtbl.functbl).lookup s) Entry.uid
      ((as.map Account.row).zipIdx.map (rowEntry (callings vs) sig)) := by
  rw [← rows_eq hvs]
  exact hrep.function.rows hk (entry k) (fun _ _ => rfl)

theorem gref_rows (hk : Function.Injective k) (hrep : Represents L uid vs st) :
    Rows (fun s => (keyed k GrefInfo.uid st.symtbl.greftbl).lookup s) id ((grefs L vs).map k).zipIdx := by
  rw [List.zipIdx_map]
  exact hrep.gref.rows hk GrefInfo.uid (fun _ _ => rfl)

include hvs hvs' in
/-- The tables are the same exactly if the accounts have the same rows, the first
call with each hash asks for the same stub and the references are numbered alike. -/
theorem sameTables_iff (hk : Function.Injective k) (hk' : Function.Injective k') (hrep : Represents L uid vs st)
    (hrep' : Represents L' uid' vs' st') : SameTables k k' st.symtbl st'.symtbl ↔
      as.map Account.row = as'.map Account.row ∧
        (∀ x, (as.flatMap Account.calls).lookup x = (as'.flatMap Account.calls).lookup x) ∧
          (grefs L vs).map k = (grefs L' vs').map k' := by
  have hfunction := (function_rows hvs hk hrep).look_eq_iff (function_rows hvs' hk' hrep')
  have hgref := (gref_rows hk hrep).look_eq_iff (gref_rows hk' hrep')
  constructor
  · intro h
    refine ⟨?_, ?_, ?_⟩
    · have hrows := hfunction.mp h.function
      rw [← map_rowEntry sig (callings vs) (as.map Account.row), hrows, map_rowEntry]
    · intro x
      rw [← find?_callback hrep hvs, ← find?_callback hrep' hvs', h.callback]
    · have hrefs := congrArg (List.map Prod.fst) (hgref.mp h.gref)
      rwa [List.zipIdx_map_fst, List.zipIdx_map_fst] at hrefs
  · rintro ⟨hrows, hlookup, hrefs⟩
    have hcallings : callings vs = callings vs' := by
      have hg : as.map (fun a => sig a.g) = (as.map Account.row).map (fun r => sig r.1) := by
        rw [List.map_map]
        rfl
      have hg' : as'.map (fun a => sig a.g) = (as'.map Account.row).map (fun r => sig r.1) := by
        rw [List.map_map]
        rfl
      rw [callings_eq hvs, callings_eq hvs', hg, hg', hrows]
    have hcallbacks : Numbering.callbacks vs = Numbering.callbacks vs' := by
      refine (firsts_eq_iff ?_).mpr (fun x => ?_)
      · rw [keys_callbacks hvs, keys_callbacks hvs', hrows]
      · rw [← lookup_firsts (vs.flatMap _), ← lookup_firsts (vs'.flatMap _)]
        exact (lookup_callbacks hvs x).trans ((hlookup x).trans (lookup_callbacks hvs' x).symm)
    refine ⟨?_, ?_, ?_, hgref.mpr (congrArg List.zipIdx hrefs)⟩
    · intro x
      rw [hrep.calling.find?, hrep'.calling.find?, hcallings]
    · intro x
      rw [hrep.callback.find?, hrep'.callback.find?, hcallbacks]
    · refine hfunction.mpr ?_
      rw [hrows, hcallings]

end Comparison

end Comulator.Accounts
