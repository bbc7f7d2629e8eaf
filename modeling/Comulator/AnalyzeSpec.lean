import Comulator.Analyze
import Comulator.Fallible

namespace Comulator.AnalyzeSpec

open Fallible Types Ir TypeHash Symtbl Analyze

variable {H : HashOps} {L : Layout} {m : Module} {bw : BwList}

structure Scanned (H : HashOps) (l : List Item) (s : Scan) : Prop where
  refs : ∀ g, g ∈ s.extRefs ↔ Item.ref g ∈ l
  stubs : ∀ h, h ∈ s.cbStubArgs ↔ ∃ c, Item.callback c ∈ l ∧ callSiteHash H c = some h
  keys : ∀ h, s.cbStubs.find? h = none ↔ h ∉ s.cbStubArgs
  origin : ∀ h st, s.cbStubs.find? h = some st → ∃ c, Item.callback c ∈ l ∧ callSiteHash H c = some h ∧
    st = callbackStub c
  callbacks : ∀ c, Item.callback c ∈ l → c.functionType.isVarArg = false ∧ ∃ h, callSiteHash H c = some h
  accepted : ∀ e, Item.reject e ∉ l

theorem empty_scanned : Scanned H [] Scan.empty where
  refs := by simp [Scan.empty]
  stubs := by simp [Scan.empty]
  keys := by simp [Scan.empty, OrderedMap.find?, OrderedMap.empty]
  origin := by simp [Scan.empty, OrderedMap.find?, OrderedMap.empty]
  callbacks := by simp
  accepted := by simp

theorem addRef_scanned {l : List Item} {s : Scan} (hs : Scanned H l s) (g : Nat) :
    Scanned H (l ++ [.ref g]) (s.addRef g) := by
  have hrest : (s.addRef g).cbStubs = s.cbStubs ∧ (s.addRef g).cbStubArgs = s.cbStubArgs := by
    unfold Scan.addRef
    split <;> exact ⟨rfl, rfl⟩
  refine ⟨?_, ?_, ?_, ?_, ?_, ?_⟩
  · intro k
    unfold Scan.addRef
    split
    next hg =>
      rw [hs.refs, List.mem_append, List.mem_singleton, Item.ref.injEq]
      constructor
      · exact Or.inl
      · rintro (h | rfl)
        · exact h
        · exact (hs.refs _).mp hg
    next =>
      rw [List.mem_append, List.mem_append, hs.refs, List.mem_singleton, List.mem_singleton, Item.ref.injEq]
  · simpa [hrest.2] using hs.stubs
  · simpa [hrest.1, hrest.2] using hs.keys
  · simpa [hrest.1] using hs.origin
  · simpa using hs.callbacks
  · simpa using hs.accepted

theorem addCallback_scanned {l : List Item} {s t : Scan} (hs : Scanned H l s) {c : GCall}
    (h : s.addCallback H c = .ok t) : Scanned H (l ++ [.callback c]) t := by
  unfold Scan.addCallback at h
  split at h
  next => cases h
  next hva =>
    have hva : c.functionType.isVarArg = false := by simpa using hva
    split at h
    next => cases h
    next k hk =>
      have hcallbacks : ∀ d, Item.callback d ∈ l ++ [.callback c] →
          d.functionType.isVarArg = false ∧ ∃ h, callSiteHash H d = some h := by
        intro d hd
        rcases List.mem_append.mp hd with hd | hd
        · exact hs.callbacks d hd
        · cases List.mem_singleton.mp hd
          exact ⟨hva, k, hk⟩
      have hstubs : ∀ h, (∃ d, Item.callback d ∈ l ++ [.callback c] ∧ callSiteHash H d = some h) ↔
          h ∈ s.cbStubArgs ∨ h = k := by
        intro h
        rw [hs.stubs]
        constructor
        · rintro ⟨d, hd, hh⟩
          rcases List.mem_append.mp hd with hd | hd
          · exact .inl ⟨d, hd, hh⟩
          · cases List.mem_singleton.mp hd
            exact .inr (Option.some.inj (hh.symm.trans hk))
        · rintro (⟨d, hd, hh⟩ | rfl)
          · exact ⟨d, List.mem_append_left _ hd, hh⟩
          · exact ⟨c, by simp, hk⟩
      split at h
      next hnew =>
        cases h
        refine ⟨by simpa using hs.refs, ?_, ?_, ?_, hcallbacks, by simpa using hs.accepted⟩
        · intro h
          rw [hstubs, List.mem_append, List.mem_singleton]
        · intro h
          rw [List.mem_append, List.mem_singleton, not_or, ← hs.keys]
          by_cases hh : h = k
          · subst hh
            simp [OrderedMap.find?_tryEmplace_self]
          · simp [OrderedMap.find?_tryEmplace_of_ne hh, hh]
        · intro h st hst
          by_cases hh : h = k
          · subst hh
            simp only [OrderedMap.find?_tryEmplace_self, hnew, Option.getD_none, Option.some.injEq] at hst
            exact ⟨c, by simp, hk, hst.symm⟩
          · simp only [OrderedMap.find?_tryEmplace_of_ne hh] at hst
            obtain ⟨d, hd, hdh, hdst⟩ := hs.origin h st hst
            exact ⟨d, List.mem_append_left _ hd, hdh, hdst⟩
      next hold =>
        cases h
        have hmem : k ∈ s.cbStubArgs := by
          by_contra hk
          exact hold ((hs.keys k).mpr hk)
        refine ⟨by simpa using hs.refs, ?_, hs.keys, ?_, hcallbacks, by simpa using hs.accepted⟩
        · intro h
          rw [hstubs]
          constructor
          · exact Or.inl
          · rintro (hh | rfl)
            · exact hh
            · exact hmem
        · intro h st hst
          obtain ⟨d, hd, hdh, hdst⟩ := hs.origin h st hst
          exact ⟨d, List.mem_append_left _ hd, hdh, hdst⟩

theorem visit_scanned {l : List Item} {s t : Scan} (hs : Scanned H l s) {i : Item}
    (h : s.visit H i = .ok t) : Scanned H (l ++ [i]) t := by
  cases i with
  | ref g =>
      cases h
      exact addRef_scanned hs g
  | callback c => exact addCallback_scanned hs h
  | reject e => cases h

theorem foldlM_scanned {l k : List Item} {s t : Scan} (hs : Scanned H l s)
    (h : k.foldlM (Scan.visit H) s = .ok t) : Scanned H (l ++ k) t := by
  induction k generalizing l s with
  | nil =>
      cases h
      rwa [List.append_nil]
  | cons i k ih =>
      rw [List.foldlM_cons] at h
      obtain ⟨u, hu, h⟩ := bind_eq_ok.mp h
      have hrest := ih (visit_scanned hs hu) h
      rwa [List.append_assoc] at hrest

theorem scanFunction_scanned {f : GFunction} {s : Scan} (h : scanFunction H m bw f = .ok s) :
    Scanned H (functionItems m bw f) s := foldlM_scanned empty_scanned h

def isSupported (H : HashOps) : Item → Bool
  | .ref _ => true
  | .callback c => !c.functionType.isVarArg && (callSiteHash H c).isSome
  | .reject _ => false

theorem visit_ok_iff (s : Scan) (i : Item) : (∃ t, s.visit H i = .ok t) ↔ isSupported H i = true := by
  cases i with
  | ref g => exact ⟨fun _ => rfl, fun _ => ⟨_, rfl⟩⟩
  | callback c =>
      simp only [Scan.visit, Scan.addCallback, isSupported]
      cases hva : c.functionType.isVarArg with
      | true => simp
      | false =>
          cases hh : callSiteHash H c with
          | none => simp
          | some h =>
              simp only [Bool.false_eq_true, if_false, Bool.not_false, Option.isSome_some, Bool.and_self, iff_true]
              split <;> exact ⟨_, rfl⟩
  | reject e =>
      constructor
      · rintro ⟨t, ht⟩
        cases ht
      · intro h
        cases h

theorem foldlM_visit_ok_iff (l : List Item) (s : Scan) :
    (∃ t, l.foldlM (Scan.visit H) s = .ok t) ↔ l.all (isSupported H) = true := by
  induction l generalizing s with
  | nil => exact ⟨fun _ => rfl, fun _ => ⟨s, rfl⟩⟩
  | cons i l ih =>
      rw [List.foldlM_cons, List.all_cons, Bool.and_eq_true, ← visit_ok_iff s i]
      constructor
      · rintro ⟨t, ht⟩
        obtain ⟨u, hu, ht⟩ := bind_eq_ok.mp ht
        exact ⟨⟨u, hu⟩, (ih u).mp ⟨t, ht⟩⟩
      · rintro ⟨⟨u, hu⟩, hl⟩
        obtain ⟨t, ht⟩ := (ih u).mpr hl
        exact ⟨t, bind_eq_ok.mpr ⟨u, hu, ht⟩⟩

theorem scan_ok_iff {f : GFunction} :
    (∃ s, scanFunction H m bw f = .ok s) ↔ ∀ i ∈ functionItems m bw f, isSupported H i = true :=
  (foldlM_visit_ok_iff _ _).trans List.all_eq_true

def Accepted (H : HashOps) (m : Module) (bw : BwList) (g : Nat) : Prop :=
  ∃ f h scan, m.function? g = some f ∧ (bw.funcs g).bind FuncBw.analyze ≠ some false ∧
    f.isDeclaration = false ∧ f.type.isVarArg = false ∧ functionHash H f = some h ∧
      scanFunction H m bw f = .ok scan

structure Entry (H : HashOps) (m : Module) (bw : BwList) (t : Symtbl) (g : Nat) (info : FuncInfo)
    (f : GFunction) (scan : Scan) (h : HashCode) : Prop where
  function : m.function? g = some f
  listed : (bw.funcs g).bind FuncBw.analyze ≠ some false
  defined : f.isDeclaration = false
  fixed : f.type.isVarArg = false
  hash : functionHash H f = some h
  scanned : scanFunction H m bw f = .ok scan
  refs : info.extRefArgs = scan.extRefs
  stubs : info.cbStubArgs = scan.cbStubArgs
  stub : t.callingStubs.find? h = some info.stubType
  grefs : ∀ r ∈ scan.extRefs, t.greftbl.find? r ≠ none
  callbacks : ∀ k ∈ scan.cbStubArgs, t.callbackStubs.find? k ≠ none

theorem Entry.accepted {t : Symtbl} {g : Nat} {info : FuncInfo} {f : GFunction} {scan : Scan} {h : HashCode}
    (he : Entry H m bw t g info f scan h) : Accepted H m bw g :=
  ⟨f, h, scan, he.function, he.listed, he.defined, he.fixed, he.hash, he.scanned⟩

structure Grows (s t : Symtbl) : Prop where
  calling : ∀ h st, s.callingStubs.find? h = some st → t.callingStubs.find? h = some st
  callback : ∀ h, s.callbackStubs.find? h ≠ none → t.callbackStubs.find? h ≠ none
  grefs : ∀ r, s.greftbl.find? r ≠ none → t.greftbl.find? r ≠ none

theorem Grows.refl (s : Symtbl) : Grows s s := ⟨fun _ _ h => h, fun _ h => h, fun _ h => h⟩

theorem Grows.trans {s t u : Symtbl} (h : Grows s t) (h' : Grows t u) : Grows s u :=
  ⟨fun k st hk => h'.calling k st (h.calling k st hk), fun k hk => h'.callback k (h.callback k hk),
    fun r hr => h'.grefs r (h.grefs r hr)⟩

theorem Entry.mono {s t : Symtbl} {g : Nat} {info : FuncInfo} {f : GFunction} {scan : Scan} {h : HashCode}
    (he : Entry H m bw s g info f scan h) (hg : Grows s t) : Entry H m bw t g info f scan h :=
  { he with
    stub := hg.calling h _ he.stub
    grefs := fun r hr => hg.grefs r (he.grefs r hr)
    callbacks := fun k hk => hg.callback k (he.callbacks k hk) }

structure Tables (H : HashOps) (m : Module) (st : State) : Prop where
  calling : ∀ h s, st.symtbl.callingStubs.find? h = some s → ∃ g f, m.function? g = some f ∧
    functionHash H f = some h ∧ s = callingStub f s.uid
  callback : ∀ h s, st.symtbl.callbackStubs.find? h = some s → ∃ g f c, m.function? g = some f ∧
    c ∈ Module.calls f ∧ callSiteHash H c = some h ∧ s = { callbackStub c with uid := s.uid }
  callingUids : OrderedMap.Numbered StubInfo.uid st.symtbl.callingStubs
  callbackUids : OrderedMap.Numbered StubInfo.uid st.symtbl.callbackStubs
  functionUids : OrderedMap.Numbered FuncInfo.uid st.symtbl.functbl
  grefUids : OrderedMap.Numbered GrefInfo.uid st.symtbl.greftbl
  callingCounter : st.callingCounter = st.symtbl.callingStubs.size
  callbackCounter : st.callbackCounter = st.symtbl.callbackStubs.size
  funcCounter : st.funcCounter = st.symtbl.functbl.size
  grefCounter : st.grefCounter = st.symtbl.greftbl.size

variable {st : State}

theorem addCalling_tables (hst : Tables H m st) {g : Nat} {f : GFunction} {h : HashCode}
    (hf : m.function? g = some f) (hh : functionHash H f = some h) : Tables H m (st.addCalling h f) := by
  unfold State.addCalling
  split
  next hnew =>
    refine { hst with
      calling := ?_
      callingUids := hst.callingUids.tryEmplace (fun _ => hst.callingCounter)
      callingCounter := ?_ }
    · intro k s hs
      by_cases hk : k = h
      · subst hk
        simp only [OrderedMap.find?_tryEmplace_self, hnew, Option.getD_none, Option.some.injEq] at hs
        exact ⟨g, f, hf, hh, by rw [← hs]; rfl⟩
      · simp only [OrderedMap.find?_tryEmplace_of_ne hk] at hs
        exact hst.calling k s hs
    · simp only [OrderedMap.size_tryEmplace hnew, hst.callingCounter]
  next => exact hst

theorem addCalling_grows (st : State) (h : HashCode) (f : GFunction) :
    Grows st.symtbl (st.addCalling h f).symtbl := by
  unfold State.addCalling
  split
  next hnew =>
    refine ⟨?_, fun _ hk => hk, fun _ hr => hr⟩
    intro k s hs
    have hk : k ≠ h := by
      rintro rfl
      rw [hnew] at hs
      cases hs
    simp only [OrderedMap.find?_tryEmplace_of_ne hk]
    exact hs
  next => exact Grows.refl _

theorem addCalling_find (st : State) (h : HashCode) (f : GFunction) :
    (st.addCalling h f).symtbl.callingStubs.find? h ≠ none := by
  unfold State.addCalling
  split
  next => simp [OrderedMap.find?_tryEmplace_self]
  next hold => exact hold

theorem find?_tryEmplace_ne_none {K V : Type} [DecidableEq K] {before : K → K → Bool} {t : OrderedMap K V}
    {k k' : K} {v : V} : (t.tryEmplace before k v).find? k' ≠ none ↔ k' = k ∨ t.find? k' ≠ none := by
  by_cases hk : k' = k
  · subst hk
    simp [OrderedMap.find?_tryEmplace_self]
  · simp [OrderedMap.find?_tryEmplace_of_ne hk, hk]

theorem addCallback_tables (hst : Tables H m st) {e : HashCode × StubInfo} {g : Nat} {f : GFunction} {c : GCall}
    (hf : m.function? g = some f) (hc : c ∈ Module.calls f) (hh : callSiteHash H c = some e.1)
    (he : e.2 = callbackStub c) : Tables H m (st.addCallback e) := by
  unfold State.addCallback
  split
  next hnew =>
    refine { hst with
      callback := ?_
      callbackUids := hst.callbackUids.tryEmplace (fun _ => hst.callbackCounter)
      callbackCounter := ?_ }
    · intro k s hs
      by_cases hk : k = e.1
      · subst hk
        simp only [OrderedMap.find?_tryEmplace_self, hnew, Option.getD_none, Option.some.injEq] at hs
        exact ⟨g, f, c, hf, hc, hh, by rw [← hs, he]⟩
      · simp only [OrderedMap.find?_tryEmplace_of_ne hk] at hs
        exact hst.callback k s hs
    · simp only [OrderedMap.size_tryEmplace hnew, hst.callbackCounter]
  next => exact hst

structure Keeps (s t : State) : Prop where
  grows : Grows s.symtbl t.symtbl
  functbl : t.symtbl.functbl = s.symtbl.functbl

theorem Keeps.refl (s : State) : Keeps s s := ⟨Grows.refl _, rfl⟩

theorem Keeps.trans {s t u : State} (h : Keeps s t) (h' : Keeps t u) : Keeps s u :=
  ⟨h.grows.trans h'.grows, h'.functbl.trans h.functbl⟩

theorem addCallback_keeps (st : State) (e : HashCode × StubInfo) : Keeps st (st.addCallback e) := by
  unfold State.addCallback
  split
  next =>
    refine ⟨⟨fun _ _ hs => hs, ?_, fun _ hr => hr⟩, rfl⟩
    intro k hk
    exact find?_tryEmplace_ne_none.mpr (.inr hk)
  next => exact Keeps.refl _

theorem addCallback_find (st : State) (e : HashCode × StubInfo) :
    (st.addCallback e).symtbl.callbackStubs.find? e.1 ≠ none := by
  unfold State.addCallback
  split
  next => exact find?_tryEmplace_ne_none.mpr (.inl rfl)
  next hold => exact hold

theorem foldl_addCallback {l : List (HashCode × StubInfo)} (hst : Tables H m st) {g : Nat} {f : GFunction}
    (hf : m.function? g = some f) (hl : ∀ e ∈ l, ∃ c ∈ Module.calls f, callSiteHash H c = some e.1 ∧
      e.2 = callbackStub c) :
    Tables H m (l.foldl State.addCallback st) ∧ Keeps st (l.foldl State.addCallback st) ∧
      ∀ e ∈ l, (l.foldl State.addCallback st).symtbl.callbackStubs.find? e.1 ≠ none := by
  induction l generalizing st with
  | nil => exact ⟨hst, Keeps.refl _, by simp⟩
  | cons e l ih =>
      obtain ⟨c, hc, hh, he⟩ := hl e List.mem_cons_self
      have hkeeps := addCallback_keeps st e
      obtain ⟨htables, hrest, hfound⟩ := ih (addCallback_tables hst hf hc hh he)
        (fun e' he' => hl e' (List.mem_cons_of_mem _ he'))
      refine ⟨htables, hkeeps.trans hrest, ?_⟩
      intro e' he'
      rcases List.mem_cons.mp he' with rfl | he'
      · exact hrest.grows.callback _ (addCallback_find st e')
      · exact hfound e' he'

theorem addGref_tables (hst : Tables H m st) (r : Nat) : Tables H m (st.addGref L r) := by
  unfold State.addGref
  split
  next hnew =>
    refine { hst with
      grefUids := hst.grefUids.tryEmplace (fun _ => hst.grefCounter)
      grefCounter := ?_ }
    simp only [OrderedMap.size_tryEmplace hnew, hst.grefCounter]
  next => exact hst

theorem addGref_keeps (st : State) (r : Nat) : Keeps st (st.addGref L r) := by
  unfold State.addGref
  split
  next =>
    refine ⟨⟨fun _ _ hs => hs, fun _ hk => hk, ?_⟩, rfl⟩
    intro k hk
    exact find?_tryEmplace_ne_none.mpr (.inr hk)
  next => exact Keeps.refl _

theorem addGref_find (st : State) (r : Nat) : (st.addGref L r).symtbl.greftbl.find? r ≠ none := by
  unfold State.addGref
  split
  next => exact find?_tryEmplace_ne_none.mpr (.inl rfl)
  next hold => exact hold

variable (L) in
theorem foldl_addGref (l : List Nat) (hst : Tables H m st) :
    Tables H m (l.foldl (State.addGref L) st) ∧ Keeps st (l.foldl (State.addGref L) st) ∧
      ∀ r ∈ l, (l.foldl (State.addGref L) st).symtbl.greftbl.find? r ≠ none := by
  induction l generalizing st with
  | nil => exact ⟨hst, Keeps.refl _, by simp⟩
  | cons r l ih =>
      obtain ⟨htables, hrest, hfound⟩ := ih (addGref_tables hst r)
      refine ⟨htables, (addGref_keeps st r).trans hrest, ?_⟩
      intro r' hr'
      rcases List.mem_cons.mp hr' with rfl | hr'
      · exact hrest.grows.grefs _ (addGref_find st r')
      · exact hfound r' hr'

variable (L) in
theorem addFunction_tables (hst : Tables H m st) {g : Nat} (stub : StubInfo) (scan : Scan)
    (hnew : st.symtbl.functbl.find? g = none) : Tables H m (st.addFunction L g stub scan) :=
  { hst with
    functionUids := hst.functionUids.tryEmplace (fun _ => hst.funcCounter)
    funcCounter := by simp only [State.addFunction, OrderedMap.size_tryEmplace hnew, hst.funcCounter] }

theorem addFunction_grows (st : State) (g : Nat) (stub : StubInfo) (scan : Scan) :
    Grows st.symtbl (st.addFunction L g stub scan).symtbl := ⟨fun _ _ h => h, fun _ h => h, fun _ h => h⟩

theorem not_callback_mem_operandItems {c : GCall} {vs : List GValue} : Item.callback c ∉ operandItems vs := by
  simp [operandItems]

theorem callback_mem_calleeItems {c d : GCall} (h : Item.callback d ∈ calleeItems m bw c) : d = c := by
  unfold calleeItems at h
  repeat' split at h
  all_goals simp at h
  all_goals exact h

theorem callback_mem_instItems {c : GCall} {op : InstOp Nat Nat} (h : Item.callback c ∈ instItems m bw op) :
    Module.callOf op = some c := by
  unfold instItems at h
  split at h
  case h_4 d =>
    rcases List.mem_append.mp h with h | h
    · rw [callback_mem_calleeItems h]
      rfl
    · exact absurd h not_callback_mem_operandItems
  case h_5 => exact absurd h not_callback_mem_operandItems
  all_goals simp at h

theorem callback_mem_calls {f : GFunction} {c : GCall} (h : Item.callback c ∈ functionItems m bw f) :
    c ∈ Module.calls f := by
  obtain ⟨b, hb, h⟩ := List.mem_flatMap.mp h
  refine List.mem_flatMap.mpr ⟨b, hb, ?_⟩
  unfold blockItems at h
  rw [List.mem_append, List.mem_append] at h
  rcases h with (h | h) | h
  · exact absurd h not_callback_mem_operandItems
  · obtain ⟨i, hi, h⟩ := List.mem_flatMap.mp h
    exact List.mem_filterMap.mpr ⟨i, hi, callback_mem_instItems h⟩
  · unfold termItems at h
    split at h
    case h_8 => exact absurd h not_callback_mem_operandItems
    all_goals simp at h

theorem merge_spec (hst : Tables H m st) {g : Nat} {f : GFunction} {scan : Scan} {h : HashCode}
    (hf : m.function? g = some f) (hlisted : (bw.funcs g).bind FuncBw.analyze ≠ some false)
    (hdef : f.isDeclaration = false) (hfixed : f.type.isVarArg = false) (hh : functionHash H f = some h)
    (hscan : scanFunction H m bw f = .ok scan) (hnew : st.symtbl.functbl.find? g = none) :
    Tables H m (st.merge L g f h scan) ∧ Grows st.symtbl (st.merge L g f h scan).symtbl ∧
      (∃ info, (st.merge L g f h scan).symtbl.functbl.find? g = some info ∧
        Entry H m bw (st.merge L g f h scan).symtbl g info f scan h) ∧
      ∀ k, k ≠ g → (st.merge L g f h scan).symtbl.functbl.find? k = st.symtbl.functbl.find? k := by
  have hscanned := scanFunction_scanned hscan
  have hstubs : ∀ e ∈ scan.cbStubs.entries, ∃ c ∈ Module.calls f, callSiteHash H c = some e.1 ∧
      e.2 = callbackStub c := by
    intro e he
    obtain ⟨c, hc, hch, hce⟩ := hscanned.origin e.1 e.2 (OrderedMap.mem_entries.mp he)
    exact ⟨c, callback_mem_calls hc, hch, hce⟩
  have hfunctbl : (st.addCalling h f).symtbl.functbl = st.symtbl.functbl := by
    unfold State.addCalling
    split <;> rfl
  obtain ⟨stub, hstub⟩ := Option.ne_none_iff_exists'.mp (addCalling_find st h f)
  obtain ⟨htables, hkeeps, hfound⟩ := foldl_addCallback (addCalling_tables hst hf hh) hf hstubs
  have hmerge : st.merge L g f h scan = (L.setOrder scan.extRefs).foldl (State.addGref L)
      ((scan.cbStubs.entries.foldl State.addCallback (st.addCalling h f)).addFunction L g stub scan) := by
    simp only [State.merge, hstub, Option.getD_some]
  rw [hmerge]
  generalize scan.cbStubs.entries.foldl State.addCallback (st.addCalling h f) = st₂ at *
  have hnew₂ : st₂.symtbl.functbl.find? g = none := by
    rw [hkeeps.functbl, hfunctbl, hnew]
  obtain ⟨htables, hgrefs, hreferred⟩ := foldl_addGref L (L.setOrder scan.extRefs)
    (addFunction_tables L htables stub scan hnew₂)
  generalize (L.setOrder scan.extRefs).foldl (State.addGref L) (st₂.addFunction L g stub scan) = st₄ at *
  have hgrows := (addFunction_grows st₂ g stub scan).trans hgrefs.grows
  have hinfo : st₄.symtbl.functbl.find? g = some ⟨st₂.funcCounter, stub, scan.extRefs, scan.cbStubArgs⟩ := by
    rw [hgrefs.functbl]
    simp only [State.addFunction, OrderedMap.find?_tryEmplace_self, hnew₂, Option.getD_none]
  refine ⟨htables, (addCalling_grows st h f).trans (hkeeps.grows.trans hgrows), ⟨_, hinfo, ?_⟩, ?_⟩
  · refine ⟨hf, hlisted, hdef, hfixed, hh, hscan, rfl, rfl, ?_, ?_, ?_⟩
    · exact (hkeeps.grows.trans hgrows).calling h stub hstub
    · intro r hr
      exact hreferred r ((L.perm _).mem_iff.mpr hr)
    · intro k hk
      obtain ⟨s, hs⟩ := Option.ne_none_iff_exists'.mp (fun hnone => (hscanned.keys k).mp hnone hk)
      exact hgrows.callback k (hfound (k, s) (OrderedMap.mem_entries.mpr hs))
  · intro k hk
    rw [hgrefs.functbl]
    simp only [State.addFunction, OrderedMap.find?_tryEmplace_of_ne hk]
    rw [hkeeps.functbl, hfunctbl]

structure Inv (H : HashOps) (m : Module) (bw : BwList) (done : List Nat) (st : State) : Prop where
  tables : Tables H m st
  entries : ∀ g info, st.symtbl.functbl.find? g = some info → ∃ f scan h, Entry H m bw st.symtbl g info f scan h
  functions : ∀ g, st.symtbl.functbl.find? g ≠ none ↔ g ∈ done ∧ Accepted H m bw g

theorem new_inv (uid : Nat) : Inv H m bw [] (.new uid) where
  tables := by
    refine ⟨?_, ?_, ?_, ?_, ?_, ?_, rfl, rfl, rfl, rfl⟩
    · intro h s hs
      cases hs
    · intro h s hs
      cases hs
    all_goals exact OrderedMap.numbered_empty
  entries := by
    intro g info hinfo
    cases hinfo
  functions := by
    intro g
    simp only [List.not_mem_nil, false_and, iff_false, not_not]
    rfl

/-- A step that takes no function into the table. -/
theorem skip_inv {done : List Nat} {st st' : State} {g : Nat} (hst : Inv H m bw done st)
    (hg : ¬ Accepted H m bw g) (htables : Tables H m st') (hsymtbl : st'.symtbl = st.symtbl) :
    Inv H m bw (done ++ [g]) st' := by
  refine ⟨htables, ?_, ?_⟩
  · rw [hsymtbl]
    exact hst.entries
  · intro k
    rw [hsymtbl, hst.functions, List.mem_append, List.mem_singleton]
    refine and_congr_left (fun hk => ?_)
    constructor
    · exact Or.inl
    · rintro (h | rfl)
      · exact h
      · exact absurd hk hg

theorem doFunction_ok {st' : State} {g : Nat} {f : GFunction} (h : doFunction H L m bw st g f = .ok st') :
    f.isDeclaration = true ∧ st' = st ∨
      f.isDeclaration = false ∧ f.type.isVarArg = false ∧
        ∃ k scan, functionHash H f = some k ∧ scanFunction H m bw f = .ok scan ∧ st' = st.merge L g f k scan := by
  unfold doFunction at h
  split at h
  next hdecl =>
    cases h
    exact .inl ⟨hdecl, rfl⟩
  next hdecl =>
    split at h
    next => cases h
    next hfixed =>
      split at h
      next => cases h
      next k hk =>
        split at h
        next => cases h
        next scan hscan =>
          cases h
          exact .inr ⟨by simpa using hdecl, by simpa using hfixed, k, scan, hk, hscan, rfl⟩

theorem doFunction_error {e : Unsupported} {g : Nat} {f : GFunction} (hf : m.function? g = some f)
    (h : doFunction H L m bw st g f = .error e) : ¬ Accepted H m bw g := by
  rintro ⟨f', k, scan, hf', _, hdecl, hfixed, hk, hscan⟩
  cases hf.symm.trans hf'
  simp [doFunction, hdecl, hfixed, hk, hscan] at h

variable (H L m bw) in
/-- A function is passed over, with nothing but a message, or merged in. -/
theorem visitFunction_cases (st : State) (g : Nat) :
    (¬ Accepted H m bw g ∧ ∃ log diagnosed, visitFunction H L m bw st g = { st with log, diagnosed }) ∨
      ∃ f h scan, m.function? g = some f ∧ (bw.funcs g).bind FuncBw.analyze ≠ some false ∧
        f.isDeclaration = false ∧ f.type.isVarArg = false ∧ functionHash H f = some h ∧
          scanFunction H m bw f = .ok scan ∧ visitFunction H L m bw st g = st.merge L g f h scan := by
  unfold visitFunction
  split
  next hnone =>
    refine .inl ⟨?_, _, _, rfl⟩
    rintro ⟨f, h, scan, hf, _⟩
    rw [hnone] at hf
    cases hf
  next f hf =>
    by_cases hlisted : (bw.funcs g).bind FuncBw.analyze = some false
    · simp only [if_pos hlisted]
      refine .inl ⟨?_, _, _, rfl⟩
      rintro ⟨f', h, scan, hf', hl, _⟩
      exact hl hlisted
    · simp only [if_neg hlisted]
      split
      next st' hok =>
        rcases doFunction_ok hok with ⟨hdecl, rfl⟩ | ⟨hdef, hfixed, k, scan, hk, hscan, rfl⟩
        · refine .inl ⟨?_, _, _, rfl⟩
          rintro ⟨f', h, scan, hf', _, hdef, _⟩
          cases hf.symm.trans hf'
          rw [hdecl] at hdef
          cases hdef
        · exact .inr ⟨f, k, scan, hf, hlisted, hdef, hfixed, hk, hscan, rfl⟩
      next e herr => exact .inl ⟨doFunction_error hf herr, _, _, rfl⟩

theorem visitFunction_inv {done : List Nat} {g : Nat} (hst : Inv H m bw done st) (hg : g ∉ done) :
    Inv H m bw (done ++ [g]) (visitFunction H L m bw st g) := by
  rcases visitFunction_cases H L m bw st g with
    ⟨hnot, log, diagnosed, heq⟩ | ⟨f, k, scan, hf, hlisted, hdef, hfixed, hk, hscan, heq⟩
  · rw [heq]
    exact skip_inv hst hnot { hst.tables with } rfl
  · have hnew : st.symtbl.functbl.find? g = none := by
      by_contra hne
      exact hg ((hst.functions g).mp hne).1
    obtain ⟨htables, hgrows, ⟨info, hinfo, hentry⟩, hother⟩ :=
      merge_spec (L := L) hst.tables hf hlisted hdef hfixed hk hscan hnew
    rw [heq]
    refine ⟨htables, ?_, ?_⟩
    · intro g' info' hinfo'
      by_cases hgg : g' = g
      · subst hgg
        rw [hinfo] at hinfo'
        cases hinfo'
        exact ⟨f, scan, k, hentry⟩
      · rw [hother g' hgg] at hinfo'
        obtain ⟨f', scan', k', he⟩ := hst.entries g' info' hinfo'
        exact ⟨f', scan', k', he.mono hgrows⟩
    · intro g'
      rw [List.mem_append, List.mem_singleton]
      by_cases hgg : g' = g
      · subst hgg
        rw [hinfo]
        simp only [ne_eq, reduceCtorEq, not_false_eq_true, or_true, true_and, true_iff]
        exact ⟨f, k, scan, hf, hlisted, hdef, hfixed, hk, hscan⟩
      · rw [hother g' hgg, hst.functions]
        simp [hgg]

theorem foldl_visitFunction_inv {done l : List Nat} (hst : Inv H m bw done st) (hl : (done ++ l).Nodup) :
    Inv H m bw (done ++ l) (l.foldl (visitFunction H L m bw) st) := by
  induction l generalizing done st with
  | nil => rwa [List.append_nil]
  | cons g l ih =>
      have hg : g ∉ done := by
        intro hg
        exact (List.nodup_append.mp hl).2.2 g hg g List.mem_cons_self rfl
      have hrest := ih (visitFunction_inv (L := L) hst hg) (by simpa using hl)
      simpa using hrest

structure WellFormed (H : HashOps) (m : Module) (bw : BwList) (t : Symtbl) : Prop where
  entries : ∀ g info, t.functbl.find? g = some info → ∃ f scan h, Entry H m bw t g info f scan h
  functions : ∀ g, t.functbl.find? g ≠ none ↔ Accepted H m bw g
  calling : ∀ h s, t.callingStubs.find? h = some s → ∃ g f, m.function? g = some f ∧
    functionHash H f = some h ∧ s = callingStub f s.uid
  callback : ∀ h s, t.callbackStubs.find? h = some s → ∃ g f c, m.function? g = some f ∧
    c ∈ Module.calls f ∧ callSiteHash H c = some h ∧ s = { callbackStub c with uid := s.uid }
  callingUids : OrderedMap.Numbered StubInfo.uid t.callingStubs
  callbackUids : OrderedMap.Numbered StubInfo.uid t.callbackStubs
  functionUids : OrderedMap.Numbered FuncInfo.uid t.functbl
  grefUids : OrderedMap.Numbered GrefInfo.uid t.greftbl

variable (H L m bw) in
theorem analyze_wellFormed (uid : Nat) : WellFormed H m bw (analyze H L m bw uid) := by
  have hnodup : m.functions.Nodup := List.nodup_range.filter _
  have hnew : Inv H m bw [] (.new uid) := new_inv uid
  have hinv := foldl_visitFunction_inv (L := L) (l := m.functions) hnew (by simpa using hnodup)
  refine ⟨hinv.entries, ?_, hinv.tables.calling, hinv.tables.callback, hinv.tables.callingUids,
    hinv.tables.callbackUids, hinv.tables.functionUids, hinv.tables.grefUids⟩
  intro g
  refine (hinv.functions g).trans (and_iff_right_of_imp ?_)
  rintro ⟨f, h, scan, hf, _⟩
  simpa using Module.mem_functions hf

end Comulator.AnalyzeSpec
