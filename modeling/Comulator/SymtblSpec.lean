import Comulator.HostTable

namespace Comulator.SymtblSpec

open Fallible Types Ir TypeHash Symtbl HostIr Analyze AnalyzeSpec TakeOut ChopOff

variable {H : HashOps} {L : Layout} {m : Module} {bw : BwList}

theorem visit_nodup {l : List Item} {s t : Scan} (hs : Scanned H l s) {i : Item} (h : s.visit H i = .ok t)
    (hrefs : s.extRefs.Nodup) (hstubs : s.cbStubArgs.Nodup) : t.extRefs.Nodup ∧ t.cbStubArgs.Nodup := by
  cases i with
  | ref g =>
      cases h
      simp only [Scan.addRef]
      split
      next => exact ⟨hrefs, hstubs⟩
      next hg => exact ⟨hrefs.append (List.nodup_singleton g) (List.disjoint_singleton.mpr hg), hstubs⟩
  | callback c =>
      simp only [Scan.visit, Scan.addCallback] at h
      split at h
      next => cases h
      next =>
        split at h
        next => cases h
        next k _ =>
          split at h
          next hnew =>
            cases h
            refine ⟨hrefs, hstubs.append (List.nodup_singleton k) ?_⟩
            exact List.disjoint_singleton.mpr ((hs.keys k).mp hnew)
          next =>
            cases h
            exact ⟨hrefs, hstubs⟩
  | reject e => cases h

theorem foldlM_nodup {l k : List Item} {s t : Scan} (hs : Scanned H l s)
    (h : k.foldlM (Scan.visit H) s = .ok t) (hrefs : s.extRefs.Nodup) (hstubs : s.cbStubArgs.Nodup) :
    t.extRefs.Nodup ∧ t.cbStubArgs.Nodup := by
  induction k generalizing l s with
  | nil =>
      cases h
      exact ⟨hrefs, hstubs⟩
  | cons i k ih =>
      rw [List.foldlM_cons] at h
      obtain ⟨u, hu, h⟩ := bind_eq_ok.mp h
      obtain ⟨hr, hc⟩ := visit_nodup hs hu hrefs hstubs
      exact ih (visit_scanned hs hu) h hr hc

theorem scanFunction_nodup {f : GFunction} {s : Scan} (h : scanFunction H m bw f = .ok s) :
    s.extRefs.Nodup ∧ s.cbStubArgs.Nodup :=
  foldlM_nodup empty_scanned h List.nodup_nil List.nodup_nil

structure Used (t : Symtbl) : Prop where
  refs : ∀ r, t.greftbl.find? r ≠ none → ∃ g info, t.functbl.find? g = some info ∧ r ∈ info.extRefArgs
  stubs : ∀ h, t.callbackStubs.find? h ≠ none → ∃ g info, t.functbl.find? g = some info ∧ h ∈ info.cbStubArgs

theorem addCalling_others (st : State) (h : HashCode) (f : GFunction) :
    (st.addCalling h f).symtbl.greftbl = st.symtbl.greftbl ∧
      (st.addCalling h f).symtbl.callbackStubs = st.symtbl.callbackStubs := by
  unfold State.addCalling
  split <;> exact ⟨rfl, rfl⟩

theorem foldl_addCallback_keys (l : List (HashCode × StubInfo)) (st : State) :
    (l.foldl State.addCallback st).symtbl.greftbl = st.symtbl.greftbl ∧
      ∀ h, (l.foldl State.addCallback st).symtbl.callbackStubs.find? h ≠ none →
        h ∈ l.map Prod.fst ∨ st.symtbl.callbackStubs.find? h ≠ none := by
  induction l generalizing st with
  | nil => exact ⟨rfl, fun h hh => .inr hh⟩
  | cons e l ih =>
      obtain ⟨hgrefs, hkeys⟩ := ih (st.addCallback e)
      have hstep : (st.addCallback e).symtbl.greftbl = st.symtbl.greftbl ∧
          ∀ h, (st.addCallback e).symtbl.callbackStubs.find? h ≠ none →
            h = e.1 ∨ st.symtbl.callbackStubs.find? h ≠ none := by
        unfold State.addCallback
        split
        next => exact ⟨rfl, fun h => find?_tryEmplace_ne_none.mp⟩
        next => exact ⟨rfl, fun h => Or.inr⟩
      refine ⟨hgrefs.trans hstep.1, ?_⟩
      intro h hh
      rcases hkeys h hh with hl | hold
      · exact .inl (List.mem_cons_of_mem _ hl)
      · rcases hstep.2 h hold with rfl | hold
        · exact .inl List.mem_cons_self
        · exact .inr hold

theorem foldl_addGref_keys (l : List Nat) (st : State) :
    (l.foldl (State.addGref L) st).symtbl.callbackStubs = st.symtbl.callbackStubs ∧
      ∀ r, (l.foldl (State.addGref L) st).symtbl.greftbl.find? r ≠ none →
        r ∈ l ∨ st.symtbl.greftbl.find? r ≠ none := by
  induction l generalizing st with
  | nil => exact ⟨rfl, fun r hr => .inr hr⟩
  | cons g l ih =>
      obtain ⟨hstubs, hkeys⟩ := ih (st.addGref L g)
      have hstep : (st.addGref L g).symtbl.callbackStubs = st.symtbl.callbackStubs ∧
          ∀ r, (st.addGref L g).symtbl.greftbl.find? r ≠ none → r = g ∨ st.symtbl.greftbl.find? r ≠ none := by
        unfold State.addGref
        split
        next => exact ⟨rfl, fun r => find?_tryEmplace_ne_none.mp⟩
        next => exact ⟨rfl, fun r => Or.inr⟩
      refine ⟨hstubs.trans hstep.1, ?_⟩
      intro r hr
      rcases hkeys r hr with hl | hold
      · exact .inl (List.mem_cons_of_mem _ hl)
      · rcases hstep.2 r hold with rfl | hold
        · exact .inl List.mem_cons_self
        · exact .inr hold

variable (L) in
/-- The new references and stubs are those of the function merged in. -/
theorem merge_keys (st : State) (g : Nat) (f : GFunction) (h : HashCode) {l : List Item} {scan : Scan}
    (hscan : Scanned H l scan) :
    (∀ r, (st.merge L g f h scan).symtbl.greftbl.find? r ≠ none →
      r ∈ scan.extRefs ∨ st.symtbl.greftbl.find? r ≠ none) ∧
      ∀ k, (st.merge L g f h scan).symtbl.callbackStubs.find? k ≠ none →
        k ∈ scan.cbStubArgs ∨ st.symtbl.callbackStubs.find? k ≠ none := by
  obtain ⟨hgrefs, hstubs⟩ := addCalling_others st h f
  obtain ⟨hgrefs', hkeys⟩ := foldl_addCallback_keys scan.cbStubs.entries (st.addCalling h f)
  simp only [State.merge]
  generalize scan.cbStubs.entries.foldl State.addCallback (st.addCalling h f) = st₂ at *
  generalize ((st.addCalling h f).symtbl.callingStubs.find? h).getD _ = stub
  obtain ⟨hstubs', hrefs⟩ := foldl_addGref_keys (L := L) (L.setOrder scan.extRefs) (st₂.addFunction L g stub scan)
  constructor
  · intro r hr
    rcases hrefs r hr with hl | hold
    · exact .inl ((L.perm _).mem_iff.mp hl)
    · have hold : st₂.symtbl.greftbl.find? r ≠ none := hold
      rw [hgrefs', hgrefs] at hold
      exact .inr hold
  · intro k hk
    rw [hstubs'] at hk
    rcases hkeys k hk with hl | hold
    · refine .inl (by_contra fun hne => ?_)
      exact OrderedMap.find?_eq_none.mp ((hscan.keys k).mpr hne) hl
    · rw [hstubs] at hold
      exact .inr hold

variable {st : State}

theorem visitFunction_used {done : List Nat} {g : Nat} (hst : Inv H m bw done st) (hg : g ∉ done)
    (hused : Used st.symtbl) : Used (visitFunction H L m bw st g).symtbl := by
  rcases visitFunction_cases H L m bw st g with
    ⟨_, log, diagnosed, heq⟩ | ⟨f, k, scan, hf, hlisted, hdef, hfixed, hk, hscan, heq⟩
  · rw [heq]
    exact hused
  · have hnew : st.symtbl.functbl.find? g = none := by
      by_contra hne
      exact hg ((hst.functions g).mp hne).1
    obtain ⟨_, _, ⟨info, hinfo, hentry⟩, hother⟩ :=
      merge_spec (L := L) hst.tables hf hlisted hdef hfixed hk hscan hnew
    obtain ⟨hrefs, hstubs⟩ := merge_keys L st g f k (scanFunction_scanned hscan)
    have hkept : ∀ g' info', st.symtbl.functbl.find? g' = some info' →
        (st.merge L g f k scan).symtbl.functbl.find? g' = some info' := by
      intro g' info' h'
      have hne : g' ≠ g := by
        rintro rfl
        rw [hnew] at h'
        cases h'
      rw [hother g' hne, h']
    rw [heq]
    constructor
    · intro r hr
      rcases hrefs r hr with hmem | hold
      · exact ⟨g, info, hinfo, by rwa [hentry.refs]⟩
      · obtain ⟨g', info', h', hmem⟩ := hused.refs r hold
        exact ⟨g', info', hkept g' info' h', hmem⟩
    · intro h hh
      rcases hstubs h hh with hmem | hold
      · exact ⟨g, info, hinfo, by rwa [hentry.stubs]⟩
      · obtain ⟨g', info', h', hmem⟩ := hused.stubs h hold
        exact ⟨g', info', hkept g' info' h', hmem⟩

theorem foldl_visitFunction_used {done l : List Nat} (hst : Inv H m bw done st) (hl : (done ++ l).Nodup)
    (hused : Used st.symtbl) : Used (l.foldl (visitFunction H L m bw) st).symtbl := by
  induction l generalizing done st with
  | nil => exact hused
  | cons g l ih =>
      have hg : g ∉ done := by
        intro hg
        exact (List.nodup_append.mp hl).2.2 g hg g List.mem_cons_self rfl
      apply ih (visitFunction_inv hst hg)
      · simpa using hl
      · exact visitFunction_used hst hg hused

variable (H L m bw) in
theorem analyze_used (uid : Nat) : Used (analyze H L m bw uid) := by
  have hnodup : m.functions.Nodup := List.nodup_range.filter _
  refine foldl_visitFunction_used (new_inv uid) (by simpa using hnodup) ⟨?_, ?_⟩
  · intro r hr
    exact absurd rfl hr
  · intro h hh
    exact absurd rfl hh

section Vectors

variable {K V W : Type} [DecidableEq K]

/-- A vector that was sized by a map and written at the numbers of its entries:
every number is in bounds, and no element has its initial value any more. -/
structure Covers (uid : V → Nat) (map : OrderedMap K V) (initial : W) (vec : List W) : Prop where
  length : vec.length = map.size
  bounds : ∀ k v, map.find? k = some v → uid v < vec.length
  written : initial ∉ vec

theorem covers_of_entries {uid : V → Nat} {map : OrderedMap K V} {initial : W} {vec : List W}
    (huids : OrderedMap.Numbered uid map) (hlen : vec.length = map.size)
    (h : ∀ e ∈ map.entries, ∃ w, vec[uid e.2]? = some w ∧ w ≠ initial) : Covers uid map initial vec := by
  refine ⟨hlen, ?_, ?_⟩
  · intro k v hk
    rw [hlen]
    exact huids.lt hk
  · intro hmem
    obtain ⟨i, hi, hget⟩ := List.mem_iff_getElem.mp hmem
    have hi' : i ∈ map.entries.map (fun e => uid e.2) := by
      rw [huids.mem_iff, List.mem_range, ← hlen]
      exact hi
    obtain ⟨e, he, rfl⟩ := List.mem_map.mp hi'
    obtain ⟨w, hw, hne⟩ := h e he
    rw [List.getElem?_eq_getElem hi, hget] at hw
    exact hne (Option.some.inj hw).symm

theorem foldl_set_length {A : Type} (pos : A → Nat) (val : A → W) (l : List A) (vec : List W) :
    (l.foldl (fun t e => t.set (pos e) (val e)) vec).length = vec.length := by
  induction l generalizing vec with
  | nil => rfl
  | cons e l ih => rw [List.foldl_cons, ih, List.length_set]

theorem foldl_set_get {A : Type} {pos : A → Nat} {val : A → W} {l : List A} (vec : List W)
    (hpos : (l.map pos).Nodup) (hlen : ∀ e ∈ l, pos e < vec.length) :
    (∀ i, i ∉ l.map pos → (l.foldl (fun t e => t.set (pos e) (val e)) vec)[i]? = vec[i]?) ∧
      ∀ e ∈ l, (l.foldl (fun t e => t.set (pos e) (val e)) vec)[pos e]? = some (val e) := by
  induction l generalizing vec with
  | nil => exact ⟨fun _ _ => rfl, by simp⟩
  | cons e l ih =>
      rw [List.map_cons, List.nodup_cons] at hpos
      obtain ⟨hother, hset⟩ := ih (vec.set (pos e) (val e)) hpos.2
        (fun d hd => by rw [List.length_set]; exact hlen d (List.mem_cons_of_mem _ hd))
      constructor
      · intro i hi
        rw [List.map_cons, List.mem_cons, not_or] at hi
        rw [List.foldl_cons, hother i hi.2, List.getElem?_set_ne (Ne.symm hi.1)]
      · intro d hd
        rcases List.mem_cons.mp hd with rfl | hd
        · rw [List.foldl_cons, hother _ hpos.1, List.getElem?_set_self (hlen d List.mem_cons_self)]
        · exact hset d hd

/-- An entry of a map stands in its table at the entry's number. -/
theorem tableOf_get {uid : V → Nat} {map : OrderedMap K V} (huids : OrderedMap.Numbered uid map)
    {e : K × V} (he : e ∈ map.entries) : (tableOf uid map.entries)[uid e.2]? = some (some e.1) := by
  have hnodup : (map.entries.map (fun e => uid e.2)).Nodup := huids.nodup_iff.mpr List.nodup_range
  refine (foldl_set_get _ hnodup ?_).2 e he
  intro d hd
  rw [List.length_replicate]
  exact huids.lt (OrderedMap.mem_entries.mp hd)

theorem tableOf_inv {uid : V → Nat} {map : OrderedMap K V} (huids : OrderedMap.Numbered uid map) {i : Nat} {k : K}
    (h : (tableOf uid map.entries)[i]? = some (some k)) : ∃ v, map.find? k = some v ∧ uid v = i := by
  have hlen : (tableOf uid map.entries).length = map.size := (foldl_set_length _ _ _ _).trans List.length_replicate
  have hi : i ∈ map.entries.map (fun e => uid e.2) := by
    rw [huids.mem_iff, List.mem_range, ← hlen]
    exact (List.getElem?_eq_some_iff.mp h).1
  obtain ⟨e, he, rfl⟩ := List.mem_map.mp hi
  have hget := tableOf_get huids he
  rw [hget] at h
  cases h
  exact ⟨e.2, OrderedMap.mem_entries.mp he, rfl⟩

theorem tableOf_covers {uid : V → Nat} {map : OrderedMap K V} (huids : OrderedMap.Numbered uid map) :
    Covers uid map none (tableOf uid map.entries) := by
  apply covers_of_entries huids
  · exact (foldl_set_length _ _ _ _).trans List.length_replicate
  · intro e he
    exact ⟨some e.1, tableOf_get huids he, by simp⟩

end Vectors

section Tables

variable {P : Input}

theorem foldlM_genHfunc_length {l : List (Nat × FuncInfo)} {s t : Hfuncs} (h : l.foldlM (genHfunc P) s = .ok t) :
    t.1.length = s.1.length := by
  induction l generalizing s with
  | nil =>
      cases h
      rfl
  | cons e l ih =>
      rw [List.foldlM_cons] at h
      obtain ⟨u, hu, h⟩ := bind_eq_ok.mp h
      rw [ih h, HostTable.genHfunc_length hu]

theorem genHfuncs_covers {s : Hfuncs} (h : genHfuncs P = .ok s)
    (huids : OrderedMap.Numbered FuncInfo.uid P.symtbl.functbl) :
    Covers FuncInfo.uid P.symtbl.functbl .unset s.1 := by
  apply covers_of_entries huids
  · exact (foldlM_genHfunc_length h).trans List.length_replicate
  · intro e he
    have hfilled := HostTable.genHfuncs_filled h huids (OrderedMap.mem_entries.mp he)
    unfold HostTable.Filled at hfilled
    split at hfilled
    next => exact ⟨.null, hfilled, by simp⟩
    next =>
      obtain ⟨_, _, _, _, hentry, _⟩ := hfilled
      exact ⟨_, hentry, by simp⟩

def fcpEntry (P : Input) (g : Nat) : HEntry := if P.blackList g then .null else .func (.fcpFunc g)

theorem genFunctbl_eq {tbl : List HEntry} (h : genFunctbl P = .ok tbl) :
    tbl = P.symtbl.functbl.entries.foldl (fun s e => s.set e.2.uid (fcpEntry P e.1))
      (List.replicate P.symtbl.functbl.size .unset) := by
  unfold genFunctbl at h
  generalize List.replicate P.symtbl.functbl.size HEntry.unset = s at *
  generalize P.symtbl.functbl.entries = l at *
  induction l generalizing s with
  | nil =>
      cases h
      rfl
  | cons e l ih =>
      rw [List.foldlM_cons] at h
      obtain ⟨u, hu, h⟩ := bind_eq_ok.mp h
      have hstep : u = s.set e.2.uid (fcpEntry P e.1) := by
        unfold fcpEntry
        split at hu
        next hb =>
          cases hu
          rw [if_pos hb]
        next hb =>
          split at hu
          next =>
            cases hu
            rw [if_neg hb]
          next => cases hu
      rw [List.foldl_cons, ← hstep]
      exact ih u h

theorem genFunctbl_get {tbl : List HEntry} (h : genFunctbl P = .ok tbl)
    (huids : OrderedMap.Numbered FuncInfo.uid P.symtbl.functbl) {g : Nat} {info : FuncInfo}
    (hinfo : P.symtbl.functbl.find? g = some info) : tbl[info.uid]? = some (fcpEntry P g) := by
  have hnodup : (P.symtbl.functbl.entries.map (fun e => e.2.uid)).Nodup := huids.nodup_iff.mpr List.nodup_range
  rw [genFunctbl_eq h]
  refine (foldl_set_get _ hnodup ?_).2 (g, info) (OrderedMap.mem_entries.mpr hinfo)
  intro d hd
  rw [List.length_replicate]
  exact huids.lt (OrderedMap.mem_entries.mp hd)

theorem genFunctbl_covers {tbl : List HEntry} (h : genFunctbl P = .ok tbl)
    (huids : OrderedMap.Numbered FuncInfo.uid P.symtbl.functbl) :
    Covers FuncInfo.uid P.symtbl.functbl .unset tbl := by
  apply covers_of_entries huids
  · rw [genFunctbl_eq h]
    exact (foldl_set_length _ _ _ _).trans List.length_replicate
  · intro e he
    refine ⟨_, genFunctbl_get h huids (OrderedMap.mem_entries.mp he), ?_⟩
    unfold fcpEntry
    split <;> simp

theorem takeOut_functbl {M : HostModule} (h : takeOut P = .ok M) {tbl : List HEntry}
    (htbl : M.functbl = some tbl) : genFunctbl P = .ok tbl := by
  obtain ⟨⟨hfuncs, functions⟩, hs, h⟩ := bind_eq_ok.mp h
  simp only at h
  split at h
  next =>
    obtain ⟨functbl, hfunctbl, h⟩ := bind_eq_ok.mp h
    cases h
    cases htbl
    exact hfunctbl
  next =>
    cases h
    cases htbl

end Tables

structure Usable (H : HashOps) (m : Module) (t : Symtbl) : Prop where
  functionUids : OrderedMap.Numbered FuncInfo.uid t.functbl
  grefUids : OrderedMap.Numbered GrefInfo.uid t.greftbl
  callbackUids : OrderedMap.Numbered StubInfo.uid t.callbackStubs
  callingUids : OrderedMap.Numbered StubInfo.uid t.callingStubs
  refs : ∀ g info, t.functbl.find? g = some info →
    info.extRefArgs.Nodup ∧ ∀ r ∈ info.extRefArgs, t.greftbl.find? r ≠ none
  stubs : ∀ g info, t.functbl.find? g = some info →
    info.cbStubArgs.Nodup ∧ ∀ h ∈ info.cbStubArgs, t.callbackStubs.find? h ≠ none
  stubType : ∀ g info, t.functbl.find? g = some info → ∃ f h, m.function? g = some f ∧
    functionHash H f = some h ∧ t.callingStubs.find? h = some info.stubType ∧
      ((∀ g' f', m.function? g' = some f' → functionHash H f' = some h → f'.type = f.type) →
        info.stubType.func = f.type)
  used : Used t

variable (H L m bw) in
theorem analyze_usable (uid : Nat) : Usable H m (analyze H L m bw uid) := by
  have hwf := analyze_wellFormed H L m bw uid
  refine ⟨hwf.functionUids, hwf.grefUids, hwf.callbackUids, hwf.callingUids, ?_, ?_, ?_, analyze_used H L m bw uid⟩
  · intro g info hinfo
    obtain ⟨f, scan, h, he⟩ := hwf.entries g info hinfo
    rw [he.refs]
    exact ⟨(scanFunction_nodup he.scanned).1, he.grefs⟩
  · intro g info hinfo
    obtain ⟨f, scan, h, he⟩ := hwf.entries g info hinfo
    rw [he.stubs]
    exact ⟨(scanFunction_nodup he.scanned).2, he.callbacks⟩
  · intro g info hinfo
    obtain ⟨f, scan, h, he⟩ := hwf.entries g info hinfo
    refine ⟨f, h, he.function, he.hash, he.stub, ?_⟩
    intro hfree
    -- the stub may have been made for another function with this hash
    obtain ⟨g', f', hf', hh', hs⟩ := hwf.calling h info.stubType he.stub
    rw [hs]
    exact hfree g' f' hf' hh'

/-- The table that `Analyze` builds is well formed, and the vectors that are
sized by it and indexed by its numbers are written completely. -/
theorem analyze_tables (H : HashOps) (L : Layout) (m : Module) (bw : BwList) (uid : Nat) :
    Usable H m (analyze H L m bw uid) ∧
      Covers StubInfo.uid (analyze H L m bw uid).callbackStubs none (genCbstubtbl (analyze H L m bw uid)) ∧
      Covers GrefInfo.uid (analyze H L m bw uid).greftbl none (genExtreftbl (analyze H L m bw uid)) ∧
      Covers FuncInfo.uid (analyze H L m bw uid).functbl none (genGfunctbl (analyze H L m bw uid)) ∧
      ∀ config M, takeOut ⟨H, m, config, bw, analyze H L m bw uid⟩ = .ok M →
        Covers FuncInfo.uid (analyze H L m bw uid).functbl .unset M.hfunctbl ∧
          ∀ tbl, M.functbl = some tbl → Covers FuncInfo.uid (analyze H L m bw uid).functbl .unset tbl := by
  have husable := analyze_usable H L m bw uid
  refine ⟨husable, tableOf_covers husable.callbackUids, tableOf_covers husable.grefUids,
    tableOf_covers husable.functionUids, ?_⟩
  intro config M hM
  refine ⟨genHfuncs_covers (HostTable.takeOut_genHfuncs hM) husable.functionUids, ?_⟩
  intro tbl htbl
  exact genFunctbl_covers (takeOut_functbl hM htbl) husable.functionUids

end Comulator.SymtblSpec
