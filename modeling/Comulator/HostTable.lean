import Comulator.AnalyzeSpec
import Comulator.ChopOff
import Comulator.TakeOut

namespace Comulator.HostTable

open Fallible Types Ir Symtbl HostIr TakeOut Analyze AnalyzeSpec

variable {P : Input}

def Filled (P : Input) (s : Hfuncs) (g : Nat) (info : FuncInfo) : Prop :=
  if P.blackList g then s.1[info.uid]? = some .null
  else ∃ f gen, P.module.function? g = some f ∧ doHstubcvt P g f info = .ok gen ∧
    s.1[info.uid]? = some (.func (.hstub info.uid)) ∧ s.2.lookup (.hstub info.uid) = some gen.stub ∧
      ∀ copy, gen.copy = some copy → s.2.lookup (.fcpFunc g) = some copy

theorem lookup_functions_of_ne {gen : Generated} {g : Nat} {info : FuncInfo} {sym : HostSym}
    (huid : sym ≠ .hstub info.uid) (hg : sym ≠ .fcpFunc g) : (gen.functions g info).lookup sym = none := by
  unfold Generated.functions
  rw [List.lookup_cons, beq_false_of_ne huid]
  cases gen.copy with
  | none => rfl
  | some copy => simp [List.lookup_cons, beq_false_of_ne hg]

theorem genHfunc_other {s t : Hfuncs} {e : Nat × FuncInfo} (h : genHfunc P s e = .ok t) {sym : HostSym}
    (huid : sym ≠ .hstub e.2.uid) (hg : sym ≠ .fcpFunc e.1) : t.2.lookup sym = s.2.lookup sym := by
  unfold genHfunc at h
  split at h
  next =>
    cases h
    rfl
  next =>
    split at h
    next => cases h
    next f _ =>
      obtain ⟨gen, _, h⟩ := bind_eq_ok.mp h
      cases h
      simp [List.lookup_append, lookup_functions_of_ne huid hg]

theorem genHfunc_length {s t : Hfuncs} {e : Nat × FuncInfo} (h : genHfunc P s e = .ok t) :
    t.1.length = s.1.length := by
  unfold genHfunc at h
  split at h
  next =>
    cases h
    simp
  next =>
    split at h
    next => cases h
    next f _ =>
      obtain ⟨gen, _, h⟩ := bind_eq_ok.mp h
      cases h
      simp

theorem genHfunc_get_ne {s t : Hfuncs} {e : Nat × FuncInfo} (h : genHfunc P s e = .ok t) {i : Nat}
    (hi : i ≠ e.2.uid) : t.1[i]? = s.1[i]? := by
  unfold genHfunc at h
  split at h
  next =>
    cases h
    simp [List.getElem?_set_ne hi.symm]
  next =>
    split at h
    next => cases h
    next f _ =>
      obtain ⟨gen, _, h⟩ := bind_eq_ok.mp h
      cases h
      simp [List.getElem?_set_ne hi.symm]

theorem genHfunc_filled {s t : Hfuncs} {e : Nat × FuncInfo} (h : genHfunc P s e = .ok t)
    (hlen : e.2.uid < s.1.length) (hstub : s.2.lookup (.hstub e.2.uid) = none)
    (hcopy : s.2.lookup (.fcpFunc e.1) = none) : Filled P t e.1 e.2 := by
  unfold genHfunc at h
  unfold Filled
  split at h
  next hb =>
    cases h
    rw [if_pos hb]
    simp [List.getElem?_set_self hlen]
  next hb =>
    rw [if_neg hb]
    split at h
    next => cases h
    next f hf =>
      obtain ⟨gen, hgen, h⟩ := bind_eq_ok.mp h
      cases h
      refine ⟨f, gen, hf, hgen, by simp [List.getElem?_set_self hlen], ?_, ?_⟩
      · simp [List.lookup_append, hstub, Generated.functions]
      · intro copy hc
        have hne : (HostSym.fcpFunc e.1 == HostSym.hstub e.2.uid) = false := beq_false_of_ne (by simp)
        simp [List.lookup_append, hcopy, Generated.functions, hc, List.lookup_cons, hne]

theorem Filled.mono {s t : Hfuncs} {e : Nat × FuncInfo} {g : Nat} {info : FuncInfo} (hs : Filled P s g info)
    (h : genHfunc P s e = .ok t) (hg : g ≠ e.1) (huid : info.uid ≠ e.2.uid) : Filled P t g info := by
  unfold Filled at hs ⊢
  by_cases hb : P.blackList g = true
  · rw [if_pos hb] at hs ⊢
    rw [genHfunc_get_ne h huid, hs]
  · rw [if_neg hb] at hs ⊢
    obtain ⟨f, gen, hf, hgen, hentry, hstub, hcopy⟩ := hs
    refine ⟨f, gen, hf, hgen, ?_, ?_, ?_⟩
    · rw [genHfunc_get_ne h huid, hentry]
    · rw [genHfunc_other h (by simp [huid]) (by simp), hstub]
    · intro copy hc
      rw [genHfunc_other h (by simp) (by simp [hg]), hcopy copy hc]

theorem foldlM_genHfunc {l : List (Nat × FuncInfo)} {s t : Hfuncs} (h : l.foldlM (genHfunc P) s = .ok t)
    (hkeys : (l.map Prod.fst).Nodup) (huids : (l.map (fun e => e.2.uid)).Nodup)
    (hlen : ∀ e ∈ l, e.2.uid < s.1.length)
    (hfresh : ∀ e ∈ l, s.2.lookup (.hstub e.2.uid) = none ∧ s.2.lookup (.fcpFunc e.1) = none) :
    (∀ g info, Filled P s g info → (∀ e ∈ l, g ≠ e.1 ∧ info.uid ≠ e.2.uid) → Filled P t g info) ∧
      ∀ e ∈ l, Filled P t e.1 e.2 := by
  induction l generalizing s with
  | nil =>
      cases h
      exact ⟨fun g info hs _ => hs, by simp⟩
  | cons e l ih =>
      rw [List.foldlM_cons] at h
      obtain ⟨u, hu, h⟩ := bind_eq_ok.mp h
      rw [List.map_cons, List.nodup_cons] at hkeys huids
      have hne : ∀ d ∈ l, e.1 ≠ d.1 ∧ e.2.uid ≠ d.2.uid := by
        intro d hd
        constructor
        · intro heq
          exact hkeys.1 (List.mem_map.mpr ⟨d, hd, heq.symm⟩)
        · intro heq
          exact huids.1 (List.mem_map.mpr ⟨d, hd, heq.symm⟩)
      have hfresh' : ∀ d ∈ l, u.2.lookup (.hstub d.2.uid) = none ∧ u.2.lookup (.fcpFunc d.1) = none := by
        intro d hd
        obtain ⟨hd1, hd2⟩ := hne d hd
        obtain ⟨hf1, hf2⟩ := hfresh d (List.mem_cons_of_mem _ hd)
        exact ⟨(genHfunc_other hu (by simp [hd2.symm]) (by simp)).trans hf1,
          (genHfunc_other hu (by simp) (by simp [hd1.symm])).trans hf2⟩
      obtain ⟨hkeep, hall⟩ := ih h hkeys.2 huids.2
        (fun d hd => by rw [genHfunc_length hu]; exact hlen d (List.mem_cons_of_mem _ hd)) hfresh'
      refine ⟨?_, ?_⟩
      · intro g info hs hout
        obtain ⟨hg, huid⟩ := hout e List.mem_cons_self
        exact hkeep g info (hs.mono hu hg huid) (fun d hd => hout d (List.mem_cons_of_mem _ hd))
      · intro d hd
        rcases List.mem_cons.mp hd with rfl | hd
        · obtain ⟨hf1, hf2⟩ := hfresh d List.mem_cons_self
          exact hkeep d.1 d.2 (genHfunc_filled hu (hlen d List.mem_cons_self) hf1 hf2) hne
        · exact hall d hd

theorem genHfuncs_filled {s : Hfuncs} (h : genHfuncs P = .ok s)
    (huids : OrderedMap.Numbered FuncInfo.uid P.symtbl.functbl) {g : Nat} {info : FuncInfo}
    (hinfo : P.symtbl.functbl.find? g = some info) : Filled P s g info := by
  have hnodup : (P.symtbl.functbl.entries.map (fun e => e.2.uid)).Nodup := huids.nodup_iff.mpr List.nodup_range
  obtain ⟨_, hall⟩ := foldlM_genHfunc h P.symtbl.functbl.nodup hnodup
    (by
      intro e he
      rw [List.length_replicate]
      exact huids.lt (OrderedMap.mem_entries.mp he))
    (fun e _ => ⟨rfl, rfl⟩)
  exact hall (g, info) (OrderedMap.mem_entries.mpr hinfo)

theorem takeOut_genHfuncs {M : HostModule} (h : takeOut P = .ok M) :
    genHfuncs P = .ok (M.hfunctbl, M.functions) := by
  obtain ⟨⟨hfuncs, functions⟩, hs, h⟩ := bind_eq_ok.mp h
  simp only at h
  split at h
  next =>
    obtain ⟨functbl, _, h⟩ := bind_eq_ok.mp h
    cases h
    exact hs
  next =>
    cases h
    exact hs

def TakenOut (P : Input) (M : HostModule) (g : Nat) (info : FuncInfo) : Prop :=
  ∃ f gen, P.module.function? g = some f ∧ doHstubcvt P g f info = .ok gen ∧
    M.hfunctbl[info.uid]? = some (.func (.hstub info.uid)) ∧ M.functions.lookup (.hstub info.uid) = some gen.stub

/-- A function that is chopped off is taken out exactly when it is not on the
black list of that stage; otherwise its entry is null. -/
theorem chopped_takenOut_iff (hash : TypeHash.HashOps) (L : Layout) (m : Module) (config : Config) (bw : BwList)
    (uid : Nat) {M : HostModule} (hM : takeOut ⟨hash, m, config, bw, analyze hash L m bw uid⟩ = .ok M)
    {g : Nat} {info : FuncInfo}
    (hchop : (g, info) ∈ ChopOff.calcBenefits m config bw (analyze hash L m bw uid)) :
    if (bw.funcs g).bind FuncBw.takeOut = some false then M.hfunctbl[info.uid]? = some .null
    else TakenOut ⟨hash, m, config, bw, analyze hash L m bw uid⟩ M g info := by
  have hmem : (g, info) ∈ (analyze hash L m bw uid).functbl.entries := (List.mem_filter.mp hchop).1
  have hfilled := genHfuncs_filled (takeOut_genHfuncs hM) (analyze_wellFormed hash L m bw uid).functionUids
    (OrderedMap.mem_entries.mp hmem)
  unfold Filled Input.blackList at hfilled
  simp only [decide_eq_true_eq] at hfilled
  by_cases hb : (bw.funcs g).bind FuncBw.takeOut = some false
  · rw [if_pos hb] at hfilled ⊢
    exact hfilled
  · rw [if_neg hb] at hfilled ⊢
    obtain ⟨f, gen, hf, hgen, hentry, hstub, _⟩ := hfilled
    exact ⟨f, gen, hf, hgen, hentry, hstub⟩

def emptyFunction : GFunction :=
  ⟨⟨.void, [], false⟩, 0, ⟨[]⟩, none, [(0, ⟨[], [], 0, .ret none⟩)], [], none⟩

def emptyModule : Module := ⟨[.function emptyFunction], by decide⟩

def sumHash : TypeHash.HashOps :=
  ⟨id, fun args => args.length, 1, fun _ => 2, fun _ => 3⟩

def plainLayout : Layout := ⟨fun g k => g < k, id, fun l => List.Perm.refl l, fun _ _ => rfl⟩

def takeOutList (takeOut : Option Bool) : BwList :=
  ⟨fun _ => some ⟨none, none, none, takeOut⟩, fun _ => none, fun _ => false, false⟩

def chopAll : Config := ⟨false, false, false, false, 0, 0⟩

def emptyInput (listed : Option Bool) : Input :=
  ⟨sumHash, emptyModule, chopAll, takeOutList listed, analyze sumHash plainLayout emptyModule (takeOutList listed) 7⟩

theorem chopped_takenOut_empty : ∃ M info, takeOut (emptyInput none) = .ok M ∧
    (0, info) ∈ ChopOff.calcBenefits emptyModule chopAll (takeOutList none) (emptyInput none).symtbl ∧
      TakenOut (emptyInput none) M 0 info := by
  refine ⟨_, _, rfl, List.mem_singleton.mpr rfl, ?_⟩
  exact chopped_takenOut_iff sumHash plainLayout emptyModule chopAll (takeOutList none) 7 rfl
    (List.mem_singleton.mpr rfl)

theorem chopped_null : ∃ M info, takeOut (emptyInput (some false)) = .ok M ∧
    (0, info) ∈ ChopOff.calcBenefits emptyModule chopAll (takeOutList (some false)) (emptyInput (some false)).symtbl ∧
      M.hfunctbl[info.uid]? = some .null :=
  ⟨_, _, rfl, List.mem_singleton.mpr rfl, rfl⟩

end Comulator.HostTable
