import Comulator.ConfigJson
import Comulator.Treatment

namespace Comulator.Pipelines

open Types Ir TypeHash Symtbl Analyze FirstSeen PickUp ConfigJson LayoutFree Accounts Treatment
open Numbering hiding callbacks

structure ClosedModule extends PickModule where
  closed : Closed toModule

def commandLine (config : FullConfig) : Drive := ⟨config.usePFO, .null⟩

/-- `LtoPass::run` up to its `Analyze`, unless `PickUp` comes to no end. -/
def linkTime (N : IntrinsicNumbers) (m : PickModule) (config : FullConfig) : Option Drive :=
  (pickUp N m config.bwList).map (fun bw => ⟨config.usePFO, bw⟩)

section Decisions

variable (H : HashOps) (N : IntrinsicNumbers) (names : Nat → GValue → String) (m : ClosedModule) (config : FullConfig)

def symtbl (d : Drive) (L : Layout) (uid : Nat) : Symtbl := analyzeSymbols H L (d.symbols H names m.toModule) d.bw uid

def SameDecisions : Prop :=
  ∃ d, linkTime N m.toPickModule config = some d ∧ ∀ (L L' : AddressLayout) (uid uid' : Nat),
    SameTables ((commandLine config).sym H names m.toModule) (d.sym H names m.toModule)
      (symtbl H names m (commandLine config) L.toLayout uid) (symtbl H names m d L'.toLayout uid')

end Decisions

section Conditions

variable (H : HashOps) (names : Nat → GValue → String) (m : Module)

def taken (d : Drive) : List Nat := (List.range m.symbols.length).filter (takes H names m d)

def firstStub (d : Drive) (h : HashCode) : Option StubInfo :=
  ((taken H names m d).flatMap (fun g => (events H names m d g).filterMap Event.callback?)).lookup h

/-- The list changes nothing that comes into the tables: it costs no function its
place and gives it to none, what it leaves out of an accepted function or adds to it
is met a second time only, and the first call with a hash is alike; and the numbers of
references are not up to addresses. -/
structure Indifferent (usePFO : Bool) (bw : BwList) : Prop where
  accepted : ∀ g, offered H m g = true → (supported H names m ⟨usePFO, .null⟩ g = true ↔
    (bw.funcs g).bind FuncBw.analyze ≠ some false ∧ supported H names m ⟨usePFO, bw⟩ g = true)
  references : ∀ g, offered H m g = true → supported H names m ⟨usePFO, .null⟩ g = true →
    refs (events H names m ⟨usePFO, .null⟩ g) = refs (events H names m ⟨usePFO, bw⟩ g)
  callbacks : ∀ g, offered H m g = true → supported H names m ⟨usePFO, .null⟩ g = true →
    (calls (events H names m ⟨usePFO, .null⟩ g)).map Prod.fst = (calls (events H names m ⟨usePFO, bw⟩ g)).map Prod.fst
  stubs : ∀ h, firstStub H names m ⟨usePFO, .null⟩ h = firstStub H names m ⟨usePFO, bw⟩ h
  few : FewFresh 16 [] ((taken H names m ⟨usePFO, .null⟩).map (fun g => refs (events H names m ⟨usePFO, .null⟩ g)))

variable {H names m} {d d' : Drive}

theorem accounts_eq : accounts H names m d = (taken H names m d).map (fun g =>
    ⟨g, refs (events H names m d g), calls (events H names m d g)⟩) := by
  rw [accounts, taken, ← List.filterMap_eq_map (f := fun g => Account.mk g _ _), List.filterMap_filter]
  exact List.filterMap_congr (fun g _ => rfl)

theorem lookup_firstStub (h : HashCode) :
    ((accounts H names m d).flatMap Account.calls).lookup h = firstStub H names m d h := by
  rw [accounts_eq, List.flatMap_map, firstStub]
  refine lookup_flatMap_congr (List.forall₂_same.mpr (fun g _ => rfl)) (R := Eq) ?_
  rintro g _ rfl
  exact lookup_firsts _ h

theorem mem_taken {g : Nat} : g ∈ taken H names m d ↔ takes H names m d g = true := by
  rw [taken, List.mem_filter, List.mem_range]
  refine and_iff_right_of_imp (fun h => ?_)
  cases hf : m.function? g with
  | some f => exact (List.getElem?_eq_some_iff.mp (Module.function?_eq_some.mp hf)).1
  | none => simp [takes, offered, hf] at h

/-- The rows of the table of functions show which ones are accepted and what is met
first in each. -/
theorem rows_eq_iff : (accounts H names m d).map Account.row = (accounts H names m d').map Account.row ↔
    (∀ g, takes H names m d g = true ↔ takes H names m d' g = true) ∧ ∀ g, takes H names m d g = true →
      refs (events H names m d g) = refs (events H names m d' g) ∧
        (calls (events H names m d g)).map Prod.fst = (calls (events H names m d' g)).map Prod.fst := by
  rw [accounts_eq, accounts_eq, List.map_map, List.map_map]
  constructor
  · intro h
    have htaken : taken H names m d = taken H names m d' := by
      have hfst := congrArg (List.map Prod.fst) h
      rw [List.map_map, List.map_map] at hfst
      exact (List.map_id _).symm.trans (hfst.trans (List.map_id _))
    refine ⟨fun g => ?_, fun g hg => ?_⟩
    · rw [← mem_taken, ← mem_taken, htaken]
    · rw [← htaken] at h
      have hrow := List.map_inj_left.mp h g (mem_taken.mpr hg)
      exact Prod.mk.inj (Prod.mk.inj hrow).2
  · rintro ⟨htakes, hsame⟩
    have htaken : taken H names m d = taken H names m d' :=
      List.filter_congr (fun g _ => Bool.eq_iff_iff.mpr (htakes g))
    rw [← htaken]
    refine List.map_congr_left (fun g hg => ?_)
    obtain ⟨hrefs, hcalls⟩ := hsame g (mem_taken.mp hg)
    exact Prod.ext rfl (Prod.ext hrefs hcalls)

end Conditions

section References

variable {sig : Nat → HashCode × StubInfo} {k : Nat → Sym} {L : Layout} {vs : List Verdict} {as : List Account}

theorem map_grefs (hk : Function.Injective k) :
    (grefs L vs).map k = (vs.map (fun v => (L.setOrder v.scan.extRefs).map k)).flatten.foldl (add id) [] := by
  have hmap : firsts id ((vs.flatMap (fun v => L.setOrder v.scan.extRefs)).map k) = (grefs L vs).map k := by
    apply firsts_map
    exact fun a b => hk.eq_iff
  rw [← hmap, List.map_flatMap, List.flatMap_def]
  rfl

variable (hvs : List.Forall₂ (Describes sig k) vs as)

include hvs in
/-- Then the numbers of the references do not depend on the layout. -/
theorem map_grefs_of_few (hk : Function.Injective k) (hnodup : ∀ a ∈ as, a.refs.Nodup)
    (hfew : FewFresh 16 [] (as.map Account.refs)) :
    (grefs L vs).map k = (as.map Account.refs).flatten.foldl (add id) [] := by
  rw [map_grefs hk]
  refine foldl_reordered ?_ (List.forall_mem_map.mpr hnodup) hfew
  rw [List.forall₂_map_left_iff, List.forall₂_map_right_iff]
  refine hvs.flip.imp (fun a v h => ?_)
  have hrefs : v.scan.extRefs.map k = a.refs := h.refs
  rw [← hrefs]
  refine ⟨(L.perm _).map k, fun hsmall => ?_⟩
  rw [List.length_map] at hsmall
  rw [L.small _ hsmall]

theorem map_backwards (l : List Nat) : (backLayout.setOrder l).map k = (backwards Sym 16).order (l.map k) := by
  simp only [backLayout, backwards, List.length_map]
  split
  next => rfl
  next => rw [List.map_reverse]

include hvs in
/-- And only then: the two layouts differ in sets above the limit. -/
theorem few_of_map_grefs (hk : Function.Injective k) (hnodup : ∀ a ∈ as, a.refs.Nodup)
    (h : (grefs backLayout.toLayout vs).map k = (grefs (topLayout 0 0).toLayout vs).map k) :
    FewFresh 16 [] (as.map Account.refs) := by
  have hback : vs.map (fun v => (backLayout.setOrder v.scan.extRefs).map k) =
      (as.map Account.refs).map (backwards Sym 16).order := by
    rw [List.map_map]
    refine map_eq_of_forall₂ hvs (fun v _ a h => ?_)
    rw [map_backwards, h.refs]
    rfl
  have htop : vs.map (fun v => ((topLayout 0 0).setOrder v.scan.extRefs).map k) = as.map Account.refs :=
    map_eq_of_forall₂ hvs (fun v _ a h => h.refs)
  rw [map_grefs hk, map_grefs hk, hback, htop, ← List.flatMap_def] at h
  exact fewFresh_of_foldl_eq (List.forall_mem_map.mpr hnodup) h

end References

section Lists

variable {N : IntrinsicNumbers} {m : PickModule} {config : PickConfig} {bw : BwList}

theorem foldl_assign_named {l : List (String × Bool)} {callees : Nat → Option Bool}
    (h : ∀ g, callees g ≠ none → (m.function? g).isSome) :
    ∀ g, l.foldl (assign m) callees g ≠ none → (m.function? g).isSome := by
  induction l generalizing callees with
  | nil => exact h
  | cons e l ih =>
      refine ih (fun g hg => ?_)
      unfold assign at hg
      cases hk : m.getFunction e.1 with
      | none =>
          rw [hk] at hg
          exact h g hg
      | some k =>
          rw [hk] at hg
          dsimp only at hg
          by_cases hgk : g = k
          · rw [hgk]
            exact (getFunction_eq_some.mp hk).2.2
          · refine h g ?_
            rwa [Function.update_of_ne hgk] at hg

/-- All that `PickUp` lists as callees are functions of the module. -/
theorem pickUp_named (h : pickUp N m config = some bw) : Named m.toModule bw := by
  obtain ⟨bw', hbw', hbw⟩ := Option.bind_eq_some_iff.mp h
  cases hbw
  obtain ⟨funcs, _, hfuncs⟩ := Option.bind_eq_some_iff.mp hbw'
  cases hfuncs
  refine foldl_assign_named (foldl_assign_named (fun g hg => ?_))
  simp only [doBuiltins, BwList.null, foldl_visitBuiltin] at hg
  split at hg
  next hblack => exact (List.mem_filter.mp hblack.1).2
  next => exact absurd rfl hg

end Lists

section Decisions

variable {H : HashOps} {names : Nat → GValue → String} {m : ClosedModule} {d d' : Drive}

theorem refs_nodup {m : Module} : ∀ a ∈ accounts H names m d, a.refs.Nodup := by
  rw [accounts_eq]
  intro a ha
  obtain ⟨g, _, rfl⟩ := List.mem_map.mp ha
  have hnodup := firsts_nodup id ((events H names m d g).filterMap Event.ref?)
  rwa [List.map_id] at hnodup

theorem sameTables_drives (hd : Named m.toModule d.bw) (hd' : Named m.toModule d'.bw) (L L' : Layout) (uid uid' : Nat) :
    SameTables (d.sym H names m.toModule) (d'.sym H names m.toModule) (symtbl H names m d L uid)
        (symtbl H names m d' L' uid') ↔
      (accounts H names m.toModule d).map Account.row = (accounts H names m.toModule d').map Account.row ∧
        (∀ h, firstStub H names m.toModule d h = firstStub H names m.toModule d' h) ∧
          (grefs L (verdicts H (d.symbols H names m.toModule) d.bw)).map (d.sym H names m.toModule) =
            (grefs L' (verdicts H (d'.symbols H names m.toModule) d'.bw)).map (d'.sym H names m.toModule) := by
  obtain ⟨st, hst, hrep⟩ := analyzeSymbols_represents H L (d.symbols H names m.toModule) d.bw uid
  obtain ⟨st', hst', hrep'⟩ := analyzeSymbols_represents H L' (d'.symbols H names m.toModule) d'.bw uid'
  have h := sameTables_iff (verdicts_describe H names m.closed hd) (verdicts_describe H names m.closed hd') (sym_injective H names m.toModule d)
    (sym_injective H names m.toModule d') hrep hrep'
  rw [hst, hst'] at h
  simp only [lookup_firstStub] at h
  exact h

theorem sameTables_all_iff (hd : Named m.toModule d.bw) (hd' : Named m.toModule d'.bw) :
    (∀ (L L' : AddressLayout) (uid uid' : Nat), SameTables (d.sym H names m.toModule) (d'.sym H names m.toModule)
        (symtbl H names m d L.toLayout uid) (symtbl H names m d' L'.toLayout uid')) ↔
      (accounts H names m.toModule d).map Account.row = (accounts H names m.toModule d').map Account.row ∧
        (∀ h, firstStub H names m.toModule d h = firstStub H names m.toModule d' h) ∧
          FewFresh 16 [] ((accounts H names m.toModule d).map Account.refs) := by
  have hinj := sym_injective H names m.toModule d
  have hinj' := sym_injective H names m.toModule d'
  have hvs := verdicts_describe H names m.closed hd
  have hvs' := verdicts_describe H names m.closed hd'
  simp only [sameTables_drives hd hd']
  constructor
  · intro h
    obtain ⟨hrows, hstubs, hback⟩ := h backLayout (topLayout 0 0) 0 0
    obtain ⟨_, _, htop⟩ := h (topLayout 0 0) (topLayout 0 0) 0 0
    exact ⟨hrows, hstubs, few_of_map_grefs hvs hinj refs_nodup (hback.trans htop.symm)⟩
  · rintro ⟨hrows, hstubs, hfew⟩ L L' uid uid'
    refine ⟨hrows, hstubs, ?_⟩
    have hrefs : (accounts H names m.toModule d).map Account.refs = (accounts H names m.toModule d').map Account.refs := by
      have hproj := congrArg (List.map (fun r => r.2.1)) hrows
      rw [List.map_map, List.map_map] at hproj
      exact hproj
    rw [map_grefs_of_few hvs hinj refs_nodup hfew, hrefs]
    rw [hrefs] at hfew
    exact (map_grefs_of_few hvs' hinj' refs_nodup hfew).symm

theorem takes_commandLine {m : Module} {usePFO : Bool} {g : Nat} :
    takes H names m ⟨usePFO, .null⟩ g = true ↔ offered H m g = true ∧ supported H names m ⟨usePFO, .null⟩ g = true := by
  simp [takes, BwList.null]

theorem takes_linkTime {m : Module} {usePFO : Bool} {bw : BwList} {g : Nat} : takes H names m ⟨usePFO, bw⟩ g = true ↔
    offered H m g = true ∧ (bw.funcs g).bind FuncBw.analyze ≠ some false ∧ supported H names m ⟨usePFO, bw⟩ g = true := by
  simp only [takes, Bool.and_eq_true, decide_eq_true_eq]
  exact ⟨fun h => ⟨h.1.2, h.1.1, h.2⟩, fun h => ⟨⟨h.2.1, h.1⟩, h.2.2⟩⟩

theorem indifferent_iff {m : Module} {usePFO : Bool} {bw : BwList} : Indifferent H names m usePFO bw ↔
    (accounts H names m ⟨usePFO, .null⟩).map Account.row = (accounts H names m ⟨usePFO, bw⟩).map Account.row ∧
      (∀ h, firstStub H names m ⟨usePFO, .null⟩ h = firstStub H names m ⟨usePFO, bw⟩ h) ∧
        FewFresh 16 [] ((accounts H names m ⟨usePFO, .null⟩).map Account.refs) := by
  have hrefs : (accounts H names m ⟨usePFO, .null⟩).map Account.refs =
      (taken H names m ⟨usePFO, .null⟩).map (fun g => refs (events H names m ⟨usePFO, .null⟩ g)) := by
    rw [accounts_eq, List.map_map]
    rfl
  rw [rows_eq_iff, hrefs]
  simp only [takes_commandLine]
  simp only [takes_linkTime]
  constructor
  · intro h
    refine ⟨⟨fun g => ?_, ?_⟩, h.stubs, h.few⟩
    · exact and_congr_right (h.accepted g)
    · rintro g ⟨hoffered, hsupported⟩
      exact ⟨h.references g hoffered hsupported, h.callbacks g hoffered hsupported⟩
  · rintro ⟨⟨htakes, hsame⟩, hstubs, hfew⟩
    refine ⟨fun g hoffered => ?_, ?_, ?_, hstubs, hfew⟩
    · exact (and_congr_right_iff.mp (htakes g)) hoffered
    · exact fun g hoffered hsupported => (hsame g ⟨hoffered, hsupported⟩).1
    · exact fun g hoffered hsupported => (hsame g ⟨hoffered, hsupported⟩).2

end Decisions

/-- The command line and the plugin come to the same symbol table only for lists to
which the module is indifferent, as the tools never look at them. -/
theorem sameDecisions_iff (H : HashOps) (N : IntrinsicNumbers) (names : Nat → GValue → String) (m : ClosedModule)
    (config : FullConfig) : SameDecisions H N names m config ↔
      ∃ bw, pickUp N m.toPickModule config.bwList = some bw ∧ Indifferent H names m.toModule config.usePFO bw := by
  have hnull : Named m.toModule (commandLine config).bw := fun g hg => absurd rfl hg
  constructor
  · rintro ⟨d, hd, h⟩
    obtain ⟨bw, hbw, rfl⟩ := Option.map_eq_some_iff.mp hd
    exact ⟨bw, hbw, indifferent_iff.mpr ((sameTables_all_iff hnull (pickUp_named hbw)).mp h)⟩
  · rintro ⟨bw, hbw, h⟩
    refine ⟨⟨config.usePFO, bw⟩, ?_, (sameTables_all_iff hnull (pickUp_named hbw)).mpr (indifferent_iff.mp h)⟩
    rw [linkTime, hbw]
    rfl

theorem oneFunction_closed : Closed (oneFunction []).toModule := by
  intro g f hf v hv
  cases g with
  | zero =>
      cases hf
      cases hv
  | succ g => cases hf

def aloneModule : ClosedModule := ⟨oneFunction [], oneFunction_closed⟩

def listing (analyze : Bool) : FullConfig :=
  { FullConfig.initial with
    bwList := ⟨[("f", ⟨none, some analyze, none, none⟩)], [], [], false, List.nodup_singleton "f", List.nodup_nil⟩ }

/-- The plugin leaves out the function that is listed, and the tool takes it. -/
theorem list_ignored : ¬ SameDecisions HostTable.sumHash oneNumber (fun _ _ => "") aloneModule (listing false) := by
  rintro ⟨d, hd, h⟩
  have heq : linkTime oneNumber aloneModule.toPickModule (listing false) =
      some ((linkTime oneNumber aloneModule.toPickModule (listing false)).get rfl) := rfl
  cases Option.some.inj (heq.symm.trans hd)
  have hrow : true = false :=
    congrArg Option.isSome ((h (topLayout 0 0) (topLayout 0 0) 0 0).function (.original 0))
  cases hrow

/-- An entry in favour of the function makes no difference. -/
theorem listed_alike : SameDecisions HostTable.sumHash oneNumber (fun _ _ => "") aloneModule (listing true) := by
  refine (sameDecisions_iff _ _ _ _ _).mpr ⟨(pickUp oneNumber aloneModule.toPickModule (listing true).bwList).get rfl, rfl, ?_⟩
  refine ⟨?_, ?_, ?_, fun h => rfl, ⟨.inl (Nat.zero_le 16), trivial⟩⟩
  · intro g hg
    cases g with
    | zero => decide
    | succ g => cases hg
  · intro g hg _
    cases g with
    | zero => rfl
    | succ g => cases hg
  · intro g hg _
    cases g with
    | zero => rfl
    | succ g => cases hg

end Comulator.Pipelines
