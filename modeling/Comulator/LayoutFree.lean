import Mathlib.Data.Finset.Order
import Comulator.CallbackStubs
import Comulator.Numbering
import Comulator.SelfContained
import Comulator.SymtblJson

namespace Comulator.LayoutFree

open Fallible Types Ir HostIr TypeHash Symtbl Analyze AnalyzeSpec CallbackStubs SelfContained FirstSeen SymtblJson
open Numbering hiding callbacks

/-- The layout of a run in which each symbol has an address of its own. -/
structure AddressLayout extends Layout where
  address : Nat → Nat
  injective : Function.Injective address
  ordered : ∀ g k, before g k = decide (address g < address k)

structure SameSymtbl (t t' : Symtbl) : Prop where
  uid : t.uid = t'.uid
  calling : ∀ h, t.callingStubs.find? h = t'.callingStubs.find? h
  callback : ∀ h, t.callbackStubs.find? h = t'.callbackStubs.find? h
  function : ∀ g, t.functbl.find? g = t'.functbl.find? g
  gref : ∀ r, t.greftbl.find? r = t'.greftbl.find? r

def member {α : Type} (l : List (String × α)) (s : String) : Option α := l.reverse.lookup s

/-- The content of `symtbl.json`: in the last two objects a name that comes up
again overwrites the member. -/
structure Content where
  uid : Nat
  callingStubs : Json
  callbackStubs : Json
  functbl : String → Option (Option Json)
  greftbl : String → Option Json

def content (H : HashOps) (T : Text) (m : NamedModule) (D : MemberOrder) (t : Symtbl) : Content where
  uid := t.uid
  callingStubs := dumpStubs T D t.callingStubs.entries
  callbackStubs := dumpStubs T D t.callbackStubs.entries
  functbl := member (t.functbl.entries.map (fun e => (m.name e.1, dumpFunc H m D e.2)))
  greftbl := member (t.greftbl.entries.map (fun e => (m.name e.1, dumpGref D e.2)))

section Members

variable {K V β : Type} [DecidableEq K] {map map' : OrderedMap K V} {name : K → String} {f : V → β}

/-- Under distinct names the order of the entries does not matter. -/
theorem member_congr (hname : ∀ k k', map.find? k ≠ none → map.find? k' ≠ none → name k = name k' → k = k')
    (hfind : ∀ k, map.find? k = map'.find? k) :
    member (map.entries.map (fun e => (name e.1, f e.2))) = member (map'.entries.map (fun e => (name e.1, f e.2))) := by
  have hmember : ∀ map : OrderedMap K V,
      (∀ k k', map.find? k ≠ none → map.find? k' ≠ none → name k = name k' → k = k') → ∀ s x,
        member (map.entries.map (fun e => (name e.1, f e.2))) s = some x ↔
          ∃ k v, map.find? k = some v ∧ name k = s ∧ f v = x := by
    intro map hname s x
    have hmem : (s, x) ∈ (map.entries.map (fun e => (name e.1, f e.2))).reverse ↔
        ∃ k v, map.find? k = some v ∧ name k = s ∧ f v = x := by
      simp only [List.mem_reverse, List.mem_map, Prod.mk.injEq, Prod.exists, OrderedMap.mem_entries]
    rw [← hmem]
    refine ⟨OrderedMap.mem_of_lookup, OrderedMap.lookup_eq_some_of_mem ?_⟩
    rw [List.map_reverse, List.nodup_reverse, List.map_map]
    refine (List.Nodup.of_map _ map.nodup).map_on ?_
    rintro ⟨k, v⟩ hk ⟨k', v'⟩ hk' heq
    rw [OrderedMap.mem_entries] at hk hk'
    have hkk := hname k k' (by simp [hk]) (by simp [hk']) heq
    subst hkk
    rw [hk] at hk'
    cases hk'
    rfl
  funext s
  refine Option.ext (fun x => ?_)
  rw [hmember map hname, hmember map' (fun k k' hk hk' => hname k k' (by rwa [hfind]) (by rwa [hfind]))]
  simp only [hfind]

/-- The last key in the order of the map has the last word on its name. -/
theorem member_last {before : K → K → Bool} (hbefore : OrderedMap.StrictOrder before) (hmap : OrderedMap.Built before map)
    {k : K} {v : V} (hk : map.find? k = some v) (hlast : ∀ k', map.find? k' ≠ none → k' ≠ k → before k' k = true) :
    member (map.entries.map (fun e => (name e.1, f e.2))) (name k) = some (f v) := by
  obtain ⟨l, l', hl⟩ := List.append_of_mem (OrderedMap.mem_entries.mpr hk)
  have hnil : l' = [] := by
    refine List.eq_nil_iff_forall_not_mem.mpr (fun e he => ?_)
    have hsorted := hmap.sorted hbefore
    rw [hl] at hsorted
    have hke := (List.pairwise_cons.mp (List.pairwise_append.mp hsorted).2.1).1 e he
    have hfind : map.find? e.1 = some e.2 := by
      rw [← OrderedMap.mem_entries, hl]
      exact List.mem_append_right _ (List.mem_cons_of_mem _ he)
    have hne : e.1 ≠ k := by
      intro heq
      have hself := hbefore.asymm hke
      rw [heq] at hke hself
      rw [hke] at hself
      cases hself
    have hek := hlast e.1 (by simp [hfind]) hne
    rw [hbefore.asymm hke] at hek
    cases hek
  rw [hl, hnil, member, List.map_append, List.reverse_append]
  simp

end Members

section Layouts

theorem strictOrder_of_injective {K : Type} {before : K → K → Bool} {f : K → Nat} (hf : Function.Injective f)
    (h : ∀ a b, before a b = decide (f a < f b)) : OrderedMap.StrictOrder before where
  trans := by
    intro a b c hab hbc
    simp only [h, decide_eq_true_eq] at *
    omega
  total := by
    intro a b hab
    have hne : f a ≠ f b := fun heq => hab (hf heq)
    simp only [h, decide_eq_true_eq]
    omega
  asymm := by
    intro a b hab
    simp only [h, decide_eq_true_eq, decide_eq_false_iff_not] at *
    omega

theorem strictOrder_hash : OrderedMap.StrictOrder hashBefore :=
  strictOrder_of_injective (f := id) Function.injective_id (fun _ _ => rfl)

theorem AddressLayout.strictOrder (L : AddressLayout) : OrderedMap.StrictOrder L.before :=
  strictOrder_of_injective L.injective L.ordered

def topAddress (a n g : Nat) : Nat := if g = a then 2 * n + 1 else 2 * g

theorem topAddress_injective (a n : Nat) : Function.Injective (topAddress a n) := by
  intro g k h
  unfold topAddress at h
  by_cases hg : g = a
  · by_cases hk : k = a
    · rw [hg, hk]
    · rw [if_pos hg, if_neg hk] at h
      omega
  · by_cases hk : k = a
    · rw [if_neg hg, if_pos hk] at h
      omega
    · rw [if_neg hg, if_neg hk] at h
      omega

theorem small_id (l : List Nat) (_ : l.length ≤ 16) : id l = l := rfl

def topLayout (a n : Nat) : AddressLayout where
  before g k := decide (topAddress a n g < topAddress a n k)
  setOrder := id
  perm l := .refl l
  small := small_id
  address := topAddress a n
  injective := topAddress_injective a n
  ordered _ _ := rfl

theorem topLayout_before {a n g : Nat} (hg : g ≤ n) (hne : g ≠ a) : (topLayout a n).before g a = true := by
  simp only [topLayout, topAddress, if_neg hne, if_true, decide_eq_true_eq]
  omega

def backLayout : AddressLayout where
  before g k := decide (g < k)
  setOrder := (backwards Nat 16).order
  perm := (backwards Nat 16).perm
  small := (backwards Nat 16).small
  address := id
  injective := Function.injective_id
  ordered _ _ := rfl

end Layouts

section Runs

variable {H : HashOps} {T : Text} {m : NamedModule} {D : MemberOrder} {bw : BwList} {uid : Nat}

def namedRefs (m : Module) (bw : BwList) (g : Nat) : List Nat :=
  match m.function? g with
  | some f => firsts id ((functionItems m bw f).filterMap refOf)
  | none => []

def references (H : HashOps) (m : Module) (bw : BwList) : List (List Nat) :=
  (m.functions.filter (isAccepted H m bw)).map (namedRefs m bw)

theorem foldlM_extRefs {l : List Item} {s t : Scan} (h : l.foldlM (Scan.visit H) s = .ok t) :
    t.extRefs = (l.filterMap refOf).foldl (add id) s.extRefs := by
  induction l generalizing s with
  | nil =>
      cases h
      rfl
  | cons i l ih =>
      rw [List.foldlM_cons] at h
      obtain ⟨u, hu, h⟩ := bind_eq_ok.mp h
      rw [ih h]
      cases i with
      | ref r =>
          cases hu
          have hadd : (s.addRef r).extRefs = add id s.extRefs r := by
            simp only [Scan.addRef, add, List.map_id, id_eq]
            split <;> rfl
          rw [hadd]
          rfl
      | callback c =>
          have hrefs : u.extRefs = s.extRefs := by
            simp only [Scan.visit, Scan.addCallback] at hu
            split at hu
            next => cases hu
            next =>
              split at hu
              next => cases hu
              next => split at hu <;> cases hu <;> rfl
          rw [hrefs]
          rfl
      | reject e => cases hu

theorem judge_extRefs {v : Verdict} {g : Nat} (h : judge H m.symbols bw g = some v) :
    v.scan.extRefs = namedRefs m.toModule bw g := by
  obtain ⟨_, hf, _, _, _, _, hscan⟩ := judge_eq_some.mp h
  rw [scanFunction_declarations] at hscan
  rw [foldlM_extRefs hscan, namedRefs, Module.function?_eq_some.mpr hf]
  rfl

theorem extRefs_verdicts :
    (verdicts H m.symbols bw).map (fun v => v.scan.extRefs) = references H m.toModule bw := by
  rw [references, Module.functions, List.filter_filter, verdicts, List.map_filterMap,
    ← List.filterMap_eq_map (f := namedRefs m.toModule bw), List.filterMap_filter]
  refine List.filterMap_congr (fun g _ => ?_)
  cases hj : judge H m.symbols bw g with
  | none =>
      have hnot : isAccepted H m.toModule bw g = false := by
        rw [← Bool.not_eq_true, isAccepted_iff, ← judge_iff_accepted, hj]
        exact Bool.false_ne_true
      simp [hnot]
  | some v =>
      have haccepted : isAccepted H m.toModule bw g = true := by
        rw [isAccepted_iff, ← judge_iff_accepted, hj]
        rfl
      have hf := Module.function?_eq_some.mpr (judge_eq_some.mp hj).2.1
      simp [haccepted, hf, judge_extRefs hj]

theorem references_nodup : ∀ b ∈ references H m.toModule bw, b.Nodup := by
  intro b hb
  obtain ⟨g, _, rfl⟩ := List.mem_map.mp hb
  unfold namedRefs
  split
  next f _ =>
    have hnodup := firsts_nodup id ((functionItems m.toModule bw f).filterMap refOf)
    rwa [List.map_id] at hnodup
  next => exact List.nodup_nil

theorem grefs_eq (L : Layout) : grefs L (verdicts H m.symbols bw) =
    ((references H m.toModule bw).flatMap L.setOrder).foldl (add id) [] := by
  rw [grefs, ← extRefs_verdicts, List.flatMap_map, firsts]

variable (uid) in
theorem sameSymtbl_iff (L L' : AddressLayout) :
    SameSymtbl (analyze H L.toLayout m.toModule bw uid) (analyze H L'.toLayout m.toModule bw uid) ↔
      grefs L.toLayout (verdicts H m.symbols bw) = grefs L'.toLayout (verdicts H m.symbols bw) := by
  obtain ⟨st, hst, hrep⟩ := analyze_represents H L.toLayout bw m.toModule uid
  obtain ⟨st', hst', hrep'⟩ := analyze_represents H L'.toLayout bw m.toModule uid
  rw [← hst, ← hst']
  have hgref := hrep.gref.find?_eq_iff hrep'.gref (by
    rintro ⟨r, i⟩ ⟨r', i'⟩ hr hi
    cases hr
    cases hi
    rfl)
  constructor
  · intro h
    exact hgref.mp h.gref
  · intro h
    refine ⟨hrep.uid.trans hrep'.uid.symm, ?_, ?_, ?_, hgref.mpr h⟩
    · intro k
      rw [hrep.calling.find?, hrep'.calling.find?]
    · intro k
      rw [hrep.callback.find?, hrep'.callback.find?]
    · intro g
      rw [hrep.function.find?, hrep'.function.find?]

def DistinctNames (name : Nat → String) (p : Nat → Prop) : Prop := ∀ g k, p g → p k → name g = name k → g = k

theorem distinctNames_congr {name : Nat → String} {p q : Nat → Prop} (h : ∀ g, p g ↔ q g) :
    DistinctNames name p ↔ DistinctNames name q := by
  simp only [DistinctNames, h]

theorem content_eq {t t' : Symtbl} (h : SameSymtbl t t') (hcalling : OrderedMap.Built hashBefore t.callingStubs)
    (hcalling' : OrderedMap.Built hashBefore t'.callingStubs) (hcallback : OrderedMap.Built hashBefore t.callbackStubs)
    (hcallback' : OrderedMap.Built hashBefore t'.callbackStubs) (hfunctions : DistinctNames m.name (t.functbl.find? · ≠ none))
    (hgrefs : DistinctNames m.name (t.greftbl.find? · ≠ none)) : content H T m D t = content H T m D t' := by
  unfold content
  rw [h.uid, hcalling.entries_eq strictOrder_hash hcalling' h.calling,
    hcallback.entries_eq strictOrder_hash hcallback' h.callback, member_congr hfunctions h.function,
    member_congr hgrefs h.gref]

theorem order_mem {l l' : List (String × Json)} (h : Json.object (D.order l) = Json.object (D.order l'))
    {e : String × Json} (he : e ∈ l) : e ∈ l' := by
  injection h with h
  exact (D.perm l').mem_iff.mp (h ▸ (D.perm l).mem_iff.mpr he)

theorem dumpGref_uid {info info' : GrefInfo} (h : dumpGref D info = dumpGref D info') : info.uid = info'.uid := by
  have hmem := order_mem h List.mem_cons_self
  simpa using hmem

theorem dumpFunc_uid {info info' : FuncInfo} (hsome : (functionTypeHash H info.stubType.func).isSome)
    (h : dumpFunc H m D info = dumpFunc H m D info') : info.uid = info'.uid := by
  obtain ⟨k, hk⟩ := Option.isSome_iff_exists.mp hsome
  unfold dumpFunc at h
  rw [hk] at h
  cases hk' : functionTypeHash H info'.stubType.func with
  | none =>
      rw [hk'] at h
      cases h
  | some k' =>
      rw [hk'] at h
      have hmem := order_mem (Option.some.inj h) List.mem_cons_self
      simpa using hmem

theorem dumpFunc_inj (L : Layout) {g k : Nat} {info info' : FuncInfo}
    (hg : (analyze H L m.toModule bw uid).functbl.find? g = some info)
    (hk : (analyze H L m.toModule bw uid).functbl.find? k = some info') (h : dumpFunc H m D info = dumpFunc H m D info') :
    g = k := by
  have hwf := analyze_wellFormed H L m.toModule bw uid
  obtain ⟨_, _, _, hentry⟩ := hwf.entries g info hg
  obtain ⟨_, f, _, hhash, hstub⟩ := hwf.calling _ info.stubType hentry.stub
  obtain ⟨c, hc, _⟩ := Option.bind_eq_some_iff.mp hhash
  have hsome : (functionTypeHash H info.stubType.func).isSome := by
    rw [hstub]
    exact Option.isSome_iff_exists.mpr ⟨c, hc⟩
  exact hwf.functionUids.inj hg hk (dumpFunc_uid hsome h)

/-- If the members are the same under all layouts, the names are distinct: any
two keys can be the last one under some layout. -/
theorem distinctNames_of_member {V β : Type} {name : Nat → String} {f : V → β} {t : AddressLayout → OrderedMap Nat V}
    (hbuilt : ∀ L : AddressLayout, OrderedMap.Built L.before (t L)) (hfind : ∀ L L' k, (t L).find? k = (t L').find? k)
    (hinj : ∀ L g k v v', (t L).find? g = some v → (t L).find? k = some v' → f v = f v' → g = k)
    (hmember : ∀ L L', member ((t L).entries.map (fun e => (name e.1, f e.2))) =
      member ((t L').entries.map (fun e => (name e.1, f e.2)))) (L : AddressLayout) :
    DistinctNames name ((t L).find? · ≠ none) := by
  intro g k hg hk hname
  obtain ⟨v, hv⟩ := Option.ne_none_iff_exists'.mp hg
  obtain ⟨v', hv'⟩ := Option.ne_none_iff_exists'.mp hk
  obtain ⟨n, hn⟩ := ((t L).entries.map Prod.fst).toFinset.exists_le
  have hlast : ∀ a u, (t L).find? a = some u →
      member ((t (topLayout a n)).entries.map (fun e => (name e.1, f e.2))) (name a) = some (f u) := by
    intro a u hu
    refine member_last (topLayout a n).strictOrder (hbuilt _) ((hfind _ L a).trans hu) (fun b hb hba => ?_)
    rw [hfind _ L] at hb
    obtain ⟨w, hw⟩ := Option.ne_none_iff_exists'.mp hb
    refine topLayout_before (hn b ?_) hba
    rw [List.mem_toFinset]
    exact List.mem_map.mpr ⟨_, OrderedMap.mem_entries.mpr hw, rfl⟩
  have hsame := hlast g v hv
  rw [hmember _ (topLayout k n), hname, hlast k v' hv'] at hsame
  exact (hinj L k g v' v hv' hv (Option.some.inj hsame)).symm

theorem find?_functbl {L : Layout} {g : Nat} :
    (analyze H L m.toModule bw uid).functbl.find? g ≠ none ↔ isAccepted H m.toModule bw g = true :=
  ((analyze_wellFormed H L m.toModule bw uid).functions g).trans isAccepted_iff.symm

theorem find?_greftbl {L : AddressLayout} {r : Nat} :
    (analyze H L.toLayout m.toModule bw uid).greftbl.find? r ≠ none ↔ r ∈ (references H m.toModule bw).flatten := by
  obtain ⟨st, hst, hrep⟩ := analyze_represents H L.toLayout bw m.toModule uid
  rw [← hst, ne_eq, hrep.gref.find?_eq_none, not_not, grefs_eq, mem_foldl_add]
  simp only [List.map_id, List.map_nil, List.not_mem_nil, false_or, List.mem_flatMap, List.mem_flatten,
    (L.perm _).mem_iff]

/-- The symbol table and the file made of it depend on addresses unless only
functions with few references bring more than one new reference, and names tell
the members of an object apart. -/
theorem layoutFree_iff (H : HashOps) (T : Text) (D : MemberOrder) (m : NamedModule) (bw : BwList) (uid : Nat) :
    (∀ L L' : AddressLayout,
      SameSymtbl (analyze H L.toLayout m.toModule bw uid) (analyze H L'.toLayout m.toModule bw uid) ∧
        content H T m D (analyze H L.toLayout m.toModule bw uid) =
          content H T m D (analyze H L'.toLayout m.toModule bw uid)) ↔
      FewFresh 16 [] (references H m.toModule bw) ∧ DistinctNames m.name (isAccepted H m.toModule bw · = true) ∧
        DistinctNames m.name (· ∈ (references H m.toModule bw).flatten) := by
  have hbuilt : ∀ L : AddressLayout, OrderedMap.Built hashBefore (analyze H L.toLayout m.toModule bw uid).callingStubs ∧
      OrderedMap.Built hashBefore (analyze H L.toLayout m.toModule bw uid).callbackStubs ∧
        OrderedMap.Built L.before (analyze H L.toLayout m.toModule bw uid).functbl ∧
          OrderedMap.Built L.before (analyze H L.toLayout m.toModule bw uid).greftbl := by
    intro L
    obtain ⟨st, hst, hrep⟩ := analyze_represents H L.toLayout bw m.toModule uid
    rw [← hst]
    exact ⟨hrep.calling.built, hrep.callback.built, hrep.function.built, hrep.gref.built⟩
  constructor
  · intro h
    refine ⟨?_, ?_, ?_⟩
    · have hgrefs := (sameSymtbl_iff uid backLayout (topLayout 0 0)).mp (h _ _).1
      rw [grefs_eq, grefs_eq] at hgrefs
      refine fewFresh_of_foldl_eq references_nodup (hgrefs.trans ?_)
      rw [← List.flatMap_id]
      rfl
    · refine (distinctNames_congr (fun g => find?_functbl (L := backLayout.toLayout))).mp
        (distinctNames_of_member (t := fun L => (analyze H L.toLayout m.toModule bw uid).functbl)
          (fun L => (hbuilt L).2.2.1) (fun L L' => (h L L').1.function) ?_ (fun L L' => congrArg Content.functbl (h L L').2)
          backLayout)
      intro L g k info info' hg hk
      exact dumpFunc_inj L.toLayout hg hk
    · refine (distinctNames_congr (fun r => find?_greftbl (L := backLayout))).mp
        (distinctNames_of_member (t := fun L => (analyze H L.toLayout m.toModule bw uid).greftbl)
          (fun L => (hbuilt L).2.2.2) (fun L L' => (h L L').1.gref) ?_ (fun L L' => congrArg Content.greftbl (h L L').2)
          backLayout)
      intro L r k info info' hr hk heq
      exact (analyze_wellFormed H L.toLayout m.toModule bw uid).grefUids.inj hr hk (dumpGref_uid heq)
  · rintro ⟨hfew, hfunctions, hrefs⟩ L L'
    have horder : ∀ L : AddressLayout, grefs L.toLayout (verdicts H m.symbols bw) =
        (references H m.toModule bw).flatten.foldl (add id) [] := by
      intro L
      rw [grefs_eq]
      exact foldl_order ⟨L.setOrder, L.perm, L.small⟩ references_nodup hfew
    have hsame := (sameSymtbl_iff uid L L').mpr ((horder L).trans (horder L').symm)
    refine ⟨hsame, content_eq hsame (hbuilt L).1 (hbuilt L').1 (hbuilt L).2.1 (hbuilt L').2.1 ?_ ?_⟩
    · exact (distinctNames_congr (fun g => find?_functbl)).mpr hfunctions
    · exact (distinctNames_congr (fun r => find?_greftbl)).mpr hrefs

end Runs

def manyRefs : GFunction :=
  ⟨⟨.void, [], false⟩, 0, ⟨[]⟩, none,
    [(0, ⟨[], (List.range 17).map (fun i => ⟨i, .op .load ptrTy [] [.const (.global (i + 1))]⟩), 17, .ret none⟩)], [],
    none⟩

def manyModule : Module := ⟨.function manyRefs :: List.replicate 17 (.variable none), by decide⟩

theorem seventeenth_number :
    (analyze HostTable.sumHash (topLayout 0 0).toLayout manyModule .null 7).greftbl.find? 1 = some ⟨0⟩ ∧
      (analyze HostTable.sumHash backLayout.toLayout manyModule .null 7).greftbl.find? 1 = some ⟨16⟩ := by
  constructor
  · rfl
  · rfl

end Comulator.LayoutFree
