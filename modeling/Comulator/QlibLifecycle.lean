import Mathlib.Data.Fintype.Card
import Mathlib.Data.Finset.Card
import Comulator.GuestRt
import Comulator.QlibTable

namespace Comulator.QlibLifecycle

open Fallible QlibTable GuestRt

inductive Arg (Lib : Type)
  | qlibUid (lib : Lib)
  | word (n : Nat)

def request {Lib : Type} (t : Trap (Arg Lib)) : Option (Request Lib) :=
  match t.nr, t.args 0, t.args 1, t.args 2, t.args 3 with
  | .ctor, .qlibUid lib, .word cbFunc, _, _ => some (.ctor .plain lib cbFunc)
  | .ctorGrt, .qlibUid lib, .word extreftbl, .word cbstubtbl, .word cbFunc =>
      some (.ctor (.grt extreftbl cbstubtbl) lib cbFunc)
  | .dtor, .qlibUid lib, _, _, _ => some (.dtor lib)
  | _, _, _, _, _ => none

inductive Entry (Lib : Type)
  | ctor (lib : Lib)
  | ctorGrt (lib : Lib) (extreftbl cbstubtbl : Nat)
  | dtor (lib : Lib)

def Entry.isCtor {Lib : Type} : Entry Lib → Bool
  | .dtor _ => false
  | _ => true

def Entry.lib {Lib : Type} : Entry Lib → Lib
  | .ctor lib | .ctorGrt lib _ _ | .dtor lib => lib

def requests {Lib : Type} (arch : Arch) (callbackReturn : Nat) (e : Entry Lib) : List (Request Lib) :=
  let raised : List (Trap (Arg Lib)) := match e with
    | .ctor lib => traps (.word callbackReturn) (gyhCtorEntry arch) (fun _ => .qlibUid lib) none
    | .ctorGrt lib extreftbl cbstubtbl =>
        traps (.word callbackReturn) (gyhCtorGrtEntry arch)
          (fun i => if i = 0 then .qlibUid lib else if i = 1 then .word extreftbl else .word cbstubtbl) none
    | .dtor lib => traps (.word callbackReturn) (gyhDtorEntry arch) (fun _ => .qlibUid lib) none
  raised.filterMap request

variable {Lib : Type} [DecidableEq Lib] (configDir : String) (pageSize : Nat) (arch : Arch) (callbackReturn : Nat)

def serveAll (ld : Loader) : List (Request Lib) → State Lib → Except Abort (State Lib)
  | [], s => .ok s
  | r :: rs, s => serve configDir ld pageSize r s >>= serveAll ld rs

def enter (ld : Loader) (e : Entry Lib) (s : State Lib) : Except Abort (State Lib) :=
  serveAll configDir pageSize ld (requests arch callbackReturn e) s

structure Succeeds (ld : Loader) : Prop where
  dlopen : ∀ path, ld.dlopen path ≠ none
  dlsym : ∀ handle symbol, ld.dlsym handle symbol ≠ none
  dlclose : ∀ handle, ld.dlclose handle = 0

def liveAfter (live : Finset Lib) : Entry Lib → Finset Lib
  | .dtor lib => live.erase lib
  | e => insert e.lib live

def WellOrdered : Finset Lib → List (Loader × Entry Lib) → Prop
  | _, [] => True
  | live, (_, e) :: es => (e.isCtor = true ↔ e.lib ∉ live) ∧ WellOrdered (liveAfter live e) es

def Occupied (s : State Lib) (i : Fin qlibsSize) : Prop := (s.qlibs i).handle ≠ none

structure TableOk (s : State Lib) (live : Finset Lib) : Prop where
  occupied : ∀ i, Occupied s i ↔ ∃ lib ∈ live, (s.qlibUid lib).toNat = i
  unshared : ∀ lib ∈ live, ∀ lib' ∈ live, s.qlibUid lib = s.qlibUid lib' → lib = lib'
  refused : ∀ i : Fin qlibsSize, (¬ ∃ lib ∈ live, (s.qlibUid lib).toNat = i) →
    ∀ ld lib, gyhDtor ld lib { s with qlibUid := Function.update s.qlibUid lib (UInt32.ofNat i) } =
      .error (.qlibNotSet (UInt32.ofNat i))

def Served (linkUid : Lib → UInt32) (live : Finset Lib) (e : Entry Lib) (r : Except Abort (State Lib)) : Prop :=
  match e with
  | .dtor lib => ∃ t, r = .ok t ∧ t.qlibUid lib = linkUid lib
  | _ => live.card < qlibsSize → ∃ t, r = .ok t

/-- Along the run of the requests, up to the first abort, each is served as it
has to be and leaves the table as it has to be. -/
def Kept (linkUid : Lib → UInt32) : State Lib → Finset Lib → List (Loader × Entry Lib) → Prop
  | _, _, [] => True
  | s, live, (ld, e) :: es =>
      let r := enter configDir pageSize arch callbackReturn ld e s
      Served linkUid live e r ∧
        ∀ t, r = .ok t → TableOk t (liveAfter live e) ∧ Kept linkUid t (liveAfter live e) es

structure Inv (linkUid : Lib → UInt32) (s : State Lib) (live : Finset Lib) : Prop where
  occupied : ∀ i, Occupied s i ↔ ∃ lib ∈ live, (s.qlibUid lib).toNat = i
  placed : ∀ lib ∈ live, ∃ i : Fin qlibsSize, (s.qlibUid lib).toNat = i ∧ (s.qlibs i).uid = linkUid lib
  unshared : ∀ lib ∈ live, ∀ lib' ∈ live, s.qlibUid lib = s.qlibUid lib' → lib = lib'
  fresh : ∀ lib, lib ∉ live → s.qlibUid lib = linkUid lib
  cbFunc : s.cbFunc = 0 ∨ s.cbFunc = callbackReturn

variable {configDir pageSize arch callbackReturn} {linkUid : Lib → UInt32} {s t : State Lib} {live : Finset Lib}
  {ld : Loader} {e : Entry Lib} {lib : Lib}

omit [DecidableEq Lib] in
theorem requests_dtor : requests arch callbackReturn (.dtor lib) = if arch = .x86_64 then [] else [.dtor lib] := by
  cases arch <;> rfl

variable (configDir pageSize arch callbackReturn ld s) in
theorem enter_ctor (h : e.isCtor = true) : ∃ kind : Ctor, (∀ a b c d, kind ≠ .fcpCm a b c d) ∧
    enter configDir pageSize arch callbackReturn ld e s =
      Prod.fst <$> doCtorOf configDir ld pageSize kind e.lib callbackReturn s := by
  have hone : ∀ r : Request Lib, serveAll configDir pageSize ld [r] s = serve configDir ld pageSize r s := by
    intro r
    simp only [serveAll]
    cases serve configDir ld pageSize r s <;> rfl
  cases e with
  | ctor lib =>
      refine ⟨.plain, by simp, ?_⟩
      have hr : requests arch callbackReturn (.ctor lib) = [.ctor .plain lib callbackReturn] := by
        cases arch <;> rfl
      rw [enter, hr, hone]
      rfl
  | ctorGrt lib extreftbl cbstubtbl =>
      refine ⟨.grt extreftbl cbstubtbl, by simp, ?_⟩
      have hr : requests arch callbackReturn (.ctorGrt lib extreftbl cbstubtbl) =
          [.ctor (.grt extreftbl cbstubtbl) lib callbackReturn] := by
        cases arch <;> rfl
      rw [enter, hr, hone]
      rfl
  | dtor lib => cases h

theorem lookup_succeeds (h : Succeeds ld) (handle : Nat) (symbol : String) :
    ∃ a, lookup ld handle symbol = .ok a := by
  unfold lookup
  cases hs : ld.dlsym handle symbol with
  | none => exact absurd hs (h.dlsym handle symbol)
  | some a => exact ⟨a, rfl⟩

variable (configDir) in
theorem loadImage_succeeds (h : Succeeds ld) (memory : Nat → Nat) (uid : UInt32) :
    ∃ image, loadImage configDir ld memory uid = .ok image := by
  unfold loadImage
  split
  next hn => exact absurd hn (h.dlopen _)
  next handle _ =>
    obtain ⟨a, ha⟩ := lookup_succeeds h handle ("__gyh_hfunctbl_" ++ hex8 uid)
    obtain ⟨b, hb⟩ := lookup_succeeds h handle ("__gyh_hfunctbl_size_" ++ hex8 uid)
    rw [ha, hb]
    exact ⟨_, rfl⟩

variable (configDir lib) in
theorem doCtor_succeeds {cbFunc : Nat} {idx : Fin qlibsSize} (h : Succeeds ld)
    (hcb : s.cbFunc = 0 ∨ s.cbFunc = cbFunc) (hf : freeIdx s.qlibs = some idx) :
    ∃ t, doCtor configDir ld lib cbFunc s = .ok (t, idx) ∧ t.cbFunc = cbFunc := by
  obtain ⟨image, hi⟩ := loadImage_succeeds configDir h s.memory (s.qlibUid lib)
  have hc : checkCbFunc s.cbFunc cbFunc = .ok cbFunc := by
    unfold checkCbFunc
    rcases hcb with h0 | h1
    · rw [if_pos h0]
    · subst h1
      simp
  simp only [doCtor, hc, hf, hi]
  exact ⟨_, rfl, rfl⟩

variable (configDir pageSize) in
theorem doCtorOf_succeeds {kind : Ctor} {cbFunc : Nat} {idx : Fin qlibsSize} (h : Succeeds ld)
    (hk : ∀ a b c d, kind ≠ .fcpCm a b c d) (hcb : s.cbFunc = 0 ∨ s.cbFunc = cbFunc)
    (hf : freeIdx s.qlibs = some idx) :
    ∃ t, doCtorOf configDir ld pageSize kind lib cbFunc s = .ok (t, idx) ∧ t.cbFunc = cbFunc := by
  obtain ⟨t, ht, htcb⟩ := doCtor_succeeds configDir lib h hcb hf
  cases kind with
  | plain => exact ⟨t, ht, htcb⟩
  | grt extreftbl cbstubtbl =>
      obtain ⟨a, ha⟩ := lookup_succeeds h ((t.qlibs idx).handle.getD 0) ("__gyh_extreftbl_" ++ hex8 (t.qlibs idx).uid)
      obtain ⟨b, hb⟩ := lookup_succeeds h ((t.qlibs idx).handle.getD 0) ("__gyh_cbstubtbl_" ++ hex8 (t.qlibs idx).uid)
      exact ⟨_, bind_eq_ok.mpr ⟨_, ht, bind_eq_ok.mpr ⟨a, ha, bind_eq_ok.mpr ⟨b, hb, rfl⟩⟩⟩, htcb⟩
  | fcpCm a b c d => exact absurd rfl (hk a b c d)

omit [DecidableEq Lib] in
theorem init_inv (memory : Nat → Nat) : Inv callbackReturn linkUid (State.init linkUid memory) ∅ := by
  refine ⟨?_, ?_, ?_, ?_, Or.inl rfl⟩
  · intro i
    simp [Occupied, State.init]
  · intro lib hl
    simp at hl
  · intro lib hl
    simp at hl
  · intro lib _
    rfl

theorem Inv.tableOk (h : Inv callbackReturn linkUid s live) : TableOk s live := by
  refine ⟨h.occupied, h.unshared, ?_⟩
  intro i hi ld lib
  have hfree : (s.qlibs i).handle = none := by
    by_contra hne
    exact hi ((h.occupied i).mp hne)
  have hq : slot? s.qlibs (Function.update s.qlibUid lib (UInt32.ofNat i) lib) = some (s.qlibs i) := by
    rw [Function.update_self]
    exact slot?_ofNat s.qlibs i
  have hd := gyhDtor_not_set ld (s := { s with qlibUid := Function.update s.qlibUid lib (UInt32.ofNat i) }) hq hfree
  rw [hd]
  simp only [Function.update_self]

theorem registers_inv {idx : Fin qlibsSize} {image : Image} (h : Inv callbackReturn linkUid s live)
    (hl : lib ∉ live) (hr : Registers configDir ld s t lib idx image) (hcb : t.cbFunc = callbackReturn) :
    Inv callbackReturn linkUid t (insert lib live) := by
  have hfree := hr.handle_none
  have hother : ∀ lib' ∈ live, t.qlibUid lib' = s.qlibUid lib' := by
    intro lib' hl'
    have hne : lib' ≠ lib := fun he => hl (he ▸ hl')
    rw [hr.qlibUid, Function.update_of_ne hne]
  have hown : (t.qlibUid lib).toNat = idx := by
    rw [hr.qlibUid, Function.update_self, toNat_index]
  have hnot : ∀ lib' ∈ live, (s.qlibUid lib').toNat ≠ idx := by
    intro lib' hl' he
    exact (h.occupied idx).mpr ⟨lib', hl', he⟩ hfree
  refine ⟨?_, ?_, ?_, ?_, Or.inr hcb⟩
  · intro i
    by_cases hi : i = idx
    · subst hi
      refine iff_of_true ?_ ⟨lib, Finset.mem_insert_self _ _, hown⟩
      unfold Occupied
      rw [hr.entry.handle]
      exact Option.some_ne_none _
    · unfold Occupied
      rw [hr.others i hi]
      refine (h.occupied i).trans ?_
      constructor
      · rintro ⟨lib', hl', he⟩
        exact ⟨lib', Finset.mem_insert_of_mem hl', by rw [hother lib' hl']; exact he⟩
      · rintro ⟨lib', hl', he⟩
        rcases Finset.mem_insert.mp hl' with rfl | hl'
        · exact absurd (Fin.ext (he.symm.trans hown)) hi
        · exact ⟨lib', hl', by rw [← hother lib' hl']; exact he⟩
  · intro lib' hl'
    rcases Finset.mem_insert.mp hl' with rfl | hl'
    · exact ⟨idx, hown, by rw [hr.entry.uid]; exact h.fresh lib' hl⟩
    · obtain ⟨i, hi, hu⟩ := h.placed lib' hl'
      refine ⟨i, by rw [hother lib' hl']; exact hi, ?_⟩
      rw [hr.others i (fun he => hnot lib' hl' (he ▸ hi))]
      exact hu
  · intro a ha b hb hab
    rcases Finset.mem_insert.mp ha with ha | ha <;> rcases Finset.mem_insert.mp hb with hb | hb
    · rw [ha, hb]
    · exact absurd (by rw [← hother b hb, ← hab, ha]; exact hown) (hnot b hb)
    · exact absurd (by rw [← hother a ha, hab, hb]; exact hown) (hnot a ha)
    · exact h.unshared a ha b hb (by rw [← hother a ha, ← hother b hb]; exact hab)
  · intro lib' hl'
    have hne : lib' ≠ lib := fun he => hl' (he ▸ Finset.mem_insert_self _ _)
    rw [hr.qlibUid, Function.update_of_ne hne]
    exact h.fresh lib' (fun hm => hl' (Finset.mem_insert_of_mem hm))

def slots (s : State Lib) (live : Finset Lib) : Finset Nat := live.image (fun lib => (s.qlibUid lib).toNat)

omit [DecidableEq Lib] in
theorem Inv.card_slots (h : Inv callbackReturn linkUid s live) : (slots s live).card = live.card := by
  refine Finset.card_image_of_injOn ?_
  intro a ha b hb hab
  exact h.unshared a ha b hb (UInt32.toNat_inj.mp hab)

omit [DecidableEq Lib] in
theorem Inv.slots_subset (h : Inv callbackReturn linkUid s live) : slots s live ⊆ Finset.range qlibsSize := by
  intro n hn
  obtain ⟨lib, hl, rfl⟩ := Finset.mem_image.mp hn
  obtain ⟨i, hi, _⟩ := h.placed lib hl
  rw [hi]
  exact Finset.mem_range.mpr i.isLt

omit [DecidableEq Lib] in
theorem Inv.mem_slots (h : Inv callbackReturn linkUid s live) (i : Fin qlibsSize) :
    i.val ∈ slots s live ↔ Occupied s i := by
  rw [h.occupied i]
  exact Finset.mem_image

omit [DecidableEq Lib] in
theorem Inv.exists_free (h : Inv callbackReturn linkUid s live) (hc : live.card < qlibsSize) :
    ∃ idx, freeIdx s.qlibs = some idx := by
  refine Option.ne_none_iff_exists'.mp ?_
  intro hn
  have hall := freeIdx_eq_none.mp hn
  have hsub : Finset.range qlibsSize ⊆ slots s live := by
    intro n hn
    exact (h.mem_slots ⟨n, Finset.mem_range.mp hn⟩).mpr (hall _)
  have hle := Finset.card_le_card hsub
  rw [Finset.card_range, h.card_slots] at hle
  omega

omit [DecidableEq Lib] in
theorem Inv.full (h : Inv callbackReturn linkUid s live) (hc : live.card = qlibsSize) : freeIdx s.qlibs = none := by
  have heq : slots s live = Finset.range qlibsSize := by
    refine Finset.eq_of_subset_of_card_le h.slots_subset ?_
    rw [Finset.card_range, h.card_slots, hc]
  refine freeIdx_eq_none.mpr ?_
  intro i
  refine (h.mem_slots i).mp ?_
  rw [heq]
  exact Finset.mem_range.mpr i.isLt

/-- The entry of a destructed library keeps its handle, on x86-64 because the
request is never made and elsewhere because nothing clears it. -/
theorem dtor_keeps_table (h : enter configDir pageSize arch callbackReturn ld (.dtor lib) s = .ok t) :
    t.qlibs = s.qlibs ∧ ∀ lib', lib' ≠ lib → t.qlibUid lib' = s.qlibUid lib' := by
  rw [enter, requests_dtor] at h
  split at h
  next =>
    cases h
    exact ⟨rfl, fun _ _ => rfl⟩
  next =>
    obtain ⟨u, hu, h⟩ := bind_eq_ok.mp h
    obtain ⟨qlib, handle, _, _, rfl⟩ := gyhDtor_ok hu
    cases h
    exact ⟨rfl, fun lib' hne => Function.update_of_ne hne _ _⟩

section

variable (configDir pageSize arch)

theorem enter_ctor_ok (h : Inv callbackReturn linkUid s live) (hc : live.card < qlibsSize)
    (he : e.isCtor = true) (hl : e.lib ∉ live) (hs : Succeeds ld) :
    ∃ t, enter configDir pageSize arch callbackReturn ld e s = .ok t ∧
      Inv callbackReturn linkUid t (insert e.lib live) := by
  obtain ⟨kind, hk, henter⟩ := enter_ctor configDir pageSize arch callbackReturn s ld he
  obtain ⟨idx, hf⟩ := h.exists_free hc
  obtain ⟨t, ht, hcb⟩ := doCtorOf_succeeds configDir pageSize hs hk h.cbFunc hf
  obtain ⟨image, hr⟩ := doCtorOf_registers ht
  refine ⟨t, ?_, registers_inv h hl hr hcb⟩
  rw [henter]
  exact map_eq_ok.mpr ⟨(t, idx), ht, rfl⟩

theorem enter_ctor_full (h : Inv callbackReturn linkUid s live) (hc : live.card = qlibsSize)
    (he : e.isCtor = true) : ∀ t, enter configDir pageSize arch callbackReturn ld e s ≠ .ok t := by
  intro t ht
  obtain ⟨kind, _, henter⟩ := enter_ctor configDir pageSize arch callbackReturn s ld he
  rw [henter] at ht
  obtain ⟨⟨u, idx⟩, hu, _⟩ := map_eq_ok.mp ht
  obtain ⟨image, hr⟩ := doCtorOf_registers hu
  have hfree := hr.free
  rw [h.full hc] at hfree
  cases hfree

end

theorem dtor_not_tableOk (h : Inv callbackReturn linkUid s live) (hl : lib ∈ live)
    (ht : enter configDir pageSize arch callbackReturn ld (.dtor lib) s = .ok t) :
    ¬ TableOk t (live.erase lib) := by
  intro hok
  obtain ⟨hq, hother⟩ := dtor_keeps_table ht
  obtain ⟨i, hi, _⟩ := h.placed lib hl
  have hocc : Occupied t i := by
    rw [Occupied, hq]
    exact (h.occupied i).mpr ⟨lib, hl, hi⟩
  obtain ⟨lib', hl', hi'⟩ := (hok.occupied i).mp hocc
  obtain ⟨hne, hl'⟩ := Finset.mem_erase.mp hl'
  rw [hother lib' hne, ← hi] at hi'
  exact hne (h.unshared lib' hl' lib hl (UInt32.toNat_inj.mp hi'))

omit [DecidableEq Lib] in
theorem served_ctor {r : Except Abort (State Lib)} (he : e.isCtor = true) :
    Served linkUid live e r ↔ (live.card < qlibsSize → ∃ t, r = .ok t) := by
  cases e with
  | ctor lib | ctorGrt lib _ _ => exact Iff.rfl
  | dtor lib => cases he

theorem kept_iff_of_inv {es : List (Loader × Entry Lib)} (h : Inv callbackReturn linkUid s live)
    (hc : live.card ≤ qlibsSize) (hw : WellOrdered live es) (hs : ∀ p ∈ es, Succeeds p.1) :
    Kept configDir pageSize arch callbackReturn linkUid s live es ↔
      ∀ p ∈ es.take (qlibsSize + 1 - live.card), p.2.isCtor = true := by
  induction es generalizing s live with
  | nil => simp [Kept]
  | cons p es ih =>
      obtain ⟨ld, e⟩ := p
      obtain ⟨ho, hw⟩ := hw
      have hsucc := hs (ld, e) List.mem_cons_self
      have htake : qlibsSize + 1 - live.card = (qlibsSize - live.card) + 1 := by omega
      rw [htake, List.take_succ_cons, List.forall_mem_cons]
      by_cases he : e.isCtor = true
      · have hl := ho.mp he
        have hlive : liveAfter live e = insert e.lib live := by
          cases e with
          | ctor lib | ctorGrt lib _ _ => rfl
          | dtor lib => cases he
        rw [hlive] at hw
        rcases Nat.lt_or_eq_of_le hc with hlt | heq
        · obtain ⟨t, ht, hinv⟩ := enter_ctor_ok configDir pageSize arch h hlt he hl hsucc
          have hcard := Finset.card_insert_of_notMem hl
          have hrest := ih hinv (by omega) hw (fun p hp => hs p (List.mem_cons_of_mem _ hp))
          have hsize : qlibsSize + 1 - (insert e.lib live).card = qlibsSize - live.card := by omega
          rw [hsize] at hrest
          rw [← hrest, Kept, ht, hlive]
          constructor
          · rintro ⟨_, hk⟩
            exact ⟨he, (hk t rfl).2⟩
          · rintro ⟨_, hk⟩
            refine ⟨(served_ctor he).mpr (fun _ => ⟨t, rfl⟩), ?_⟩
            intro u hu
            cases hu
            exact ⟨hinv.tableOk, hk⟩
        · have hzero : qlibsSize - live.card = 0 := by omega
          rw [hzero, List.take_zero]
          refine iff_of_true ⟨(served_ctor he).mpr (fun hlt => absurd heq (ne_of_lt hlt)), ?_⟩ ⟨he, by simp⟩
          intro t ht
          exact absurd ht (enter_ctor_full configDir pageSize arch h heq he t)
      · refine iff_of_false ?_ (fun hall => he hall.1)
        rintro ⟨hserved, hk⟩
        cases e with
        | ctor lib | ctorGrt lib _ _ => exact he rfl
        | dtor lib =>
            obtain ⟨t, ht, _⟩ := hserved
            have hl : lib ∈ live := not_not.mp (fun hn => he (ho.mpr hn))
            exact dtor_not_tableOk h hl ht (hk t ht).1

/-- The library table is released as it is acquired exactly as long as no
destructor is called before the table is full. -/
theorem kept_iff (linkUid : Lib → UInt32) (memory : Nat → Nat) (es : List (Loader × Entry Lib))
    (hw : WellOrdered ∅ es) (hs : ∀ p ∈ es, Succeeds p.1) :
    Kept configDir pageSize arch callbackReturn linkUid (State.init linkUid memory) ∅ es ↔
      ∀ p ∈ es.take (qlibsSize + 1), p.2.isCtor = true :=
  kept_iff_of_inv (init_inv memory) (by simp) hw hs

theorem oneEntryLoader_succeeds : Succeeds oneEntryLoader :=
  ⟨fun _ => Option.some_ne_none _, fun _ _ => Option.some_ne_none _, fun _ => rfl⟩

theorem kept_two_ctors :
    Kept "" 4096 .x86_64 4096 (fun b : Bool => if b then 0x12345678 else 0x9abcdef0)
      (State.init (fun b : Bool => if b then 0x12345678 else 0x9abcdef0) (fun _ => 1)) ∅
      [(oneEntryLoader, .ctor true), (oneEntryLoader, .ctorGrt false 8192 8256)] := by
  refine (kept_iff _ _ _ ?_ (by simp [oneEntryLoader_succeeds])).mpr (by decide)
  simp [WellOrdered, Entry.isCtor, Entry.lib, liveAfter]

/-- After a constructor and a destructor the entry still counts as occupied. -/
theorem not_kept_ctor_dtor :
    WellOrdered ∅ [(oneEntryLoader, .ctor ()), (oneEntryLoader, .dtor ())] ∧
      ¬ Kept "" 4096 .aarch64 4096 (fun _ => 0x12345678) (State.init (fun _ => 0x12345678) (fun _ => 1)) ∅
        [(oneEntryLoader, .ctor ()), (oneEntryLoader, .dtor ())] := by
  have hw : WellOrdered ∅ [(oneEntryLoader, .ctor ()), (oneEntryLoader, .dtor ())] := by
    simp [WellOrdered, Entry.isCtor, Entry.lib, liveAfter]
  refine ⟨hw, ?_⟩
  rw [kept_iff_of_inv (init_inv _) (by simp) hw (by simp [oneEntryLoader_succeeds])]
  simp [Entry.isCtor]

end Comulator.QlibLifecycle
