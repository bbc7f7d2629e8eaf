import Mathlib.Logic.Relation
import Comulator.QlibTable

namespace Comulator.QlibCalls

open Fallible QlibTable

/-- The table together with what the guest did to it: the host library of every
guest library that is loaded, as it was found under its link-time uid. -/
structure Sys (Lib : Type) where
  table : State Lib
  live : Lib → Option Image

variable {Lib : Type} [DecidableEq Lib] (configDir : String) (pageSize : Nat) (linkUid : Lib → UInt32)

def init (memory : Nat → Nat) : Sys Lib := ⟨State.init linkUid memory, fun _ => none⟩

def liveAfter (ld : Loader) (x : Sys Lib) : Request Lib → Lib → Option Image
  | .ctor _ lib _ =>
      Function.update x.live lib (loadImage configDir ld x.table.memory (linkUid lib)).toOption
  | .dtor lib => Function.update x.live lib none

def Step (x y : Sys Lib) (ld : Loader) (r : Request Lib) : Prop :=
  serve configDir ld pageSize r x.table = .ok y.table ∧ y.live = liveAfter configDir linkUid ld x r

/-- A constructor runs while the variable holds the link-time uid, and a
destructor that is not refused reaches an entry registered under that uid. -/
def InOrder (x : Sys Lib) : Request Lib → Prop
  | .ctor _ lib _ => x.table.qlibUid lib = linkUid lib
  | .dtor lib => ∀ qlib, slot? x.table.qlibs (x.table.qlibUid lib) = some qlib → qlib.handle ≠ none →
      qlib.uid = linkUid lib

def Reached (memory : Nat → Nat) : Sys Lib → Prop :=
  Relation.ReflTransGen (fun x y => ∃ ld r, InOrder linkUid x r ∧ Step configDir pageSize linkUid x y ld r)
    (init linkUid memory)

/-- What a call may come to: an abort, or a jump through the entry asked for of
the library's own table, with the library loaded and the entry in the table. -/
def OwnEntryOrAbort (x : Sys Lib) (lib : Lib) (funcUid : UInt32) : Except Abort HostCall → Prop
  | .error _ => True
  | .ok call => ∃ image, x.live lib = some image ∧ call.hfunctbl = image.hfunctbl ∧ call.index = funcUid ∧
      funcUid < image.hfunctblSize

/-- A loaded library does not ask for the entry just past its table; a library
that is not loaded has a link-time uid past `gyh_qlibs`, or asks for an entry
past the table of the slot its link-time uid happens to name. -/
def CallSafe (x : Sys Lib) (lib : Lib) (funcUid : UInt32) : Prop :=
  match x.live lib with
  | some image => funcUid ≠ image.hfunctblSize
  | none => ∀ qlib, slot? x.table.qlibs (linkUid lib) = some qlib → qlib.hfunctblSize < funcUid

def Placed (x : Sys Lib) (lib : Lib) : Prop :=
  match x.live lib with
  | some image => ∃ qlib, slot? x.table.qlibs (x.table.qlibUid lib) = some qlib ∧ qlib.Holds (linkUid lib) image
  | none => x.table.qlibUid lib = linkUid lib

def Inv (x : Sys Lib) : Prop := ∀ lib, Placed linkUid x lib

variable {configDir pageSize linkUid} {x y : Sys Lib} {ld : Loader}

omit [DecidableEq Lib] in
theorem init_inv (memory : Nat → Nat) : Inv linkUid (init linkUid memory) := by
  intro lib
  rfl

theorem ctor_inv {kind : Ctor} {lib : Lib} {cbFunc : Nat} (hx : Inv linkUid x)
    (ho : InOrder linkUid x (.ctor kind lib cbFunc))
    (h : Step configDir pageSize linkUid x y ld (.ctor kind lib cbFunc)) : Inv linkUid y := by
  obtain ⟨⟨t, idx⟩, hc, ht⟩ := map_eq_ok.mp h.1
  obtain ⟨image, hr⟩ := doCtorOf_registers hc
  obtain rfl : t = y.table := ht
  intro lib'
  unfold Placed
  rw [h.2]
  by_cases hl : lib' = lib
  · subst hl
    have hload : (loadImage configDir ld x.table.memory (linkUid lib')).toOption = some image := by
      rw [← ho, hr.loaded]
      rfl
    simp only [liveAfter, Function.update_self, hload, hr.qlibUid, slot?_ofNat]
    exact ⟨_, rfl, ho ▸ hr.entry⟩
  · have hp := hx lib'
    unfold Placed at hp
    simp only [liveAfter, Function.update_of_ne hl, hr.qlibUid]
    split at hp
    next image' hi =>
      obtain ⟨qlib, hq, hholds⟩ := hp
      refine ⟨qlib, slot?_congr hq ?_, hholds⟩
      intro i hqi
      rw [hr.others i ?_, hqi]
      -- the entry that is filled was free, so it is not the one that registers `lib'`
      rintro rfl
      have hfree := hr.handle_none
      rw [hqi, hholds.handle] at hfree
      cases hfree
    next => exact hp

theorem dtor_inv {lib : Lib} (hx : Inv linkUid x) (ho : InOrder linkUid x (.dtor lib))
    (h : Step configDir pageSize linkUid x y ld (.dtor lib)) : Inv linkUid y := by
  obtain ⟨qlib, handle, hq, hh, ht⟩ := gyhDtor_ok h.1
  have huid := ho qlib hq (by rw [hh]; exact Option.some_ne_none handle)
  intro lib'
  unfold Placed
  rw [h.2, ht]
  by_cases hl : lib' = lib
  · subst hl
    simp only [liveAfter, Function.update_self]
    exact huid
  · simp only [liveAfter, Function.update_of_ne hl]
    exact hx lib'

theorem reached_inv {memory : Nat → Nat} (h : Reached configDir pageSize linkUid memory x) : Inv linkUid x := by
  induction h with
  | refl => exact init_inv memory
  | tail _ hstep ih =>
      obtain ⟨ld, r, ho, hs⟩ := hstep
      cases r with
      | ctor kind lib cbFunc => exact ctor_inv ih ho hs
      | dtor lib => exact dtor_inv ih ho hs

omit [DecidableEq Lib] in
theorem live_call_iff {lib : Lib} {funcUid : UInt32} {image : Image} {qlib : Qlib} {args : List Nat}
    (hl : x.live lib = some image) (hq : slot? x.table.qlibs (x.table.qlibUid lib) = some qlib)
    (hh : qlib.Holds (linkUid lib) image) :
    OwnEntryOrAbort x lib funcUid (callEntry x.table lib funcUid args) ↔ funcUid ≠ image.hfunctblSize := by
  rw [callEntry_of_some hq, hh.size, hh.hfunctbl]
  by_cases hlt : image.hfunctblSize < funcUid
  · rw [if_pos hlt]
    exact iff_of_true trivial (UInt32.ne_of_lt hlt).symm
  · rw [if_neg hlt]
    constructor
    · rintro ⟨image', hi, _, _, hsize⟩
      rw [hl] at hi
      cases hi
      exact UInt32.ne_of_lt hsize
    · intro hne
      exact ⟨image, hl, rfl, rfl, UInt32.lt_of_le_of_ne (UInt32.not_lt.mp hlt) hne⟩

omit [DecidableEq Lib] in
theorem unloaded_call_iff {lib : Lib} {funcUid : UInt32} {args : List Nat} (hl : x.live lib = none)
    (hu : x.table.qlibUid lib = linkUid lib) :
    OwnEntryOrAbort x lib funcUid (callEntry x.table lib funcUid args) ↔
      ∀ qlib, slot? x.table.qlibs (linkUid lib) = some qlib → qlib.hfunctblSize < funcUid := by
  cases hq : slot? x.table.qlibs (linkUid lib) with
  | none =>
      rw [callEntry_of_none (hu ▸ hq)]
      simp [OwnEntryOrAbort]
  | some qlib =>
      rw [callEntry_of_some (hu ▸ hq)]
      simp only [Option.some.injEq, forall_eq']
      by_cases hlt : qlib.hfunctblSize < funcUid
      · rw [if_pos hlt]
        exact iff_of_true trivial hlt
      · rw [if_neg hlt]
        refine iff_of_false ?_ hlt
        rintro ⟨image, hi, _⟩
        rw [hl] at hi
        cases hi

theorem callEntry_iff {memory : Nat → Nat} (h : Reached configDir pageSize linkUid memory x) (lib : Lib)
    (funcUid : UInt32) (args : List Nat) :
    OwnEntryOrAbort x lib funcUid (callEntry x.table lib funcUid args) ↔ CallSafe linkUid x lib funcUid := by
  have hp := reached_inv h lib
  unfold Placed at hp
  unfold CallSafe
  split at hp
  next image hl =>
    obtain ⟨qlib, hq, hh⟩ := hp
    exact live_call_iff hl hq hh
  next hl => exact unloaded_call_iff hl hp

/-- Whatever constructors and destructors came before in order, a call reaches
an entry of its own library's table or is rejected exactly when it is safe. -/
theorem call_own_entry_iff {memory : Nat → Nat} (h : Reached configDir pageSize linkUid memory x) (lib : Lib)
    (funcUid : UInt32) (retPad argPad extRefs cbStubs : Nat) :
    (OwnEntryOrAbort x lib funcUid (gyhDoCall x.table lib funcUid retPad argPad extRefs cbStubs) ↔
        CallSafe linkUid x lib funcUid) ∧
      (OwnEntryOrAbort x lib funcUid (gyhDoCallGrt x.table lib funcUid retPad argPad) ↔
        CallSafe linkUid x lib funcUid) :=
  ⟨callEntry_iff h lib funcUid _, callEntry_iff h lib funcUid _⟩

def oneEntrySys : Sys Unit :=
  ⟨⟨4096, Function.update (fun _ => ⟨none, 0, 0, 0, 0, 0⟩) 0 ⟨some 1, 0x12345678, 64, 1, 0, 0⟩, fun _ => 0,
    fun _ => 1, []⟩, fun _ => some ⟨1, 64, 1⟩⟩

theorem freeIdx_const (q : Qlib) (h : q.handle = none) : freeIdx (fun _ => q) = some 0 := by
  have hr : List.finRange qlibsSize = 0 :: (List.finRange 1023).map Fin.succ := List.finRange_succ
  rw [freeIdx, hr, List.find?_cons_of_pos]
  rw [h]
  rfl

theorem oneEntrySys_step :
    Step "" 4096 (fun _ => 0x12345678) (init (fun _ => 0x12345678) (fun _ => 1)) oneEntrySys oneEntryLoader
      (.ctor .plain () 4096) := by
  constructor
  · simp only [serve, doCtorOf, doCtor, init, State.init, freeIdx_const]
    rfl
  · rfl

theorem oneEntrySys_reached : Reached "" 4096 (fun _ => 0x12345678) (fun _ => 1) oneEntrySys :=
  .tail .refl ⟨oneEntryLoader, .ctor .plain () 4096, rfl, oneEntrySys_step⟩

theorem call_own_entry_first :
    CallSafe (fun _ => 0x12345678) oneEntrySys () 0 ∧
      OwnEntryOrAbort oneEntrySys () 0 (gyhDoCall oneEntrySys.table () 0 8192 8200 0 0) ∧
      OwnEntryOrAbort oneEntrySys () 0 (gyhDoCallGrt oneEntrySys.table () 0 8192 8200) := by
  have hsafe : CallSafe (fun _ => 0x12345678) oneEntrySys () 0 := by
    change (0 : UInt32) ≠ 1
    decide
  have h := call_own_entry_iff oneEntrySys_reached () 0 8192 8200 0 0
  exact ⟨hsafe, h.1.mpr hsafe, h.2.mpr hsafe⟩

/-- The entry just past the table is not rejected. -/
theorem call_past_table :
    Reached "" 4096 (fun _ => 0x12345678) (fun _ => 1) oneEntrySys ∧
      ¬ OwnEntryOrAbort oneEntrySys () 1 (gyhDoCall oneEntrySys.table () 1 8192 8200 0 0) := by
  refine ⟨oneEntrySys_reached, ?_⟩
  intro h
  exact (callEntry_iff oneEntrySys_reached () 1 _).mp h rfl

end Comulator.QlibCalls
