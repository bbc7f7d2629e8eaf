import Comulator.QlibCalls
import Comulator.SymtblSpec

namespace Comulator.FcpPrefix

open Fallible QlibTable Types Ir TypeHash Symtbl Analyze AnalyzeSpec SymtblSpec ChopOff

/-- How constants lie in memory before a function: the last two words. -/
structure PrefixLayout where
  words : Const GuestSym → Nat × Nat
  pair : ∀ a b, words (.aggregate .array [.int 64 a, .int 64 b]) = (a % 2 ^ 64, b % 2 ^ 64)

structure Place where
  addr : Nat → Nat
  gfunctbl : Nat

def InPrefix (a x : Nat) : Prop := x = a - 16 ∨ x = a - 8

def Place.Cell (pl : Place) (n x : Nat) : Prop :=
  (∃ i < n, InPrefix (pl.addr i) x) ∨ ∃ j < n, x = pl.gfunctbl + 8 * j

structure Place.Fits (pl : Place) (n : Nat) : Prop where
  room : ∀ i < n, 16 ≤ pl.addr i
  apart : ∀ i < n, ∀ j < n, i ≠ j → pl.addr i + 16 ≤ pl.addr j ∨ pl.addr j + 16 ≤ pl.addr i
  table : ∀ i < n, ∀ j < n, ¬ InPrefix (pl.addr i) (pl.gfunctbl + 8 * j)

structure HostImage (configDir : String) (ld : Loader) (uid : UInt32) where
  handle : Nat
  hfunctbl : Nat
  hfunctblSize : Nat
  extreftbl : Nat
  cbstubtbl : Nat
  functbl : Nat
  opened : ld.dlopen (configDir ++ "/host/" ++ hex8 uid ++ ".qso") = some handle
  hfunctbl_eq : ld.dlsym handle ("__gyh_hfunctbl_" ++ hex8 uid) = some hfunctbl
  hfunctblSize_eq : ld.dlsym handle ("__gyh_hfunctbl_size_" ++ hex8 uid) = some hfunctblSize
  extreftbl_eq : ld.dlsym handle ("__gyh_extreftbl_" ++ hex8 uid) = some extreftbl
  cbstubtbl_eq : ld.dlsym handle ("__gyh_cbstubtbl_" ++ hex8 uid) = some cbstubtbl
  functbl_eq : ld.dlsym handle ("__gyh_functbl_" ++ hex8 uid) = some functbl

variable {configDir : String} {ld : Loader} {uid : UInt32}

/-- The host library lies outside the words `cell` of the guest, and its table
of `n` functions outside its two variables. -/
structure HostImage.Apart (I : HostImage configDir ld uid) (cell : Nat → Prop) (n : Nat) : Prop where
  extreftbl : ¬ cell I.extreftbl
  cbstubtbl : ¬ cell I.cbstubtbl
  functbl : ∀ j < n, ¬ cell (I.functbl + 8 * j) ∧ I.functbl + 8 * j ≠ I.extreftbl ∧ I.functbl + 8 * j ≠ I.cbstubtbl

structure Patched (memory memory' : Nat → Nat) (addr : Nat → Nat) (functbl : Nat) (is : List Nat) : Prop where
  magic : ∀ i ∈ is, memory' (addr i - 16) = kFCPcmMagic ^^^ memory (functbl + 8 * i)
  hfunc : ∀ i ∈ is, memory' (addr i - 8) = memory (functbl + 8 * i)
  others : ∀ x, (∀ i ∈ is, ¬ InPrefix (addr i) x) → memory' x = memory x

section Loop

variable {Lib : Type} {s t : State Lib} {pl : Place} {n functbl pageSize : Nat} {pages : Nat × Nat}

def patchWords (memory : Nat → Nat) (a hfunc : Nat) : Nat → Nat :=
  Function.update (Function.update memory (a - 8) hfunc) (a - 16) (kFCPcmMagic ^^^ hfunc)

theorem patchWords_other {memory : Nat → Nat} {a hfunc x : Nat} (h : ¬ InPrefix a x) :
    patchWords memory a hfunc x = memory x := by
  obtain ⟨hm, hf⟩ := not_or.mp h
  rw [patchWords, Function.update_of_ne hm, Function.update_of_ne hf]

theorem patchWords_hfunc (memory : Nat → Nat) {a : Nat} (hfunc : Nat) (h : 16 ≤ a) :
    patchWords memory a hfunc (a - 8) = hfunc := by
  have hne : a - 8 ≠ a - 16 := by omega
  rw [patchWords, Function.update_of_ne hne, Function.update_self]

variable (functbl pageSize pages) in
theorem patchPrefix_ok {i a : Nat} (ha : s.memory (pl.gfunctbl + 8 * i) = a)
    (hmagic : s.memory (a - 16) = kFCPcmMagic) :
    ∃ pages' writable, patchPrefix pageSize functbl pl.gfunctbl i pages s =
      .ok (pages', { s with memory := patchWords s.memory a (s.memory (functbl + 8 * i)), writable }) := by
  subst ha
  simp only [patchPrefix, if_neg (not_not.mpr hmagic)]
  exact ⟨_, _, rfl⟩

theorem patchPrefix_magic {i : Nat} {r : (Nat × Nat) × State Lib}
    (h : patchPrefix pageSize functbl pl.gfunctbl i pages s = .ok r) :
    s.memory (s.memory (pl.gfunctbl + 8 * i) - 16) = kFCPcmMagic := by
  by_contra hne
  simp only [patchPrefix, if_pos hne] at h
  cases h

theorem Place.Fits.not_inPrefix (h : pl.Fits n) {i j x : Nat} (hi : i < n) (hj : j < n) (hij : i ≠ j)
    (hx : InPrefix (pl.addr j) x) : ¬ InPrefix (pl.addr i) x := by
  have hri := h.room i hi
  have hrj := h.room j hj
  rintro (rfl | rfl) <;> rcases hx with hx | hx <;> rcases h.apart i hi j hj hij with ha | ha <;> omega

/-- A turn of the loop leaves the tables alone. -/
theorem patched_step (hfits : pl.Fits n) (hfunctbl : ∀ i < n, ∀ j < n, ¬ InPrefix (pl.addr i) (functbl + 8 * j))
    {i : Nat} {is : List Nat} (hi : i < n) (his : ∀ j ∈ is, j < n) (hnew : i ∉ is) {memory memory' : Nat → Nat}
    (h : Patched (patchWords memory (pl.addr i) (memory (functbl + 8 * i))) memory' pl.addr functbl is) :
    Patched memory memory' pl.addr functbl (i :: is) := by
  have hsame : ∀ j ∈ is, patchWords memory (pl.addr i) (memory (functbl + 8 * i)) (functbl + 8 * j) =
      memory (functbl + 8 * j) := fun j hj => patchWords_other (hfunctbl i hi j (his j hj))
  have hkept : ∀ x, InPrefix (pl.addr i) x → ∀ j ∈ is, ¬ InPrefix (pl.addr j) x := by
    intro x hx j hj
    have hne : j ≠ i := by
      rintro rfl
      exact hnew hj
    exact hfits.not_inPrefix (his j hj) hi hne hx
  refine ⟨?_, ?_, ?_⟩
  · intro j hj
    rcases List.mem_cons.mp hj with rfl | hj
    · rw [h.others _ (hkept _ (.inl rfl)), patchWords, Function.update_self]
    · rw [h.magic j hj, hsame j hj]
  · intro j hj
    rcases List.mem_cons.mp hj with rfl | hj
    · rw [h.others _ (hkept _ (.inr rfl)), patchWords_hfunc _ _ (hfits.room _ hi)]
    · rw [h.hfunc j hj, hsame j hj]
  · intro x hx
    rw [h.others x (fun j hj => hx j (List.mem_cons_of_mem _ hj)), patchWords_other (hx i List.mem_cons_self)]

variable (functbl pageSize pages) in
theorem patchPrefixes_ok (hfits : pl.Fits n) (is : List Nat) (his : ∀ i ∈ is, i < n) (hnodup : is.Nodup)
    (htable : ∀ i < n, s.memory (pl.gfunctbl + 8 * i) = pl.addr i)
    (hmagic : ∀ i ∈ is, s.memory (pl.addr i - 16) = kFCPcmMagic) :
    ∃ t, patchPrefixes pageSize functbl pl.gfunctbl is pages s = .ok t := by
  induction is generalizing s pages with
  | nil => exact ⟨s, rfl⟩
  | cons i is ih =>
      obtain ⟨hnew, hnodup⟩ := List.nodup_cons.mp hnodup
      have hi := his i List.mem_cons_self
      have his' : ∀ j ∈ is, j < n := fun j hj => his j (List.mem_cons_of_mem _ hj)
      obtain ⟨pages', w, hstep⟩ := patchPrefix_ok functbl pageSize pages
        (htable i hi) (hmagic i List.mem_cons_self)
      obtain ⟨t, ht⟩ := ih pages' (s := { s with
          memory := patchWords s.memory (pl.addr i) (s.memory (functbl + 8 * i)), writable := w })
        his' hnodup (fun j hj => (patchWords_other (hfits.table i hi j hj)).trans (htable j hj)) (by
          intro j hj
          have hne : i ≠ j := by
            rintro rfl
            exact hnew hj
          refine (patchWords_other ?_).trans (hmagic j (List.mem_cons_of_mem _ hj))
          exact hfits.not_inPrefix hi (his' j hj) hne (.inl rfl))
      exact ⟨t, bind_eq_ok.mpr ⟨_, hstep, ht⟩⟩

theorem patchPrefixes_patched (hfits : pl.Fits n)
    (hfunctbl : ∀ i < n, ∀ j < n, ¬ InPrefix (pl.addr i) (functbl + 8 * j)) {is : List Nat} (his : ∀ i ∈ is, i < n)
    (hnodup : is.Nodup) (htable : ∀ i < n, s.memory (pl.gfunctbl + 8 * i) = pl.addr i)
    (h : patchPrefixes pageSize functbl pl.gfunctbl is pages s = .ok t) :
    Patched s.memory t.memory pl.addr functbl is := by
  induction is generalizing s pages with
  | nil =>
      cases h
      exact ⟨by simp, by simp, fun _ _ => rfl⟩
  | cons i is ih =>
      obtain ⟨hnew, hnodup⟩ := List.nodup_cons.mp hnodup
      have hi := his i List.mem_cons_self
      have his' : ∀ j ∈ is, j < n := fun j hj => his j (List.mem_cons_of_mem _ hj)
      obtain ⟨r, hr, h⟩ := bind_eq_ok.mp h
      have hmagic := patchPrefix_magic hr
      rw [htable i hi] at hmagic
      obtain ⟨pages', w, hstep⟩ := patchPrefix_ok functbl pageSize pages
        (htable i hi) hmagic
      rw [hstep] at hr
      cases hr
      apply patched_step hfits hfunctbl hi his' hnew
      exact ih his' hnodup (fun j hj => (patchWords_other (hfits.table i hi j hj)).trans (htable j hj)) h

end Loop

section Ctor

variable {Lib : Type} [DecidableEq Lib] {s t : State Lib} {lib : Lib} {idx : Fin qlibsSize}
  {pageSize extreftbl cbstubtbl cbFunc n : Nat} {size : UInt32}

theorem HostImage.loadImage_eq (I : HostImage configDir ld uid) (memory : Nat → Nat) :
    loadImage configDir ld memory uid = .ok ⟨I.handle, I.hfunctbl, UInt32.ofNat (memory I.hfunctblSize)⟩ := by
  rw [loadImage, I.opened]
  simp only [lookup_of_dlsym I.hfunctbl_eq, lookup_of_dlsym I.hfunctblSize_eq]
  rfl

def HostImage.told (I : HostImage configDir ld uid) (memory : Nat → Nat) (extreftbl cbstubtbl : Nat) : Nat → Nat :=
  Function.update (Function.update memory I.extreftbl extreftbl) I.cbstubtbl cbstubtbl

theorem HostImage.told_other (I : HostImage configDir ld uid) {memory : Nat → Nat} {x : Nat} (he : x ≠ I.extreftbl)
    (hc : x ≠ I.cbstubtbl) : I.told memory extreftbl cbstubtbl x = memory x := by
  rw [HostImage.told, Function.update_of_ne hc, Function.update_of_ne he]

theorem doCtor_memory (h : doCtor configDir ld lib cbFunc s = .ok (t, idx)) : t.memory = s.memory := by
  obtain ⟨cb, _, h⟩ := bind_eq_ok.mp h
  split at h
  next => cases h
  next i hi =>
    obtain ⟨image, _, h⟩ := bind_eq_ok.mp h
    cases h
    rfl

theorem registers_image (I : HostImage configDir ld (s.qlibUid lib)) {image : Image}
    (h : Registers configDir ld s t lib idx image) :
    (t.qlibs idx).handle = some I.handle ∧ (t.qlibs idx).uid = s.qlibUid lib := by
  have hload := h.loaded
  rw [I.loadImage_eq] at hload
  cases hload
  exact ⟨h.entry.handle, h.entry.uid⟩

theorem doCtorGrt_image (I : HostImage configDir ld (s.qlibUid lib))
    (h : doCtorGrt configDir ld lib extreftbl cbstubtbl cbFunc s = .ok (t, idx)) :
    (t.qlibs idx).handle = some I.handle ∧ (t.qlibs idx).uid = s.qlibUid lib ∧
      t.memory = I.told s.memory extreftbl cbstubtbl := by
  obtain ⟨image, hr⟩ := doCtorGrt_registers h
  obtain ⟨hhandle, huid⟩ := registers_image I hr
  refine ⟨hhandle, huid, ?_⟩
  obtain ⟨⟨u, i⟩, hu, h⟩ := bind_eq_ok.mp h
  obtain ⟨image', hr'⟩ := doCtor_registers hu
  obtain ⟨hhandle', huid'⟩ := registers_image I hr'
  simp only [hhandle', huid', Option.getD_some, lookup_of_dlsym I.extreftbl_eq, lookup_of_dlsym I.cbstubtbl_eq] at h
  cases h
  rw [← doCtor_memory hu]
  rfl

variable (extreftbl cbstubtbl) in
theorem doCtorGrt_ok (I : HostImage configDir ld (s.qlibUid lib)) (hcb : s.cbFunc = 0 ∨ s.cbFunc = cbFunc)
    (hfree : freeIdx s.qlibs = some idx) :
    ∃ t, doCtorGrt configDir ld lib extreftbl cbstubtbl cbFunc s = .ok (t, idx) := by
  have hc : checkCbFunc s.cbFunc cbFunc = .ok cbFunc := by
    unfold checkCbFunc
    rcases hcb with h0 | h1
    · rw [if_pos h0]
    · subst h1
      simp
  have hctor : ∃ u, doCtor configDir ld lib cbFunc s = .ok (u, idx) := by
    simp only [doCtor, hc, hfree, I.loadImage_eq]
    exact ⟨_, rfl⟩
  obtain ⟨u, hu⟩ := hctor
  obtain ⟨image, hr⟩ := doCtor_registers hu
  obtain ⟨hhandle, huid⟩ := registers_image I hr
  refine ⟨_, bind_eq_ok.mpr ⟨_, hu, bind_eq_ok.mpr ⟨I.extreftbl, ?_, bind_eq_ok.mpr ⟨I.cbstubtbl, ?_, rfl⟩⟩⟩⟩
  · simp only [hhandle, huid]
    exact lookup_of_dlsym I.extreftbl_eq
  · simp only [hhandle, huid]
    exact lookup_of_dlsym I.cbstubtbl_eq

structure Rewritten (I : HostImage configDir ld uid) (pl : Place) (n : Nat) (memory memory' : Nat → Nat) : Prop where
  magic : ∀ i < n, memory' (pl.addr i - 16) = kFCPcmMagic ^^^ memory (I.functbl + 8 * i)
  hfunc : ∀ i < n, memory' (pl.addr i - 8) = memory (I.functbl + 8 * i)
  others : ∀ x, (∀ i < n, ¬ InPrefix (pl.addr i) x) → x ≠ I.extreftbl → x ≠ I.cbstubtbl → memory' x = memory x

theorem rewritten_of_patched {I : HostImage configDir ld uid} {pl : Place} (hapart : I.Apart (pl.Cell n) n)
    {memory memory' : Nat → Nat}
    (h : Patched (I.told memory extreftbl cbstubtbl) memory' pl.addr I.functbl (List.range n)) :
    Rewritten I pl n memory memory' := by
  have hsame : ∀ i < n, I.told memory extreftbl cbstubtbl (I.functbl + 8 * i) = memory (I.functbl + 8 * i) := by
    intro i hi
    obtain ⟨_, he, hc⟩ := hapart.functbl i hi
    exact I.told_other he hc
  refine ⟨?_, ?_, ?_⟩
  · intro i hi
    rw [h.magic i (List.mem_range.mpr hi), hsame i hi]
  · intro i hi
    rw [h.hfunc i (List.mem_range.mpr hi), hsame i hi]
  · intro x hx he hc
    rw [h.others x (fun i hi => hx i (List.mem_range.mp hi)), I.told_other he hc]

theorem told_cell {I : HostImage configDir ld uid} {pl : Place} (hapart : I.Apart (pl.Cell n) n)
    (memory : Nat → Nat) {x : Nat} (hx : pl.Cell n x) : I.told memory extreftbl cbstubtbl x = memory x := by
  apply I.told_other
  · rintro rfl
    exact hapart.extreftbl hx
  · rintro rfl
    exact hapart.cbstubtbl hx

theorem Place.Fits.functbl {I : HostImage configDir ld uid} {pl : Place} (hapart : I.Apart (pl.Cell n) n) :
    ∀ i < n, ∀ j < n, ¬ InPrefix (pl.addr i) (I.functbl + 8 * j) := by
  intro i hi j hj hin
  exact (hapart.functbl j hj).1 (.inl ⟨i, hi, hin⟩)

theorem doCtorFcpCm_rewritten (I : HostImage configDir ld (s.qlibUid lib)) {pl : Place} (hfits : pl.Fits size.toNat)
    (hapart : I.Apart (pl.Cell size.toNat) size.toNat)
    (htable : ∀ i < size.toNat, s.memory (pl.gfunctbl + 8 * i) = pl.addr i)
    (h : doCtorFcpCm configDir ld pageSize lib extreftbl cbstubtbl pl.gfunctbl size cbFunc s = .ok (t, idx)) :
    Rewritten I pl size.toNat s.memory t.memory := by
  obtain ⟨⟨u, i⟩, hu, h⟩ := bind_eq_ok.mp h
  obtain ⟨functbl, hf, h⟩ := bind_eq_ok.mp h
  obtain ⟨v, hv, h⟩ := bind_eq_ok.mp h
  cases h
  obtain ⟨hhandle, huid, hmem⟩ := doCtorGrt_image I hu
  simp only [hhandle, huid, Option.getD_some, lookup_of_dlsym I.functbl_eq] at hf
  cases hf
  have hp := patchPrefixes_patched hfits (Place.Fits.functbl hapart) (fun i hi => List.mem_range.mp hi)
    List.nodup_range (by
      intro i hi
      rw [hmem, told_cell hapart _ (.inr ⟨i, hi, rfl⟩)]
      exact htable i hi) hv
  rw [hmem] at hp
  exact rewritten_of_patched hapart hp

theorem doCtorFcpCm_ok (I : HostImage configDir ld (s.qlibUid lib)) {pl : Place} (hfits : pl.Fits size.toNat)
    (hapart : I.Apart (pl.Cell size.toNat) size.toNat)
    (htable : ∀ i < size.toNat, s.memory (pl.gfunctbl + 8 * i) = pl.addr i)
    (hmagic : ∀ i < size.toNat, s.memory (pl.addr i - 16) = kFCPcmMagic)
    (hcb : s.cbFunc = 0 ∨ s.cbFunc = cbFunc) (hfree : freeIdx s.qlibs = some idx) :
    ∃ t, doCtorFcpCm configDir ld pageSize lib extreftbl cbstubtbl pl.gfunctbl size cbFunc s = .ok (t, idx) := by
  obtain ⟨u, hu⟩ := doCtorGrt_ok extreftbl cbstubtbl I hcb hfree
  obtain ⟨hhandle, huid, hmem⟩ := doCtorGrt_image I hu
  have hv := patchPrefixes_ok I.functbl pageSize (0, 0) (s := u) hfits (List.range size.toNat) (fun i hi => List.mem_range.mp hi) List.nodup_range
    (by
      intro i hi
      rw [hmem, told_cell hapart _ (.inr ⟨i, hi, rfl⟩)]
      exact htable i hi)
    (by
      intro i hi
      have hi' := List.mem_range.mp hi
      rw [hmem, told_cell hapart _ (.inl ⟨i, hi', .inl rfl⟩)]
      exact hmagic i hi')
  obtain ⟨v, hv⟩ := hv
  refine ⟨v, bind_eq_ok.mpr ⟨_, hu, bind_eq_ok.mpr ⟨I.functbl, ?_, bind_eq_ok.mpr ⟨v, hv, rfl⟩⟩⟩⟩
  simp only [hhandle, huid]
  exact lookup_of_dlsym I.functbl_eq

theorem doCtorFcpCm_badMagic (I : HostImage configDir ld (s.qlibUid lib)) {pl : Place}
    (hapart : I.Apart (pl.Cell size.toNat) size.toNat) (hpos : 0 < size.toNat)
    (htable : s.memory pl.gfunctbl = pl.addr 0) (hbad : s.memory (pl.addr 0 - 16) ≠ kFCPcmMagic)
    (hcb : s.cbFunc = 0 ∨ s.cbFunc = cbFunc) (hfree : freeIdx s.qlibs = some idx) :
    doCtorFcpCm configDir ld pageSize lib extreftbl cbstubtbl pl.gfunctbl size cbFunc s =
      .error (.badMagic (s.memory (pl.addr 0 - 16)) 0 (pl.addr 0)) := by
  obtain ⟨u, hu⟩ := doCtorGrt_ok extreftbl cbstubtbl I hcb hfree
  obtain ⟨hhandle, huid, hmem⟩ := doCtorGrt_image I hu
  have hfirst : u.memory (pl.gfunctbl + 8 * 0) = pl.addr 0 := by
    rw [hmem, told_cell hapart _ (.inr ⟨0, hpos, rfl⟩)]
    exact htable
  have hword : u.memory (pl.addr 0 - 16) = s.memory (pl.addr 0 - 16) := by
    rw [hmem, told_cell hapart _ (.inl ⟨0, hpos, .inl rfl⟩)]
  have hrange : List.range size.toNat = 0 :: (List.range (size.toNat - 1)).map Nat.succ := by
    rw [← List.range_succ_eq_map, Nat.sub_add_cancel hpos]
  refine bind_eq_error.mpr (.inr ⟨_, hu, bind_eq_error.mpr (.inr ⟨I.functbl, ?_, bind_eq_error.mpr (.inl ?_)⟩)⟩)
  · simp only [hhandle, huid]
    exact lookup_of_dlsym I.functbl_eq
  · rw [hrange]
    refine bind_eq_error.mpr (.inl ?_)
    simp only [patchPrefix, hfirst, hword, if_pos hbad]

end Ctor

section Pass

variable (m : Module) (config : Config) (bw : BwList) (symtbl : Symtbl)

def prefixOf (M : GuestModule) (g : Nat) : Option (Const GuestSym) :=
  match M.chopped.lookup g with
  | some st => st.prefixData
  | none => do
      let f ← m.function? g
      let info ← symtbl.functbl.find? g
      (prefixData config bw g f info).map guestConst

variable {m config bw symtbl} {M : GuestModule} {g : Nat} {f : GFunction} {info : FuncInfo}

theorem chopGfunc_prefixData {st : Stub} (h : chopGfunc config bw symtbl g f info = some st) :
    st.prefixData = (prefixData config bw g f info).map guestConst := by
  simp only [chopGfunc, Option.ite_none_right_eq_some, Option.some.injEq] at h
  obtain ⟨_, rfl⟩ := h
  rfl

theorem chopOff_gfunctbl (h : chopOff m config bw symtbl = some M) :
    M.gfunctbl = if config.useGRT && config.useFCPcm then genGfunctbl symtbl else [] := by
  obtain ⟨chopped, _, h⟩ := Option.bind_eq_some_iff.mp h
  cases h
  rfl

/-- Chopping deletes the prefix data with the body and puts it back. -/
theorem prefixOf_eq (h : chopOff m config bw symtbl = some M) (hf : m.function? g = some f)
    (hinfo : symtbl.functbl.find? g = some info) :
    prefixOf m config bw symtbl M g = (prefixData config bw g f info).map guestConst := by
  unfold prefixOf
  cases hlookup : M.chopped.lookup g with
  | none => simp [hf, hinfo]
  | some st =>
      obtain ⟨chopped, hchopped, h⟩ := Option.bind_eq_some_iff.mp h
      cases h
      obtain ⟨e, he, heq⟩ := (mapM_some_mem hchopped).2 (g, st) (OrderedMap.mem_of_lookup hlookup)
      obtain ⟨f', hf', heq⟩ := Option.bind_eq_some_iff.mp heq
      obtain ⟨st', hst', heq⟩ := Option.bind_eq_some_iff.mp heq
      cases heq
      have hentry := OrderedMap.mem_entries.mp (List.mem_filter.mp he).1
      rw [hf] at hf'
      cases hf'
      rw [hinfo] at hentry
      cases hentry
      exact chopGfunc_prefixData hst'

structure Loaded (lay : PrefixLayout) (data : Nat → Option (Const GuestSym)) (tbl : List (Option Nat)) (pl : Place)
    (memory : Nat → Nat) : Prop where
  table : ∀ i < tbl.length, memory (pl.gfunctbl + 8 * i) = pl.addr i
  words : ∀ i g c, tbl[i]? = some (some g) → data g = some c →
    (memory (pl.addr i - 16), memory (pl.addr i - 8)) = lay.words c

structure Registrable (lay : PrefixLayout) (data : Nat → Option (Const GuestSym)) (tbl : List (Option Nat)) : Prop where
  carries : ∀ g, some g ∈ tbl → ∃ c, data g = some c ∧ (lay.words c).1 = kFCPcmMagic
  completes : ∀ {Lib : Type} [DecidableEq Lib] (configDir : String) (ld : Loader) (lib : Lib) (s : State Lib)
    (I : HostImage configDir ld (s.qlibUid lib)) (pl : Place) (size : UInt32) (idx : Fin qlibsSize)
    (pageSize extreftbl cbstubtbl cbFunc : Nat), size.toNat = tbl.length → pl.Fits tbl.length →
      I.Apart (pl.Cell tbl.length) tbl.length → Loaded lay data tbl pl s.memory →
      (s.cbFunc = 0 ∨ s.cbFunc = cbFunc) → freeIdx s.qlibs = some idx →
      ∃ t, doCtorFcpCm configDir ld pageSize lib extreftbl cbstubtbl pl.gfunctbl size cbFunc s = .ok (t, idx) ∧
        ∀ i < tbl.length, (t.memory (pl.addr i - 16), t.memory (pl.addr i - 8)) =
          (kFCPcmMagic ^^^ s.memory (I.functbl + 8 * i), s.memory (I.functbl + 8 * i))

theorem registrable_of_carries {lay : PrefixLayout} {data : Nat → Option (Const GuestSym)} {tbl : List (Option Nat)}
    (hfull : none ∉ tbl) (h : ∀ g, some g ∈ tbl → ∃ c, data g = some c ∧ (lay.words c).1 = kFCPcmMagic) :
    Registrable lay data tbl := by
  refine ⟨h, ?_⟩
  intro Lib _ configDir ld lib s I pl size idx pageSize extreftbl cbstubtbl cbFunc hsize hfits hapart hloaded hcb hfree
  have htable := hloaded.table
  have hmagic : ∀ i < tbl.length, s.memory (pl.addr i - 16) = kFCPcmMagic := by
    intro i hi
    cases hentry : tbl[i] with
    | none => exact absurd (List.mem_of_getElem hentry) hfull
    | some g =>
        obtain ⟨c, hc, hword⟩ := h g (List.mem_of_getElem hentry)
        have hwords := hloaded.words i g c (by rw [List.getElem?_eq_getElem hi, hentry]) hc
        rw [← hword, ← hwords]
  rw [← hsize] at hfits hapart htable hmagic ⊢
  obtain ⟨t, ht⟩ := doCtorFcpCm_ok I hfits hapart htable hmagic hcb hfree
  have hr := doCtorFcpCm_rewritten I hfits hapart htable ht
  refine ⟨t, ht, ?_⟩
  intro i hi
  rw [hr.magic i hi, hr.hfunc i hi]

def KeepsMagic (lay : PrefixLayout) (bw : BwList) (g : Nat) (f : GFunction) : Prop :=
  match f.prefixData with
  | none => (bw.funcs g).bind FuncBw.chopOff ≠ some false
  | some c => (lay.words (guestConst c)).1 = kFCPcmMagic

theorem keepsMagic_iff {lay : PrefixLayout} (hcm : config.useFCPcm = true) :
    (∃ c, (prefixData config bw g f info).map guestConst = some c ∧ (lay.words c).1 = kFCPcmMagic) ↔
      KeepsMagic lay bw g f := by
  unfold KeepsMagic prefixData
  cases hdata : f.prefixData with
  | some c => simp
  | none =>
      by_cases hchop : (bw.funcs g).bind FuncBw.chopOff = some false
      · simp [hchop]
      · simp only [hcm, hchop, ne_eq, not_false_eq_true, Option.isNone_none, and_self, if_true, iff_true]
        exact ⟨_, rfl, by rw [guestConst, guestConsts, guestConsts, guestConsts, guestConst, guestConst, lay.pair]; rfl⟩

end Pass

/-- Registration accepts what the tools produce exactly when every function of
the table got the magic number: none was left out by its list entry, or has
other prefix data. -/
theorem registrable_iff (H : HashOps) (L : Layout) (m : Module) (config : Config) (bw : BwList) (uid : Nat)
    (lay : PrefixLayout) {M : GuestModule} (hcm : config.useFCPcm = true)
    (hM : chopOff m config bw (analyze H L m bw uid) = some M) :
    (Registrable lay (prefixOf m config bw (analyze H L m bw uid) M) M.gfunctbl ↔
      (config.useGRT = true → ∀ g f, Accepted H m bw g → m.function? g = some f → KeepsMagic lay bw g f)) ∧
      (config.useGRT = true → ∀ g info, (analyze H L m bw uid).functbl.find? g = some info →
        M.gfunctbl[info.uid]? = some (some g)) := by
  have hwf := analyze_wellFormed H L m bw uid
  have htbl := chopOff_gfunctbl hM
  rw [hcm, Bool.and_true] at htbl
  have hget : config.useGRT = true → ∀ g info, (analyze H L m bw uid).functbl.find? g = some info →
      M.gfunctbl[info.uid]? = some (some g) := by
    intro hgrt g info hinfo
    rw [htbl, if_pos hgrt]
    exact tableOf_get hwf.functionUids (OrderedMap.mem_entries.mpr hinfo)
  refine ⟨?_, hget⟩
  constructor
  · intro h hgrt g f hacc hf
    obtain ⟨info, hinfo⟩ := Option.ne_none_iff_exists'.mp ((hwf.functions g).mpr hacc)
    have hc := h.carries g (List.mem_of_getElem? (hget hgrt g info hinfo))
    rw [prefixOf_eq hM hf hinfo] at hc
    exact (keepsMagic_iff hcm).mp hc
  · intro h
    cases hgrt : config.useGRT with
    | false =>
        rw [htbl, hgrt, if_neg Bool.false_ne_true]
        exact registrable_of_carries List.not_mem_nil (fun g hg => absurd hg List.not_mem_nil)
    | true =>
        rw [htbl, if_pos hgrt]
        apply registrable_of_carries (tableOf_covers hwf.functionUids).written
        intro g hg
        obtain ⟨i, hi⟩ := List.mem_iff_getElem?.mp hg
        obtain ⟨info, hinfo, _⟩ := tableOf_inv hwf.functionUids hi
        obtain ⟨f, scan, k, he⟩ := hwf.entries g info hinfo
        have hacc := (hwf.functions g).mp (by rw [hinfo]; exact Option.some_ne_none _)
        rw [prefixOf_eq hM he.function hinfo]
        exact (keepsMagic_iff hcm).mpr (h hgrt g f hacc he.function)

def pairLayout : PrefixLayout where
  words
    | .aggregate .array [.int 64 a, .int 64 b] => (a % 2 ^ 64, b % 2 ^ 64)
    | _ => (0, 0)
  pair _ _ := rfl

def cmConfig : Config := ⟨false, true, true, true, 0, 0⟩

def chopOffList (chopOff : Option Bool) : BwList :=
  ⟨fun _ => some ⟨none, none, chopOff, none⟩, fun _ => none, fun _ => false, false⟩

def emptySymtbl (listed : Option Bool) : Symtbl :=
  analyze HostTable.sumHash HostTable.plainLayout HostTable.emptyModule (chopOffList listed) 7

theorem unlisted_registrable : ∃ M,
    chopOff HostTable.emptyModule cmConfig (chopOffList none) (emptySymtbl none) = some M ∧
      Registrable pairLayout (prefixOf HostTable.emptyModule cmConfig (chopOffList none) (emptySymtbl none) M)
        M.gfunctbl := by
  refine ⟨_, rfl, (registrable_iff HostTable.sumHash HostTable.plainLayout HostTable.emptyModule cmConfig
    (chopOffList none) 7 pairLayout rfl rfl).1.mpr ?_⟩
  intro _ g f _ hf
  have hg : g = 0 := by
    cases g with
    | zero => rfl
    | succ g => cases hf
  subst hg
  cases hf
  exact (Option.some_ne_none false).symm

def spacedLoader : Loader := ⟨fun _ => some 1, fun _ symbol => some (64 * symbol.length), fun _ => 0⟩

def spacedImage : HostImage "" spacedLoader 7 where
  handle := 1
  hfunctbl := 1472
  hfunctblSize := 1792
  extreftbl := 1536
  cbstubtbl := 1536
  functbl := 1408
  opened := rfl
  hfunctbl_eq := by decide
  hfunctblSize_eq := by decide
  extreftbl_eq := by decide
  cbstubtbl_eq := by decide
  functbl_eq := by decide

def onePlace : Place := ⟨fun _ => 4096, 8192⟩

theorem onePlace_fits : onePlace.Fits 1 := by
  refine ⟨fun _ _ => show 16 ≤ 4096 by decide, ?_, ?_⟩
  · intro i hi j hj hij
    omega
  · intro i hi j hj hin
    have hin : 8192 + 8 * j = 4096 - 16 ∨ 8192 + 8 * j = 4096 - 8 := hin
    omega

theorem onePlace_cell {x : Nat} (h : onePlace.Cell 1 x) : x = 4080 ∨ x = 4088 ∨ x = 8192 := by
  rcases h with ⟨i, _, hx | hx⟩ | ⟨j, hj, hx⟩
  · exact .inl hx
  · exact .inr (.inl hx)
  · have hx : x = 8192 + 8 * j := hx
    omega

theorem spacedImage_apart : spacedImage.Apart (onePlace.Cell 1) 1 := by
  refine ⟨?_, ?_, ?_⟩
  · intro h
    exact absurd (onePlace_cell h) (by decide)
  · intro h
    exact absurd (onePlace_cell h) (by decide)
  · intro j hj
    obtain rfl : j = 0 := by omega
    refine ⟨?_, by decide, by decide⟩
    intro h
    exact absurd (onePlace_cell h) (by decide)

def oneState (memory : Nat → Nat) : State Unit := State.init (fun _ => 7) memory

/-- A function that is not to be chopped off is listed without a prefix, and its
library cannot be registered. -/
theorem keptFunction_badMagic : ∃ M,
    chopOff HostTable.emptyModule cmConfig (chopOffList (some false)) (emptySymtbl (some false)) = some M ∧
      M.gfunctbl = [some 0] ∧
      prefixOf HostTable.emptyModule cmConfig (chopOffList (some false)) (emptySymtbl (some false)) M 0 = none ∧
      ¬ Registrable pairLayout
        (prefixOf HostTable.emptyModule cmConfig (chopOffList (some false)) (emptySymtbl (some false)) M) M.gfunctbl ∧
      doCtorFcpCm "" spacedLoader 4096 () 0 0 onePlace.gfunctbl 1 64
        (oneState (fun x => if x = 8192 then 4096 else 0)) = .error (.badMagic 0 0 4096) := by
  refine ⟨_, rfl, rfl, rfl, ?_, ?_⟩
  · intro h
    obtain ⟨c, hc, _⟩ := h.carries 0 (by exact List.mem_cons_self)
    cases hc
  · exact doCtorFcpCm_badMagic (s := oneState (fun x => if x = 8192 then 4096 else 0)) spacedImage spacedImage_apart
      (by decide) rfl (by decide) (.inl rfl) (QlibCalls.freeIdx_const _ rfl)

end Comulator.FcpPrefix
