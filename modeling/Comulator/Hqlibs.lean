import Comulator.LtoPass
import Comulator.QlibCalls

namespace Comulator.Hqlibs

open Fallible Types Ir TypeHash Symtbl HostIr TakeOut ChopOff Analyze Lookups PickUp ConfigJson SharedDisk LtoPass
open QlibTable QlibCalls

section Build

structure Qso where
  hex : String
  globals : List HostGlobal
  host : HostModule

def hostIr (files : Files String Artifact) : Option (Option Artifact) :=
  match files "host.bc" with
  | some ir => some ir
  | none => files "host.ll"

def compile : Option Artifact → Option Qso
  | some (.host hex globals M) => some ⟨hex, globals, M⟩
  | _ => none

/-- The loop of `hqlibs` over the directories below `guest`, which adds to the files in
`host`; it ends at the first failure. -/
def hqlibs (guest : String → Files String Artifact) : List String → (String → Option Qso) → Option (String → Option Qso)
  | [], host => some host
  | name :: names, host =>
      match hostIr (guest name) with
      | none => hqlibs guest names host
      | some ir => do
          let qso ← compile ir
          hqlibs guest names (Function.update host (name ++ ".qso") (some qso))

def guestDirs (configDir : String) (K : Disk String String Artifact) (name : String) : Files String Artifact :=
  K.files (configDir ++ "/guest/" ++ name)

variable {guest : String → Files String Artifact} {names : List String} {name : String} {host host' : String → Option Qso}

theorem qsoName_inj {a b : String} (h : a ++ ".qso" = b ++ ".qso") : a = b := by
  have hlist := congrArg String.toList h
  simp only [String.toList_append] at hlist
  exact String.toList_injective (List.append_cancel_right hlist)

/-- A library that has been built stays, or is built again of the same module. -/
theorem hqlibs_keeps {ir : Option Artifact} {qso : Qso} (hir : hostIr (guest name) = some ir) (hqso : compile ir = some qso)
    (h : hqlibs guest names host = some host') (hbuilt : host (name ++ ".qso") = some qso) :
    host' (name ++ ".qso") = some qso := by
  induction names generalizing host with
  | nil =>
      cases h
      exact hbuilt
  | cons other names ih =>
      rw [hqlibs] at h
      split at h
      next => exact ih h hbuilt
      next ir' hother =>
        obtain ⟨qso', hqso', h⟩ := Option.bind_eq_some_iff.mp h
        apply ih h
        by_cases hname : name = other
        · subst hname
          cases hir.symm.trans hother
          cases hqso.symm.trans hqso'
          exact Function.update_self ..
        · rw [Function.update_of_ne (fun heq => hname (qsoName_inj heq))]
          exact hbuilt

theorem hqlibs_built {ir : Option Artifact} {qso : Qso} (hir : hostIr (guest name) = some ir) (hqso : compile ir = some qso)
    (h : hqlibs guest names host = some host') (hmem : name ∈ names) : host' (name ++ ".qso") = some qso := by
  induction names generalizing host with
  | nil => cases hmem
  | cons other names ih =>
      rw [hqlibs] at h
      rcases List.mem_cons.mp hmem with rfl | hmem
      · rw [hir] at h
        obtain ⟨qso', hqso', h⟩ := Option.bind_eq_some_iff.mp h
        cases hqso.symm.trans hqso'
        exact hqlibs_keeps hir hqso h (Function.update_self ..)
      · split at h
        next => exact ih h hmem
        next =>
          obtain ⟨_, _, h⟩ := Option.bind_eq_some_iff.mp h
          exact ih h hmem

/-- Only what has a directory is built. -/
theorem hqlibs_other (h : hqlibs guest names host = some host') (hmem : name ∉ names) :
    host' (name ++ ".qso") = host (name ++ ".qso") := by
  induction names generalizing host with
  | nil =>
      cases h
      rfl
  | cons other names ih =>
      rw [List.mem_cons, not_or] at hmem
      obtain ⟨hne, hmem⟩ := hmem
      rw [hqlibs] at h
      split at h
      next => exact ih h hmem
      next =>
        obtain ⟨_, _, h⟩ := Option.bind_eq_some_iff.mp h
        rw [ih h hmem, Function.update_of_ne (fun heq => hne (qsoName_inj heq))]

/-- The host module of a link is the one that is taken. -/
theorem hostIr_matching {P : Link} {uid : UInt32} {files : Files String Artifact} {bw : BwList} {m : Module} {M : HostModule}
    (h : Matching P uid files bw m M) : hostIr files = some (some (hostArtifact P uid M)) := by
  have hhost := h.host
  have honly := h.only
  unfold irFile at hhost
  unfold otherFile at honly
  unfold hostIr
  cases hext : P.config.llOrBc with
  | true =>
      rw [hext] at hhost honly
      have hbc : files "host.bc" = none := honly
      rw [hbc]
      exact hhost
  | false =>
      rw [hext] at hhost
      have hbc : files "host.bc" = some (some (hostArtifact P uid M)) := hhost
      rw [hbc]

/-- Both texts of a uid are the same, but for 0. -/
theorem uidText_eq_hex8 {uid : UInt32} (h : uid ≠ 0) : uidText uid = hex8 uid := by
  have hne : uid.toNat ≠ 0 := fun hzero => h (UInt32.toNat_inj.mp hzero)
  rw [uidText, SymtblJson.utohexstr, if_neg hne]
  rfl

theorem uidText_ne_zeros (uid : UInt32) : uidText uid ≠ hex8 0 := by
  intro heq
  have hvalue := congrArg (fun t => hexValue t.toList) heq
  simp only [hexValue_uidText] at hvalue
  have hzero : uid = 0 := UInt32.toNat_inj.mp hvalue
  subst hzero
  exact absurd heq (by decide)

end Build

section Load

variable {Lib : Type} [DecidableEq Lib] {configDir : String} {pageSize : Nat} {host : String → Option Qso} {ld : Loader}
  {s t : State Lib} {lib : Lib} {cbFunc : Nat} {config : FullConfig} {M : HostModule} {idx : Fin qlibsSize}

/-- The loader finds the libraries that have been built, with their variables, and the
sizes of their tables are in memory. -/
def Serves (configDir : String) (host : String → Option Qso) (ld : Loader) (memory : Nat → Nat) : Prop :=
  ∀ file qso, host file = some qso → ∃ handle, ld.dlopen (configDir ++ "/host/" ++ file) = some handle ∧
    ∀ g ∈ qso.globals, ∃ a, ld.dlsym handle (g.name qso.hex) = some a ∧
      (g = .hfunctblSize → memory a = qso.host.hfunctbl.length)

def ctorOf (config : FullConfig) (extreftbl cbstubtbl gfunctbl : Nat) (gfunctblSize : UInt32) : Ctor :=
  if !config.useGRT then .plain
  else if !config.useFCPcm then .grt extreftbl cbstubtbl
  else .fcpCm extreftbl cbstubtbl gfunctbl gfunctblSize

def Built (host : String → Option Qso) (config : FullConfig) (uid : UInt32) (M : HostModule) : Prop :=
  host (hex8 uid ++ ".qso") = some ⟨hex8 uid, hostGlobals config, M⟩

def Opened (ld : Loader) (config : FullConfig) (uid : UInt32) (handle : Nat) : Prop :=
  ∀ g ∈ hostGlobals config, ∃ a, lookup ld handle (g.name (hex8 uid)) = .ok a

theorem mem_hostGlobals (config : FullConfig) : .hfunctblSize ∈ hostGlobals config ∧ .hfunctbl ∈ hostGlobals config := by
  simp [hostGlobals]

theorem loadImage_served {uid : UInt32} {memory : Nat → Nat} (hld : Serves configDir host ld memory)
    (hbuilt : Built host config uid M) : ∃ image, loadImage configDir ld memory uid = .ok image ∧
      image.hfunctblSize = UInt32.ofNat M.hfunctbl.length ∧ Opened ld config uid image.handle := by
  obtain ⟨handle, hopen, hsyms⟩ := hld _ _ hbuilt
  obtain ⟨tbl, htbl, _⟩ := hsyms _ (mem_hostGlobals config).2
  obtain ⟨size, hsize, hvalue⟩ := hsyms _ (mem_hostGlobals config).1
  rw [← String.append_assoc] at hopen
  refine ⟨⟨handle, tbl, UInt32.ofNat (memory size)⟩, ?_, ?_, ?_⟩
  · rw [loadImage, hopen]
    exact bind_eq_ok.mpr ⟨tbl, lookup_of_dlsym htbl, bind_eq_ok.mpr ⟨size, lookup_of_dlsym hsize, rfl⟩⟩
  · rw [hvalue rfl]
  · intro g hg
    obtain ⟨a, ha, _⟩ := hsyms g hg
    exact ⟨a, lookup_of_dlsym ha⟩

/-- `gyh_do_ctor` on a library that has been built: it may be refused, not fail to load. -/
theorem doCtor_served (hld : Serves configDir host ld s.memory) (hbuilt : Built host config (s.qlibUid lib) M) :
    doCtor configDir ld lib cbFunc s ≠ .error .dlerror := by
  intro h
  obtain ⟨image, himage, _⟩ := loadImage_served hld hbuilt
  rcases bind_eq_error.mp h with hcheck | ⟨cb, _, h⟩
  · unfold checkCbFunc at hcheck
    split at hcheck
    · cases hcheck
    · split at hcheck <;> cases hcheck
  · split at h
    next => cases h
    next =>
      rw [himage] at h
      cases h

/-- After `gyh_do_ctor` the variables of the library are found by its entry. -/
theorem registers_opened {image : Image} (hld : Serves configDir host ld s.memory) (hbuilt : Built host config (s.qlibUid lib) M)
    (hr : Registers configDir ld s t lib idx image) {g : HostGlobal} (hg : g ∈ hostGlobals config) :
    ∃ a, lookup ld ((t.qlibs idx).handle.getD 0) (g.name (hex8 (t.qlibs idx).uid)) = .ok a := by
  obtain ⟨image', himage, _, hopened⟩ := loadImage_served hld hbuilt
  cases hr.loaded.symm.trans himage
  rw [hr.entry.handle, hr.entry.uid]
  exact hopened g hg

theorem doCtorGrt_served {extreftbl cbstubtbl : Nat} (hgrt : config.useGRT = true) (hld : Serves configDir host ld s.memory)
    (hbuilt : Built host config (s.qlibUid lib) M) :
    doCtorGrt configDir ld lib extreftbl cbstubtbl cbFunc s ≠ .error .dlerror := by
  intro h
  rcases bind_eq_error.mp h with h | ⟨⟨u, i⟩, hu, h⟩
  · exact doCtor_served hld hbuilt h
  · obtain ⟨image, hr⟩ := doCtor_registers hu
    obtain ⟨a, ha⟩ := registers_opened hld hbuilt hr (g := .extreftbl) (by simp [hostGlobals, hgrt])
    obtain ⟨b, hb⟩ := registers_opened hld hbuilt hr (g := .cbstubtbl) (by simp [hostGlobals, hgrt])
    rcases bind_eq_error.mp h with h | ⟨_, _, h⟩
    · cases ha.symm.trans h
    · rcases bind_eq_error.mp h with h | ⟨_, _, h⟩
      · cases hb.symm.trans h
      · cases h

omit [DecidableEq Lib] in
theorem patchPrefixes_served {functbl gfunctbl : Nat} {is : List Nat} {pages : Nat × Nat} :
    patchPrefixes pageSize functbl gfunctbl is pages s ≠ .error .dlerror := by
  induction is generalizing pages s with
  | nil =>
      intro h
      cases h
  | cons i is ih =>
      intro h
      rcases bind_eq_error.mp h with h | ⟨_, _, h⟩
      · simp only [patchPrefix] at h
        split at h <;> cases h
      · exact ih h

theorem doCtorFcpCm_served {extreftbl cbstubtbl gfunctbl : Nat} {size : UInt32} (hgrt : config.useGRT = true)
    (hcm : config.useFCPcm = true) (hld : Serves configDir host ld s.memory) (hbuilt : Built host config (s.qlibUid lib) M) :
    doCtorFcpCm configDir ld pageSize lib extreftbl cbstubtbl gfunctbl size cbFunc s ≠ .error .dlerror := by
  intro h
  rcases bind_eq_error.mp h with h | ⟨⟨u, i⟩, hu, h⟩
  · exact doCtorGrt_served hgrt hld hbuilt h
  · obtain ⟨image, hr⟩ := doCtorGrt_registers hu
    obtain ⟨a, ha⟩ := registers_opened hld hbuilt hr (g := .functbl) (by simp [hostGlobals, hcm])
    rcases bind_eq_error.mp h with h | ⟨_, _, h⟩
    · cases ha.symm.trans h
    · rcases bind_eq_error.mp h with h | ⟨_, _, h⟩
      · exact patchPrefixes_served h
      · cases h

/-- The constructor of a module finds all that it looks up in its host library. -/
theorem ctorOf_served (config : FullConfig) (extreftbl cbstubtbl gfunctbl : Nat) (size : UInt32)
    (hld : Serves configDir host ld s.memory) (hbuilt : Built host config (s.qlibUid lib) M) :
    doCtorOf configDir ld pageSize (ctorOf config extreftbl cbstubtbl gfunctbl size) lib cbFunc s ≠ .error .dlerror := by
  intro h
  cases hgrt : config.useGRT with
  | false =>
      have hkind : ctorOf config extreftbl cbstubtbl gfunctbl size = .plain := by simp [ctorOf, hgrt]
      rw [hkind, doCtorOf] at h
      exact doCtor_served hld hbuilt h
  | true =>
      cases hcm : config.useFCPcm with
      | false =>
          have hkind : ctorOf config extreftbl cbstubtbl gfunctbl size = .grt extreftbl cbstubtbl := by simp [ctorOf, hgrt, hcm]
          rw [hkind, doCtorOf] at h
          exact doCtorGrt_served hgrt hld hbuilt h
      | true =>
          have hkind : ctorOf config extreftbl cbstubtbl gfunctbl size = .fcpCm extreftbl cbstubtbl gfunctbl size := by
            simp [ctorOf, hgrt, hcm]
          rw [hkind, doCtorOf] at h
          exact doCtorFcpCm_served hgrt hcm hld hbuilt h

def Reached (configDir : String) (pageSize : Nat) (linkUid : Lib → UInt32) (host : String → Option Qso) (memory : Nat → Nat) :
    Sys Lib → Prop :=
  Relation.ReflTransGen (fun x y => ∃ ld r, Serves configDir host ld x.table.memory ∧ InOrder linkUid x r ∧
    Step configDir pageSize linkUid x y ld r) (init linkUid memory)

variable {linkUid : Lib → UInt32} {memory : Nat → Nat} {x y : Sys Lib}

theorem Reached.inOrder (h : Reached configDir pageSize linkUid host memory x) :
    QlibCalls.Reached configDir pageSize linkUid memory x := by
  refine Relation.ReflTransGen.mono ?_ _ _ h
  rintro x y ⟨ld, r, _, hstep⟩
  exact ⟨ld, r, hstep⟩

def SizesOk (linkUid : Lib → UInt32) (host : String → Option Qso) (x : Sys Lib) : Prop :=
  ∀ lib config M image, Built host config (linkUid lib) M → x.live lib = some image →
    image.hfunctblSize = UInt32.ofNat M.hfunctbl.length

theorem step_sizes {r : Request Lib} (hx : SizesOk linkUid host x) (hld : Serves configDir host ld x.table.memory)
    (h : Step configDir pageSize linkUid x y ld r) : SizesOk linkUid host y := by
  intro lib' config M image hbuilt hlive
  rw [h.2] at hlive
  cases r with
  | ctor kind lib cbFunc =>
      by_cases hlib : lib' = lib
      · subst hlib
        obtain ⟨image', himage, hsize, _⟩ := loadImage_served hld hbuilt
        rw [liveAfter, Function.update_self, himage] at hlive
        cases hlive
        exact hsize
      · rw [liveAfter, Function.update_of_ne hlib] at hlive
        exact hx lib' config M image hbuilt hlive
  | dtor lib =>
      by_cases hlib : lib' = lib
      · subst hlib
        rw [liveAfter, Function.update_self] at hlive
        cases hlive
      · rw [liveAfter, Function.update_of_ne hlib] at hlive
        exact hx lib' config M image hbuilt hlive

theorem reached_sizes (h : Reached configDir pageSize linkUid host memory x) : SizesOk linkUid host x := by
  induction h with
  | refl =>
      intro lib config M image _ hlive
      cases hlive
  | tail _ hstep ih =>
      obtain ⟨ld, r, hld, _, hstep⟩ := hstep
      exact step_sizes ih hld hstep

/-- A call of an entry that the table has goes to that entry of the library's own table. -/
theorem call_entered (h : Reached configDir pageSize linkUid host memory x) (hbuilt : Built host config (linkUid lib) M)
    (hsize : M.hfunctbl.length < 2 ^ 32) {image : Image} (hlive : x.live lib = some image) {i : Nat}
    (hi : i < M.hfunctbl.length) (args : List Nat) :
    callEntry x.table lib (UInt32.ofNat i) args = .ok ⟨image.hfunctbl, UInt32.ofNat i, args⟩ := by
  have hplaced := reached_inv h.inOrder lib
  rw [Placed, hlive] at hplaced
  obtain ⟨qlib, hq, hholds⟩ := hplaced
  have hle : ¬ qlib.hfunctblSize < UInt32.ofNat i := by
    rw [hholds.size, reached_sizes h lib config M image hbuilt hlive, UInt32.lt_iff_toNat_lt, UInt32.toNat_ofNat',
      UInt32.toNat_ofNat']
    omega
  rw [callEntry_of_some hq, if_neg hle, hholds.hfunctbl]

end Load

section Links

variable {ι : Type} [DecidableEq ι] {configDir : String} {pageSize : Nat} {P : ι → Link} {K₀ : Disk String String Artifact}
  {s : Pool ι UInt32 String String Artifact String Report} {l : List (ι × Answer UInt32 String)} {names : List String}
  {host₀ host : String → Option Qso} {linkUid : ι → UInt32} {memory : Nat → Nat} {x : Sys ι}

def EntryOf (P : Link) (m : Module) (bw : BwList) (uid : UInt32) (M : HostModule) (g : Nat) (info : FuncInfo) : Prop :=
  HostTable.Filled (analyzed P.hash P.layout m (takeOutConfig P.config) bw uid.toNat) (M.hfunctbl, M.functions) g info

theorem EntryOf.lt {P : Link} {m : Module} {bw : BwList} {uid : UInt32} {M : HostModule} {g : Nat} {info : FuncInfo}
    (h : EntryOf P m bw uid M g info) : info.uid < M.hfunctbl.length := by
  unfold EntryOf HostTable.Filled at h
  split at h
  next =>
    obtain ⟨hlt, _⟩ := List.getElem?_eq_some_iff.mp h
    exact hlt
  next =>
    obtain ⟨_, _, _, _, hentry, _⟩ := h
    obtain ⟨hlt, _⟩ := List.getElem?_eq_some_iff.mp hentry
    exact hlt

theorem entryOf_matching {P : Link} {m : Module} {bw : BwList} {uid : UInt32} {files : Files String Artifact} {M : HostModule}
    {g : Nat} {info : FuncInfo} (h : Matching P uid files bw m M)
    (hinfo : (analyze P.hash P.layout m bw uid.toNat).functbl.find? g = some info) : EntryOf P m bw uid M g info :=
  HostTable.genHfuncs_filled (HostTable.takeOut_genHfuncs h.taken)
    (AnalyzeSpec.analyze_wellFormed P.hash P.layout m bw uid.toNat).functionUids hinfo

omit [DecidableEq ι] in
/-- The tool builds the library of a link by the name that the emulator looks for. -/
theorem link_built (hnames : ∀ name, s.disk.dirs (configDir ++ "/guest/" ++ name) = true → name ∈ names)
    (hhost : hqlibs (guestDirs configDir s.disk) names host₀ = some host) {P : Link} {m : Module} {bw : BwList} {uid : UInt32}
    {M : HostModule} (hdir : s.disk.dirs (uidDir configDir uid) = true)
    (hmatch : Matching P uid (s.disk.files (uidDir configDir uid)) bw m M) (hzero : uid ≠ 0) : Built host P.config uid M := by
  have hbuilt : host (uidText uid ++ ".qso") = some ⟨uidText uid, hostGlobals P.config, M⟩ :=
    hqlibs_built (hostIr_matching hmatch) rfl hhost (hnames (uidText uid) hdir)
  rw [uidText_eq_hex8 hzero] at hbuilt
  exact hbuilt

/-- What the links leave is what the run time asks for, if no uid is 0. -/
theorem links_served (hrun : (links configDir P K₀).run l = some s)
    (hnames : ∀ name, s.disk.dirs (configDir ++ "/guest/" ++ name) = true → name ∈ names)
    (hhost : hqlibs (guestDirs configDir s.disk) names host₀ = some host)
    (hreached : Reached configDir pageSize linkUid host memory x) {i : ι} {m : Module} {G : GuestModule} {d : Option String}
    (hi : s.progs i = .ret ⟨.chopped m G, some (linkUid i), d⟩) (hzero : linkUid i ≠ 0) :
    ∃ bw M, Matching (P i) (linkUid i) (s.disk.files (uidDir configDir (linkUid i))) bw m M ∧
      (∀ ld extreftbl cbstubtbl gfunctbl size cbFunc, Serves configDir host ld x.table.memory → x.live i = none →
        serve configDir ld pageSize (.ctor (ctorOf (P i).config extreftbl cbstubtbl gfunctbl size) i cbFunc) x.table ≠
          .error .dlerror) ∧
      ∀ image g info, x.live i = some image → M.hfunctbl.length < 2 ^ 32 →
        (analyze (P i).hash (P i).layout m bw (linkUid i).toNat).functbl.find? g = some info →
        EntryOf (P i) m bw (linkUid i) M g info ∧
        (∀ retPad argPad extRefs cbStubs, gyhDoCall x.table i (UInt32.ofNat info.uid) retPad argPad extRefs cbStubs =
          .ok ⟨image.hfunctbl, UInt32.ofNat info.uid, [retPad, argPad, extRefs, cbStubs]⟩) ∧
        ∀ retPad argPad, gyhDoCallGrt x.table i (UInt32.ofNat info.uid) retPad argPad =
          .ok ⟨image.hfunctbl, UInt32.ofNat info.uid, [retPad, argPad]⟩ := by
  obtain ⟨own, alone, h⟩ := isolated (fun i => run_tidy configDir) hrun
  have hreport := (reported_pool h hi).1
  obtain ⟨uid, bw, M, huid, hmatch, _⟩ := hreport.chopped m G rfl
  cases huid
  have hbuilt := link_built hnames hhost (hreport.fresh _ rfl).2 hmatch hzero
  refine ⟨bw, M, hmatch, ?_, ?_⟩
  · intro ld extreftbl cbstubtbl gfunctbl size cbFunc hld hlive herror
    have hplaced := reached_inv hreached.inOrder i
    rw [Placed, hlive] at hplaced
    rw [← hplaced] at hbuilt
    cases hctor : doCtorOf configDir ld pageSize (ctorOf (P i).config extreftbl cbstubtbl gfunctbl size) i cbFunc x.table with
    | ok r =>
        rw [serve, hctor] at herror
        cases herror
    | error e =>
        rw [serve, hctor] at herror
        cases herror
        exact ctorOf_served (P i).config extreftbl cbstubtbl gfunctbl size hld hbuilt hctor
  · intro image g info hlive hsize hinfo
    have hentry := entryOf_matching hmatch hinfo
    have hcall := fun args => call_entered hreached hbuilt hsize hlive hentry.lt args
    exact ⟨hentry, fun _ _ _ _ => hcall _, fun _ _ => hcall _⟩

def rivalUid (b : Bool) : UInt32 := if b then 7 else 8

theorem qlibsSize_pos : 0 < qlibsSize := by decide

def rivalSys : Sys Bool :=
  ⟨⟨4096, Function.update (fun _ => ⟨none, 0, 0, 0, 0, 0⟩) ⟨0, qlibsSize_pos⟩ ⟨some 1, 7, 64, 1, 0, 0⟩, Function.update rivalUid true 0,
    fun _ => 1, []⟩, Function.update (fun _ => none) true (some ⟨1, 64, 1⟩)⟩

theorem rivalSys_step : Step "/c" 4096 rivalUid (init rivalUid (fun _ => 1)) rivalSys oneEntryLoader (.ctor .plain true 4096) := by
  constructor
  · simp only [serve, doCtorOf, doCtor, init, State.init, freeIdx_const]
    rfl
  · rfl

theorem rivals_built : ∃ s m G M info host, (links "/c" (fun _ : Bool => soloLink) emptyDisk).run rivals = some s ∧
    s.progs true = .ret ⟨.chopped m G, some 7, some "fail to save '/c/guest/00000007/guest.ll': no space"⟩ ∧
    (∀ name, s.disk.dirs ("/c" ++ "/guest/" ++ name) = true → name ∈ [uidText 7, uidText 8]) ∧
    hqlibs (guestDirs "/c" s.disk) [uidText 7, uidText 8] (fun _ => none) = some host ∧
    host = Function.update (fun _ => none) (uidText 7 ++ ".qso") (some ⟨uidText 7, hostGlobals soloLink.config, M⟩) ∧
    s.disk.files (uidDir "/c" 7) (irFile soloLink.config "host") = some (some (hostArtifact soloLink 7 M)) ∧
    M.hfunctbl.length = 1 ∧ (analyze mixHash soloLink.layout m soloList 7).functbl.find? 0 = some info ∧ info.uid = 0 := by
  obtain ⟨s, m, G, _, M, info, hrun, hr, _, _, hhost, hdirs, hother, hlen, hinfo, huid⟩ := rivals_run
  obtain ⟨own, alone, h⟩ := isolated (fun i => run_tidy "/c") hrun
  obtain ⟨uid, bw, M', huid', hmatch, _⟩ := (reported_pool h hr).1.chopped m G rfl
  cases huid'
  cases hmatch.host.symm.trans hhost
  have hfirst : hostIr (guestDirs "/c" s.disk (uidText 7)) = some (some (hostArtifact soloLink 7 M)) := hostIr_matching hmatch
  have hsecond : hostIr (guestDirs "/c" s.disk (uidText 8)) = none := by
    have hbc : guestDirs "/c" s.disk (uidText 8) "host.bc" = none := hother ".bc"
    rw [hostIr, hbc]
    exact hother ".ll"
  refine ⟨s, m, G, M, info, _, hrun, hr, ?_, ?_, rfl, hhost, hlen, hinfo, huid⟩
  · intro name hname
    have hinj : ∀ {uid}, "/c" ++ "/guest/" ++ name = uidDir "/c" uid → name = uidText uid := by
      intro uid heq
      have hlist := congrArg String.toList heq
      simp only [uidDir, String.toList_append] at hlist
      exact String.toList_injective (List.append_cancel_left hlist)
    rw [hdirs] at hname
    by_cases height : "/c" ++ "/guest/" ++ name = uidDir "/c" 8
    · rw [hinj height]
      exact List.mem_cons_of_mem _ List.mem_cons_self
    · rw [Function.update_of_ne height] at hname
      by_cases hseven : "/c" ++ "/guest/" ++ name = uidDir "/c" 7
      · rw [hinj hseven]
        exact List.mem_cons_self
      · rw [Function.update_of_ne hseven] at hname
        cases hname
  · rw [hqlibs, hfirst]
    simp only [hqlibs, hsecond]
    rfl

theorem rivals_served : ∃ s m G M info host, (links "/c" (fun _ : Bool => soloLink) emptyDisk).run rivals = some s ∧
    s.progs true = .ret ⟨.chopped m G, some 7, some "fail to save '/c/guest/00000007/guest.ll': no space"⟩ ∧
    hqlibs (guestDirs "/c" s.disk) [uidText 7, uidText 8] (fun _ => none) = some host ∧
    Reached "/c" 4096 rivalUid host (fun _ => 1) rivalSys ∧ EntryOf soloLink m soloList 7 M 0 info ∧
    gyhDoCall rivalSys.table true 0 8 16 24 32 = .ok ⟨64, 0, [8, 16, 24, 32]⟩ := by
  obtain ⟨s, m, G, M, info, host, hrun, hr, hnames, hhost, hbuilt, hfile, hlen, hinfo, huid⟩ := rivals_built
  have hserves : Serves "/c" host oneEntryLoader (fun _ => 1) := by
    intro file qso hfile
    rw [hbuilt] at hfile
    refine ⟨1, rfl, fun g _ => ⟨64, rfl, fun _ => ?_⟩⟩
    by_cases hname : file = uidText 7 ++ ".qso"
    · rw [hname, Function.update_self] at hfile
      cases hfile
      exact hlen.symm
    · rw [Function.update_of_ne hname] at hfile
      cases hfile
  have hreached : Reached "/c" 4096 rivalUid host (fun _ => 1) rivalSys :=
    .tail .refl ⟨oneEntryLoader, .ctor .plain true 4096, hserves, rfl, rivalSys_step⟩
  obtain ⟨bw, M', hmatch, _, hcalls⟩ := links_served hrun hnames hhost hreached hr (by decide)
  obtain rfl : soloList = bw := Option.some.inj hmatch.picked
  cases hmatch.host.symm.trans hfile
  obtain ⟨hentry, hcall, _⟩ := hcalls ⟨1, 64, 1⟩ 0 info rfl (by rw [hlen]; decide) hinfo
  rw [huid] at hcall
  exact ⟨s, m, G, M, info, host, hrun, hr, hhost, hreached, hentry, hcall 8 16 24 32⟩

/-- The loader finds nothing in the directory of the host libraries but what has been
built. -/
def Confined (configDir : String) (host : String → Option Qso) (ld : Loader) : Prop :=
  ∀ file, host file = none → ld.dlopen (configDir ++ "/host/" ++ file) = none

/-- The states reached by requests that come in order, with such loaders. -/
def ConfinedReached (configDir : String) (pageSize : Nat) (linkUid : ι → UInt32) (host : String → Option Qso)
    (memory : Nat → Nat) : Sys ι → Prop :=
  Relation.ReflTransGen (fun x y => ∃ ld r, Confined configDir host ld ∧ InOrder linkUid x r ∧
    Step configDir pageSize linkUid x y ld r) (init linkUid memory)

theorem ConfinedReached.inOrder (h : ConfinedReached configDir pageSize linkUid host memory x) :
    QlibCalls.Reached configDir pageSize linkUid memory x := by
  refine Relation.ReflTransGen.mono ?_ _ _ h
  rintro x y ⟨ld, r, _, hstep⟩
  exact ⟨ld, r, hstep⟩

theorem loadImage_confined {ld : Loader} {uid : UInt32} (hld : Confined configDir host ld)
    (hnone : host (hex8 uid ++ ".qso") = none) (memory : Nat → Nat) :
    loadImage configDir ld memory uid = .error .dlerror := by
  rw [loadImage, String.append_assoc, hld _ hnone]

/-- A library that has not been built does not become loaded. -/
theorem unbuilt_dead (h : ConfinedReached configDir pageSize linkUid host memory x) {i : ι}
    (hnone : host (hex8 (linkUid i) ++ ".qso") = none) : x.live i = none := by
  induction h with
  | refl => rfl
  | tail _ hstep ih =>
      obtain ⟨ld, r, hld, _, _, hlive⟩ := hstep
      rw [hlive]
      cases r with
      | ctor kind lib cbFunc =>
          by_cases hlib : i = lib
          · subst hlib
            rw [liveAfter, Function.update_self, loadImage_confined hld hnone]
            rfl
          · rw [liveAfter, Function.update_of_ne hlib]
            exact ih
      | dtor lib =>
          by_cases hlib : i = lib
          · subst hlib
            exact Function.update_self ..
          · rw [liveAfter, Function.update_of_ne hlib]
            exact ih

/-- No directory that the links make has the name that is looked for under the uid 0. -/
theorem zeros_unbuilt (hrun : (links configDir P K₀).run l = some s)
    (hnames : ∀ name ∈ names, s.disk.dirs (configDir ++ "/guest/" ++ name) = true)
    (hhost : hqlibs (guestDirs configDir s.disk) names host₀ = some host)
    (hold : K₀.dirs (configDir ++ "/guest/" ++ hex8 0) = false) (hnone : host₀ (hex8 0 ++ ".qso") = none) :
    host (hex8 0 ++ ".qso") = none := by
  refine (hqlibs_other hhost ?_).trans hnone
  intro hmem
  obtain ⟨own, alone, h⟩ := isolated (fun i => run_tidy configDir) hrun
  rcases dirs_pool h (hnames _ hmem) with hdir | ⟨uid, hdir⟩
  · rw [hold] at hdir
    cases hdir
  · have hlist := congrArg String.toList hdir
    simp only [uidDir, String.toList_append] at hlist
    exact uidText_ne_zeros uid (String.toList_injective (List.append_cancel_left hlist)).symm

/-- A library that has got the uid 0 is at no point of an in-order run loaded, and every
constructor for it is refused: its directory, and so its host library, has a digit more
than the emulator asks for. -/
theorem zero_refused (hrun : (links configDir P K₀).run l = some s)
    (hnames : ∀ name ∈ names, s.disk.dirs (configDir ++ "/guest/" ++ name) = true)
    (hhost : hqlibs (guestDirs configDir s.disk) names host₀ = some host)
    (hold : K₀.dirs (configDir ++ "/guest/" ++ hex8 0) = false) (hnone : host₀ (hex8 0 ++ ".qso") = none)
    (hreached : ConfinedReached configDir pageSize linkUid host memory x) {i : ι} (hzero : linkUid i = 0) :
    x.live i = none ∧ ∀ ld kind cbFunc t, Confined configDir host ld →
      serve configDir ld pageSize (.ctor kind i cbFunc) x.table ≠ .ok t := by
  have hunbuilt := zeros_unbuilt hrun hnames hhost hold hnone
  have hlive : x.live i = none := by
    apply unbuilt_dead hreached
    rw [hzero]
    exact hunbuilt
  refine ⟨hlive, ?_⟩
  intro ld kind cbFunc t hld hserve
  obtain ⟨⟨u, idx⟩, hctor, _⟩ := map_eq_ok.mp hserve
  obtain ⟨image, hr⟩ := doCtorOf_registers hctor
  have hplaced := reached_inv hreached.inOrder i
  rw [Placed, hlive, hzero] at hplaced
  have hloaded := hr.loaded
  rw [hplaced, loadImage_confined hld hunbuilt] at hloaded
  cases hloaded

def noLoader : Loader := ⟨fun _ => none, fun _ _ => none, fun _ => 0⟩

theorem zero_refused_alone : ∃ s host, (links "/c" (fun _ : Unit => soloLink) emptyDisk).run [((), .number 0), ((), .done)] = some s ∧
    hqlibs (guestDirs "/c" s.disk) ["000000000"] (fun _ => none) = some host ∧ Confined "/c" host noLoader ∧
    ∀ t, serve "/c" noLoader 4096 (.ctor .plain () 4096) (init (fun _ : Unit => 0) (fun _ => 1)).table ≠ .ok t := by
  obtain ⟨s, hrun, hdir, hfiles⟩ : ∃ s, (links "/c" (fun _ : Unit => soloLink) emptyDisk).run [((), .number 0), ((), .done)] = some s ∧
      s.disk.dirs "/c/guest/000000000" = true ∧ s.disk.files "/c/guest/000000000" = fun _ => none := ⟨_, rfl, rfl, rfl⟩
  have hnames : ∀ name ∈ ["000000000"], s.disk.dirs ("/c" ++ "/guest/" ++ name) = true := by
    intro name hname
    rw [List.mem_singleton.mp hname]
    exact hdir
  have hhost : hqlibs (guestDirs "/c" s.disk) ["000000000"] (fun _ => none) = some (fun _ => none) := by
    have hguest : guestDirs "/c" s.disk "000000000" = fun _ => none := hfiles
    rw [hqlibs, hguest]
    rfl
  have hconfined : Confined "/c" (fun _ => none) noLoader := fun _ _ => rfl
  have hinit : ConfinedReached "/c" 4096 (fun _ : Unit => 0) (fun _ => none) (fun _ => 1) (init (fun _ : Unit => 0) (fun _ => 1)) :=
    .refl
  obtain ⟨_, hrefused⟩ := zero_refused hrun hnames hhost rfl rfl hinit (i := ()) rfl
  exact ⟨s, _, hrun, hhost, hconfined, fun t => hrefused noLoader .plain 4096 t hconfined⟩

end Links

end Comulator.Hqlibs
