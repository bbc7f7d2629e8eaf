import Mathlib.Data.List.FinRange
import Comulator.Fallible

namespace Comulator.QlibTable

open Fallible

def hex8 (n : UInt32) : String :=
  let digits := (Nat.toDigits 16 n.toNat).map Char.toUpper
  String.ofList (List.replicate (8 - digits.length) '0' ++ digits)

/-- What the host's dynamic loader answers while one request is served.
Results are addresses; `none` is NULL. -/
structure Loader where
  dlopen : String → Option Nat
  dlsym : Nat → String → Option Nat
  dlclose : Nat → Nat

inductive Abort
  | cbFuncChanged (old new : Nat)
  | noIndex (uid : UInt32)
  | dlerror
  | qlibOutOfRange (uid : UInt32)
  | qlibNotSet (uid : UInt32)
  | funcUidOutOfRange (funcUid size uid : UInt32)
  | badMagic (magic index gfunc : Nat)
  deriving DecidableEq

structure Qlib where
  handle : Option Nat
  uid : UInt32
  hfunctbl : Nat
  hfunctblSize : UInt32
  extreftbl : Nat
  cbstubtbl : Nat

abbrev qlibsSize : Nat := 1024

/-- The state shared by all requests: `gyh_cbFunc`, `gyh_qlibs`, the variable
`__gyh_qlib_uid_hhh` of every guest library, the 64-bit words of the rest of
memory, and the ranges passed to `mprotect` so far. -/
structure State (Lib : Type) where
  cbFunc : Nat
  qlibs : Fin qlibsSize → Qlib
  qlibUid : Lib → UInt32
  memory : Nat → Nat
  writable : List (Nat × Nat)

def State.init {Lib : Type} (linkUid : Lib → UInt32) (memory : Nat → Nat) : State Lib :=
  ⟨0, fun _ => ⟨none, 0, 0, 0, 0, 0⟩, linkUid, memory, []⟩

def freeIdx (qlibs : Fin qlibsSize → Qlib) : Option (Fin qlibsSize) :=
  (List.finRange qlibsSize).find? (fun i => (qlibs i).handle.isNone)

structure Image where
  handle : Nat
  hfunctbl : Nat
  hfunctblSize : UInt32

def lookup (ld : Loader) (handle : Nat) (symbol : String) : Except Abort Nat :=
  match ld.dlsym handle symbol with
  | some a => .ok a
  | none => .error .dlerror

theorem lookup_of_dlsym {ld : Loader} {handle a : Nat} {symbol : String} (h : ld.dlsym handle symbol = some a) :
    lookup ld handle symbol = .ok a := by
  rw [lookup, h]

def loadImage (configDir : String) (ld : Loader) (memory : Nat → Nat) (uid : UInt32) : Except Abort Image :=
  match ld.dlopen (configDir ++ "/host/" ++ hex8 uid ++ ".qso") with
  | none => .error .dlerror
  | some handle => do
      let hfunctbl ← lookup ld handle ("__gyh_hfunctbl_" ++ hex8 uid)
      let size ← lookup ld handle ("__gyh_hfunctbl_size_" ++ hex8 uid)
      return ⟨handle, hfunctbl, UInt32.ofNat (memory size)⟩

def checkCbFunc (old new : Nat) : Except Abort Nat :=
  if old = 0 then .ok new else if old ≠ new then .error (.cbFuncChanged old new) else .ok old

variable {Lib : Type} [DecidableEq Lib] (configDir : String) (ld : Loader)

def doCtor (lib : Lib) (cbFunc : Nat) (s : State Lib) : Except Abort (State Lib × Fin qlibsSize) := do
  let cb ← checkCbFunc s.cbFunc cbFunc
  match freeIdx s.qlibs with
  | none => .error (.noIndex (s.qlibUid lib))
  | some idx => do
      let image ← loadImage configDir ld s.memory (s.qlibUid lib)
      let qlib := { s.qlibs idx with
        handle := some image.handle
        uid := s.qlibUid lib
        hfunctbl := image.hfunctbl
        hfunctblSize := image.hfunctblSize }
      return ({ s with
        cbFunc := cb
        qlibs := Function.update s.qlibs idx qlib
        qlibUid := Function.update s.qlibUid lib (UInt32.ofNat idx) }, idx)

def doCtorGrt (lib : Lib) (extreftbl cbstubtbl cbFunc : Nat) (s : State Lib) :
    Except Abort (State Lib × Fin qlibsSize) := do
  let (s, idx) ← doCtor configDir ld lib cbFunc s
  let handle := (s.qlibs idx).handle.getD 0
  let extreftblPtr ← lookup ld handle ("__gyh_extreftbl_" ++ hex8 (s.qlibs idx).uid)
  let cbstubtblPtr ← lookup ld handle ("__gyh_cbstubtbl_" ++ hex8 (s.qlibs idx).uid)
  let qlib := { s.qlibs idx with extreftbl := extreftbl, cbstubtbl := cbstubtbl }
  return ({ s with
    qlibs := Function.update s.qlibs idx qlib
    memory := Function.update (Function.update s.memory extreftblPtr extreftbl) cbstubtblPtr cbstubtbl }, idx)

def kFCPcmMagic : Nat := 0x6666200009068888

/-- One turn of the loop of `gyh_do_ctor_fcp_cm` over the guest functions: the
prefix of entry `i` is checked, its pages are made writable when they are not
those of the turn before, and the address of the host function goes in. -/
def patchPrefix (pageSize functbl gfunctbl i : Nat) (pages : Nat × Nat) (s : State Lib) :
    Except Abort ((Nat × Nat) × State Lib) :=
  let gfunc := s.memory (gfunctbl + 8 * i)
  let magic := gfunc - 16
  if s.memory magic ≠ kFCPcmMagic then .error (.badMagic (s.memory magic) i gfunc)
  else
    let fresh := magic < pages.1 || pages.2 ≤ gfunc
    let pages := if fresh then (magic / pageSize * pageSize, (gfunc + pageSize) / pageSize * pageSize) else pages
    let hfunc := s.memory (functbl + 8 * i)
    let memory := Function.update s.memory (gfunc - 8) hfunc
    .ok (pages, { s with
      memory := Function.update memory magic (kFCPcmMagic ^^^ hfunc)
      writable := if fresh then s.writable ++ [pages] else s.writable })

def patchPrefixes (pageSize functbl gfunctbl : Nat) : List Nat → Nat × Nat → State Lib → Except Abort (State Lib)
  | [], _, s => .ok s
  | i :: is, pages, s => do
      let (pages, s) ← patchPrefix pageSize functbl gfunctbl i pages s
      patchPrefixes pageSize functbl gfunctbl is pages s

def doCtorFcpCm (pageSize : Nat) (lib : Lib) (extreftbl cbstubtbl gfunctbl : Nat) (gfunctblSize : UInt32)
    (cbFunc : Nat) (s : State Lib) : Except Abort (State Lib × Fin qlibsSize) := do
  let (s, idx) ← doCtorGrt configDir ld lib extreftbl cbstubtbl cbFunc s
  let functbl ← lookup ld ((s.qlibs idx).handle.getD 0) ("__gyh_functbl_" ++ hex8 (s.qlibs idx).uid)
  let s ← patchPrefixes pageSize functbl gfunctbl (List.range gfunctblSize.toNat) (0, 0) s
  return (s, idx)

def slot? (qlibs : Fin qlibsSize → Qlib) (uid : UInt32) : Option Qlib :=
  if h : uid.toNat < qlibsSize then some (qlibs ⟨_, h⟩) else none

def qlib? (s : State Lib) (lib : Lib) : Except Abort Qlib :=
  match slot? s.qlibs (s.qlibUid lib) with
  | some qlib => .ok qlib
  | none => .error (.qlibOutOfRange (s.qlibUid lib))

def gyhDtor (lib : Lib) (s : State Lib) : Except Abort (State Lib) := do
  let qlib ← qlib? s lib
  match qlib.handle with
  | none => .error (.qlibNotSet (s.qlibUid lib))
  | some handle =>
      if ld.dlclose handle ≠ 0 then .error .dlerror
      else .ok { s with qlibUid := Function.update s.qlibUid lib qlib.uid }

structure HostCall where
  hfunctbl : Nat
  index : UInt32
  args : List Nat

/-- The common body of `gyh_do_call` and `gyh_do_call_grt` up to the call. -/
def callEntry (s : State Lib) (lib : Lib) (funcUid : UInt32) (args : List Nat) : Except Abort HostCall := do
  let qlib ← qlib? s lib
  if qlib.hfunctblSize < funcUid then .error (.funcUidOutOfRange funcUid qlib.hfunctblSize qlib.uid)
  else .ok ⟨qlib.hfunctbl, funcUid, args⟩

def gyhDoCall (s : State Lib) (lib : Lib) (funcUid : UInt32) (retPad argPad extRefs cbStubs : Nat) :
    Except Abort HostCall :=
  callEntry s lib funcUid [retPad, argPad, extRefs, cbStubs]

def gyhDoCallGrt (s : State Lib) (lib : Lib) (funcUid : UInt32) (retPad argPad : Nat) : Except Abort HostCall :=
  callEntry s lib funcUid [retPad, argPad]

inductive Ctor
  | plain
  | grt (extreftbl cbstubtbl : Nat)
  | fcpCm (extreftbl cbstubtbl gfunctbl : Nat) (gfunctblSize : UInt32)

def doCtorOf (pageSize : Nat) (kind : Ctor) (lib : Lib) (cbFunc : Nat) (s : State Lib) :
    Except Abort (State Lib × Fin qlibsSize) :=
  match kind with
  | .plain => doCtor configDir ld lib cbFunc s
  | .grt extreftbl cbstubtbl => doCtorGrt configDir ld lib extreftbl cbstubtbl cbFunc s
  | .fcpCm extreftbl cbstubtbl gfunctbl size =>
      doCtorFcpCm configDir ld pageSize lib extreftbl cbstubtbl gfunctbl size cbFunc s

inductive Request (Lib : Type)
  | ctor (kind : Ctor) (lib : Lib) (cbFunc : Nat)
  | dtor (lib : Lib)

/-- `gyh_ctor`, `gyh_ctor_grt`, `gyh_ctor_fcp_cm` and `gyh_dtor`. -/
def serve (pageSize : Nat) : Request Lib → State Lib → Except Abort (State Lib)
  | .ctor kind lib cbFunc, s => Prod.fst <$> doCtorOf configDir ld pageSize kind lib cbFunc s
  | .dtor lib, s => gyhDtor ld lib s

structure Qlib.Holds (q : Qlib) (uid : UInt32) (image : Image) : Prop where
  handle : q.handle = some image.handle
  uid : q.uid = uid
  hfunctbl : q.hfunctbl = image.hfunctbl
  size : q.hfunctblSize = image.hfunctblSize

/-- What every constructor does to the table: the first free entry registers
the host library found under the value of the uid variable, and the variable
then holds the index of the entry. -/
structure Registers (s t : State Lib) (lib : Lib) (idx : Fin qlibsSize) (image : Image) : Prop where
  free : freeIdx s.qlibs = some idx
  loaded : loadImage configDir ld s.memory (s.qlibUid lib) = .ok image
  entry : (t.qlibs idx).Holds (s.qlibUid lib) image
  others : ∀ i, i ≠ idx → t.qlibs i = s.qlibs i
  qlibUid : t.qlibUid = Function.update s.qlibUid lib (UInt32.ofNat idx)

theorem toNat_index (idx : Fin qlibsSize) : (UInt32.ofNat idx).toNat = idx := by
  rw [UInt32.toNat_ofNat']
  exact Nat.mod_eq_of_lt (lt_trans idx.isLt (by decide))

theorem slot?_ofNat (qlibs : Fin qlibsSize → Qlib) (idx : Fin qlibsSize) :
    slot? qlibs (UInt32.ofNat idx) = some (qlibs idx) := by
  have hlt : (UInt32.ofNat idx).toNat < qlibsSize := by
    rw [toNat_index]
    exact idx.isLt
  rw [slot?, dif_pos hlt]
  exact congrArg (fun i => some (qlibs i)) (Fin.ext (toNat_index idx))

theorem slot?_congr {qlibs qlibs' : Fin qlibsSize → Qlib} {uid : UInt32} {qlib : Qlib}
    (h : slot? qlibs uid = some qlib) (hq : ∀ i, qlibs i = qlib → qlibs' i = qlib) :
    slot? qlibs' uid = some qlib := by
  unfold slot? at h ⊢
  split at h
  next hlt =>
    rw [dif_pos hlt]
    rw [hq _ (Option.some.inj h)]
  next => cases h

variable {configDir ld} {lib : Lib} {s t : State Lib} {idx : Fin qlibsSize}

omit [DecidableEq Lib] in
theorem qlib?_eq_ok {qlib : Qlib} : qlib? s lib = .ok qlib ↔ slot? s.qlibs (s.qlibUid lib) = some qlib := by
  unfold qlib?
  cases slot? s.qlibs (s.qlibUid lib) with
  | none => simp
  | some q => simp

theorem doCtor_registers {cbFunc : Nat} (h : doCtor configDir ld lib cbFunc s = .ok (t, idx)) :
    ∃ image, Registers configDir ld s t lib idx image := by
  obtain ⟨cb, _, h⟩ := bind_eq_ok.mp h
  split at h
  next => cases h
  next i hi =>
    obtain ⟨image, himage, h⟩ := bind_eq_ok.mp h
    cases h
    refine ⟨image, hi, himage, ?_, ?_, rfl⟩
    · simp only [Function.update_self]
      exact ⟨rfl, rfl, rfl, rfl⟩
    · intro j hj
      exact Function.update_of_ne hj _ s.qlibs

theorem doCtorGrt_registers {extreftbl cbstubtbl cbFunc : Nat}
    (h : doCtorGrt configDir ld lib extreftbl cbstubtbl cbFunc s = .ok (t, idx)) :
    ∃ image, Registers configDir ld s t lib idx image := by
  obtain ⟨⟨u, i⟩, hu, h⟩ := bind_eq_ok.mp h
  obtain ⟨_, _, h⟩ := bind_eq_ok.mp h
  obtain ⟨_, _, h⟩ := bind_eq_ok.mp h
  obtain ⟨image, hr⟩ := doCtor_registers hu
  cases h
  refine ⟨image, hr.free, hr.loaded, ?_, ?_, hr.qlibUid⟩
  · simp only [Function.update_self]
    exact ⟨hr.entry.handle, hr.entry.uid, hr.entry.hfunctbl, hr.entry.size⟩
  · intro j hj
    exact (Function.update_of_ne hj _ u.qlibs).trans (hr.others j hj)

omit [DecidableEq Lib] in
theorem patchPrefixes_table {pageSize functbl gfunctbl : Nat} {is : List Nat} {pages : Nat × Nat}
    (h : patchPrefixes pageSize functbl gfunctbl is pages s = .ok t) :
    t.qlibs = s.qlibs ∧ t.qlibUid = s.qlibUid := by
  induction is generalizing pages s with
  | nil =>
      cases h
      exact ⟨rfl, rfl⟩
  | cons i is ih =>
      obtain ⟨⟨pages', u⟩, hu, h⟩ := bind_eq_ok.mp h
      obtain ⟨hq, hv⟩ := ih h
      simp only [patchPrefix] at hu
      split at hu
      next => cases hu
      next =>
        cases hu
        exact ⟨hq, hv⟩

theorem doCtorFcpCm_registers {pageSize extreftbl cbstubtbl gfunctbl cbFunc : Nat} {size : UInt32}
    (h : doCtorFcpCm configDir ld pageSize lib extreftbl cbstubtbl gfunctbl size cbFunc s = .ok (t, idx)) :
    ∃ image, Registers configDir ld s t lib idx image := by
  obtain ⟨⟨u, i⟩, hu, h⟩ := bind_eq_ok.mp h
  obtain ⟨_, _, h⟩ := bind_eq_ok.mp h
  obtain ⟨v, hv, h⟩ := bind_eq_ok.mp h
  obtain ⟨image, hr⟩ := doCtorGrt_registers hu
  obtain ⟨hq, hvar⟩ := patchPrefixes_table hv
  cases h
  refine ⟨image, hr.free, hr.loaded, ?_, ?_, hvar.trans hr.qlibUid⟩
  · rw [hq]
    exact hr.entry
  · intro j hj
    rw [hq]
    exact hr.others j hj

theorem doCtorOf_registers {pageSize cbFunc : Nat} {kind : Ctor}
    (h : doCtorOf configDir ld pageSize kind lib cbFunc s = .ok (t, idx)) :
    ∃ image, Registers configDir ld s t lib idx image := by
  cases kind with
  | plain => exact doCtor_registers h
  | grt extreftbl cbstubtbl => exact doCtorGrt_registers h
  | fcpCm extreftbl cbstubtbl gfunctbl size => exact doCtorFcpCm_registers h

theorem freeIdx_eq_none {qlibs : Fin qlibsSize → Qlib} : freeIdx qlibs = none ↔ ∀ i, (qlibs i).handle ≠ none := by
  simp [freeIdx]

theorem Registers.handle_none {image : Image} (h : Registers configDir ld s t lib idx image) :
    (s.qlibs idx).handle = none := by
  have hf := List.find?_some h.free
  simpa using hf

theorem gyhDtor_ok (h : gyhDtor ld lib s = .ok t) :
    ∃ qlib handle, slot? s.qlibs (s.qlibUid lib) = some qlib ∧ qlib.handle = some handle ∧
      t = { s with qlibUid := Function.update s.qlibUid lib qlib.uid } := by
  obtain ⟨qlib, hq, h⟩ := bind_eq_ok.mp h
  split at h
  next => cases h
  next handle hh =>
    split at h
    next => cases h
    next =>
      cases h
      exact ⟨qlib, handle, qlib?_eq_ok.mp hq, hh, rfl⟩

variable (ld) in
theorem gyhDtor_not_set {qlib : Qlib} (h : slot? s.qlibs (s.qlibUid lib) = some qlib) (hq : qlib.handle = none) :
    gyhDtor ld lib s = .error (.qlibNotSet (s.qlibUid lib)) := by
  rw [gyhDtor, qlib?_eq_ok.mpr h]
  change (match qlib.handle with | none => _ | some _ => _) = _
  rw [hq]

omit [DecidableEq Lib] in
theorem callEntry_of_some {qlib : Qlib} {funcUid : UInt32} {args : List Nat}
    (h : slot? s.qlibs (s.qlibUid lib) = some qlib) :
    callEntry s lib funcUid args =
      if qlib.hfunctblSize < funcUid then .error (.funcUidOutOfRange funcUid qlib.hfunctblSize qlib.uid)
      else .ok ⟨qlib.hfunctbl, funcUid, args⟩ := by
  rw [callEntry, qlib?_eq_ok.mpr h]
  rfl

omit [DecidableEq Lib] in
theorem callEntry_of_none {funcUid : UInt32} {args : List Nat} (h : slot? s.qlibs (s.qlibUid lib) = none) :
    callEntry s lib funcUid args = .error (.qlibOutOfRange (s.qlibUid lib)) := by
  rw [callEntry, qlib?, h]
  rfl

def oneEntryLoader : Loader := ⟨fun _ => some 1, fun _ _ => some 64, fun _ => 0⟩

end Comulator.QlibTable
