import Comulator.QlibCalls

namespace Comulator.Mock

open Fallible QlibTable QlibCalls

variable {Lib : Type} [DecidableEq Lib] {α : Type}

/-- The messages of the mock before an `abort()`. Those of the table are worded as they
are in the emulator. -/
inductive Abort
  | configDirNotSet
  | table (a : QlibTable.Abort)
  | funcOutOfRange (funcUid uid : UInt32)

def shared (x : Except QlibTable.Abort α) : Except Abort α := x.mapError .table

section Functions

variable (configDir : Option String) (ld : Loader)

def register (s : State Lib) (lib : Lib) (idx : Fin qlibsSize) (image : Image) : State Lib :=
  let qlib := { s.qlibs idx with
    handle := some image.handle
    uid := s.qlibUid lib
    hfunctbl := image.hfunctbl
    hfunctblSize := image.hfunctblSize }
  { s with
    qlibs := Function.update s.qlibs idx qlib
    qlibUid := Function.update s.qlibUid lib (UInt32.ofNat idx) }

/-- `gyh_ctor`. The mock has no `gyh_cbFunc`: the member of the state is left alone. -/
def gyhCtor (lib : Lib) (s : State Lib) : Except Abort (State Lib × Fin qlibsSize) :=
  match configDir with
  | none => .error .configDirNotSet
  | some configDir =>
      match freeIdx s.qlibs with
      | none => .error (.table (.noIndex (s.qlibUid lib)))
      | some idx => do
          let image ← shared (loadImage configDir ld s.memory (s.qlibUid lib))
          return (register s lib idx image, idx)

def gyhCtorGrt (lib : Lib) (extreftbl cbstubtbl : Nat) (s : State Lib) : Except Abort (State Lib × Fin qlibsSize) := do
  let (s, idx) ← gyhCtor configDir ld lib s
  let handle := (s.qlibs idx).handle.getD 0
  let extreftblPtr ← shared (lookup ld handle ("__gyh_extreftbl_" ++ hex8 (s.qlibs idx).uid))
  let cbstubtblPtr ← shared (lookup ld handle ("__gyh_cbstubtbl_" ++ hex8 (s.qlibs idx).uid))
  let qlib := { s.qlibs idx with extreftbl := extreftbl, cbstubtbl := cbstubtbl }
  return ({ s with
    qlibs := Function.update s.qlibs idx qlib
    memory := Function.update (Function.update s.memory extreftblPtr extreftbl) cbstubtblPtr cbstubtbl }, idx)

def gyhCtorFcpCm (pageSize : Nat) (lib : Lib) (extreftbl cbstubtbl gfunctbl : Nat) (gfunctblSize : UInt32) (s : State Lib) :
    Except Abort (State Lib × Fin qlibsSize) := do
  let (s, idx) ← gyhCtorGrt configDir ld lib extreftbl cbstubtbl s
  let functbl ← shared (lookup ld ((s.qlibs idx).handle.getD 0) ("__gyh_functbl_" ++ hex8 (s.qlibs idx).uid))
  let s ← shared (patchPrefixes pageSize functbl gfunctbl (List.range gfunctblSize.toNat) (0, 0) s)
  return (s, idx)

def queryHfunc (s : State Lib) (lib : Lib) (funcUid : UInt32) (args : List Nat) : Except Abort HostCall := do
  let qlib ← shared (qlib? s lib)
  if qlib.handle = none then .error (.table (.qlibNotSet (s.qlibUid lib)))
  else if qlib.hfunctblSize ≤ funcUid then .error (.funcOutOfRange funcUid qlib.uid)
  else .ok ⟨qlib.hfunctbl, funcUid, args⟩

end Functions

inductive Op (Lib : Type)
  | ctor (kind : Ctor) (lib : Lib)
  | dtor (lib : Lib)
  | call (lib : Lib) (funcUid : UInt32) (retPad argPad extRefs cbStubs : Nat)
  | callGrt (lib : Lib) (funcUid : UInt32) (retPad argPad : Nat)

section Runs

variable (configDir : String) (pageSize cbFunc : Nat)

def gyhCtorOf (ld : Loader) (kind : Ctor) (lib : Lib) (s : State Lib) : Except Abort (State Lib × Fin qlibsSize) :=
  match kind with
  | .plain => gyhCtor (some configDir) ld lib s
  | .grt extreftbl cbstubtbl => gyhCtorGrt (some configDir) ld lib extreftbl cbstubtbl s
  | .fcpCm extreftbl cbstubtbl gfunctbl size =>
      gyhCtorFcpCm (some configDir) ld pageSize lib extreftbl cbstubtbl gfunctbl size s

def perform (ld : Loader) (s : State Lib) : Op Lib → Except Abort (State Lib × Option HostCall)
  | .ctor kind lib => do
      let (t, _) ← gyhCtorOf configDir pageSize ld kind lib s
      return (t, none)
  | .dtor lib => do
      let t ← shared (gyhDtor ld lib s)
      return (t, none)
  | .call lib funcUid retPad argPad extRefs cbStubs => do
      let call ← queryHfunc s lib funcUid [retPad, argPad, extRefs, cbStubs]
      return (s, some call)
  | .callGrt lib funcUid retPad argPad => do
      let call ← queryHfunc s lib funcUid [retPad, argPad]
      return (s, some call)

def emulate (ld : Loader) (s : State Lib) : Op Lib → Except QlibTable.Abort (State Lib × Option HostCall)
  | .ctor kind lib => do
      let t ← serve configDir ld pageSize (.ctor kind lib cbFunc) s
      return (t, none)
  | .dtor lib => do
      let t ← serve configDir ld pageSize (.dtor lib) s
      return (t, none)
  | .call lib funcUid retPad argPad extRefs cbStubs => do
      let call ← gyhDoCall s lib funcUid retPad argPad extRefs cbStubs
      return (s, some call)
  | .callGrt lib funcUid retPad argPad => do
      let call ← gyhDoCallGrt s lib funcUid retPad argPad
      return (s, some call)

def run {ε : Type} (f : Loader → State Lib → Op Lib → Except ε (State Lib × Option HostCall)) :
    List (Loader × Op Lib) → State Lib → Except ε (State Lib × List HostCall)
  | [], s => .ok (s, [])
  | (ld, op) :: ops, s => do
      let (t, call) ← f ld s op
      let (u, calls) ← run f ops t
      return (u, call.toList ++ calls)

def Checked (s : State Lib) : Op Lib → Prop
  | .call lib funcUid _ _ _ _ | .callGrt lib funcUid _ _ =>
      ∃ qlib, qlib? s lib = .ok qlib ∧ qlib.handle ≠ none ∧ funcUid < qlib.hfunctblSize
  | _ => True

def AllChecked : List (Loader × Op Lib) → State Lib → Prop
  | [], _ => True
  | (ld, op) :: ops, s => Checked s op ∧ ∀ t call, emulate configDir pageSize cbFunc ld s op = .ok (t, call) → AllChecked ops t

end Runs

section Agreement

variable {configDir : String} {pageSize cbFunc c : Nat} {ld : Loader} {lib : Lib} {s : State Lib}

def withCb (c : Nat) (s : State Lib) : State Lib := { s with cbFunc := c }

def withCbs (c : Nat) (p : State Lib × α) : State Lib × α := (withCb c p.1, p.2)

theorem shared_bind {β : Type} (x : Except QlibTable.Abort α) (f : α → Except QlibTable.Abort β) :
    shared (x >>= f) = shared x >>= (fun a => shared (f a)) := by
  cases x <;> rfl

theorem checkCbFunc_twin (h : c = 0 ∨ c = cbFunc) : checkCbFunc c cbFunc = .ok cbFunc := by
  unfold checkCbFunc
  rcases h with rfl | rfl
  · rw [if_pos rfl]
  · simp

theorem doCtor_twin (h : c = 0 ∨ c = cbFunc) : shared (doCtor configDir ld lib cbFunc (withCb c s)) =
    withCbs cbFunc <$> gyhCtor (some configDir) ld lib s := by
  have hcheck : checkCbFunc (withCb c s).cbFunc cbFunc = .ok cbFunc := checkCbFunc_twin h
  unfold gyhCtor
  cases hidx : freeIdx s.qlibs with
  | none =>
      have hidx' : freeIdx (withCb c s).qlibs = none := hidx
      have hleft : doCtor configDir ld lib cbFunc (withCb c s) = .error (.noIndex (s.qlibUid lib)) := by
        refine bind_eq_error.mpr (.inr ⟨cbFunc, hcheck, ?_⟩)
        rewrite [hidx']
        rfl
      rw [hleft]
      rfl
  | some idx =>
      have hidx' : freeIdx (withCb c s).qlibs = some idx := hidx
      cases hload : loadImage configDir ld s.memory (s.qlibUid lib) with
      | error e =>
          have hleft : doCtor configDir ld lib cbFunc (withCb c s) = .error e := by
            refine bind_eq_error.mpr (.inr ⟨cbFunc, hcheck, ?_⟩)
            rewrite [hidx']
            exact bind_eq_error.mpr (.inl hload)
          rw [hleft]
          simp only [hload]
          rfl
      | ok image =>
          have hleft : doCtor configDir ld lib cbFunc (withCb c s) = .ok (withCb cbFunc (register s lib idx image), idx) := by
            refine bind_eq_ok.mpr ⟨cbFunc, hcheck, ?_⟩
            rewrite [hidx']
            exact bind_eq_ok.mpr ⟨image, hload, rfl⟩
          rw [hleft]
          simp only [hload]
          rfl

theorem doCtorGrt_twin {extreftbl cbstubtbl : Nat} (h : c = 0 ∨ c = cbFunc) :
    shared (doCtorGrt configDir ld lib extreftbl cbstubtbl cbFunc (withCb c s)) =
      withCbs cbFunc <$> gyhCtorGrt (some configDir) ld lib extreftbl cbstubtbl s := by
  rw [doCtorGrt, shared_bind, doCtor_twin h, gyhCtorGrt]
  cases gyhCtor (some configDir) ld lib s with
  | error e => rfl
  | ok p =>
      obtain ⟨t, idx⟩ := p
      let symbol := fun name => lookup ld ((t.qlibs idx).handle.getD 0) (name ++ hex8 (t.qlibs idx).uid)
      change shared (symbol "__gyh_extreftbl_" >>= fun a => symbol "__gyh_cbstubtbl_" >>= _) =
        withCbs cbFunc <$> (shared (symbol "__gyh_extreftbl_") >>= fun a => shared (symbol "__gyh_cbstubtbl_") >>= _)
      cases symbol "__gyh_extreftbl_" with
      | error e => rfl
      | ok a => cases symbol "__gyh_cbstubtbl_" <;> rfl

omit [DecidableEq Lib] in
theorem patchPrefix_twin {functbl gfunctbl i : Nat} {pages : Nat × Nat} :
    patchPrefix pageSize functbl gfunctbl i pages (withCb c s) =
      (fun p => (p.1, withCb c p.2)) <$> patchPrefix pageSize functbl gfunctbl i pages s := by
  by_cases h : s.memory (s.memory (gfunctbl + 8 * i) - 16) = kFCPcmMagic
  · have hleft : ∀ u : State Lib, u.memory = s.memory → u.memory (u.memory (gfunctbl + 8 * i) - 16) = kFCPcmMagic := by
      intro u hu
      rw [hu]
      exact h
    simp only [patchPrefix, hleft s rfl, hleft (withCb c s) rfl, ne_eq, not_true_eq_false, if_false]
    rfl
  · simp only [patchPrefix, withCb, ne_eq, h, not_false_eq_true, if_true]
    rfl

omit [DecidableEq Lib] in
theorem patchPrefixes_twin {functbl gfunctbl : Nat} (is : List Nat) (pages : Nat × Nat) (s : State Lib) :
    patchPrefixes pageSize functbl gfunctbl is pages (withCb c s) =
      withCb c <$> patchPrefixes pageSize functbl gfunctbl is pages s := by
  induction is generalizing pages s with
  | nil => rfl
  | cons i is ih =>
      rw [patchPrefixes, patchPrefixes, patchPrefix_twin]
      cases patchPrefix pageSize functbl gfunctbl i pages s with
      | error e => rfl
      | ok p => exact ih p.1 p.2

theorem doCtorFcpCm_twin {extreftbl cbstubtbl gfunctbl : Nat} {size : UInt32} (h : c = 0 ∨ c = cbFunc) :
    shared (doCtorFcpCm configDir ld pageSize lib extreftbl cbstubtbl gfunctbl size cbFunc (withCb c s)) =
      withCbs cbFunc <$> gyhCtorFcpCm (some configDir) ld pageSize lib extreftbl cbstubtbl gfunctbl size s := by
  rw [doCtorFcpCm, shared_bind, doCtorGrt_twin h, gyhCtorFcpCm]
  cases gyhCtorGrt (some configDir) ld lib extreftbl cbstubtbl s with
  | error e => rfl
  | ok p =>
      obtain ⟨t, idx⟩ := p
      let symbol := lookup ld ((t.qlibs idx).handle.getD 0) ("__gyh_functbl_" ++ hex8 (t.qlibs idx).uid)
      let patched := fun (functbl : Nat) (s : State Lib) => patchPrefixes pageSize functbl gfunctbl (List.range size.toNat) (0, 0) s
      change shared (symbol >>= fun functbl => patched functbl (withCb cbFunc t) >>= _) =
        withCbs cbFunc <$> (shared symbol >>= fun functbl => shared (patched functbl t) >>= _)
      cases symbol with
      | error e => rfl
      | ok functbl =>
          have hpatched : patched functbl (withCb cbFunc t) = withCb cbFunc <$> patched functbl t := patchPrefixes_twin _ _ _
          change shared (patched functbl (withCb cbFunc t) >>= _) = withCbs cbFunc <$> (shared (patched functbl t) >>= _)
          rw [hpatched]
          cases patched functbl t <;> rfl

theorem doCtorOf_twin {kind : Ctor} (h : c = 0 ∨ c = cbFunc) :
    shared (doCtorOf configDir ld pageSize kind lib cbFunc (withCb c s)) =
      withCbs cbFunc <$> gyhCtorOf configDir pageSize ld kind lib s := by
  cases kind with
  | plain =>
      rw [doCtorOf, gyhCtorOf]
      exact doCtor_twin h
  | grt extreftbl cbstubtbl =>
      rw [doCtorOf, gyhCtorOf]
      exact doCtorGrt_twin h
  | fcpCm extreftbl cbstubtbl gfunctbl size =>
      rw [doCtorOf, gyhCtorOf]
      exact doCtorFcpCm_twin h

theorem gyhDtor_twin : gyhDtor ld lib (withCb c s) = withCb c <$> gyhDtor ld lib s := by
  rw [gyhDtor, gyhDtor]
  change (qlib? s lib >>= _) = withCb c <$> (qlib? s lib >>= _)
  cases qlib? s lib with
  | error e => rfl
  | ok qlib =>
      obtain ⟨handle, uid, hfunctbl, size, extreftbl, cbstubtbl⟩ := qlib
      cases handle with
      | none => rfl
      | some handle =>
          change (if ld.dlclose handle ≠ 0 then Except.error QlibTable.Abort.dlerror else _) =
            withCb c <$> (if ld.dlclose handle ≠ 0 then Except.error QlibTable.Abort.dlerror else _)
          split
          next => rfl
          next => rfl

omit [DecidableEq Lib] in
/-- On a checked call neither of the tests that only the mock has fails, nor does the
one that both have. -/
theorem queryHfunc_twin {funcUid : UInt32} {args : List Nat} {qlib : Qlib} (hq : qlib? s lib = .ok qlib)
    (hset : qlib.handle ≠ none) (hlt : funcUid < qlib.hfunctblSize) :
    shared (callEntry (withCb c s) lib funcUid args) = queryHfunc s lib funcUid args := by
  have hq' : qlib? (withCb c s) lib = .ok qlib := hq
  have hentry : callEntry (withCb c s) lib funcUid args = .ok ⟨qlib.hfunctbl, funcUid, args⟩ := by
    refine bind_eq_ok.mpr ⟨qlib, hq', ?_⟩
    rw [if_neg (UInt32.lt_asymm hlt)]
  have hquery : queryHfunc s lib funcUid args = .ok ⟨qlib.hfunctbl, funcUid, args⟩ := by
    refine bind_eq_ok.mpr ⟨qlib, ?_, ?_⟩
    · rw [hq]
      rfl
    · rw [if_neg hset, if_neg (UInt32.not_le.mpr hlt)]
  rw [hentry, hquery]
  rfl

omit [DecidableEq Lib] in
/-- The mock finds a function only if the call is checked. -/
theorem queryHfunc_checked {funcUid : UInt32} {args : List Nat} {call : HostCall}
    (h : queryHfunc s lib funcUid args = .ok call) :
    ∃ qlib, qlib? s lib = .ok qlib ∧ qlib.handle ≠ none ∧ funcUid < qlib.hfunctblSize := by
  obtain ⟨qlib, hq, h⟩ := bind_eq_ok.mp h
  split at h
  next => cases h
  next hset =>
    split at h
    next => cases h
    next hlt => exact ⟨qlib, mapError_eq_ok.mp hq, hset, UInt32.not_le.mp hlt⟩

end Agreement

section Main

variable {configDir : String} {pageSize cbFunc c : Nat} {ld : Loader} {s : State Lib}

def nextCb (cbFunc c : Nat) : Op Lib → Nat
  | .ctor _ _ => cbFunc
  | _ => c

def lastCb (cbFunc c : Nat) (ops : List (Loader × Op Lib)) : Nat := ops.foldl (fun c p => nextCb cbFunc c p.2) c

omit [DecidableEq Lib] in
theorem nextCb_fits (h : c = 0 ∨ c = cbFunc) (op : Op Lib) : nextCb cbFunc c op = 0 ∨ nextCb cbFunc c op = cbFunc := by
  cases op with
  | ctor kind lib => exact .inr rfl
  | dtor lib => exact h
  | call lib funcUid retPad argPad extRefs cbStubs => exact h
  | callGrt lib funcUid retPad argPad => exact h

omit [DecidableEq Lib] in
/-- A constructor without the index of the entry it returns. -/
theorem shared_ctor {x : Except QlibTable.Abort (State Lib × Fin qlibsSize)} {y : Except Abort (State Lib × Fin qlibsSize)}
    (h : shared x = withCbs c <$> y) :
    shared ((Prod.fst <$> x) >>= fun t => .ok (t, (none : Option HostCall))) =
      withCbs c <$> (y >>= fun p => .ok (p.1, none)) := by
  cases x with
  | error e =>
      cases y with
      | error e' =>
          cases h
          rfl
      | ok p => cases h
  | ok q =>
      cases y with
      | error e' => cases h
      | ok p =>
          cases h
          rfl

omit [DecidableEq Lib] in
/-- A call leaves the state alone. -/
theorem shared_call {x : Except QlibTable.Abort HostCall} {y : Except Abort HostCall} (h : shared x = y) :
    shared (x >>= fun call => .ok (withCb c s, some call)) = withCbs c <$> (y >>= fun call => .ok (s, some call)) := by
  cases h
  cases x <;> rfl

omit [DecidableEq Lib] in
theorem checked_withCb {op : Op Lib} : Checked (withCb c s) op ↔ Checked s op := by
  cases op <;> rfl

/-- One operation: the same state, the same call or the same message. -/
theorem perform_twin {op : Op Lib} (h : c = 0 ∨ c = cbFunc) (hchecked : Checked s op) :
    shared (emulate configDir pageSize cbFunc ld (withCb c s) op) =
      withCbs (nextCb cbFunc c op) <$> perform configDir pageSize ld s op := by
  cases op with
  | ctor kind lib =>
      rw [emulate, serve, perform]
      exact shared_ctor (doCtorOf_twin h)
  | dtor lib =>
      rw [emulate, serve, gyhDtor_twin, perform]
      cases gyhDtor ld lib s <;> rfl
  | call lib funcUid retPad argPad extRefs cbStubs =>
      obtain ⟨qlib, hq, hset, hlt⟩ := hchecked
      exact shared_call (queryHfunc_twin hq hset hlt)
  | callGrt lib funcUid retPad argPad =>
      obtain ⟨qlib, hq, hset, hlt⟩ := hchecked
      exact shared_call (queryHfunc_twin hq hset hlt)

theorem perform_checked {op : Op Lib} {p : State Lib × Option HostCall} (h : perform configDir pageSize ld s op = .ok p) :
    Checked s op := by
  cases op with
  | ctor kind lib => trivial
  | dtor lib => trivial
  | call lib funcUid retPad argPad extRefs cbStubs =>
      obtain ⟨call, hcall, _⟩ := bind_eq_ok.mp h
      exact queryHfunc_checked hcall
  | callGrt lib funcUid retPad argPad =>
      obtain ⟨call, hcall, _⟩ := bind_eq_ok.mp h
      exact queryHfunc_checked hcall

/-- What the mock does is done by the emulator. -/
theorem emulate_of_perform {op : Op Lib} {t : State Lib} {call : Option HostCall} (h : c = 0 ∨ c = cbFunc)
    (hp : perform configDir pageSize ld s op = .ok (t, call)) :
    emulate configDir pageSize cbFunc ld (withCb c s) op = .ok (withCb (nextCb cbFunc c op) t, call) := by
  have htwin : shared (emulate configDir pageSize cbFunc ld (withCb c s) op) = _ := perform_twin h (perform_checked hp)
  rw [hp] at htwin
  exact mapError_eq_ok.mp htwin

theorem run_twin (ops : List (Loader × Op Lib)) (h : c = 0 ∨ c = cbFunc)
    (hall : AllChecked configDir pageSize cbFunc ops (withCb c s)) :
    shared (run (emulate configDir pageSize cbFunc) ops (withCb c s)) =
      withCbs (lastCb cbFunc c ops) <$> run (perform configDir pageSize) ops s := by
  induction ops generalizing c s with
  | nil => rfl
  | cons p ops ih =>
      obtain ⟨ld, op⟩ := p
      obtain ⟨hchecked, hrest⟩ := hall
      rw [run, run, shared_bind, perform_twin h (checked_withCb.mp hchecked)]
      cases hp : perform configDir pageSize ld s op with
      | error e => rfl
      | ok q =>
          obtain ⟨t, call⟩ := q
          have htail := ih (nextCb_fits h op) (hrest _ _ (emulate_of_perform h hp))
          change shared (run (emulate configDir pageSize cbFunc) ops (withCb (nextCb cbFunc c op) t) >>= _) = _
          rw [shared_bind, htail]
          change _ = withCbs _ <$> (run (perform configDir pageSize) ops t >>= _)
          cases run (perform configDir pageSize) ops t <;> rfl

theorem run_checked (ops : List (Loader × Op Lib)) (h : c = 0 ∨ c = cbFunc) {t : State Lib} {calls : List HostCall}
    (hrun : run (perform configDir pageSize) ops s = .ok (t, calls)) :
    AllChecked configDir pageSize cbFunc ops (withCb c s) := by
  induction ops generalizing c s t calls with
  | nil => trivial
  | cons p ops ih =>
      obtain ⟨ld, op⟩ := p
      obtain ⟨⟨u, call⟩, hu, hrun⟩ := bind_eq_ok.mp hrun
      obtain ⟨⟨v, rest⟩, hv, _⟩ := bind_eq_ok.mp hrun
      refine ⟨checked_withCb.mpr (perform_checked hu), ?_⟩
      intro t' call' ht'
      have heq := (emulate_of_perform h hu).symm.trans ht'
      cases heq
      exact ih (nextCb_fits h op) hv

/-- From the start on, and with the same answers of the loader, the emulator and the mock
end with the same table, the same memory and the same calls, or abort with the same
message, as long as each call is of a function in the table of a library that is loaded;
and every run that the mock completes is one of these. -/
theorem mock_agrees (configDir : String) (pageSize cbFunc : Nat) (linkUid : Lib → UInt32) (memory : Nat → Nat)
    (ops : List (Loader × Op Lib)) :
    (AllChecked configDir pageSize cbFunc ops (.init linkUid memory) →
      shared (run (emulate configDir pageSize cbFunc) ops (.init linkUid memory)) =
        withCbs (lastCb cbFunc 0 ops) <$> run (perform configDir pageSize) ops (.init linkUid memory)) ∧
    ∀ t calls, run (perform configDir pageSize) ops (.init linkUid memory) = .ok (t, calls) →
      AllChecked configDir pageSize cbFunc ops (.init linkUid memory) := by
  have hinit : withCb 0 (State.init linkUid memory) = State.init linkUid memory := rfl
  constructor
  · intro hall
    rw [← hinit] at hall
    exact run_twin ops (.inl rfl) hall
  · intro t calls hrun
    rw [← hinit]
    exact run_checked ops (.inl rfl) hrun

def firstOps : List (Loader × Op Unit) :=
  [(oneEntryLoader, .ctor .plain ()), (oneEntryLoader, .call () 0 8192 8200 0 0)]

def firstState : State Unit := .init (fun _ => 0x12345678) (fun _ => 1)

theorem firstOps_run : ∃ t, run (perform "" 4096) firstOps firstState = .ok (t, [⟨64, 0, [8192, 8200, 0, 0]⟩]) := by
  have hidx : freeIdx firstState.qlibs = some 0 := freeIdx_const _ rfl
  have hctor : gyhCtor (some "") oneEntryLoader () firstState = .ok (register firstState () 0 ⟨1, 64, 1⟩, 0) := by
    unfold gyhCtor
    rewrite [hidx]
    exact bind_eq_ok.mpr ⟨⟨1, 64, 1⟩, rfl, rfl⟩
  have hcall : queryHfunc (register firstState () 0 ⟨1, 64, 1⟩) () 0 [8192, 8200, 0, 0] = .ok ⟨64, 0, [8192, 8200, 0, 0]⟩ := by
    refine bind_eq_ok.mpr ⟨_, mapError_eq_ok.mpr (qlib?_eq_ok.mpr (slot?_ofNat _ 0)), ?_⟩
    rfl
  refine ⟨register firstState () 0 ⟨1, 64, 1⟩, ?_⟩
  refine bind_eq_ok.mpr ⟨(_, none), bind_eq_ok.mpr ⟨_, hctor, rfl⟩, ?_⟩
  refine bind_eq_ok.mpr ⟨(_, [⟨64, 0, [8192, 8200, 0, 0]⟩]), ?_, rfl⟩
  exact bind_eq_ok.mpr ⟨(_, some _), bind_eq_ok.mpr ⟨_, hcall, rfl⟩, rfl⟩

theorem mock_agrees_first :
    ∃ t, AllChecked "" 4096 4096 firstOps firstState ∧
      shared (run (emulate "" 4096 4096) firstOps firstState) = .ok (withCb 4096 t, [⟨64, 0, [8192, 8200, 0, 0]⟩]) := by
  obtain ⟨t, hrun⟩ := firstOps_run
  obtain ⟨hagree, hchecked⟩ := mock_agrees "" 4096 4096 (fun _ => 0x12345678) (fun _ => 1) firstOps
  have hall := hchecked t _ hrun
  have hsame : shared (run (emulate "" 4096 4096) firstOps firstState) =
      withCbs 4096 <$> run (perform "" 4096) firstOps firstState := hagree hall
  rw [hrun] at hsame
  exact ⟨t, hall, hsame⟩

end Main

end Comulator.Mock
