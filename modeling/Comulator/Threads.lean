import Comulator.CpuLoop
import Comulator.HostSwitch
import Comulator.Signals
import Mathlib.Logic.Relation

namespace Comulator.Threads

open Fallible GuestRt Cpu CpuLoop HostSwitch
open Signals (trappedCall)

/-- How a thread comes to emulate: `main` calls `gyh_cpu_loop`, `clone_func`
calls `cpu_loop`. -/
inductive Entry
  | main | cloneFunc
  deriving DecidableEq

inductive Phase
  | top
  | trapped (trapnr : Nat)
  | dispatching (d : Dispatch)

inductive Switch
  | body (grt : Bool) (entry : HostEntry)
  | resume (addr : UInt64)

def Switch.ctxTo : Switch → CtxTo
  | .body grt _ => .call grt
  | .resume addr => .saved addr

def Switch.body? : Switch → Option (Bool × HostEntry)
  | .body grt entry => some (grt, entry)
  | .resume _ => none

/-- A guest thread, with the history of the system calls it issued, of those
that were given a result, and of the handlers and host functions it ran. -/
structure Thread where
  entry : Entry
  env : Env
  phase : Phase
  ctxTo : Option Switch
  issued : List Nr
  answered : List Nr
  ran : List (Nr × Env)
  bodies : List (Bool × HostEntry)

def Thread.start (entry : Entry) (env : Env) : Thread := ⟨entry, env, .top, none, [], [], [], []⟩

structure Sys (W : Type) where
  threads : Nat → Option Thread
  world : W

variable {W : Type}

def Sys.init (env : Env) (world : W) : Sys W :=
  ⟨Function.update (fun _ => none) 0 (some (.start .main env)), world⟩

structure Host (W : Type) where
  handle : Nr → (Nat → UInt64) → CpuM W Unit
  memory : W → Memory

/-- The steps, with what is not determined: the child of a `clone`, what host
code leaves behind, and the bytes of the uninitialised local. -/
inductive Act (W : Type)
  | clone (parent child : Nat) (env : Env) (world : W)
  | switchTo (tid : Nat) (env : Env) (world : W)
  | exec (tid : Nat)
  | serve (tid : Nat) (stale : DoSyscall)
  | handle (tid : Nat)

section Thread

variable (K : Kernel W) (arch : Arch) (host : Host W) (th : Thread) (w : W)

def Thread.switchTo (env : Env) (w' : W) : Option (Thread × W) :=
  match th.phase, th.ctxTo with
  | .top, some sw => some ({ th with env, ctxTo := none, bodies := th.bodies ++ sw.body?.toList }, w')
  | _, _ => none

def Thread.exec : Option (Thread × W) :=
  match th.phase, th.ctxTo with
  | .top, none =>
      match K.cpuExec (th.env, w) with
      | .ok (trapnr, env, w') =>
          some ({ th with env, phase := .trapped trapnr, issued := th.issued ++ (asked arch trapnr env).toList }, w')
      | .error _ => none
  | _, _ => none

def served (entry : Entry) (trapnr : Nat) : CpuM W (Option Recorded) := do
  let r ← serveTrap K arch (entry = .main) trapnr
  afterTrap K arch
  return r

def Entry.next (stale : DoSyscall) (r : Option Recorded) : Entry → Phase
  | .main => .dispatching (dispatch (stale.record r))
  | .cloneFunc => .top

def Thread.serve (stale : DoSyscall) : Option (Thread × W) :=
  match th.phase with
  | .trapped trapnr =>
      match served K arch th.entry trapnr (th.env, w) with
      | .ok (r, env, w') =>
          some ({ th with
            env, phase := th.entry.next stale r
            answered := th.answered ++ (if r = none then (asked arch trapnr th.env).toList else []) }, w')
      | .error _ => none
  | _ => none

def Thread.finish (nr : Nr) (env : Env) (sw : Option Switch) : Thread :=
  { th with env, phase := .top, ctxTo := sw, ran := th.ran ++ [(nr, th.env)] }

def Thread.call (nr : Nr) (grt : Bool) : Option (Thread × W) :=
  match gyhCall arch grt th.env (th.ctxTo.map Switch.ctxTo) with
  | .ok entry => some (th.finish nr th.env (some (.body grt entry)), w)
  | .error _ => none

def Thread.runHandler (nr : Nr) (args : Nat → UInt64) : Option (Thread × W) :=
  match nr with
  | .call => th.call arch w .call false
  | .callGrt => th.call arch w .callGrt true
  | .callbackReturn =>
      match gyhCallbackReturn arch th.env (host.memory w) (th.ctxTo.map Switch.ctxTo) with
      | .ok (env, addr) => some (th.finish .callbackReturn env (some (.resume addr)), w)
      | .error _ => none
  | nr =>
      match host.handle nr args (th.env, w) with
      | .ok ((), env, w') => some (th.finish nr env th.ctxTo, w')
      | .error _ => none

def Thread.handle : Option (Thread × W) :=
  match th.phase with
  | .dispatching .skip => some ({ th with phase := .top }, w)
  | .dispatching (.handler nr args) => th.runHandler arch host w nr args
  | _ => none

end Thread

def Sys.onThread (s : Sys W) (tid : Nat) (f : Thread → W → Option (Thread × W)) : Option (Sys W) :=
  match s.threads tid with
  | some th => (f th s.world).map (fun p => ⟨Function.update s.threads tid (some p.1), p.2⟩)
  | none => none

def step (K : Kernel W) (arch : Arch) (host : Host W) (s : Sys W) : Act W → Option (Sys W)
  | .clone parent child env world =>
      if (s.threads parent).isSome ∧ s.threads child = none then
        some ⟨Function.update s.threads child (some (.start .cloneFunc env)), world⟩
      else none
  | .switchTo tid env world => s.onThread tid (fun th _ => th.switchTo env world)
  | .exec tid => s.onThread tid (fun th w => th.exec K arch w)
  | .serve tid stale => s.onThread tid (fun th w => th.serve K arch w stale)
  | .handle tid => s.onThread tid (fun th w => th.handle arch host w)

def Thread.inFlight (arch : Arch) (th : Thread) : List Nr :=
  match th.phase with
  | .top => []
  | .trapped trapnr => (asked arch trapnr th.env).toList
  | .dispatching d => d.nr?.toList

def body? (arch : Arch) : Nr × Env → Option (Bool × HostEntry)
  | (.call, e) => (gyhCall arch false e none).toOption.map (fun entry => (false, entry))
  | (.callGrt, e) => (gyhCall arch true e none).toOption.map (fun entry => (true, entry))
  | _ => none

/-- Each system call of the thread above `GYH_NR_start` is served by its handler
once and in order, none is given a result, and each call runs its host function
once, on the thread's own registers. -/
structure Thread.Served (arch : Arch) (th : Thread) : Prop where
  handlers : th.ran.map Prod.fst ++ th.inFlight arch = th.issued
  answered : th.answered = []
  bodies : th.bodies ++ (th.ctxTo.bind Switch.body?).toList = th.ran.filterMap (body? arch)

/-- A thread of `main` finds nothing in the uninitialised local that gets in the
way, and a thread of `clone_func` asks for no handler. -/
def Thread.Meets (arch : Arch) (trapnr : Nat) (stale : DoSyscall) (th : Thread) : Prop :=
  match th.entry with
  | .main => Fresh arch trapnr th.env stale ∧
      (asked arch trapnr th.env ≠ none → recorded arch trapnr th.env ≠ none)
  | .cloneFunc => asked arch trapnr th.env = none

def Meets (arch : Arch) (s : Sys W) : Act W → Prop
  | .serve tid stale =>
      ∀ th trapnr, s.threads tid = some th → th.phase = .trapped trapnr → th.Meets arch trapnr stale
  | _ => True

variable {K : Kernel W} {arch : Arch} {host : Host W} {th th' : Thread} {w w' : W}

theorem Thread.start_served (entry : Entry) (env : Env) : (Thread.start entry env).Served arch := ⟨rfl, rfl, rfl⟩

theorem Thread.switchTo_served {env : Env} (hth : th.Served arch) (h : th.switchTo env w = some (th', w')) :
    th'.Served arch := by
  unfold Thread.switchTo at h
  split at h
  next sw hphase hctx =>
    cases h
    refine ⟨?_, hth.answered, ?_⟩
    · have hhandlers := hth.handlers
      simp only [Thread.inFlight, hphase] at hhandlers ⊢
      exact hhandlers
    · have hbodies := hth.bodies
      rw [hctx] at hbodies
      simpa using hbodies
  next => cases h

theorem Thread.exec_served (hth : th.Served arch) (h : th.exec K arch w = some (th', w')) : th'.Served arch := by
  unfold Thread.exec at h
  split at h
  next hphase hctx =>
    split at h
    next trapnr env u _ =>
      cases h
      refine ⟨?_, hth.answered, hth.bodies⟩
      have hhandlers := hth.handlers
      simp only [Thread.inFlight, hphase, List.append_nil] at hhandlers ⊢
      rw [hhandlers]
    next => cases h
  next => cases h

theorem served_recorded {trapnr : Nat} {s : Env × W} {r : Option Recorded} {t : Env × W}
    (h : served K arch .main trapnr s = .ok (r, t)) : r = recorded arch trapnr s.1 := by
  obtain ⟨⟨r', u⟩, hr, h⟩ := bind_eq_ok.mp h
  obtain ⟨⟨_, v⟩, _, h⟩ := bind_eq_ok.mp h
  cases h
  exact (serveTrap_recorded hr).1

theorem Thread.serve_served {stale : DoSyscall} (hth : th.Served arch)
    (hmeets : ∀ trapnr, th.phase = .trapped trapnr → th.Meets arch trapnr stale)
    (h : th.serve K arch w stale = some (th', w')) : th'.Served arch := by
  unfold Thread.serve at h
  split at h
  next trapnr hphase =>
    split at h
    next r env u hserved =>
      cases h
      have hm := hmeets trapnr hphase
      have hhandlers := hth.handlers
      simp only [Thread.inFlight, hphase] at hhandlers
      unfold Thread.Meets at hm
      cases hentry : th.entry with
      | main =>
          rw [hentry] at hm hserved
          have hr := served_recorded hserved
          subst hr
          refine ⟨?_, ?_, hth.bodies⟩
          · have hexact := Option.ext (((exact_iff_fresh _ _ _).mpr hm.1).1)
            simp only [Thread.inFlight, Entry.next, hexact]
            exact hhandlers
          · rw [hth.answered, List.nil_append]
            split
            next hnone =>
              by_contra hne
              refine hm.2 (fun hasked => hne ?_) hnone
              rw [hasked]
              rfl
            next => rfl
      | cloneFunc =>
          rw [hentry] at hm
          simp only at hm
          rw [hm] at hhandlers
          refine ⟨?_, ?_, hth.bodies⟩
          · simpa [Thread.inFlight, hentry, Entry.next] using hhandlers
          · simp [hth.answered, hm]
    next => cases h
  next => cases h

theorem Thread.finish_served {nr : Nr} {args : Nat → UInt64} {env : Env} {sw : Option Switch}
    (hth : th.Served arch) (hphase : th.phase = .dispatching (.handler nr args))
    (hsw : th.bodies ++ (sw.bind Switch.body?).toList =
      th.bodies ++ (th.ctxTo.bind Switch.body?).toList ++ (body? arch (nr, th.env)).toList) :
    (th.finish nr env sw).Served arch := by
  have hhandlers := hth.handlers
  simp only [Thread.inFlight, hphase, Dispatch.nr?] at hhandlers
  refine ⟨?_, hth.answered, ?_⟩
  · simpa [Thread.finish, Thread.inFlight] using hhandlers
  · simp only [Thread.finish, List.filterMap_append, ← hth.bodies]
    rw [hsw]
    cases hb : body? arch (nr, th.env) <;> simp [hb]

theorem Thread.call_served {nr : Nr} {grt : Bool} {args : Nat → UInt64} (hth : th.Served arch)
    (hphase : th.phase = .dispatching (.handler nr args))
    (hbody : body? arch (nr, th.env) = (gyhCall arch grt th.env none).toOption.map (fun entry => (grt, entry)))
    (h : th.call arch w nr grt = some (th', w')) : th'.Served arch := by
  unfold Thread.call at h
  split at h
  next entry hentry =>
    cases h
    obtain ⟨hctx, hcall⟩ := gyhCall_eq_ok.mp hentry
    refine Thread.finish_served hth hphase ?_
    rw [hbody, gyhCall_eq_ok.mpr ⟨rfl, hcall⟩, Option.map_eq_none_iff.mp hctx]
    simp [Switch.body?, Except.toOption]
  next => cases h

theorem Thread.handle_served (hth : th.Served arch) (h : th.handle arch host w = some (th', w')) :
    th'.Served arch := by
  unfold Thread.handle at h
  split at h
  next hphase =>
    cases h
    have hhandlers := hth.handlers
    simp only [Thread.inFlight, hphase, Dispatch.nr?] at hhandlers
    exact ⟨hhandlers, hth.answered, hth.bodies⟩
  next nr args hphase =>
    cases nr with
    | call => exact Thread.call_served hth hphase rfl h
    | callGrt => exact Thread.call_served hth hphase rfl h
    | callbackReturn =>
        simp only [Thread.runHandler] at h
        split at h
        next hreturn =>
          cases h
          refine Thread.finish_served hth hphase ?_
          rw [Option.map_eq_none_iff.mp (gyhCallbackReturn_eq_ok.mp hreturn).1]
          simp [Switch.body?, body?]
        next => cases h
    | ctor | dtor | ctorGrt | ctorFcpCm =>
        simp only [Thread.runHandler] at h
        split at h
        next =>
          cases h
          exact Thread.finish_served hth hphase (List.append_nil _).symm
        next => cases h
  next => cases h

/-- What a step does to one thread it does to none of the others. -/
theorem Sys.onThread_served {s t : Sys W} {tid : Nat} {f : Thread → W → Option (Thread × W)}
    (hs : ∀ i th, s.threads i = some th → th.Served arch)
    (hf : ∀ th th' w', s.threads tid = some th → th.Served arch → f th s.world = some (th', w') → th'.Served arch)
    (h : s.onThread tid f = some t) : ∀ i th, t.threads i = some th → th.Served arch := by
  unfold Sys.onThread at h
  split at h
  next th hth =>
    obtain ⟨p, hp, rfl⟩ := Option.map_eq_some_iff.mp h
    intro i th' hi
    by_cases hit : i = tid
    · subst hit
      simp only [Function.update_self, Option.some.injEq] at hi
      subst hi
      exact hf th p.1 p.2 hth (hs i th hth) hp
    · simp only [Function.update_of_ne hit] at hi
      exact hs i th' hi
  next => cases h

theorem step_served {s t : Sys W} {act : Act W} (hs : ∀ i th, s.threads i = some th → th.Served arch)
    (hmeets : Meets arch s act) (h : step K arch host s act = some t) :
    ∀ i th, t.threads i = some th → th.Served arch := by
  cases act with
  | clone parent child env world =>
      simp only [step] at h
      split at h
      next =>
        cases h
        intro i th hi
        by_cases hic : i = child
        · subst hic
          simp only [Function.update_self, Option.some.injEq] at hi
          subst hi
          exact Thread.start_served _ _
        · simp only [Function.update_of_ne hic] at hi
          exact hs i th hi
      next => cases h
  | switchTo tid env world =>
      exact Sys.onThread_served (f := fun th _ => th.switchTo env world) hs
        (fun _ _ _ _ hth hswitch => Thread.switchTo_served hth hswitch) h
  | exec tid =>
      exact Sys.onThread_served (f := fun th w => th.exec K arch w) hs
        (fun _ _ _ _ hth hexec => Thread.exec_served hth hexec) h
  | serve tid stale =>
      exact Sys.onThread_served (f := fun th w => th.serve K arch w stale) hs
        (fun th _ _ htid hth hserve => Thread.serve_served hth (fun trapnr hp => hmeets th trapnr htid hp) hserve) h
  | handle tid =>
      exact Sys.onThread_served (f := fun th w => th.handle arch host w) hs
        (fun _ _ _ _ hth hhandle => Thread.handle_served hth hhandle) h

def MeetingStep (K : Kernel W) (arch : Arch) (host : Host W) (s t : Sys W) : Prop :=
  ∃ act, Meets arch s act ∧ step K arch host s act = some t

/-- Whatever threads are created and however their steps interleave, each thread
is served by its handlers as long as only the initial thread asks for them and
nothing is left over in its uninitialised local. -/
theorem threads_served {env : Env} {world : W} {s : Sys W}
    (h : Relation.ReflTransGen (MeetingStep K arch host) (.init env world) s) :
    ∀ tid th, s.threads tid = some th → th.Served arch := by
  induction h with
  | refl =>
      intro tid th hth
      by_cases htid : tid = 0
      · subst htid
        simp only [Sys.init, Function.update_self, Option.some.injEq] at hth
        subst hth
        exact Thread.start_served _ _
      · simp [Sys.init, Function.update_of_ne htid] at hth
  | tail _ hstep ih =>
      obtain ⟨act, hmeets, hact⟩ := hstep
      exact step_served ih hmeets hact

def noHandlers : Host Unit := ⟨fun _ _ => pure (), fun _ _ => 0⟩

def zeroLocal : DoSyscall := ⟨0, fun _ => 0⟩

def callingThread (entry : Entry) (phase : Phase) : Thread := ⟨entry, trappedCall, phase, none, [.call], [], [], []⟩

def calledThread : Thread :=
  ⟨.main, trappedCall, .top, some (.body false ⟨8128, 64, [0, 0, 0, 0, 0, 0]⟩), [.call], [], [(.call, trappedCall)], []⟩

def running (others : Nat → Option Thread) (i : Nat) (th : Thread) : Sys Unit := ⟨Function.update others i (some th), ()⟩

theorem running_onThread (others : Nat → Option Thread) (i : Nat) {f : Thread → Unit → Option (Thread × Unit)} (th : Thread)
    {th' : Thread} (h : f th () = some (th', ())) : (running others i th).onThread i f = some (running others i th') := by
  simp [running, Sys.onThread, h]

def onlyThread (th : Thread) : Sys Unit := running (fun _ => none) 0 th

/-- A call by the initial thread is about to run its host function. -/
theorem threads_served_call : calledThread.ctxTo.isSome ∧ calledThread.Served .x86_64 := by
  have hmeets : Meets .x86_64 (onlyThread (callingThread .main (.trapped 0x101))) (.serve 0 zeroLocal) := by
    intro th trapnr hth hphase
    simp only [onlyThread, running, Function.update_self, Option.some.injEq] at hth
    subst hth
    cases hphase
    exact ⟨.inl rfl, fun _ h => Option.some_ne_none _ h⟩
  have hexec : MeetingStep (.calm Unit) .x86_64 noHandlers (.init trappedCall ())
      (onlyThread (callingThread .main (.trapped 0x101))) :=
    ⟨.exec 0, trivial, running_onThread (fun _ => none) 0 (f := fun th w => th.exec (.calm Unit) .x86_64 w)
      (.start .main trappedCall) rfl⟩
  have hserve : MeetingStep (.calm Unit) .x86_64 noHandlers (onlyThread (callingThread .main (.trapped 0x101)))
      (onlyThread (callingThread .main (.dispatching
        (dispatch (zeroLocal.record (recorded .x86_64 0x101 trappedCall)))))) :=
    ⟨.serve 0 zeroLocal, hmeets, running_onThread (fun _ => none) 0 (f := fun th w => th.serve (.calm Unit) .x86_64 w zeroLocal)
      (callingThread .main (.trapped 0x101)) rfl⟩
  have hhandle : MeetingStep (.calm Unit) .x86_64 noHandlers (onlyThread (callingThread .main (.dispatching
      (dispatch (zeroLocal.record (recorded .x86_64 0x101 trappedCall)))))) (onlyThread calledThread) :=
    ⟨.handle 0, trivial, running_onThread (fun _ => none) 0 (f := fun th w => th.handle .x86_64 noHandlers w)
      (callingThread .main (.dispatching (dispatch (zeroLocal.record (recorded .x86_64 0x101 trappedCall))))) rfl⟩
  exact ⟨rfl, threads_served (((Relation.ReflTransGen.single hexec).tail hserve).tail hhandle) 0 calledThread rfl⟩

def mainThread : Nat → Option Thread := Function.update (fun _ => none) 0 (some (.start .main trappedCall))

def withClone (th : Thread) : Sys Unit := running mainThread 1 th

/-- A `__gyh_call__` of a created thread runs no handler: it is given a result
like an ordinary system call. -/
theorem clone_not_served : ∃ s : Sys Unit, Relation.ReflTransGen
    (fun s t => ∃ act, step (.calm Unit) .x86_64 noHandlers s act = some t) (.init trappedCall ()) s ∧
      ∃ th, s.threads 1 = some th ∧ th.phase = .top ∧ th.issued = [.call] ∧ th.ran = [] ∧ ¬ th.Served .x86_64 := by
  let answered : Thread :=
    { callingThread .cloneFunc .top with env := setReg 0 0 trappedCall, answered := [.call] }
  have hclone : ∃ act, step (.calm Unit) .x86_64 noHandlers (.init trappedCall ()) act =
      some (withClone (.start .cloneFunc trappedCall)) :=
    ⟨.clone 0 1 trappedCall (), rfl⟩
  have hexec : ∃ act, step (.calm Unit) .x86_64 noHandlers (withClone (.start .cloneFunc trappedCall)) act =
      some (withClone (callingThread .cloneFunc (.trapped 0x101))) :=
    ⟨.exec 1, running_onThread mainThread 1 (f := fun th w => th.exec (.calm Unit) .x86_64 w)
      (.start .cloneFunc trappedCall) rfl⟩
  have hserve : ∃ act, step (.calm Unit) .x86_64 noHandlers
      (withClone (callingThread .cloneFunc (.trapped 0x101))) act = some (withClone answered) :=
    ⟨.serve 1 zeroLocal, running_onThread mainThread 1 (f := fun th w => th.serve (.calm Unit) .x86_64 w zeroLocal)
      (callingThread .cloneFunc (.trapped 0x101)) rfl⟩
  refine ⟨withClone answered, ((Relation.ReflTransGen.single hclone).tail hexec).tail hserve, answered, ?_⟩
  refine ⟨rfl, rfl, rfl, rfl, ?_⟩
  intro h
  cases h.answered

end Comulator.Threads
