import Comulator.ContextSwitch

namespace Comulator.CallStack

open Fallible GuestRt Cpu HostSwitch ContextSwitch

section Stack

inductive Open
  | host (call : Nat)
  | callback (call : Nat)
  deriving DecidableEq

inductive Request
  | ctor
  | dtor
  | ctorGrt
  | ctorFcpCm
  deriving DecidableEq

inductive Event
  | call (n : Nat)
  | ret (n : Nat)
  | callback (n : Nat)
  | callbackReturn (n : Nat)
  | request (r : Request)
  deriving DecidableEq

/-- The stack that calls and callbacks are meant to keep: guest code calls host
functions, the host function on top returns or calls back, and a callback comes back to
the function that has made it. Libraries are loaded and unloaded by guest code. -/
def advance (st : List Open) : Event → Option (List Open)
  | .call n =>
      match st with
      | .host _ :: _ => none
      | _ => some (.host n :: st)
  | .ret n => if st.head? = some (.host n) then some st.tail else none
  | .callback n => if st.head? = some (.host n) then some (.callback n :: st) else none
  | .callbackReturn n => if st.head? = some (.callback n) then some st.tail else none
  | .request _ =>
      match st with
      | .host _ :: _ => none
      | _ => some st

def replay (l : List Event) : Option (List Open) := l.foldlM advance []

def Event.isRet : Event → Bool
  | .ret _ => true
  | _ => false

def Event.isRequest : Event → Bool
  | .request _ => true
  | _ => false

def Event.called? : Event → Option Nat
  | .call n => some n
  | _ => none

def Open.isHost : Open → Bool
  | .host _ => true
  | .callback _ => false

variable (n : Nat) (st : List Open)

theorem advance_ret : advance (.host n :: st) (.ret n) = some st := if_pos rfl

theorem advance_callback : advance (.host n :: st) (.callback n) = some (.callback n :: .host n :: st) := if_pos rfl

theorem advance_callbackReturn : advance (.callback n :: st) (.callbackReturn n) = some st := if_pos rfl

theorem countP_host : (Open.host n :: st).countP Open.isHost = st.countP Open.isHost + 1 := List.countP_cons_of_pos rfl

theorem countP_callback : (Open.callback n :: st).countP Open.isHost = st.countP Open.isHost :=
  List.countP_cons_of_neg Bool.false_ne_true

theorem replay_concat {l : List Event} {e : Event} {st st' : List Open} (h : replay l = some st) (he : advance st e = some st') :
    replay (l ++ [e]) = some st' := by
  unfold replay at h ⊢
  rw [List.foldlM_append, h]
  simp [he]

end Stack

section Machine

variable (ucontextSize : Nat) (arch : Arch) (cbFunc : UInt64)

structure Counters where
  syscalls : Nat
  calls : Nat
  callbacks : Nat
  callbackReturns : Nat

/-- A step of the protocol, or a request. A request goes through the registers and the
memory, and what it leaves there is any. -/
inductive Action
  | protocol (act : Act)
  | request (r : Request) (env : Env) (mem : Memory)

def perform (s : State) : Action → Except Failure State
  | .protocol act => step ucontextSize arch cbFunc act s
  | .request _ env mem => if s.control = .emulating then .ok { s with env, mem, control := .loopTop } else .error .disabled

def Permitted (s : State) : Action → Prop
  | .protocol act => Abides ucontextSize arch act s
  | .request _ _ _ => True

def Counters.count (c : Counters) : Action → Counters
  | .protocol (.trapCall _ _ _) => { c with syscalls := c.syscalls + 1, calls := c.calls + 1 }
  | .protocol (.trapCallbackReturn _ _) =>
      { c with syscalls := c.syscalls + 1, callbackReturns := c.callbackReturns + 1 }
  | .protocol (.callback _ _) => { c with callbacks := c.callbacks + 1 }
  | .protocol .loopTop | .protocol .hostReturn => c
  | .request _ _ _ => { c with syscalls := c.syscalls + 1 }

def event (s : State) : Action → Option Event
  | .protocol .loopTop =>
      match s.ctxTo with
      | none => none
      | some (.call grt) => (s.callCtx grt).map (fun a => .call a.number)
      | some (.saved addr) => (s.frames addr).map (fun frame => .callbackReturn frame.activation.number)
  | .protocol (.callback _ _) =>
      match s.control with
      | .host a => some (.callback a.number)
      | _ => none
  | .protocol .hostReturn =>
      match s.control with
      | .host a => some (.ret a.number)
      | _ => none
  | .protocol (.trapCall _ _ _) | .protocol (.trapCallbackReturn _ _) => none
  | .request r _ _ => some (.request r)

inductive Run (env : Env) (mem : Memory) : State → List Event → Counters → Prop
  | init : Run env mem (.init env mem) [] ⟨0, 0, 0, 0⟩
  | step {s t : State} {l : List Event} {c : Counters} {action : Action} (h : Run env mem s l c)
      (hpermitted : Permitted ucontextSize arch s action) (hstep : perform ucontextSize arch cbFunc s action = .ok t) :
      Run env mem t (l ++ (event s action).toList) (c.count action)

def stackOf (s : State) : List Open :=
  (match s.control with
    | .host a => [.host a.number]
    | _ => []) ++
  s.suspended.flatMap (fun c => [.callback c.activation.number, .host c.activation.number])

def pendingCalls (s : State) : Nat :=
  match s.ctxTo with
  | some (.call _) => 1
  | _ => 0

def pendingReturns (s : State) : Nat :=
  match s.ctxTo with
  | some (.saved _) => 1
  | _ => 0

structure Accounted (s : State) (l : List Event) (c : Counters) : Prop where
  stack : replay l = some (stackOf s)
  numbers : l.filterMap Event.called? = List.range (c.calls - pendingCalls s)
  calls : c.calls = l.countP Event.isRet + (stackOf s).countP Open.isHost + pendingCalls s
  callbacks : c.callbacks + pendingReturns s = c.callbackReturns + s.suspended.length
  syscalls : c.syscalls = c.calls + c.callbackReturns + l.countP Event.isRequest

structure Books (s : State) (l : List Event) (c : Counters) : Prop extends Accounted s l c where
  given : s.calls = c.calls
  last : ∀ grt a, s.ctxTo = some (.call grt) → s.callCtx grt = some a → a.number + 1 = s.calls

variable {ucontextSize arch cbFunc} {env : Env} {mem : Memory} {s t : State} {l : List Event} {c : Counters}

def below (s : State) : List Open :=
  s.suspended.flatMap (fun c => [.callback c.activation.number, .host c.activation.number])

theorem stackOf_host {a : Activation} (h : s.control = .host a) : stackOf s = .host a.number :: below s := by
  rw [stackOf, h]
  rfl

theorem stackOf_guest (h : ∀ a, s.control ≠ .host a) : stackOf s = below s := by
  unfold stackOf
  cases hcontrol : s.control with
  | host a => exact absurd hcontrol (h a)
  | emulating | loopTop => rfl

theorem advance_call (s : State) (n : Nat) : advance (below s) (.call n) = some (.host n :: below s) := by
  unfold below
  cases s.suspended <;> rfl

theorem advance_request (s : State) (r : Request) : advance (below s) (.request r) = some (below s) := by
  unfold below
  cases s.suspended <;> rfl

theorem init_books (env : Env) (mem : Memory) : Books (.init env mem) [] ⟨0, 0, 0, 0⟩ :=
  ⟨⟨rfl, rfl, rfl, rfl, rfl⟩, rfl, fun _ _ h => by cases h⟩

theorem Books.idle (h : Books s l c) (hnone : s.ctxTo = none) :
    l.filterMap Event.called? = List.range c.calls ∧ c.calls = l.countP Event.isRet + (stackOf s).countP Open.isHost ∧
      c.callbacks = c.callbackReturns + s.suspended.length := by
  have hnumbers := h.numbers
  have hcalls := h.calls
  have hcallbacks := h.callbacks
  simp only [pendingCalls, pendingReturns, hnone] at hnumbers hcalls hcallbacks
  exact ⟨hnumbers, hcalls, hcallbacks⟩

/-- An event that is no request is not counted among them. -/
theorem Accounted.syscalls_concat (h : Accounted s l c) {e : Event} (he : e.isRequest = false) :
    c.syscalls = c.calls + c.callbackReturns + (l ++ [e]).countP Event.isRequest := by
  rw [List.countP_append, List.countP_singleton, he]
  exact h.syscalls

theorem request_books {r : Request} {env : Env} {mem : Memory} (hs : Inv ucontextSize arch s) (h : Books s l c)
    (hcontrol : s.control = .emulating) :
    Books { s with env, mem, control := .loopTop } (l ++ [.request r]) (c.count (.request r env mem)) := by
  have hidle := hs.idle (by simp [hcontrol])
  obtain ⟨hnumbers, hcalls, hcallbacks⟩ := h.idle hidle
  have hsyscalls := h.syscalls
  have hguest := stackOf_guest (s := s) (by simp [hcontrol])
  rw [hguest] at hcalls
  refine ⟨⟨?_, ?_, ?_, ?_, ?_⟩, h.given, ?_⟩
  · rw [replay_concat (h.stack.trans (congrArg some hguest)) (advance_request s r)]
    rfl
  · rw [List.filterMap_append, hnumbers]
    simp only [pendingCalls, hidle]
    exact List.append_nil _
  · rw [List.countP_append]
    simp only [pendingCalls, hidle]
    exact hcalls
  · simp only [pendingReturns, hidle]
    exact hcallbacks
  · rw [List.countP_append]
    simp only [Counters.count, List.countP_singleton, Event.isRequest, if_true]
    omega
  · intro grt a hgrt
    rw [hidle] at hgrt
    cases hgrt

theorem trapCall_books {grt : Bool} {env : Env} {mem : Memory} (hs : Inv ucontextSize arch s) (h : Books s l c)
    (hcontrol : s.control = .emulating) (hstep : trapCall arch grt env mem s = .ok t) :
    Books t l (c.count (.protocol (.trapCall grt env mem))) := by
  obtain ⟨hnumbers, hcalls, hcallbacks⟩ := h.idle (hs.idle (by simp [hcontrol]))
  have hsyscalls := h.syscalls
  rw [stackOf_guest (by simp [hcontrol])] at hcalls
  obtain ⟨_, _, hstep⟩ := bind_eq_ok.mp hstep
  cases hstep
  refine ⟨⟨?_, hnumbers, congrArg Nat.succ hcalls, hcallbacks, ?_⟩, congrArg Nat.succ h.given, ?_⟩
  · rw [h.stack, stackOf_guest (by simp [hcontrol])]
    rfl
  · simp only [Counters.count]
    omega
  · intro grt' a hgrt ha
    cases hgrt
    have hnew := (Function.update_self ..).symm.trans ha
    cases hnew
    rfl

theorem trapCallbackReturn_books {env : Env} {mem : Memory} (hs : Inv ucontextSize arch s) (h : Books s l c)
    (hcontrol : s.control = .emulating) (hstep : trapCallbackReturn arch env mem s = .ok t) :
    Books t l (c.count (.protocol (.trapCallbackReturn env mem))) := by
  obtain ⟨hnumbers, hcalls, hcallbacks⟩ := h.idle (hs.idle (by simp [hcontrol]))
  have hsyscalls := h.syscalls
  rw [stackOf_guest (by simp [hcontrol])] at hcalls
  obtain ⟨_, _, hstep⟩ := bind_eq_ok.mp hstep
  cases hstep
  refine ⟨⟨?_, hnumbers, hcalls, ?_, ?_⟩, h.given, fun _ _ h => by cases h⟩
  · rw [h.stack, stackOf_guest (by simp [hcontrol])]
    rfl
  · simp only [Counters.count, pendingReturns]
    omega
  · simp only [Counters.count]
    omega

/-- The host function of a call is entered. -/
theorem loopTop_call_books {grt : Bool} {a : Activation} (h : Books s l c) (hcontrol : s.control = .loopTop)
    (hctx : s.ctxTo = some (.call grt)) (ha : s.callCtx grt = some a) :
    Books { s with ctxTo := none, loopSaved := true, control := .host a } (l ++ [.call a.number]) c := by
  have hnumbers := h.numbers
  have hcalls := h.calls
  have hcallbacks := h.callbacks
  have hlast := h.last grt a hctx ha
  have hguest := stackOf_guest (s := s) (by simp [hcontrol])
  simp only [pendingCalls, pendingReturns, hctx] at hnumbers hcalls hcallbacks
  rw [hguest] at hcalls
  have hnumber : a.number = c.calls - 1 := by
    rw [← h.given]
    omega
  refine ⟨⟨?_, ?_, ?_, hcallbacks, h.syscalls_concat rfl⟩, h.given, fun _ _ h => by cases h⟩
  · rw [replay_concat (h.stack.trans (congrArg some hguest)) (advance_call s a.number)]
    rfl
  · rw [List.filterMap_append, hnumbers, hnumber]
    have hrange : c.calls - 0 = (c.calls - 1) + 1 := by omega
    simp only [pendingCalls]
    rw [hrange, List.range_succ]
    rfl
  · rw [List.countP_append, stackOf_host rfl, countP_host]
    change c.calls = l.countP Event.isRet + 0 + ((below s).countP Open.isHost + 1) + 0
    omega

/-- The innermost callback is resumed. -/
theorem loopTop_saved_books {addr : UInt64} {d : Callback} {rest : List Callback} {env : Env} (h : Books s l c)
    (hcontrol : s.control = .loopTop) (hctx : s.ctxTo = some (.saved addr)) (hd : s.suspended = d :: rest) :
    Books { s with env, ctxTo := none, loopSaved := true, control := .host d.activation, suspended := rest }
      (l ++ [.callbackReturn d.activation.number]) c := by
  have hnumbers := h.numbers
  have hcalls := h.calls
  have hcallbacks := h.callbacks
  have hguest := stackOf_guest (s := s) (by simp [hcontrol])
  simp only [pendingCalls, pendingReturns, hctx] at hnumbers hcalls hcallbacks
  rw [hd, List.length_cons] at hcallbacks
  rw [hguest] at hcalls
  have hbelow : below s = .callback d.activation.number :: .host d.activation.number ::
      rest.flatMap (fun c => [.callback c.activation.number, .host c.activation.number]) := by
    rw [below, hd]
    rfl
  refine ⟨⟨?_, ?_, ?_, ?_, h.syscalls_concat rfl⟩, h.given, fun _ _ h => by cases h⟩
  · have hstack := h.stack
    rw [hguest, hbelow] at hstack
    rw [replay_concat hstack (advance_callbackReturn _ _)]
    rfl
  · rw [List.filterMap_append, hnumbers]
    exact List.append_nil _
  · rw [List.countP_append, stackOf_host rfl]
    rw [hbelow, countP_callback] at hcalls
    exact hcalls
  · simp only [pendingReturns]
    omega

theorem loopTop_books (hs : Inv ucontextSize arch s) (h : Books s l c) (hcontrol : s.control = .loopTop)
    (hstep : loopTop arch s = .ok t) : Books t (l ++ (event s (.protocol .loopTop)).toList) c := by
  cases hctx : s.ctxTo with
  | none =>
      simp only [loopTop, hctx] at hstep
      cases hstep
      have hevent : event s (.protocol .loopTop) = none := by simp [event, hctx]
      rw [hevent, Option.toList_none, List.append_nil]
      have hguest := stackOf_guest (s := s) (by simp [hcontrol])
      obtain ⟨hnumbers, hcalls, hcallbacks⟩ := h.idle hctx
      rw [hguest] at hcalls
      exact ⟨⟨h.stack.trans (congrArg some hguest), hnumbers, hcalls, hcallbacks, h.syscalls⟩, h.given, fun _ _ h => by cases h⟩
  | some ctx =>
      cases ctx with
      | call grt =>
          obtain ⟨a, ha, _⟩ := hs.call grt hctx
          simp only [loopTop, hctx, ha] at hstep
          cases hstep
          have hevent : event s (.protocol .loopTop) = some (.call a.number) := by simp [event, hctx, ha]
          rw [hevent]
          exact loopTop_call_books h hcontrol hctx ha
      | saved addr =>
          obtain ⟨d, rest, hd, haddr, _, hresumed⟩ := loopTop_saved hs hctx
          rw [hresumed] at hstep
          cases hstep
          have hframe := hs.saved d (by simp [hd])
          have hevent : event s (.protocol .loopTop) = some (.callbackReturn d.activation.number) := by
            simp [event, hctx, ← haddr, hframe]
          rw [hevent]
          exact loopTop_saved_books h hcontrol hctx hd

theorem callback_books {a : Activation} {base : UInt64} {args : CallbackArgs} (hs : Inv ucontextSize arch s) (h : Books s l c)
    (hcontrol : s.control = .host a) (hstep : callback ucontextSize arch cbFunc a base args s = .ok t) :
    Books t (l ++ [.callback a.number]) (c.count (.protocol (.callback base args))) := by
  have hidle := hs.idle (by simp [hcontrol])
  obtain ⟨hnumbers, hcalls, hcallbacks⟩ := h.idle hidle
  have hhost := stackOf_host hcontrol
  rw [hhost] at hcalls
  obtain ⟨⟨e, mem, ctx⟩, _, hstep⟩ := bind_eq_ok.mp hstep
  simp only [(hs.host a hcontrol).1, if_true] at hstep
  cases hstep
  refine ⟨⟨?_, ?_, ?_, ?_, h.syscalls_concat rfl⟩, h.given, ?_⟩
  · rw [replay_concat (h.stack.trans (congrArg some hhost)) (advance_callback _ _)]
    rfl
  · rw [List.filterMap_append, hnumbers]
    simp only [pendingCalls, hidle]
    exact List.append_nil _
  · rw [List.countP_append, stackOf_guest (by intro a h; cases h)]
    simp only [pendingCalls, hidle]
    change c.calls = l.countP Event.isRet + 0 +
      (Open.callback a.number :: Open.host a.number :: below s).countP Open.isHost
    rw [countP_callback]
    exact hcalls
  · simp only [Counters.count, pendingReturns, hidle, List.length_cons]
    omega
  · intro grt b hgrt
    rw [hidle] at hgrt
    cases hgrt

theorem hostReturn_books {a : Activation} (hs : Inv ucontextSize arch s) (h : Books s l c) (hcontrol : s.control = .host a)
    (hstep : hostReturn s = .ok t) : Books t (l ++ [.ret a.number]) c := by
  have hidle := hs.idle (by simp [hcontrol])
  obtain ⟨hnumbers, hcalls, hcallbacks⟩ := h.idle hidle
  have hhost := stackOf_host hcontrol
  rw [hhost, countP_host] at hcalls
  simp only [hostReturn, (hs.host a hcontrol).1, if_true] at hstep
  cases hstep
  refine ⟨⟨?_, ?_, ?_, ?_, h.syscalls_concat rfl⟩, h.given, ?_⟩
  · rw [replay_concat (h.stack.trans (congrArg some hhost)) (advance_ret _ _)]
    rfl
  · rw [List.filterMap_append, hnumbers]
    simp only [pendingCalls, hidle]
    exact List.append_nil _
  · rw [List.countP_append, stackOf_guest (by intro a h; cases h)]
    simp only [pendingCalls, hidle]
    change c.calls = l.countP Event.isRet + 1 + (below s).countP Open.isHost
    omega
  · simp only [pendingReturns, hidle]
    exact hcallbacks
  · intro grt b hgrt
    rw [hidle] at hgrt
    cases hgrt

theorem protocol_books {act : Act} (hs : Inv ucontextSize arch s) (h : Books s l c)
    (hstep : step ucontextSize arch cbFunc act s = .ok t) :
    Books t (l ++ (event s (.protocol act)).toList) (c.count (.protocol act)) := by
  unfold step at hstep
  split at hstep
  next grt env mem hcontrol =>
    have hevent : event s (.protocol (.trapCall grt env mem)) = none := rfl
    rw [hevent, Option.toList_none, List.append_nil]
    exact trapCall_books hs h hcontrol hstep
  next env mem hcontrol =>
    have hevent : event s (.protocol (.trapCallbackReturn env mem)) = none := rfl
    rw [hevent, Option.toList_none, List.append_nil]
    exact trapCallbackReturn_books hs h hcontrol hstep
  next hcontrol => exact loopTop_books hs h hcontrol hstep
  next base args a hcontrol =>
    have hevent : event s (.protocol (.callback base args)) = some (.callback a.number) := by simp [event, hcontrol]
    rw [hevent]
    exact callback_books hs h hcontrol hstep
  next a hcontrol =>
    have hevent : event s (.protocol .hostReturn) = some (.ret a.number) := by simp [event, hcontrol]
    rw [hevent]
    exact hostReturn_books hs h hcontrol hstep
  next => cases hstep

theorem perform_request {r : Request} {env : Env} {mem : Memory}
    (h : perform ucontextSize arch cbFunc s (.request r env mem) = .ok t) :
    s.control = .emulating ∧ t = { s with env, mem, control := .loopTop } := by
  rw [perform] at h
  split at h
  next hcontrol =>
    cases h
    exact ⟨hcontrol, rfl⟩
  next => cases h

theorem perform_inv (hsize : 0 < ucontextSize) {action : Action} (hs : Inv ucontextSize arch s)
    (hpermitted : Permitted ucontextSize arch s action) (h : perform ucontextSize arch cbFunc s action = .ok t) :
    Inv ucontextSize arch t := by
  cases action with
  | protocol act => exact step_inv hsize hs hpermitted h
  | request r env mem =>
      obtain ⟨hcontrol, rfl⟩ := perform_request h
      have hidle := hs.idle (by simp [hcontrol])
      refine ⟨hs.nested, hs.saved, hs.context, hs.before, fun hne => absurd rfl hne, ?_, ?_, by simp⟩
      · intro grt hgrt
        cases hidle.symm.trans hgrt
      · intro addr haddr
        cases hidle.symm.trans haddr

theorem perform_books {action : Action} (hs : Inv ucontextSize arch s) (h : Books s l c)
    (hstep : perform ucontextSize arch cbFunc s action = .ok t) :
    Books t (l ++ (event s action).toList) (c.count action) := by
  cases action with
  | protocol act => exact protocol_books hs h hstep
  | request r env mem =>
      obtain ⟨hcontrol, rfl⟩ := perform_request hstep
      exact request_books hs h hcontrol

theorem Run.inv (hsize : 0 < ucontextSize) (h : Run ucontextSize arch cbFunc env mem s l c) : Inv ucontextSize arch s := by
  induction h with
  | init => exact init_inv env mem
  | step _ hpermitted hstep ih => exact perform_inv hsize ih hpermitted hstep

theorem Run.books (hsize : 0 < ucontextSize) (h : Run ucontextSize arch cbFunc env mem s l c) : Books s l c := by
  induction h with
  | init => exact init_books env mem
  | step h _ hstep ih => exact perform_books (h.inv hsize) ih hstep

/-- Every run does what a call stack does: each call that is trapped enters its host
function once and in turn, functions return and callbacks come back in the order of the
stack, and the counters tell how many of them there are. -/
theorem calls_accounted (hsize : 0 < ucontextSize) (h : Run ucontextSize arch cbFunc env mem s l c) : Accounted s l c :=
  (h.books hsize).toAccounted

/-- A library is loaded and a function of it called, which calls back: both are open, and
the counters have them and the request. -/
theorem callback_accounted : Accounted callbackState [.request .ctor, .call 0, .callback 0] ⟨2, 1, 1, 0⟩ := by
  have hload : perform 968 .x86_64 300 (.init callEnv (fun _ => 0)) (.request .ctor callEnv (fun _ => 0)) =
      .ok { State.init callEnv (fun _ => 0) with control := .loopTop } := rfl
  have hemulate : perform 968 .x86_64 300 { State.init callEnv (fun _ => 0) with control := .loopTop } (.protocol .loopTop) =
      .ok (.init callEnv (fun _ => 0)) := rfl
  have htrap : perform 968 .x86_64 300 (.init callEnv (fun _ => 0)) (.protocol (.trapCall false callEnv (fun _ => 0))) =
      .ok calledState := rfl
  have henter : perform 968 .x86_64 300 calledState (.protocol .loopTop) = .ok hostState := rfl
  have hback : perform 968 .x86_64 300 hostState (.protocol (.callback 4096 ⟨0, 0, 0, 0⟩)) = .ok callbackState := rfl
  have habides : Permitted 968 .x86_64 hostState (.protocol (.callback 4096 ⟨0, 0, 0, 0⟩)) := by
    intro a ha
    cases ha
    decide
  have hloaded : Run 968 .x86_64 300 callEnv (fun _ => 0) (.init callEnv (fun _ => 0)) [.request .ctor] ⟨1, 0, 0, 0⟩ :=
    .step (.step .init (by trivial) hload) (by trivial) hemulate
  have hcalled : Run 968 .x86_64 300 callEnv (fun _ => 0) hostState [.request .ctor, .call 0] ⟨2, 1, 0, 0⟩ :=
    .step (.step hloaded (by trivial) htrap) (by trivial) henter
  exact calls_accounted (by decide) (.step hcalled habides hback)

end Machine

end Comulator.CallStack
