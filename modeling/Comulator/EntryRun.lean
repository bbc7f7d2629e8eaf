import Comulator.BodyRun

namespace Comulator.EntryRun

open Fallible Types Ir TypeHash Symtbl HostIr TakeOut Exec Simulation ExecRules Compose CallbackRun OperandRun InstRun
  BodyRun

variable {Sc W : Type} {E : Setting Sc W} {O : Offloaded} {fuel : Nat} {call : Caller Sc W}
variable {fcp : Nat → Interface → List (Val Sc) → Run Sc W (Val Sc)} {I : Input} {f : GFunction} {info : FuncInfo}
variable {P : Pads Sc} {args gargs : List (Val Sc)} {env env' : Env HostId Sc} {pos : Nat}

section Place

theorem place_cons (pos : Nat) (op : HOp) (ops : List HOp) :
    place pos (op :: ops) = ⟨callName none pos 0, op⟩ :: place (pos + 1) ops := by
  unfold place
  rw [List.zipIdx_cons, List.map_cons, Nat.zero_add, List.zipIdx_succ, List.map_map]
  congr 1
  refine List.map_congr_left (fun p _ => ?_)
  simp only [Function.comp, entryName]
  rw [Nat.add_right_comm, Nat.add_assoc]

theorem place_range (pos n : Nat) (op : Nat → HOp) :
    place pos ((List.range n).map op) = (List.range n).map (fun i => ⟨callName none pos i, op i⟩) := by
  refine List.ext_getElem (by simp [place]) (fun i h₁ h₂ => ?_)
  simp [place, callName, entryName]

theorem place_length (pos : Nat) (ops : List HOp) : (place pos ops).length = ops.length := by simp [place]

theorem evalValues_exists {vs : List HValue} (h : ∀ v ∈ vs, ∃ w, evalValue E.sem hostSymbols args env v = some w) :
    ∃ ws, evalValues E.sem hostSymbols args env vs = some ws := by
  induction vs with
  | nil => exact ⟨[], rfl⟩
  | cons v vs ih =>
      obtain ⟨w, hw⟩ := h v List.mem_cons_self
      obtain ⟨ws, hws⟩ := ih (fun u hu => h u (List.mem_cons_of_mem _ hu))
      exact ⟨w :: ws, by rw [evalValues_cons, hw, hws]; rfl⟩

theorem debugCode_run (hargs : args.length = (hstubType I).params.length) :
    Computes E O fuel call fcp args P none 1 env (debugCode I info) env := by
  unfold debugCode
  split
  next =>
    refine ⟨?_, Off.refl⟩
    have hvals : ∃ ws, evalValues E.sem hostSymbols args env (((ptrTy, (.const (.global .callDebugFmt) : HValue)) ::
        (.integer 32, .const (.int 32 info.uid)) :: (List.range (if I.config.useGRT then 2 else 4)).map
          (fun i => pointer (.arg i))).map Prod.snd) = some ws := by
      refine evalValues_exists (fun v hv => ?_)
      simp only [List.map_cons, List.map_map, List.mem_cons, List.mem_map, List.mem_range, Function.comp] at hv
      rcases hv with rfl | rfl | ⟨i, hi, rfl⟩
      · exact ⟨_, rfl⟩
      · exact ⟨_, rfl⟩
      · have hlt : i < args.length := by rw [hargs]; simpa [hstubType, ptrsType] using hi
        exact ⟨args[i], List.getElem?_eq_getElem hlt⟩
    obtain ⟨ws, hws⟩ := hvals
    exact Silent.single (Silent.void (execCall_silent hws (callee_direct rfl rfl) (.pure Val.undef)) rfl)
  next => exact Computes.nil _ _ _

/-- The fields of a pad, as they are named. -/
theorem loadFields_run {ty : Ty} {ptr : HValue} {j : Nat} {ws : List (Val Sc)}
    (hptr : evalValue E.sem hostSymbols args env ptr = some (.addr (.pad j))) (hj : P[j]? = some (ty, .agg ws)) :
    ∃ env', Computes E O fuel call fcp args P none pos env (loadFields pos ty ptr ws.length) env' ∧
      ∀ i, i < ws.length → pos + 1 + i < pos + (loadFields pos ty ptr ws.length).length ∧
        env' (entryName (pos + 1 + i)) = ws[i]? := by
  have hload : Silent Machine.withPads P (.agg ws) P
      (execOp E.sem (hostCtx E O fuel call fcp) args env (.load ty ptr)) := load_silent hptr hj
  have hne : ∀ i, callName none pos 0 ≠ callName none (pos + 1) i := by
    intro i h
    simp only [callName, HostId.mk.injEq] at h
    omega
  obtain ⟨env', hrun, hoff, _, hfields⟩ := extract_run (P := P) (C := hostCtx E O fuel call fcp)
    (callName_injective none (pos + 1)) hne (Function.update_self (callName none pos 0) _ _) ws.length (Nat.le_refl _)
  refine ⟨env', ?_, fun i hi => ⟨?_, hfields i hi⟩⟩
  case refine_2 =>
    rw [loadFields, place_length, List.length_cons, List.length_map, List.length_range]
    omega
  rw [loadFields, place_cons, place_range]
  exact Computes.append (Silent.computes hload rfl) ⟨hrun, hoff⟩

end Place

section Arguments

variable {retPad argPad : Val Sc}

theorem hstubArgs_eq {a : Nat → HValue} (h : hstubArgs f info pos = .ok a) :
    a = fun i => .inst (entryName (pos + 1 + i)) := by
  unfold hstubArgs at h
  split at h
  next =>
    cases h
    rfl
  next => cases h

theorem argsCode_run (harg : info.stubType.arg = argType f.type) (hpads : CallPads P retPad argPad f.type gargs)
    (hptr : args[1]? = some argPad) :
    ∃ env', Computes E O fuel call fcp args P none pos env (argsCode f info pos) env' ∧
      ∀ i, i < gargs.length → pos + 1 + i < pos + (argsCode f info pos).length ∧
        env' (entryName (pos + 1 + i)) = gargs[i]? := by
  unfold argsCode
  by_cases hps : f.type.params = []
  · have hnone : info.stubType.arg = none := by simp [harg, argType, hps]
    have hlen := hpads.length
    rw [hps] at hlen
    rw [hnone]
    refine ⟨env, Computes.nil _ _ _, fun i hi => ?_⟩
    rw [hlen] at hi
    cases hi
  · have hsome : info.stubType.arg = some (.struct f.type.params false) := by simp [harg, argType, hps]
    obtain ⟨j, rfl, hj⟩ := hpads.arg hps
    rw [hsome]
    simp only
    rw [← hpads.length]
    exact loadFields_run hptr hj

end Arguments

section References

variable {K : Type} {keys : List K}

theorem assign_mem [DecidableEq K] {V : Type} {l : List (K × V)} {k : K} {x : V} (h : assign l k = some x) : (k, x) ∈ l := by
  have hfold : ∀ (l : List (K × V)) (map : K → Option V),
      l.foldl (fun (map : K → Option V) e => Function.update map e.1 (some e.2)) map k = some x →
        map k = some x ∨ (k, x) ∈ l := by
    intro l
    induction l with
    | nil => exact fun map h => .inl h
    | cons e l ih =>
        intro map h
        rcases ih (Function.update map e.1 (some e.2)) h with h | h
        · by_cases hk : k = e.1
          · subst hk
            rw [Function.update_self] at h
            cases h
            exact .inr List.mem_cons_self
          · rw [Function.update_of_ne hk] at h
            exact .inl h
        · exact .inr (List.mem_cons_of_mem _ h)
  rcases hfold l _ h with h | h
  · cases h
  · exact h

def Named (val : K → Val Sc) (names : List (K × HostId)) (bound : Nat) (env : Env HostId Sc) : Prop :=
  ∀ k x, (k, x) ∈ names → x.owner = none ∧ x.index < bound ∧ env x = some (val k)

theorem Named.off {val : K → Val Sc} {names : List (K × HostId)} {bound : Nat} (h : Named val names bound env)
    (hbound : bound ≤ pos) (hoff : Off (callName none pos) env env') : Named val names bound env' := by
  intro k x hx
  obtain ⟨howner, hlt, hval⟩ := h k x hx
  refine ⟨howner, hlt, (hoff x (fun i hi => ?_)).trans hval⟩
  rw [hi] at hlt
  simp only [callName] at hlt
  omega

theorem Named.mono {val : K → Val Sc} {names : List (K × HostId)} {bound bound' : Nat}
    (h : Named val names bound env) (hle : bound ≤ bound') : Named val names bound' env :=
  fun k x hx => ⟨(h k x hx).1, Nat.lt_of_lt_of_le (h k x hx).2.1 hle, (h k x hx).2.2⟩

theorem padFields_run {val : K → Val Sc} {ptr : HValue} {padPtr : Val Sc}
    (hptr : evalValue E.sem hostSymbols args env ptr = some padPtr)
    (hpad : keys ≠ [] → ∃ j, padPtr = .addr (.pad j) ∧
      P[j]? = some (.array ptrTy keys.length, .agg (keys.map val))) :
    ∃ env', Computes E O fuel call fcp args P none pos env (padFields pos ptr keys) env' ∧
      Named val (fieldNames pos keys) (pos + (padFields pos ptr keys).length) env' := by
  unfold padFields
  by_cases hkeys : keys = []
  · subst hkeys
    refine ⟨env, Computes.nil _ _ _, fun k x hx => ?_⟩
    cases hx
  · obtain ⟨j, rfl, hj⟩ := hpad hkeys
    rw [if_neg (by simpa using hkeys)]
    obtain ⟨env', hrun, hfields⟩ : ∃ env', Computes E O fuel call fcp args P none pos env
        (loadFields pos (.array ptrTy keys.length) ptr (keys.map val).length) env' ∧ _ := loadFields_run hptr hj
    rw [List.length_map] at hrun
    refine ⟨env', hrun, fun k x hx => ?_⟩
    obtain ⟨⟨k', i⟩, hmem, heq⟩ := List.mem_map.mp hx
    cases heq
    have hi := List.mem_zipIdx_iff_getElem?.mp hmem
    obtain ⟨hlt, hval⟩ := hfields i (by rw [List.length_map]; exact (List.getElem?_eq_some_iff.mp hi).1)
    rw [List.length_map] at hlt
    refine ⟨rfl, hlt, ?_⟩
    rw [hval, List.getElem?_map, hi]
    rfl

def InTable (O : Offloaded) (t : Table) (val : K → Val Sc) (keys : List K) (uids : List Nat) : Prop :=
  List.Forall₂ (fun k uid => tableEntry O t (Int.ofNat uid) = some (val k)) keys uids

def tableSym : Table → HostSym
  | .extreftbl => .extreftbl
  | .cbstubtbl => .cbstubtbl

variable {t : Table}

theorem table_computes (t : Table) :
    Computes E O fuel call fcp args P none pos env [⟨entryName pos, .load ptrTy (.const (.global (tableSym t)))⟩]
      (Function.update env (entryName pos) (some (.addr (.entry t 0)))) := by
  have hload : Silent Machine.withPads P (.addr (.entry t 0)) P
      (execOp E.sem (hostCtx E O fuel call fcp) args env (.load ptrTy (.const (.global (tableSym t))))) := by
    cases t <;> exact (need_silent rfl).bind (.pure _)
  exact Silent.computes hload rfl

theorem element_computes {i : Nat} (uid : Nat) (hi : env (entryName i) = some (.addr (.entry t 0))) :
    Computes E O fuel call fcp args P none pos env [⟨entryName pos, .elementPtr (.inst (entryName i)) uid⟩]
      (Function.update env (entryName pos) (some (.addr (.entry t (Int.ofNat uid))))) := by
  have helement : Silent Machine.withPads P (.addr (.entry t (Int.ofNat uid))) P
      (execOp E.sem (hostCtx E O fuel call fcp) args env (.elementPtr (.inst (entryName i)) uid)) := by
    refine (need_silent hi).bind ?_
    simp only [elementOf, Int.zero_add]
    exact .pure _
  exact Silent.computes helement rfl

theorem entry_computes {i uid : Nat} {v : Val Sc} (hi : env (entryName i) = some (.addr (.entry t (Int.ofNat uid))))
    (hv : tableEntry O t (Int.ofNat uid) = some v) :
    Computes E O fuel call fcp args P none pos env [⟨entryName pos, .load ptrTy (.inst (entryName i))⟩]
      (Function.update env (entryName pos) (some v)) := by
  have hload : Silent Machine.withPads P v P
      (execOp E.sem (hostCtx E O fuel call fcp) args env (.load ptrTy (.inst (entryName i)))) := by
    refine (need_silent hi).bind ?_
    simp only [loadFrom, hostCtx, hostCell, hv, if_true]
    exact .pure _
  exact Silent.computes hload rfl

theorem tableEntries_cons (pos : Nat) (tbl : HostSym) (uid : Nat) (uids : List Nat) :
    tableEntries pos tbl (uid :: uids) =
      [⟨entryName pos, .load ptrTy (.const (.global tbl))⟩,
        ⟨entryName (pos + 1), .elementPtr (.inst (entryName pos)) uid⟩,
        ⟨entryName (pos + 2), .load ptrTy (.inst (entryName (pos + 1)))⟩] ++ tableEntries (pos + 3) tbl uids := by
  unfold tableEntries
  rw [List.zipIdx_cons, List.flatMap_cons, Nat.zero_add, List.zipIdx_succ, List.flatMap_map]
  simp only [List.cons_append, List.nil_append, place_cons]
  have hnames : ∀ i, pos + 3 * (i + 1) = pos + 3 + 3 * i := fun i => by omega
  simp only [hnames]
  rfl

theorem entryNames_cons (pos : Nat) (k : K) (keys : List K) :
    entryNames pos (k :: keys) = (k, entryName (pos + 2)) :: entryNames (pos + 3) keys := by
  unfold entryNames
  rw [List.zipIdx_cons, List.map_cons, Nat.zero_add, List.zipIdx_succ, List.map_map]
  congr 1
  refine List.map_congr_left (fun p _ => ?_)
  simp only [Function.comp, entryName]
  congr 2
  omega

theorem Named.cons {val : K → Val Sc} {k : K} {i bound : Nat} {names : List (K × HostId)}
    (hi : env (entryName i) = some (val k)) (hlt : i < bound) (h : Named val names bound env) :
    Named val ((k, entryName i) :: names) bound env := by
  intro k' x hx
  rcases List.mem_cons.mp hx with heq | hx
  · cases heq
    exact ⟨rfl, hlt, hi⟩
  · exact h k' x hx

theorem off_entry {i : Nat} (hi : i < pos) (h : Off (callName none pos) env env') :
    env' (entryName i) = env (entryName i) := by
  refine h _ (fun j hj => ?_)
  simp only [entryName, callName, HostId.mk.injEq] at hj
  omega

theorem tableEntries_run {val : K → Val Sc} {uids : List Nat} (h : InTable O t val keys uids) :
    ∃ env', Computes E O fuel call fcp args P none pos env (tableEntries pos (tableSym t) uids) env' ∧
      Named val (entryNames pos keys) (pos + (tableEntries pos (tableSym t) uids).length) env' := by
  induction h generalizing pos env with
  | nil => exact ⟨env, Computes.nil _ _ _, fun k x hx => by cases hx⟩
  | @cons k uid keys uids hk _ ih =>
      rw [tableEntries_cons, entryNames_cons]
      have hload : Computes E O fuel call fcp args P none pos env _ _ := table_computes t
      have helement := hload.append (element_computes uid (Function.update_self _ _ _))
      have hcode := helement.append (entry_computes (Function.update_self _ _ _) hk)
      obtain ⟨env', hrun, hnamed⟩ := ih
      refine ⟨env', hcode.append hrun, Named.cons ?_ (by simp) (hnamed.mono (by simp; omega))⟩
      have hlast : env' (entryName (pos + 2)) = _ := off_entry (Nat.lt_succ_self (pos + 2)) hrun.off
      exact hlast.trans (Function.update_self _ _ _)

def fcpEntries (base : HostId) (pos : Nat) (uids : List Nat) : List HInst :=
  place (pos + 1) (uids.zipIdx.flatMap (fun p =>
    [.elementPtr (.inst base) p.1, .load ptrTy (.inst (entryName (pos + 2 * p.2 + 1)))]))

theorem fcpEntries_cons (base : HostId) (pos uid : Nat) (uids : List Nat) :
    fcpEntries base pos (uid :: uids) =
      [⟨entryName (pos + 1), .elementPtr (.inst base) uid⟩,
        ⟨entryName (pos + 2), .load ptrTy (.inst (entryName (pos + 1)))⟩] ++ fcpEntries base (pos + 2) uids := by
  unfold fcpEntries
  rw [List.zipIdx_cons, List.flatMap_cons, Nat.zero_add, List.zipIdx_succ, List.flatMap_map]
  simp only [List.cons_append, List.nil_append, place_cons]
  have hnames : ∀ i, pos + 2 * (i + 1) + 1 = pos + 2 + 2 * i + 1 := fun i => by omega
  simp only [hnames]
  rfl

theorem fcpEntryNames_cons (pos : Nat) (k : K) (keys : List K) :
    fcpEntryNames pos (k :: keys) = (k, entryName (pos + 2)) :: fcpEntryNames (pos + 2) keys := by
  unfold fcpEntryNames
  rw [List.zipIdx_cons, List.map_cons, Nat.zero_add, List.zipIdx_succ, List.map_map]
  congr 1
  refine List.map_congr_left (fun p _ => ?_)
  simp only [Function.comp, entryName]
  congr 2
  omega

theorem fcpEntries_run {val : K → Val Sc} {uids : List Nat} {i : Nat} (hi : i ≤ pos)
    (hbase : env (entryName i) = some (.addr (.entry t 0))) (h : InTable O t val keys uids) :
    ∃ env', Computes E O fuel call fcp args P none (pos + 1) env (fcpEntries (entryName i) pos uids) env' ∧
      Named val (fcpEntryNames pos keys) (pos + 1 + (fcpEntries (entryName i) pos uids).length) env' := by
  induction h generalizing pos env with
  | nil => exact ⟨env, Computes.nil _ _ _, fun k x hx => by cases hx⟩
  | @cons k uid keys uids hk _ ih =>
      rw [fcpEntries_cons, fcpEntryNames_cons]
      have helement : Computes E O fuel call fcp args P none (pos + 1) env _ _ := element_computes uid hbase
      have hcode := helement.append (entry_computes (Function.update_self _ _ _) hk)
      obtain ⟨env', hrun, hnamed⟩ := @ih _ _ (show i ≤ pos + 2 by omega) ((off_entry (by omega) hcode.off).trans hbase)
      refine ⟨env', hcode.append hrun, Named.cons ?_ (by simp; omega) (hnamed.mono (by simp; omega))⟩
      have hlast : env' (entryName (pos + 2)) = _ := off_entry (Nat.lt_succ_self (pos + 2)) hrun.off
      exact hlast.trans (Function.update_self _ _ _)

theorem fcpTableEntries_run {val : K → Val Sc} {uids : List Nat} (h : InTable O t val keys uids) :
    ∃ env', Computes E O fuel call fcp args P none pos env (fcpTableEntries pos (tableSym t) uids) env' ∧
      Named val (fcpEntryNames pos keys) (pos + (fcpTableEntries pos (tableSym t) uids).length) env' := by
  have hload : Computes E O fuel call fcp args P none pos env _ _ := table_computes t
  obtain ⟨env', hrun, hnamed⟩ := fcpEntries_run (Nat.le_refl pos) (Function.update_self _ _ _) h
  have hcode : fcpTableEntries pos (tableSym t) uids =
      [⟨entryName pos, .load ptrTy (.const (.global (tableSym t)))⟩] ++ fcpEntries (entryName pos) pos uids :=
    place_cons _ _ _
  rw [hcode]
  exact ⟨env', hload.append hrun, hnamed.mono (by simp; omega)⟩

end References

end Comulator.EntryRun
