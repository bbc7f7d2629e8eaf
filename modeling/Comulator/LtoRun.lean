import Comulator.LtoPass
import Comulator.Preservation

namespace Comulator.LtoRun

open Types Ir TypeHash Symtbl HostIr TakeOut ChopOff Analyze Lookups Outline PickUp ConfigJson SharedDisk LtoPass
open Exec Compose ExecApprox OutlineValid OutlineRun Visible Offloading

variable {S W : Type}

def filesOf (configDir : String) (K : Disk String String Artifact) (r : Report) : Files String Artifact :=
  r.uid.elim (fun _ => none) (fun uid => K.files (uidDir configDir uid))

def linkedCall (E : Setting S W) (config : FullConfig) (files : Files String Artifact) (k n : Nat) : Left → Caller S W
  | .symbols l => if h : Module.verify l = true then originalCall E ⟨l, h⟩ k n else fun _ _ _ => throw .stuck
  | .chopped m G =>
      match files (irFile config "host") with
      | some (some (.host _ _ M)) => (level E m ⟨M, G⟩ k n).guest
      | _ => fun _ _ _ => throw .stuck

structure Plain (P : Link) (bw : BwList) : Prop where
  fcp : P.config.useFCP = false
  fcpCm : P.config.useFCPcm = false
  picked : pickUp P.numbers P.module P.config.bwList = some bw
  agreeing : P.config.usePFO = true → Agreeing P.hash P.names P.module.toModule bw
  suited : ∀ m : Module, m.symbols = inputSymbols P bw → Suited P.hash m bw
  taken : ∀ m : Module, m.symbols = inputSymbols P bw → ∀ uid,
    ∀ e ∈ calcBenefits m (chopOffConfig P.config) bw (analyze P.hash P.layout m bw uid),
      (bw.funcs e.1).bind FuncBw.takeOut ≠ some false

section Calls

variable {P : Link} {bw : BwList} {E : Setting S W} {k n n' : Nat}

theorem Plain.input_verified (hp : Plain P bw) : Module.verify (inputSymbols P bw) = true := by
  unfold inputSymbols
  split
  next husePFO => exact outline_verified (hp.agreeing husePFO)
  next => exact P.module.verified

/-- The module that is analyzed does what the program did. -/
theorem input_below (hp : Plain P bw) (hE : ∀ v : Val S, isNew P.module.toModule v = true → E.recorded v = true) {m : Module}
    (hm : m.symbols = inputSymbols P bw) (hn : 2 * n ≤ n') (s : Interface) (v : Val S) (vs : List (Val S)) :
    Kept P.module.toModule (originalCall E P.module.toModule k n s v vs)
      (originalCall (outlinedSetting E P.module.toModule) m (k + 1) n' s v vs) := by
  obtain ⟨symbols, hverify⟩ := m
  obtain rfl : symbols = inputSymbols P bw := hm
  by_cases husePFO : P.config.usePFO = true
  · have ha := hp.agreeing husePFO
    have hmodule : (⟨inputSymbols P bw, hverify⟩ : Module) = outlined ha := by
      simp only [outlined, inputSymbols, if_pos husePFO]
    rw [hmodule]
    exact calls_below ha hE n n' hn s v vs
  · have hmodule : (⟨inputSymbols P bw, hverify⟩ : Module) = P.module.toModule := by
      simp only [inputSymbols, if_neg husePFO]
    rw [hmodule]
    exact plain_below hE n n' (by omega) s v vs

/-- A chopped module, with the host module that was taken out of it. -/
theorem level_outcome (hp : Plain P bw) {m : Module} {M : HostModule} {G : GuestModule} {uid : UInt32} {files : Files String Artifact}
    (hmatch : Matching P uid files bw m M)
    (hG : chopOff m (chopOffConfig P.config) bw (analyze P.hash P.layout m bw uid.toNat) = some G) (s : Interface)
    (v : Val S) (vs : List (Val S)) (st : Machine S W) :
    outcome ((level E m ⟨M, G⟩ k n).guest s v vs st) = outcome (originalCall E m k n s v vs st) := by
  have hoffloads : Offloads P.hash P.layout m bw uid.toNat (takeOutConfig P.config) (chopOffConfig P.config) ⟨M, G⟩ :=
    ⟨hmatch.taken, hG, rfl, hp.taken m hmatch.symbols uid.toNat⟩
  exact (outcome_eq (level_follows E hoffloads (hp.suited m hmatch.symbols) hp.fcp hp.fcpCm n st.pads s v vs)).symm

theorem linked_outcome (hp : Plain P bw) (hE : ∀ v : Val S, isNew P.module.toModule v = true → E.recorded v = true)
    {configDir : String} {K₀ K : Disk String String Artifact} {r : Report} (hr : Reported P configDir K₀ K r) {s : Interface}
    {v : Val S} {vs : List (Val S)} {st : Machine S W}
    (hends : (outcome (originalCall E P.module.toModule k n s v vs st)).1 ≠ .error .fuel)
    (hstrays : ¬ Strays P.module.toModule (outcome (originalCall E P.module.toModule k n s v vs st)).2.2) (hn : 2 * n ≤ n') :
    outcome (linkedCall (outlinedSetting E P.module.toModule) P.config (filesOf configDir K r) (k + 1) n' r.left s v vs st) =
      outcome (originalCall E P.module.toModule k n s v vs st) := by
  have hinput : ∀ {m : Module}, m.symbols = inputSymbols P bw →
      originalCall (outlinedSetting E P.module.toModule) m (k + 1) n' s v vs st =
        originalCall E P.module.toModule k n s v vs st :=
    fun hm => (input_below hp hE hm hn s v vs).eq_of_outcome hends hstrays
  cases hleft : r.left with
  | symbols l =>
      -- an unchopped module is either the one that came in or the outlined one
      obtain ⟨_, rfl | ⟨bw', hpick, rfl⟩⟩ := hr.symbols l hleft
      · rw [linkedCall, dif_pos P.module.verified,
          (plain_below hE n n' (by omega) s v vs).eq_of_outcome hends hstrays]
      · cases hp.picked.symm.trans hpick
        rw [linkedCall, dif_pos hp.input_verified, hinput rfl]
  | chopped m G =>
      obtain ⟨uid, bw', M, huid, hmatch, hG, _⟩ := hr.chopped m G hleft
      cases hp.picked.symm.trans hmatch.picked
      have hhost : filesOf configDir K r (irFile P.config "host") = some (some (hostArtifact P uid M)) := by
        rw [filesOf, huid]
        exact hmatch.host
      rw [linkedCall, hhost]
      dsimp only [hostArtifact]
      rw [level_outcome hp hmatch hG, hinput hmatch.symbols]

end Calls

section Example

theorem solo_input {m : Module} (hm : m.symbols = inputSymbols soloLink soloList) :
    m = outlined (solo_agreeing mixHash soloList) := by
  obtain ⟨symbols, hverify⟩ := m
  obtain rfl : symbols = _ := hm
  rfl

theorem solo_suited : Suited mixHash (outlined (solo_agreeing mixHash soloList)) soloList where
  signatures := by
    have hall : ∀ s ∈ signatures (outlined (solo_agreeing mixHash soloList)),
        ∀ t ∈ signatures (outlined (solo_agreeing mixHash soloList)),
          signatureHash mixHash s.1 s.2 = signatureHash mixHash t.1 t.2 → s = t := by decide
    intro s hs t ht h hsh hth
    rw [hall s hs t ht (hsh.trans hth.symm)]
    exact ⟨rfl, rfl⟩
  convention := by
    intro g f hf c hc
    have hall : ∀ g ∈ (outlined (solo_agreeing mixHash soloList)).functions, ∀ f,
        (outlined (solo_agreeing mixHash soloList)).function? g = some f → ∀ c ∈ Module.calls f, c.callingConv = 0 := by
      decide
    exact hall g (Module.mem_functions hf) f hf c hc
  visible := by
    intro g f _ hf
    have hall : ∀ g ∈ (outlined (solo_agreeing mixHash soloList)).functions, ∀ f,
        (outlined (solo_agreeing mixHash soloList)).function? g = some f →
        (∀ v ∈ Module.operands f, ∀ c ∈ valueConsts v, OperandRun.noWrapper c = true) ∧
        (∀ k ∈ Module.calls f, ∀ c ∈ calledConsts k, OperandRun.noWrapper c = true) ∧
        (∀ c ∈ unseen (outlined (solo_agreeing mixHash soloList)) f, ∀ r ∈ constRefs c,
          r ∈ SelfContained.registeredRefs (outlined (solo_agreeing mixHash soloList)) f) ∧
        noSymbols (f.operands ++ f.prefixData.toList) = true := by decide
    obtain ⟨hplain, hcalled, hregistered, hown⟩ := hall g (Module.mem_functions hf) f hf
    exact ⟨hplain, hcalled, hregistered, hown⟩
  called := by
    intro k callee hk _
    have hall : ∀ k ∈ (outlined (solo_agreeing mixHash soloList)).functions, soloList.callees k ≠ some true := by decide
    exact hall k (Module.mem_functions hk)

theorem solo_plain : Plain soloLink soloList where
  fcp := rfl
  fcpCm := rfl
  picked := rfl
  agreeing _ := solo_agreeing mixHash soloList
  suited m hm := by
    rw [solo_input hm]
    exact solo_suited
  taken m hm uid e he := by
    have hall : ∀ k ∈ (outlined (solo_agreeing mixHash soloList)).functions,
        (soloList.funcs k).bind FuncBw.takeOut ≠ some false := by decide
    obtain ⟨f, _, _, hentry⟩ := (AnalyzeSpec.analyze_wellFormed soloLink.hash soloLink.layout m soloList uid).entries e.1 e.2
      (OrderedMap.mem_entries.mp (List.mem_filter.mp he).1)
    have hmem := Module.mem_functions hentry.function
    rw [solo_input hm] at hmem
    exact hall e.1 hmem

end Example

section Pools

variable {ι : Type} [DecidableEq ι] {configDir : String} {P : ι → Link} {K₀ : Disk String String Artifact}
  {s : Pool ι UInt32 String String Artifact String Report} {l : List (ι × Answer UInt32 String)}

end Pools

end Comulator.LtoRun
