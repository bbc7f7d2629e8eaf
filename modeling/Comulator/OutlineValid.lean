import Comulator.Offloadable

namespace Comulator.OutlineValid

open Types Ir TypeHash HostIr Outline Offloadable

/-- The calls that share an outliner are alike, and none is of an intrinsic. -/
structure Agreeing (H : HashOps) (names : Nat → GValue → String) (m : Module) (bw : BwList) : Prop where
  callee : ∀ c h, Outlined H names m bw c h → callsIntrinsic m c = false
  calls : ∀ c c' h, Outlined H names m bw c h → Outlined H names m bw c' h →
    c.interface = c'.interface ∧ outlinerType c = outlinerType c'

variable {H : HashOps} {names : Nat → GValue → String} {m : Module} {bw : BwList}

section Outliners

theorem Agreeing.outliner (ha : Agreeing H names m bw) {c : GCall} {h : HashCode} (hc : Outlined H names m bw c h)
    {j : Nat} {f : GFunction} (hj : (outliners H names m bw)[j]? = some (h, f)) :
    ∃ c₀, f = outlinerFunction c₀ ∧ outlinerType c₀ = outlinerType c ∧ c₀.interface = c.interface := by
  obtain ⟨c₀, hc₀, hf⟩ := (outline_spec H names m bw).1.calls _ (List.mem_of_getElem? hj)
  obtain ⟨hinterface, htype⟩ := ha.calls c₀ c h hc₀ hc
  exact ⟨c₀, hf, htype, hinterface⟩

/-- The call in an instruction of a function that the pass goes through. -/
theorem outlined_of_mem {g : Nat} {f : GFunction} (hf : m.function? g = some f) (hout : outlines names bw g f = true)
    {b : Nat × GBlock} (hb : b ∈ f.blocks) {i : GInst} (hi : i ∈ b.2.insts) {c : GCall} {h : HashCode}
    (hc : outlined? H (names g) i = some (c, h)) : Outlined H names m bw c h := by
  obtain ⟨bi, hbi⟩ := List.mem_iff_getElem?.mp hb
  obtain ⟨ii, hii⟩ := List.mem_iff_getElem?.mp hi
  refine ⟨g, bi, ii, i, ?_, ⟨f, hf, hout⟩, hc⟩
  simp [instAt, Module.function?_eq_some.mp hf, hbi, hii]

end Outliners

section Valid

structure Valid (symbols : List GlobalValue) (f : GFunction) : Prop where
  ids : (Module.ids f).Nodup
  labels : (f.blocks.map Prod.fst).Nodup
  calls : ∀ c ∈ Module.calls f, Module.verifyCall symbols c = true
  insts : ∀ b ∈ f.blocks, ∀ i ∈ b.2.insts, Module.isProgramOp i.op = true
  rets : ∀ b ∈ f.blocks, Module.verifyRet f.type.ret b.2.term = true
  entry : ∀ b bs, f.blocks = b :: bs → b.2.phis = []
  declared : f.isIntrinsic = true → f.isDeclaration = true
  operands : ∀ v ∈ Module.operands f, Module.verifyValue f.type.params.length v = true
  callees : ∀ c ∈ Module.calls f, Module.verifyValue f.type.params.length c.calledOperand = true

theorem Valid.verified {symbols : List GlobalValue} {f : GFunction} (h : Valid symbols f) :
    Module.verifyFunction symbols f = true := by
  unfold Module.verifyFunction
  simp only [Bool.and_eq_true, decide_eq_true_eq, List.all_eq_true]
  refine ⟨⟨⟨⟨⟨⟨h.ids, h.labels⟩, h.calls⟩, fun b hb => ⟨h.insts b hb, h.rets b hb⟩⟩, ?_⟩, ?_⟩, ?_⟩
  · have hentry := h.entry
    cases hblocks : f.blocks with
    | nil => rfl
    | cons b bs => exact List.isEmpty_iff.mpr (hentry b bs hblocks)
  · have hdeclared := h.declared
    cases hi : f.isIntrinsic with
    | false => rfl
    | true => exact hdeclared hi
  · intro v hv
    rcases List.mem_append.mp hv with hv | hv
    · exact h.operands v hv
    · obtain ⟨c, hc, rfl⟩ := List.mem_map.mp hv
      exact h.callees c hc

theorem valid_of_function? {g : Nat} {f : GFunction} (hf : m.function? g = some f) : Valid m.symbols f where
  ids := Module.ids_nodup hf
  labels := Module.labels_nodup hf
  calls := fun _ hc => Module.verifyCall_of_mem hf hc
  insts := fun _ hb => (Module.verify_block hf hb).1
  rets := fun _ hb => (Module.verify_block hf hb).2
  entry := fun _ _ hb => Module.entry_phis hf hb
  declared := by
    intro hi
    have hv := Module.verifyFunction_of_function? hf
    simp only [Module.verifyFunction, Bool.and_eq_true, hi, Bool.not_true, Bool.false_or] at hv
    exact hv.1.2
  operands := fun _ hv => Module.verify_operand hf hv
  callees := fun _ hc => Module.verify_calledOperand hf hc

variable (H names m bw) in
inductive Outcome (i : GInst) : GInst → Prop
  | kept : Outcome i i
  | replaced {c : GCall} {h : HashCode} {j : Nat} {fo : GFunction} (hop : i.op = .call c)
      (hc : Outlined H names m bw c h) (hj : (outliners H names m bw)[j]? = some (h, fo)) :
      Outcome i ⟨i.id, .call (outlinerCall (m.symbols.length + j) fo c)⟩

variable (H names m bw) in
def BlockOutcome (b b' : Nat × GBlock) : Prop :=
  ∃ insts, b' = (b.1, { b.2 with insts }) ∧ List.Forall₂ (Outcome H names m bw) b.2.insts insts

theorem replaced_outcome {g : Nat} {i i' : GInst} (h : Replaced H m (names g) (outliners H names m bw) i i')
    (hc : ∀ c k, outlined? H (names g) i = some (c, k) → Outlined H names m bw c k) : Outcome H names m bw i i' := by
  unfold Replaced at h
  split at h
  next c k hsite =>
    obtain ⟨j, fo, hj, rfl⟩ := h
    exact .replaced ((outlined?_eq_some _).mp hsite).1 (hc c k hsite) hj
  next =>
    subst h
    exact .kept

variable (H names bw) in
/-- The functions of the module keep their places and all but their calls. -/
theorem outline_blocks {g : Nat} {f : GFunction} (hf : m.function? g = some f) :
    ∃ blocks, (outline H names m bw)[g]? = some (.function { f with blocks }) ∧
      List.Forall₂ (BlockOutcome H names m bw) f.blocks blocks := by
  obtain ⟨blocks, hget, hbody⟩ := outline_function H names bw (Module.function?_eq_some.mp hf)
  refine ⟨blocks, hget, ?_⟩
  unfold BodyChanged at hbody
  split at hbody
  next hout =>
    refine ((List.forall₂_and_left _ _).mpr ⟨fun b hb => hb, hbody⟩).imp ?_
    rintro b _ ⟨hb, insts, rfl, hinsts⟩
    refine ⟨insts, rfl, ((List.forall₂_and_left _ _).mpr ⟨fun i hi => hi, hinsts⟩).imp ?_⟩
    rintro i i' ⟨hi, hrepl⟩
    exact replaced_outcome hrepl (fun c k hc => outlined_of_mem hf hout hb hi hc)
  next =>
    subst hbody
    exact List.forall₂_same.mpr (fun b _ => ⟨b.2.insts, rfl, List.forall₂_same.mpr (fun i _ => .kept)⟩)

theorem map_id_outcome {l l' : List GInst} (h : List.Forall₂ (Outcome H names m bw) l l') :
    l'.map Inst.id = l.map Inst.id := by
  induction h with
  | nil => rfl
  | cons hi _ ih =>
      rw [List.map_cons, List.map_cons, ih]
      cases hi <;> rfl

theorem flatMap_outcome {α : Type} {k : Nat × GBlock → List α} {l l' : List (Nat × GBlock)}
    (h : List.Forall₂ (BlockOutcome H names m bw) l l') (hk : ∀ b b', BlockOutcome H names m bw b b' → k b' = k b) :
    l'.flatMap k = l.flatMap k := by
  induction h with
  | nil => rfl
  | cons hb _ ih => rw [List.flatMap_cons, List.flatMap_cons, ih, hk _ _ hb]

section Function

variable {f : GFunction} {blocks : List (Nat × GBlock)} (hblocks : List.Forall₂ (BlockOutcome H names m bw) f.blocks blocks)

include hblocks in
theorem ids_outcome : Module.ids { f with blocks } = Module.ids f := by
  refine flatMap_outcome hblocks ?_
  rintro b _ ⟨insts, rfl, hinsts⟩
  rw [map_id_outcome hinsts]

include hblocks in
theorem labels_outcome : blocks.map Prod.fst = f.blocks.map Prod.fst := by
  rw [List.map_eq_flatMap, List.map_eq_flatMap]
  refine flatMap_outcome hblocks ?_
  rintro b _ ⟨insts, rfl, _⟩
  rfl

include hblocks in
/-- A block of the new function is an old one with other instructions. -/
theorem mem_blocks_outcome {b' : Nat × GBlock} (hb' : b' ∈ blocks) : ∃ b ∈ f.blocks, BlockOutcome H names m bw b b' :=
  forall₂_mem_right hblocks hb'

end Function

theorem verifyCall_outline {c : GCall} (h : Module.verifyCall m.symbols c = true) :
    Module.verifyCall (outline H names m bw) c = true := by
  unfold Module.verifyCall at h ⊢
  rw [Bool.and_eq_true] at h ⊢
  refine ⟨h.1, ?_⟩
  replace h := h.2
  cases hc : c.calledOperand with
  | const d =>
      cases d with
      | global g =>
          rw [hc] at h
          dsimp only at h ⊢
          cases hv : m.symbols[g]? with
          | some v =>
              obtain ⟨v', hv', hchanged⟩ := outline_symbol H names bw hv
              rw [hv] at h
              rw [hv']
              cases v with
              | function f =>
                  obtain ⟨blocks, rfl, _⟩ := hchanged
                  exact h
              | _ =>
                  cases hchanged
                  rfl
          | none =>
              obtain ⟨j, rfl⟩ := Nat.exists_eq_add_of_le (List.getElem?_eq_none_iff.mp hv)
              rw [outline_above]
              cases hj : (outliners H names m bw)[j]? with
              | none => rfl
              | some e =>
                  obtain ⟨c₀, _, hf⟩ := (outline_spec H names m bw).1.calls e (List.mem_of_getElem? hj)
                  rw [Option.map_some, hf]
                  rfl
      | _ => rfl
  | _ => rfl

theorem Agreeing.verifyCall (ha : Agreeing H names m bw) {c : GCall} {h : HashCode} (hc : Outlined H names m bw c h)
    {j : Nat} {fo : GFunction} (hj : (outliners H names m bw)[j]? = some (h, fo)) :
    Module.verifyCall (outline H names m bw) (outlinerCall (m.symbols.length + j) fo c) = true := by
  obtain ⟨c₀, rfl, htype, _⟩ := ha.outliner hc hj
  have hsymbol : (outline H names m bw)[m.symbols.length + j]? = some (.function (outlinerFunction c₀)) := by
    rw [outline_above, hj]
    rfl
  have hparams : (operands c).map Prod.fst = (outlinerType c₀).params := by rw [htype]; rfl
  unfold Module.verifyCall
  rw [Bool.and_eq_true]
  refine ⟨?_, ?_⟩
  · rw [Bool.or_eq_true, decide_eq_true_eq]
    exact .inr hparams
  · simp only [outlinerCall, hsymbol]
    rfl

/-- An outliner makes one call, of its last argument. -/
theorem outlinerFunction_valid (symbols : List GlobalValue) {c : GCall} (hva : c.functionType.isVarArg = true) :
    Valid symbols (outlinerFunction c) where
  ids := by
    have hids : Module.ids (outlinerFunction c) = [0, 1] := rfl
    rw [hids]
    decide
  labels := List.nodup_singleton 0
  calls := by
    intro d hd
    cases List.mem_singleton.mp hd
    simp [Module.verifyCall, outlinerClone, hva]
  insts := by
    intro b hb i hi
    cases List.mem_singleton.mp hb
    cases List.mem_singleton.mp hi
    rfl
  rets := by
    intro b hb
    cases List.mem_singleton.mp hb
    change Module.verifyRet c.functionType.ret (.ret (outlinerRet c)) = true
    unfold outlinerRet
    by_cases hvoid : c.functionType.ret = .void
    · simp [hvoid, Module.verifyRet]
    · simp [hvoid, Module.verifyRet]
  entry := by
    intro b bs hb
    cases hb
    rfl
  declared := by
    intro h
    cases h
  operands := by
    intro v hv
    have hparams : (outlinerFunction c).type.params.length = c.args.length + 1 := by
      simp [outlinerFunction, outlinerType, operands]
    rw [hparams]
    rcases List.mem_append.mp (by simpa [Module.operands, outlinerFunction, outlinerBlock, Module.blockOperands] using hv)
      with hv | hv
    · obtain ⟨p, hp, rfl⟩ := List.mem_map.mp hv
      obtain ⟨q, hq, rfl⟩ := List.mem_map.mp hp
      have hlt := (List.mem_zipIdx hq).2.1
      simp only [Module.verifyValue, decide_eq_true_eq]
      omega
    · unfold outlinerRet at hv
      split at hv
      next => cases hv
      next =>
        cases List.mem_singleton.mp hv
        rfl
  callees := by
    intro d hd
    cases List.mem_singleton.mp hd
    simp [outlinerClone, Module.verifyValue, outlinerFunction, outlinerType, operands]

section Changed

variable {g : Nat} {f : GFunction} {blocks : List (Nat × GBlock)} (ha : Agreeing H names m bw)
  (hf : m.function? g = some f) (hblocks : List.Forall₂ (BlockOutcome H names m bw) f.blocks blocks)

include hblocks in
theorem mem_operands_outcome {v : GValue} (hv : v ∈ Module.operands { f with blocks }) :
    v ∈ Module.operands f ∨ v ∈ (Module.calls f).map CallBase.calledOperand := by
  obtain ⟨b', hb', hv⟩ := List.mem_flatMap.mp hv
  obtain ⟨b, hb, insts, rfl, hinsts⟩ := mem_blocks_outcome hblocks hb'
  have hold : ∀ v ∈ Module.blockOperands b.2, v ∈ Module.operands f :=
    fun v hv => List.mem_flatMap.mpr ⟨b, hb, hv⟩
  rcases List.mem_append.mp hv with hv | hv
  · rcases List.mem_append.mp hv with hv | hv
    · exact .inl (hold v (List.mem_append_left _ (List.mem_append_left _ hv)))
    · obtain ⟨i', hi', hv⟩ := List.mem_flatMap.mp hv
      obtain ⟨i, hi, hout⟩ := forall₂_mem_right hinsts hi'
      have hargs : ∀ v ∈ Module.argOperands i.op, v ∈ Module.operands f := fun v hv =>
        hold v (List.mem_append_left _ (List.mem_append_right _ (List.mem_flatMap.mpr ⟨i, hi, hv⟩)))
      cases hout with
      | kept => exact .inl (hargs v hv)
      | @replaced c _ _ _ hop _ _ =>
          have hv : v ∈ (operands c).map Prod.snd := hv
          rw [operands, List.map_append] at hv
          rcases List.mem_append.mp hv with hv | hv
          · refine .inl (hargs v ?_)
            rw [hop]
            exact hv
          · cases List.mem_singleton.mp hv
            exact .inr (List.mem_map_of_mem (Lookups.mem_calls hb hi hop))
  · exact .inl (hold v (List.mem_append_right _ hv))

include hblocks in
/-- A call of the new function is one of the old, or of an outliner. -/
theorem mem_calls_outcome {c : GCall} (hc : c ∈ Module.calls { f with blocks }) : c ∈ Module.calls f ∨
    ∃ c₀ h j fo, Outlined H names m bw c₀ h ∧ (outliners H names m bw)[j]? = some (h, fo) ∧
      c = outlinerCall (m.symbols.length + j) fo c₀ := by
  obtain ⟨b', hb', i', hi', hop'⟩ := Lookups.mem_calls_iff.mp hc
  obtain ⟨b, hb, insts, rfl, hinsts⟩ := mem_blocks_outcome hblocks hb'
  obtain ⟨i, hi, hout⟩ := forall₂_mem_right hinsts hi'
  cases hout with
  | kept => exact .inl (Lookups.mem_calls hb hi hop')
  | replaced _ hsite hj =>
      cases hop'
      exact .inr ⟨_, _, _, _, hsite, hj, rfl⟩

include ha hf hblocks in
theorem outlined_valid : Valid (outline H names m bw) { f with blocks } := by
  have hold := valid_of_function? hf
  refine ⟨?_, ?_, ?_, ?_, ?_, ?_, ?_, ?_, ?_⟩
  · rw [ids_outcome hblocks]
    exact hold.ids
  · rw [labels_outcome hblocks]
    exact hold.labels
  · intro c hc
    rcases mem_calls_outcome hblocks hc with hc | ⟨c₀, h, j, fo, hc₀, hj, rfl⟩
    · exact verifyCall_outline (hold.calls c hc)
    · exact ha.verifyCall hc₀ hj
  · intro b' hb' i' hi'
    obtain ⟨b, hb, insts, rfl, hinsts⟩ := mem_blocks_outcome hblocks hb'
    obtain ⟨i, hi, hout⟩ := forall₂_mem_right hinsts hi'
    cases hout with
    | kept => exact hold.insts b hb _ hi
    | replaced => rfl
  · intro b' hb'
    obtain ⟨b, hb, insts, rfl, _⟩ := mem_blocks_outcome hblocks hb'
    exact hold.rets b hb
  · intro b' bs' hb'
    have hb' : blocks = b' :: bs' := hb'
    subst hb'
    generalize hl : f.blocks = l at hblocks
    cases hblocks with
    | @cons b _ bs _ hb _ =>
        obtain ⟨insts, rfl, _⟩ := hb
        exact hold.entry b bs hl
  · intro hi
    have hempty := hold.declared hi
    unfold Function.isDeclaration at hempty ⊢
    rw [List.isEmpty_iff_length_eq_zero] at hempty ⊢
    rw [← hblocks.length_eq]
    exact hempty
  · intro v hv
    rcases mem_operands_outcome hblocks hv with hv | hv
    · exact hold.operands v hv
    · obtain ⟨c, hc, rfl⟩ := List.mem_map.mp hv
      exact hold.callees c hc
  · intro c hc
    rcases mem_calls_outcome hblocks hc with hc | ⟨c₀, h, j, fo, _, _, rfl⟩
    · exact hold.callees c hc
    · rfl

end Changed

/-- The pass keeps the module valid. -/
theorem outline_verified (ha : Agreeing H names m bw) : Module.verify (outline H names m bw) = true := by
  refine List.all_eq_true.mpr (fun v hv => ?_)
  obtain ⟨g, hg⟩ := List.mem_iff_getElem?.mp hv
  cases v with
  | function f' =>
      by_cases hlt : g < m.symbols.length
      · obtain ⟨v, hsymbol⟩ : ∃ v, m.symbols[g]? = some v := ⟨_, List.getElem?_eq_getElem hlt⟩
        cases v with
        | function f =>
            have hf := Module.function?_eq_some.mpr hsymbol
            obtain ⟨blocks, hget, hblocks⟩ := outline_blocks H names bw hf
            cases hg.symm.trans hget
            exact (outlined_valid ha hf hblocks).verified
        | _ =>
            obtain ⟨v', hv', hchanged⟩ := outline_symbol H names bw hsymbol
            cases hg.symm.trans hv'
            cases hchanged
      · obtain ⟨j, rfl⟩ := Nat.exists_eq_add_of_le (Nat.le_of_not_lt hlt)
        rw [outline_above, Option.map_eq_some_iff] at hg
        obtain ⟨e, he, hf⟩ := hg
        cases hf
        obtain ⟨c, ⟨g, b, i, inst, hsite⟩, hc⟩ := (outline_spec H names m bw).1.calls e (List.mem_of_getElem? he)
        rw [hc]
        exact (outlinerFunction_valid _ ((outlined?_eq_some _).mp hsite.outlined).2.2.1).verified
  | _ => rfl

def outlined (ha : Agreeing H names m bw) : Module := ⟨outline H names m bw, outline_verified ha⟩

end Valid

end Comulator.OutlineValid
