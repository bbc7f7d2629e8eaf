import Comulator.ConstExpand
import Comulator.FcpCmSplit

namespace Comulator.PhiValid

open Fallible Types Ir TypeHash Symtbl HostIr TakeOut Analyze AnalyzeSpec Lookups SelfContained ConstExpand FcpCmSplit

def Consistent {γ ι β : Type} (p : Phi γ ι β) : Prop :=
  ∀ v w b, (v, b) ∈ p.incoming → (w, b) ∈ p.incoming → v = w

def isMetadata : GValue → Bool
  | .metadata _ => true
  | _ => false

structure ValidPhis (f : GFunction) : Prop where
  consistent : ∀ b ∈ f.blocks, ∀ p ∈ b.2.phis, Consistent p
  values : ∀ b ∈ f.blocks, ∀ p ∈ b.2.phis, ∀ e ∈ p.incoming, isMetadata e.1 = false

def isExpandedValue : GValue → Bool
  | .const c => isExpanded c
  | _ => false

def ExpandedOnce (p : Phi Nat Nat Nat) : Prop :=
  ∀ (i j : Nat) (v w : GValue) (b : Nat), p.incoming[i]? = some (v, b) → p.incoming[j]? = some (w, b) → i ≠ j →
    isExpandedValue v = false

section Operands

variable {S : Site} {args : Nat → HValue}

theorem doOperand_same {v : GValue} {k k' : Nat} {code code' : List HInst} {w w' : HValue}
    (h : doOperand S args k v = .ok (code, w)) (h' : doOperand S args k' v = .ok (code', w'))
    (hmd : isMetadata v = false) (hexp : isExpandedValue v = false) : w = w' := by
  cases v with
  | const c =>
      obtain ⟨⟨_, ov⟩, hc, h⟩ := bind_eq_ok.mp h
      obtain ⟨⟨_, ov'⟩, hc', h'⟩ := bind_eq_ok.mp h'
      cases h
      cases h'
      rw [doConst_same hc hc' hexp]
  | metadata => cases hmd
  | arg | inst | inlineAsm =>
      cases h
      cases h'
      rfl

theorem doOperand_apart {v : GValue} {k k' : Nat} {code code' : List HInst} {w w' : HValue}
    (h : doOperand S args k v = .ok (code, w)) (h' : doOperand S args k' v = .ok (code', w'))
    (hknown : ∀ r ∈ valueRefs v, (S.refs r).isSome) (hexp : isExpandedValue v = true) (hle : k + code.length ≤ k') :
    w ≠ w' := by
  cases v with
  | const c =>
      obtain ⟨⟨_, ov⟩, hc, h⟩ := bind_eq_ok.mp h
      obtain ⟨⟨_, ov'⟩, hc', h'⟩ := bind_eq_ok.mp h'
      cases h
      cases h'
      obtain ⟨i, rfl, _, hi⟩ := doConst_fresh hc hknown hexp
      obtain ⟨j, rfl, hj, _⟩ := doConst_fresh hc' hknown hexp
      intro heq
      simp only [Option.getD_some, Value.inst.injEq, Site.name, HostId.mk.injEq] at heq
      omega
  | metadata | arg | inst | inlineAsm => cases hexp

theorem doOperands_get {vs : List GValue} {k : Nat} {code : List HInst} {ws : List HValue}
    (h : doOperands S args k vs = .ok (code, ws)) {i : Nat} {v : GValue} (hi : vs[i]? = some v) :
    ∃ k' code' w, ws[i]? = some w ∧ doOperand S args k' v = .ok (code', w) ∧ k ≤ k' := by
  induction vs generalizing k code ws i with
  | nil => cases hi
  | cons u vs ih =>
      obtain ⟨⟨code₁, w⟩, hu, h⟩ := bind_eq_ok.mp h
      obtain ⟨⟨code₂, ws₂⟩, hvs, h⟩ := bind_eq_ok.mp h
      cases h
      cases i with
      | zero =>
          cases hi
          exact ⟨k, code₁, w, rfl, hu, Nat.le_refl k⟩
      | succ i =>
          obtain ⟨k', code', w', hw', hv, hle⟩ := ih hvs hi
          exact ⟨k', code', w', hw', hv, Nat.le_trans (Nat.le_add_right k _) hle⟩

/-- The operands are worked on one after the other. -/
theorem doOperands_apart {vs : List GValue} {k : Nat} {code : List HInst} {ws : List HValue}
    (h : doOperands S args k vs = .ok (code, ws)) {i j : Nat} {v v' : GValue} (hij : i < j) (hi : vs[i]? = some v)
    (hj : vs[j]? = some v') : ∃ k₁ code₁ w₁ k₂ code₂ w₂, ws[i]? = some w₁ ∧ ws[j]? = some w₂ ∧
      doOperand S args k₁ v = .ok (code₁, w₁) ∧ doOperand S args k₂ v' = .ok (code₂, w₂) ∧ k₁ + code₁.length ≤ k₂ := by
  induction vs generalizing k code ws i j with
  | nil => cases hi
  | cons u vs ih =>
      obtain ⟨⟨code₁, w⟩, hu, h⟩ := bind_eq_ok.mp h
      obtain ⟨⟨code₂, ws₂⟩, hvs, h⟩ := bind_eq_ok.mp h
      cases h
      cases j with
      | zero => cases hij
      | succ j =>
          cases i with
          | zero =>
              cases hi
              obtain ⟨k', code', w', hw', hv, hle⟩ := doOperands_get hvs hj
              exact ⟨k, code₁, w, k', code', w', rfl, hw', hu, hv, hle⟩
          | succ i => exact ih hvs (Nat.lt_of_succ_lt_succ hij) hi hj

end Operands

section Phis

variable {P : Input} {X : Copy}

theorem mem_incoming {p : Phi Nat Nat Nat} {ws : List HValue} {x : HValue} {l : HostBlock}
    (h : (x, l) ∈ ws.zip (p.incoming.map (fun q => HostBlock.body q.2))) :
    ∃ (i : Nat) (v : GValue) (b : Nat), p.incoming[i]? = some (v, b) ∧ l = .body b ∧ ws[i]? = some x := by
  obtain ⟨i, hi⟩ := List.mem_iff_getElem?.mp h
  obtain ⟨hx, hl⟩ := List.getElem?_zip_eq_some.mp hi
  rw [List.getElem?_map] at hl
  obtain ⟨⟨v, b⟩, hv, rfl⟩ := Option.map_eq_some_iff.mp hl
  exact ⟨i, v, b, hv, rfl, hx⟩

theorem incoming_of_get {p : Phi Nat Nat Nat} {ws : List HValue} {x : HValue} {i : Nat} {v : GValue} {b : Nat}
    (hi : p.incoming[i]? = some (v, b)) (hx : ws[i]? = some x) :
    (x, HostBlock.body b) ∈ ws.zip (p.incoming.map (fun q => HostBlock.body q.2)) := by
  refine List.mem_of_getElem? (i := i) (List.getElem?_zip_eq_some.mpr ⟨hx, ?_⟩)
  rw [List.getElem?_map, hi]
  rfl

theorem value_get {p : Phi Nat Nat Nat} {i : Nat} {v : GValue} {b : Nat} (h : p.incoming[i]? = some (v, b)) :
    (p.incoming.map Prod.fst)[i]? = some v := by
  rw [List.getElem?_map, h]
  rfl

/-- A phi stays consistent unless a constant is expanded twice. -/
theorem doPhi_consistent_iff {p : Phi Nat Nat Nat} {r : List HInst × HPhi} (h : doPhi P X p = .ok r)
    (hp : Consistent p) (hmd : ∀ e ∈ p.incoming, isMetadata e.1 = false)
    (hknown : ∀ e ∈ p.incoming, ∀ r ∈ valueRefs e.1, (X.refs r).isSome) : Consistent r.2 ↔ ExpandedOnce p := by
  obtain ⟨⟨code, ws⟩, hops, h⟩ := bind_eq_ok.mp h
  cases h
  constructor
  · intro hcons
    -- of two entries with an expanded value the later one names its own
    have hlt : ∀ (i j : Nat) (v w : GValue) (b : Nat), i < j → p.incoming[i]? = some (v, b) → p.incoming[j]? = some (w, b) →
        isExpandedValue v = false := by
      intro i j v w b hij hi hj
      by_contra hexp
      obtain rfl := hp v w b (List.mem_of_getElem? hi) (List.mem_of_getElem? hj)
      obtain ⟨k₁, code₁, w₁, k₂, code₂, w₂, hw₁, hw₂, h₁, h₂, hle⟩ :=
        doOperands_apart hops hij (value_get hi) (value_get hj)
      refine doOperand_apart h₁ h₂ ?_ (by simpa using hexp) hle ?_
      · exact hknown (v, b) (List.mem_of_getElem? hi)
      · exact hcons w₁ w₂ (.body b) (incoming_of_get hi hw₁) (incoming_of_get hj hw₂)
    intro i j v w b hi hj hne
    rcases Nat.lt_or_gt_of_ne hne with hij | hji
    · exact hlt i j v w b hij hi hj
    · obtain rfl := hp v w b (List.mem_of_getElem? hi) (List.mem_of_getElem? hj)
      exact hlt j i v v b hji hj hi
  · intro honce x y l hx hy
    obtain ⟨i, v, b, hi, rfl, hwi⟩ := mem_incoming hx
    obtain ⟨j, w, b', hj, hb, hwj⟩ := mem_incoming hy
    cases hb
    obtain rfl := hp v w b (List.mem_of_getElem? hi) (List.mem_of_getElem? hj)
    by_cases hij : i = j
    · subst hij
      rw [hwi] at hwj
      exact Option.some.inj hwj
    · obtain ⟨k₁, code₁, w₁, hw₁, h₁, _⟩ := doOperands_get hops (value_get hi)
      obtain ⟨k₂, code₂, w₂, hw₂, h₂, _⟩ := doOperands_get hops (value_get hj)
      cases hwi.symm.trans hw₁
      cases hwj.symm.trans hw₂
      exact doOperand_same h₁ h₂ (hmd _ (List.mem_of_getElem? hi)) (honce i j v v b hi hj hij)

theorem mem_phis_assemble {b : Nat} {t : HostId} {term : HTerm} {phis : List HPhi} {code : List HInst}
    {ps : List Piece} {q : HPhi} : (∃ blk ∈ assemble b t term phis code ps, q ∈ blk.2.phis) ↔
      q ∈ phis ∨ ∃ pre s, Piece.split pre s ∈ ps ∧ s.phi = some q := by
  induction ps generalizing phis code with
  | nil => simp [assemble]
  | cons p ps ih =>
      cases p with
      | code l => simp [assemble, ih]
      | split pre s =>
          simp only [assemble, List.exists_mem_cons_iff, ih, List.not_mem_nil, false_or, Option.mem_toList]
          constructor
          · rintro (h | h | ⟨pre', s', hs, h⟩)
            · exact .inl h
            · exact .inr ⟨pre, s, List.mem_cons_self, h⟩
            · exact .inr ⟨pre', s', List.mem_cons_of_mem _ hs, h⟩
          · rintro (h | ⟨pre', s', hs, h⟩)
            · exact .inl h
            · rcases List.mem_cons.mp hs with heq | hs
              · cases heq
                exact .inr (.inl h)
              · exact .inr (.inr ⟨pre', s', hs, h⟩)

/-- The phi that `do_fcp_cm` makes has an entry for each of two blocks. -/
theorem split_consistent {i : GInst} {pre : List HInst} {s : Split} (h : doInstruction P X i = .ok (.split pre s))
    {q : HPhi} (hq : s.phi = some q) : Consistent q := by
  obtain ⟨c, k, callee, args, _, hs⟩ := doInstruction_split h
  rw [doFcpCm_phi hs] at hq
  split at hq
  next => cases hq
  next =>
    cases hq
    intro v w b hv hw
    simp only [List.mem_cons, Prod.mk.injEq, List.not_mem_nil, or_false] at hv hw
    rcases hv with ⟨rfl, rfl⟩ | ⟨rfl, rfl⟩
    · rcases hw with ⟨rfl, _⟩ | ⟨_, hb⟩
      · rfl
      · cases hb
    · rcases hw with ⟨_, hb⟩ | ⟨rfl, _⟩
      · cases hb
      · rfl

theorem doBody_phi {f : GFunction} {entry : List HInst} {blocks : List (HostBlock × HBlock)}
    (h : doBody P X f entry = .ok blocks) {b : Nat × GBlock} (hb : b ∈ f.blocks) {p : Phi Nat Nat Nat}
    (hp : p ∈ b.2.phis) : ∃ r, doPhi P X p = .ok r := by
  obtain ⟨results, hresults, _⟩ := bind_eq_ok.mp h
  obtain ⟨r, _, hblock⟩ := (mapM_ok_mem hresults).1 b hb
  obtain ⟨phis, hphis, _⟩ := bind_eq_ok.mp hblock
  obtain ⟨q, _, hphi⟩ := (mapM_ok_mem hphis).1 p hp
  exact ⟨q, hphi⟩

/-- The phis of a copied body are those of the guest and the joins of
`do_fcp_cm`. -/
theorem doBody_consistent_iff {f : GFunction} {entry : List HInst} {blocks : List (HostBlock × HBlock)}
    (h : doBody P X f entry = .ok blocks) : (∀ blk ∈ blocks, ∀ q ∈ blk.2.phis, Consistent q) ↔
      ∀ b ∈ f.blocks, ∀ p ∈ b.2.phis, ∃ r, doPhi P X p = .ok r ∧ Consistent r.2 := by
  obtain ⟨results, hresults, h⟩ := bind_eq_ok.mp h
  have hall : (∀ blk ∈ results.flatMap Prod.snd, ∀ q ∈ blk.2.phis, Consistent q) ↔
      ∀ b ∈ f.blocks, ∀ p ∈ b.2.phis, ∃ r, doPhi P X p = .ok r ∧ Consistent r.2 := by
    constructor
    · intro hcons b hb p hp
      obtain ⟨r, hr, hblock⟩ := (mapM_ok_mem hresults).1 b hb
      obtain ⟨phis, hphis, hblock⟩ := bind_eq_ok.mp hblock
      obtain ⟨pieces, _, hblock⟩ := bind_eq_ok.mp hblock
      obtain ⟨⟨code, term⟩, _, hblock⟩ := bind_eq_ok.mp hblock
      cases hblock
      obtain ⟨q, hq, hphi⟩ := (mapM_ok_mem hphis).1 p hp
      obtain ⟨blk, hblk, hmem⟩ := mem_phis_assemble.mpr (.inl (List.mem_map_of_mem (f := Prod.snd) hq))
      exact ⟨q, hphi, hcons blk (List.mem_flatMap.mpr ⟨_, hr, hblk⟩) q.2 hmem⟩
    · intro hcons blk hblk q hq
      obtain ⟨r, hr, hblk⟩ := List.mem_flatMap.mp hblk
      obtain ⟨b, hb, hblock⟩ := (mapM_ok_mem hresults).2 r hr
      obtain ⟨phis, hphis, hblock⟩ := bind_eq_ok.mp hblock
      obtain ⟨pieces, hpieces, hblock⟩ := bind_eq_ok.mp hblock
      obtain ⟨⟨code, term⟩, _, hblock⟩ := bind_eq_ok.mp hblock
      cases hblock
      rcases mem_phis_assemble.mp ⟨blk, hblk, hq⟩ with hmem | ⟨pre, s, hs, hphi⟩
      · obtain ⟨e, he, rfl⟩ := List.mem_map.mp hmem
        obtain ⟨p, hp, hphi⟩ := (mapM_ok_mem hphis).2 e he
        obtain ⟨r, hr, hr'⟩ := hcons b hb p hp
        rw [hphi] at hr
        cases hr
        exact hr'
      · rcases List.mem_append.mp hs with hs | hs
        · obtain ⟨i, _, hi⟩ := (mapM_ok_mem hpieces).2 _ hs
          exact split_consistent hi hphi
        · cases List.mem_singleton.mp hs
  split at h
  next => cases h
  next first rest heq =>
    cases h
    rw [List.forall_mem_cons, hall]
    exact and_iff_right (List.forall_mem_nil _)

end Phis

theorem phi_registered {m : Module} {bw : BwList} {f : GFunction} {b : Nat × GBlock} {p : Phi Nat Nat Nat}
    (hb : b ∈ f.blocks) (hp : p ∈ b.2.phis) {e : GValue × Nat} (he : e ∈ p.incoming) {r : Nat} (hr : r ∈ valueRefs e.1) :
    Item.ref r ∈ functionItems m bw f := by
  refine List.mem_flatMap.mpr ⟨b, hb, List.mem_append_left _ (List.mem_append_left _ ?_)⟩
  refine List.mem_map_of_mem (List.mem_flatMap.mpr ⟨e.1, ?_, hr⟩)
  exact List.mem_flatMap.mpr ⟨p, hp, List.mem_map_of_mem he⟩

/-- The phis of the functions made for a function of the table are valid exactly
when none of its phis has a constant to be expanded in several entries for one
predecessor. -/
theorem phis_consistent_iff (H : HashOps) (L : Layout) (m : Module) (config : Config) (bw : BwList) (uid : Nat)
    {M : HostModule} (hM : takeOut (analyzed H L m config bw uid) = .ok M) {g : Nat} {info : FuncInfo} {f : GFunction}
    (hinfo : (analyze H L m bw uid).functbl.find? g = some info) (hfun : m.function? g = some f)
    (hlisted : (bw.funcs g).bind FuncBw.takeOut ≠ some false) (hvalid : ValidPhis f) :
    ∃ gen, doHstubcvt (analyzed H L m config bw uid) g f info = .ok gen ∧
      M.functions.lookup (.hstub info.uid) = some gen.stub ∧
      (∀ copy, gen.copy = some copy → M.functions.lookup (.fcpFunc g) = some copy) ∧
      ((∀ hf, hf = gen.stub ∨ gen.copy = some hf → ∀ b ∈ hf.blocks, ∀ q ∈ b.2.phis, Consistent q) ↔
        ∀ b ∈ f.blocks, ∀ p ∈ b.2.phis, ExpandedOnce p) := by
  have hwf := analyze_wellFormed H L m bw uid
  have hfilled := HostTable.genHfuncs_filled (HostTable.takeOut_genHfuncs hM) hwf.functionUids hinfo
  unfold HostTable.Filled at hfilled
  rw [if_neg (by simp [blackList_eq_false.mpr hlisted])] at hfilled
  obtain ⟨f', gen, hf', hgen, _, hstub, hcopy⟩ := hfilled
  cases hfun.symm.trans hf'
  refine ⟨gen, hgen, hstub, hcopy, ?_⟩
  obtain ⟨X, entry, hf, hX, hwhere⟩ := doHstubcvt_copying hgen
  obtain ⟨f', scan, h, he⟩ := hwf.entries g info hinfo
  cases hfun.symm.trans he.function
  have hknown : ∀ b ∈ f.blocks, ∀ p ∈ b.2.phis, ∀ e ∈ p.incoming, ∀ r ∈ valueRefs e.1, (X.refs r).isSome := by
    intro b hb p hp e hentry r hr
    rw [hX.refs, he.refs, (scanFunction_scanned he.scanned).refs]
    exact phi_registered hb hp hentry hr
  have hcopied : (∀ b ∈ hf.blocks, ∀ q ∈ b.2.phis, Consistent q) ↔ ∀ b ∈ f.blocks, ∀ p ∈ b.2.phis, ExpandedOnce p := by
    rw [doBody_consistent_iff hX.body]
    constructor
    · intro hall b hb p hp
      obtain ⟨r, hr, hcons⟩ := hall b hb p hp
      exact (doPhi_consistent_iff hr (hvalid.consistent b hb p hp) (hvalid.values b hb p hp) (hknown b hb p hp)).mp hcons
    · intro hall b hb p hp
      obtain ⟨r, hr⟩ := doBody_phi hX.body hb hp
      refine ⟨r, hr, ?_⟩
      exact (doPhi_consistent_iff hr (hvalid.consistent b hb p hp) (hvalid.values b hb p hp) (hknown b hb p hp)).mpr
        (hall b hb p hp)
  rw [← hcopied]
  rcases hwhere with ⟨hstub', hcopy'⟩ | ⟨hstub', hcopy'⟩
  · simp [hstub', hcopy']
  · simp [hstub', hcopy', fcpStub]

def joining (c : Const Nat) : GFunction :=
  ⟨⟨ptrTy, [], false⟩, 0, ⟨[]⟩, none,
    [(0, ⟨[], [], 0, .condBr (.const (.int 1 0)) 1 1⟩),
      (1, ⟨[⟨1, ptrTy, [(.const c, 0), (.const c, 0)]⟩], [], 2, .ret (some (ptrTy, .inst 1))⟩)], [], none⟩

def joiningModule (c : Const Nat) : Module :=
  ⟨[.function (joining c), .function ⟨⟨.void, [], false⟩, 0, ⟨[]⟩, none, [], [], none⟩], rfl⟩

def joiningInput (c : Const Nat) : Input :=
  analyzed HostTable.sumHash HostTable.plainLayout (joiningModule c) HostTable.chopAll .null 7

theorem joining_valid (c : Const Nat) : ValidPhis (joining c) := by
  have hphi : ∀ b ∈ (joining c).blocks, ∀ p ∈ b.2.phis, p = ⟨1, ptrTy, [(.const c, 0), (.const c, 0)]⟩ := by
    simp [joining]
  constructor
  · intro b hb p hp v w l hv hw
    rw [hphi b hb p hp] at hv hw
    simp only [List.mem_cons, Prod.mk.injEq, List.not_mem_nil, or_false, or_self] at hv hw
    rw [hv.1, hw.1]
  · intro b hb p hp e he
    rw [hphi b hb p hp] at he
    simp only [List.mem_cons, List.not_mem_nil, or_false, or_self] at he
    rw [he]
    rfl

theorem joining_global : ∃ M hf, takeOut (joiningInput (.global 1)) = .ok M ∧
    M.functions.lookup (.hstub 0) = some hf ∧ ∀ b ∈ hf.blocks, ∀ q ∈ b.2.phis, Consistent q := by
  obtain ⟨gen, _, hstub, _, hiff⟩ := phis_consistent_iff HostTable.sumHash HostTable.plainLayout
    (joiningModule (.global 1)) HostTable.chopAll .null 7 (M := _) rfl (g := 0) rfl rfl (by simp [BwList.null])
    (joining_valid (.global 1))
  refine ⟨_, gen.stub, rfl, hstub, hiff.mpr ?_ gen.stub (.inl rfl)⟩
  intro b hb p hp i j v w l hi _ _
  have hv : v = .const (.global 1) ∧ l = 0 := by
    simp only [joining, List.mem_cons, List.not_mem_nil, or_false] at hb
    rcases hb with rfl | rfl
    · cases hp
    · cases List.mem_singleton.mp hp
      simpa using List.mem_of_getElem? hi
  rw [hv.1]
  rfl

/-- Each entry gets a computation of its own. -/
theorem joining_expression : ∃ M hf q,
    takeOut (joiningInput (.expr .getElementPtr ptrTy [] [.global 1, .int 64 8])) = .ok M ∧
      M.functions.lookup (.hstub 0) = some hf ∧ (∃ b ∈ hf.blocks, q ∈ b.2.phis) ∧
      q.incoming = [(.inst ⟨some 1, 1⟩, .body 0), (.inst ⟨some 1, 2⟩, .body 0)] :=
  ⟨_, _, _, rfl, rfl, ⟨_, List.mem_cons_of_mem _ (List.mem_cons_of_mem _ List.mem_cons_self), List.mem_cons_self⟩, rfl⟩

end Comulator.PhiValid
