import Comulator.Accounts

namespace Comulator.Treatment

open Types Ir TypeHash Symtbl Analyze AnalyzeSpec Outline Offloadable FirstSeen CallbackStubs Accounts
open Numbering hiding callbacks

section Collecting

variable {κ α β V : Type} [DecidableEq κ]

def Collects (x : StateM (List (κ × V)) α) (l : List (κ × V)) : Prop := ∀ s, (x s).2 = l.foldl (add Prod.fst) s

theorem Collects.pure (a : α) : Collects (Pure.pure a : StateM (List (κ × V)) α) [] := fun _ => rfl

theorem Collects.bind {x : StateM (List (κ × V)) α} {f : α → StateM (List (κ × V)) β} {l l' : List (κ × V)}
    (hx : Collects x l) (hf : ∀ a, Collects (f a) l') : Collects (x >>= f) (l ++ l') := by
  intro s
  rw [List.foldl_append, ← hx s]
  exact hf (x s).1 (x s).2

theorem Collects.bind_pure {x : StateM (List (κ × V)) α} (f : α → β) {l : List (κ × V)} (hx : Collects x l) :
    Collects (x >>= fun a => Pure.pure (f a)) l := hx

theorem Collects.mapM {f : α → StateM (List (κ × V)) β} {k : α → List (κ × V)} (l : List α)
    (hf : ∀ a, Collects (f a) (k a)) : Collects (l.mapM f) (l.flatMap k) := by
  induction l with
  | nil =>
      rw [List.mapM_nil]
      exact Collects.pure []
  | cons a l ih =>
      rw [List.mapM_cons, List.flatMap_cons]
      exact (hf a).bind (fun b => ih.bind_pure (fun bs => b :: bs))

end Collecting

structure Drive where
  usePFO : Bool
  bw : BwList

section Drives

variable (H : HashOps) (names : Nat → GValue → String) (m : Module) (d : Drive)

def Drive.symbols : List GlobalValue := if d.usePFO then outline H names m d.bw else m.symbols

def Drive.outliners : Outliners := if d.usePFO then Outline.outliners H names m d.bw else []

def Drive.sym (g : Nat) : Sym :=
  if g < m.symbols.length then .original g
  else match (d.outliners H names m)[g - m.symbols.length]? with
    | some e => .outliner e.1
    | none => .original g

def replaced? (g : Nat) (f : GFunction) (i : GInst) : Option (GCall × HashCode) :=
  if d.usePFO && outlines names d.bw g f then outlined? H (names g) i else none

def askedBy (g : Nat) (f : GFunction) (i : GInst) : Outliners :=
  ((replaced? H names d g f i).map (fun p => (p.2, outlinerFunction p.1))).toList

def askedIn (v : GlobalValue × Nat) : Outliners :=
  match v.1 with
  | .function f => f.blocks.flatMap (fun b => b.2.insts.flatMap (askedBy H names d v.2 f))
  | _ => []

def asked : Outliners := m.symbols.zipIdx.flatMap (askedIn H names d)

def newCall (c : GCall) (h : HashCode) : GCall :=
  outlinerCall 0 (((asked H names m d).lookup h).getD (outlinerFunction c)) c

def operandEvents (vs : List GValue) : List Event := (operandItems vs).map (event H .original)

def instEvents (g : Nat) (f : GFunction) (i : GInst) : List Event :=
  match replaced? H names d g f i with
  | some (c, h) => .ref (.outliner h) :: event H .original (.callback (newCall H names m d c h)) ::
      operandEvents H ((operands c).map Prod.snd)
  | none => (instItems m d.bw i.op).map (event H .original)

def blockEvents (g : Nat) (f : GFunction) (b : GBlock) : List Event :=
  operandEvents H (b.phis.flatMap (fun p => p.incoming.map Prod.fst)) ++ b.insts.flatMap (instEvents H names m d g f) ++
    (termItems b.term).map (event H .original)

/-- What `Analyze` will learn from the function, told from its code before the
passes. -/
def functionEvents (g : Nat) (f : GFunction) : List Event := f.blocks.flatMap (fun b => blockEvents H names m d g f b.2)

def events (g : Nat) : List Event :=
  match m.function? g with
  | some f => functionEvents H names m d g f
  | none => []

def offered (g : Nat) : Bool :=
  match m.function? g with
  | some f => !f.isDeclaration && !f.type.isVarArg && (functionHash H f).isSome
  | none => false

def supported (g : Nat) : Bool := (events H names m d g).all Event.passes

def takes (g : Nat) : Bool :=
  decide ((d.bw.funcs g).bind FuncBw.analyze ≠ some false) && offered H m g && supported H names m d g

def account (g : Nat) : Option Account :=
  if takes H names m d g then some ⟨g, refs (events H names m d g), calls (events H names m d g)⟩ else none

def accounts : List Account := (List.range m.symbols.length).filterMap (account H names m d)

end Drives

section Outliners

variable {H : HashOps} {names : Nat → GValue → String} {m : Module} {d : Drive}

theorem genOutliner_collects (c : GCall) :
    Collects (genOutliner H m c) ((outlinerHash H c).map (fun h => (h, outlinerFunction c))).toList := by
  intro s
  cases hh : outlinerHash H c with
  | none =>
      simp only [genOutliner, hh]
      rfl
  | some h =>
      simp only [genOutliner, hh, Option.map_some, Option.toList_some, List.foldl_cons, List.foldl_nil]
      cases hfind : s.zipIdx.find? (fun e => e.1.1 == h) with
      | some e =>
          have hseen : seen Prod.fst s h = some e := hfind
          obtain ⟨hget, hkey⟩ := getElem?_of_seen (a := e.1) (i := e.2) hseen
          have hmem : h ∈ s.map Prod.fst := List.mem_map.mpr ⟨e.1, List.mem_of_getElem? hget, hkey⟩
          rw [add_of_mem (a := (h, outlinerFunction c)) hmem]
      | none =>
          have hnew : h ∉ s.map Prod.fst := seen_eq_none.mp hfind
          rw [add_of_not_mem (a := (h, outlinerFunction c)) hnew]

theorem outlineInst_collects (name : GValue → String) (i : GInst) : Collects (outlineInst H m name i)
    ((outlined? H name i).map (fun p => (p.2, outlinerFunction p.1))).toList := by
  unfold outlineInst outlined?
  split
  next c hop =>
    by_cases hcheck : checkOp name i.op = .toOutline
    · rw [if_pos hcheck, hop, if_pos (hop ▸ hcheck), Option.map_map]
      rw [← List.append_nil (Option.toList _)]
      refine (genOutliner_collects c).bind (fun r => ?_)
      cases r with
      | none => exact Collects.pure _
      | some p => exact Collects.pure _
    · rw [if_neg hcheck, hop, if_neg (hop ▸ hcheck)]
      exact Collects.pure i
  next hop => exact Collects.pure i

theorem askedIn_eq_nil {g : Nat} {f : GFunction} (h : ∀ i, replaced? H names d g f i = none) :
    askedIn H names d (.function f, g) = [] := by
  refine List.flatMap_eq_nil_iff.mpr (fun b _ => List.flatMap_eq_nil_iff.mpr (fun i _ => ?_))
  rw [askedBy, h]
  rfl

theorem outlineFunction_collects (hpfo : d.usePFO = true) (g : Nat) (f : GFunction) :
    Collects (outlineFunction H names m d.bw g f) (askedIn H names d (.function f, g)) := by
  unfold outlineFunction
  by_cases hout : outlines names d.bw g f = true
  · rw [if_pos hout]
    refine (Collects.mapM f.blocks (fun b => ?_)).bind_pure _
    refine (Collects.mapM b.2.insts (fun i => ?_)).bind_pure _
    have hreplaced : replaced? H names d g f i = outlined? H (names g) i := by simp [replaced?, hpfo, hout]
    unfold askedBy
    rw [hreplaced]
    exact outlineInst_collects (names g) i
  · rw [if_neg hout, askedIn_eq_nil]
    · exact Collects.pure f
    · intro i
      simp [replaced?, hout]

variable (H names m d) in
/-- Each outliner was made for the first call that asked for it. -/
theorem outliners_eq : d.outliners H names m = firsts Prod.fst (asked H names m d) := by
  unfold Drive.outliners
  cases hpfo : d.usePFO with
  | false =>
      have hnone : asked H names m d = [] := by
        refine List.flatMap_eq_nil_iff.mpr ?_
        rintro ⟨v, g⟩ _
        cases v with
        | function f =>
            apply askedIn_eq_nil
            intro i
            simp [replaced?, hpfo]
        | _ => rfl
      rw [hnone]
      rfl
  | true =>
      rw [if_pos rfl]
      refine Collects.mapM m.symbols.zipIdx ?_ []
      rintro ⟨v, g⟩
      cases v with
      | function f => exact (outlineFunction_collects hpfo g f).bind_pure GlobalValue.function
      | _ => exact Collects.pure _

end Outliners

section Names

variable {H : HashOps} {names : Nat → GValue → String} {m : Module} {d : Drive}

theorem sym_below {g : Nat} (hg : g < m.symbols.length) : d.sym H names m g = .original g := if_pos hg

theorem sym_above {j : Nat} {e : HashCode × GFunction} (hj : (d.outliners H names m)[j]? = some e) :
    d.sym H names m (m.symbols.length + j) = .outliner e.1 := by
  unfold Drive.sym
  rw [if_neg (by omega), Nat.add_sub_cancel_left, hj]

variable (H names m d) in
theorem outliners_nodup : ((d.outliners H names m).map Prod.fst).Nodup := by
  rw [outliners_eq]
  exact firsts_nodup Prod.fst _

variable (H names m d) in
/-- Above the symbols of the module a position is an outliner's, or nothing's. -/
theorem sym_cases (g : Nat) : d.sym H names m g = .original g ∨ ∃ j e, g = m.symbols.length + j ∧
    (d.outliners H names m)[j]? = some e ∧ d.sym H names m g = .outliner e.1 := by
  by_cases hg : g < m.symbols.length
  · exact .inl (sym_below hg)
  · obtain ⟨j, rfl⟩ := Nat.exists_eq_add_of_le (Nat.le_of_not_lt hg)
    cases hj : (d.outliners H names m)[j]? with
    | some e => exact .inr ⟨j, e, rfl, hj, sym_above hj⟩
    | none =>
        left
        unfold Drive.sym
        rw [if_neg hg, Nat.add_sub_cancel_left, hj]

variable (H names m d) in
theorem sym_injective : Function.Injective (d.sym H names m) := by
  intro g g' h
  rcases sym_cases H names m d g with hg | ⟨j, e, rfl, hj, hg⟩
  · rcases sym_cases H names m d g' with hg' | ⟨j', e', rfl, hj', hg'⟩
    · rw [hg, hg'] at h
      exact Sym.original.inj h
    · rw [hg, hg'] at h
      cases h
  · rcases sym_cases H names m d g' with hg' | ⟨j', e', rfl, hj', hg'⟩
    · rw [hg, hg'] at h
      cases h
    · rw [hg, hg'] at h
      have hseen := seen_of_getElem? (outliners_nodup H names m d) hj
      rw [Sym.outliner.inj h, seen_of_getElem? (outliners_nodup H names m d) hj'] at hseen
      rw [(Prod.mk.inj (Option.some.inj hseen)).2]

end Names

def Closed (m : Module) : Prop :=
  ∀ g f, m.function? g = some f → ∀ v ∈ Module.operands f ++ (Module.calls f).map CallBase.calledOperand,
    ∀ r ∈ valueRefs v, r < m.symbols.length

def Named (m : Module) (bw : BwList) : Prop := ∀ g, bw.callees g ≠ none → (m.function? g).isSome

section Items

variable {H : HashOps} {names : Nat → GValue → String} {m : Module} {d : Drive} {k : Nat → Sym}

theorem map_event {items : List Item} (h : ∀ r, Item.ref r ∈ items → k r = .original r) :
    items.map (event H k) = items.map (event H .original) := by
  refine List.map_congr_left (fun i hi => ?_)
  cases i with
  | ref r => rw [event, event, h r hi]
  | callback c => rfl
  | reject e => rfl

theorem ref_mem_operandItems {vs : List GValue} {r : Nat} : Item.ref r ∈ operandItems vs ↔ ∃ v ∈ vs, r ∈ valueRefs v := by
  rw [operandItems, List.mem_map_of_injective (fun _ _ h => Item.ref.inj h), List.mem_flatMap]

theorem calleeItems_agree {m' : Module} {bw : BwList} (hbw : Named m bw) (hbw' : Named m' bw)
    (hsame : ∀ g, isIntrinsicAt m g = isIntrinsicAt m' g) (c : GCall) : calleeItems m bw c = calleeItems m' bw c := by
  unfold calleeItems
  cases c.calledOperand with
  | const v =>
      cases v with
      | global g =>
          dsimp only
          cases hlisted : bw.callees g with
          | none =>
              have hg := hsame g
              unfold isIntrinsicAt at hg
              cases hf : m.function? g <;> cases hf' : m'.function? g <;> simp_all
          | some listed =>
              have hsome : bw.callees g ≠ none := by
                rw [hlisted]
                exact Option.some_ne_none listed
              obtain ⟨f, hf⟩ := Option.isSome_iff_exists.mp (hbw g hsome)
              obtain ⟨f', hf'⟩ := Option.isSome_iff_exists.mp (hbw' g hsome)
              rw [hf, hf']
              cases listed <;> rfl
      | _ => rfl
  | _ => rfl

theorem instItems_agree {m' : Module} {bw : BwList} (hbw : Named m bw) (hbw' : Named m' bw)
    (hsame : ∀ g, isIntrinsicAt m g = isIntrinsicAt m' g) (op : InstOp Nat Nat) : instItems m bw op = instItems m' bw op := by
  cases op with
  | call c => rw [instItems, instItems, calleeItems_agree hbw hbw' hsame]
  | _ => rfl

theorem calleeItems_plain {bw : BwList} {c : GCall} {g : Nat} (hc : c.calledOperand = .const (.global g))
    (hlisted : bw.callees g = none) (hplain : isIntrinsicAt m g = false) : calleeItems m bw c = [.ref g, .callback c] := by
  unfold calleeItems
  rw [hc]
  dsimp only
  unfold isIntrinsicAt at hplain
  cases hf : m.function? g with
  | none => rfl
  | some f =>
      rw [hf] at hplain
      rw [hlisted]
      dsimp only
      rw [if_neg (Bool.eq_false_iff.mp hplain)]

/-- A reference of an instruction is named by one of its operands. -/
theorem ref_mem_instItems {bw : BwList} {op : InstOp Nat Nat} {r : Nat} (h : Item.ref r ∈ instItems m bw op) :
    (∃ v ∈ Module.argOperands op, r ∈ valueRefs v) ∨ ∃ c, op = .call c ∧ r ∈ valueRefs c.calledOperand := by
  cases op with
  | call c =>
      rcases List.mem_append.mp h with h | h
      · refine .inr ⟨c, rfl, ?_⟩
        unfold calleeItems at h
        cases hc : c.calledOperand with
        | const v =>
            cases v with
            | global g =>
                rw [hc] at h
                dsimp only at h
                suffices hr : r = g by
                  rw [hr]
                  exact List.mem_singleton_self g
                split at h
                next f _ =>
                  split at h
                  next => cases h
                  next => cases List.mem_singleton.mp h
                  next => split at h <;> simp at h; exact h
                next => simpa using h
            | _ => simp [hc] at h
        | _ => simp [hc] at h
      · exact .inl (ref_mem_operandItems.mp h)
  | op => exact .inl (ref_mem_operandItems.mp h)
  | _ => simp [instItems, operandItems, Module.argOperands] at h

theorem ref_mem_termItems {t : Term Nat Nat Nat} {r : Nat} (h : Item.ref r ∈ termItems t) :
    ∃ v ∈ Module.termOperands t, r ∈ valueRefs v := by
  cases t with
  | indirectBr | invoke | resume | catchSwitch | catchReturn | cleanupReturn | callBr => simp [termItems] at h
  | _ => exact ref_mem_operandItems.mp h

variable {g : Nat} {f : GFunction} {b : Nat × GBlock} {i : GInst}

theorem Closed.operand (hm : Closed m) (hf : m.function? g = some f) (hb : b ∈ f.blocks) {v : GValue}
    (hv : v ∈ Module.blockOperands b.2) {r : Nat} (hr : r ∈ valueRefs v) : r < m.symbols.length :=
  hm g f hf v (List.mem_append_left _ (List.mem_flatMap.mpr ⟨b, hb, hv⟩)) r hr

theorem Closed.argument (hm : Closed m) (hf : m.function? g = some f) (hb : b ∈ f.blocks) (hi : i ∈ b.2.insts) {v : GValue}
    (hv : v ∈ Module.argOperands i.op) {r : Nat} (hr : r ∈ valueRefs v) : r < m.symbols.length := by
  refine hm.operand hf hb ?_ hr
  exact List.mem_append_left _ (List.mem_append_right _ (List.mem_flatMap.mpr ⟨i, hi, hv⟩))

theorem Closed.callee (hm : Closed m) (hf : m.function? g = some f) (hb : b ∈ f.blocks) (hi : i ∈ b.2.insts) {c : GCall}
    (hop : i.op = .call c) {r : Nat} (hr : r ∈ valueRefs c.calledOperand) : r < m.symbols.length := by
  refine hm g f hf c.calledOperand (List.mem_append_right _ ?_) r hr
  exact List.mem_map_of_mem (Lookups.mem_calls hb hi hop)

variable (hm : Closed m) (hf : m.function? g = some f) (hb : b ∈ f.blocks)

include hm hf hb in
theorem inst_original (hi : i ∈ b.2.insts) : (instItems m d.bw i.op).map (event H (d.sym H names m)) =
    (instItems m d.bw i.op).map (event H .original) := by
  refine map_event (fun r hr => sym_below ?_)
  rcases ref_mem_instItems hr with ⟨v, hv, hr⟩ | ⟨c, hop, hr⟩
  · exact hm.argument hf hb hi hv hr
  · exact hm.callee hf hb hi hop hr

include hm hf hb in
theorem operands_original (hi : i ∈ b.2.insts) {c : GCall} (hop : i.op = .call c) :
    (operandItems ((operands c).map Prod.snd)).map (event H (d.sym H names m)) =
      operandEvents H ((operands c).map Prod.snd) := by
  refine map_event (fun r hr => sym_below ?_)
  obtain ⟨v, hv, hr⟩ := ref_mem_operandItems.mp hr
  rw [operands, List.map_append] at hv
  rcases List.mem_append.mp hv with hv | hv
  · refine hm.argument hf hb hi ?_ hr
    rw [hop]
    exact hv
  · cases List.mem_singleton.mp hv
    exact hm.callee hf hb hi hop hr

end Items

section Treated

variable (H : HashOps) (names : Nat → GValue → String) (m : Module) (d : Drive)

structure Treated (g : Nat) (f : GFunction) (i i' : GInst) : Prop where
  replaced : ∀ c h, replaced? H names d g f i = some (c, h) → ∃ j fo, (d.outliners H names m)[j]? = some (h, fo) ∧
    i' = ⟨i.id, .call (outlinerCall (m.symbols.length + j) fo c)⟩
  kept : replaced? H names d g f i = none → i' = i

def BlockTreated (g : Nat) (f : GFunction) (b b' : Nat × GBlock) : Prop :=
  ∃ insts, b' = (b.1, { b.2 with insts }) ∧ List.Forall₂ (Treated H names m d g f) b.2.insts insts

variable {H names m d} {g : Nat} {f : GFunction}

theorem treated_self (hnone : ∀ i, replaced? H names d g f i = none) (i : GInst) : Treated H names m d g f i i where
  replaced c h hsome := by
    rw [hnone] at hsome
    cases hsome
  kept _ := rfl

theorem blocks_treated_self (hnone : ∀ i, replaced? H names d g f i = none) :
    List.Forall₂ (BlockTreated H names m d g f) f.blocks f.blocks := by
  refine List.forall₂_same.mpr (fun b _ => ⟨b.2.insts, rfl, ?_⟩)
  exact List.forall₂_same.mpr (fun i _ => treated_self hnone i)

theorem treated_of_replaced (hpfo : d.usePFO = true) (hout : outlines names d.bw g f = true) {i i' : GInst}
    (h : Replaced H m (names g) (Outline.outliners H names m d.bw) i i') : Treated H names m d g f i i' := by
  have hsame : replaced? H names d g f i = outlined? H (names g) i := by simp [replaced?, hpfo, hout]
  have houtliners : d.outliners H names m = Outline.outliners H names m d.bw := by simp [Drive.outliners, hpfo]
  unfold Replaced at h
  refine ⟨fun c x hsome => ?_, fun hnone => ?_⟩
  · rw [hsame] at hsome
    rw [hsome] at h
    rw [houtliners]
    exact h
  · rw [hsame] at hnone
    rw [hnone] at h
    exact h

variable (H names d) in
theorem function_treated (hf : m.function? g = some f) : ∃ blocks,
    (d.symbols H names m)[g]? = some (.function { f with blocks }) ∧
      List.Forall₂ (BlockTreated H names m d g f) f.blocks blocks := by
  have hsymbol := Module.function?_eq_some.mp hf
  unfold Drive.symbols
  cases hpfo : d.usePFO with
  | false =>
      refine ⟨f.blocks, hsymbol, blocks_treated_self (fun i => ?_)⟩
      simp [replaced?, hpfo]
  | true =>
      obtain ⟨blocks, hget, hbody⟩ := outline_function H names d.bw hsymbol
      refine ⟨blocks, hget, ?_⟩
      unfold BodyChanged at hbody
      by_cases hout : outlines names d.bw g f = true
      · rw [if_pos hout] at hbody
        refine hbody.imp ?_
        rintro b _ ⟨insts, rfl, hinsts⟩
        exact ⟨insts, rfl, hinsts.imp (fun i i' h => treated_of_replaced hpfo hout h)⟩
      · rw [if_neg hout] at hbody
        rw [hbody]
        refine blocks_treated_self (fun i => ?_)
        simp [replaced?, hout]

variable (H names m d) in
theorem isIntrinsicAt_drive (g : Nat) : isIntrinsicAt m g = isIntrinsicAt (declarations (d.symbols H names m)) g := by
  unfold Drive.symbols
  cases d.usePFO with
  | false => rw [if_neg Bool.false_ne_true, isIntrinsicAt_declarations, isIntrinsicAt_eq]
  | true => rw [if_pos rfl, isIntrinsicAt_outline]

variable (H names) in
theorem named_drive (hbw : Named m d.bw) : Named (declarations (d.symbols H names m)) d.bw := by
  intro g hlisted
  obtain ⟨f, hf⟩ := Option.isSome_iff_exists.mp (hbw g hlisted)
  obtain ⟨blocks, hget, _⟩ := function_treated H names d hf
  unfold Module.function? declarations
  rw [List.getElem?_map, hget]
  rfl

variable {b : Nat × GBlock} {i i' : GInst} (hm : Closed m) (hbw : Named m d.bw) (hf : m.function? g = some f)
  (hb : b ∈ f.blocks)

theorem instEvents_replaced {c : GCall} {h : HashCode} (hr : replaced? H names d g f i = some (c, h)) :
    instEvents H names m d g f i = .ref (.outliner h) :: event H .original (.callback (newCall H names m d c h)) ::
      operandEvents H ((operands c).map Prod.snd) := by
  simp only [instEvents, hr]

theorem instEvents_kept (hr : replaced? H names d g f i = none) :
    instEvents H names m d g f i = (instItems m d.bw i.op).map (event H .original) := by
  simp only [instEvents, hr]

include hm hbw hf hb in
theorem treated_events (hi : i ∈ b.2.insts) (ht : Treated H names m d g f i i') :
    (instItems (declarations (d.symbols H names m)) d.bw i'.op).map (event H (d.sym H names m)) =
      instEvents H names m d g f i := by
  cases hr : replaced? H names d g f i with
  | none =>
      rw [ht.kept hr, ← instItems_agree hbw (named_drive H names hbw) (isIntrinsicAt_drive H names m d),
        inst_original hm hf hb hi, instEvents_kept hr]
  | some p =>
      obtain ⟨c, h⟩ := p
      obtain ⟨j, fo, hj, rfl⟩ := ht.replaced c h hr
      have hop : i.op = .call c := by
        unfold replaced? at hr
        split at hr
        next => exact ((outlined?_eq_some _).mp hr).1
        next => cases hr
      have hnone : m.function? (m.symbols.length + j) = none := by
        unfold Module.function?
        rw [List.getElem?_eq_none_iff.mpr (Nat.le_add_right _ _)]
      have hlisted : d.bw.callees (m.symbols.length + j) = none := by
        by_contra hsome
        have hfunction := hbw _ hsome
        rw [hnone] at hfunction
        cases hfunction
      have hplain : isIntrinsicAt (declarations (d.symbols H names m)) (m.symbols.length + j) = false := by
        rw [← isIntrinsicAt_drive, isIntrinsicAt, hnone]
      have hasked : (asked H names m d).lookup h = some fo := by
        rw [← lookup_firsts, ← outliners_eq]
        exact OrderedMap.lookup_eq_some_of_mem (outliners_nodup H names m d) (List.mem_of_getElem? hj)
      have hnew : newCall H names m d c h = outlinerCall 0 fo c := by
        rw [newCall, hasked]
        rfl
      rw [instEvents_replaced hr, hnew, instItems, calleeItems_plain rfl hlisted hplain, List.map_append, List.map_cons,
        event, sym_above hj, ← operands_original hm hf hb hi hop]
      rfl

include hm hbw hf hb in
theorem block_events {b' : Nat × GBlock} (ht : BlockTreated H names m d g f b b') :
    (blockItems (declarations (d.symbols H names m)) d.bw b'.2).map (event H (d.sym H names m)) =
      blockEvents H names m d g f b.2 := by
  obtain ⟨insts, rfl, hinsts⟩ := ht
  unfold blockItems blockEvents
  rw [List.map_append, List.map_append, List.map_flatMap]
  have hphis : (operandItems (b.2.phis.flatMap (fun p => p.incoming.map Prod.fst))).map (event H (d.sym H names m)) =
      operandEvents H (b.2.phis.flatMap (fun p => p.incoming.map Prod.fst)) := by
    refine map_event (fun r hr => sym_below ?_)
    obtain ⟨v, hv, hr⟩ := ref_mem_operandItems.mp hr
    exact hm.operand hf hb (List.mem_append_left _ (List.mem_append_left _ hv)) hr
  have hterm : (termItems b.2.term).map (event H (d.sym H names m)) = (termItems b.2.term).map (event H .original) := by
    refine map_event (fun r hr => sym_below ?_)
    obtain ⟨v, hv, hr⟩ := ref_mem_termItems hr
    exact hm.operand hf hb (List.mem_append_right _ hv) hr
  rw [hphis, hterm, flatMap_eq_of_forall₂ hinsts (fun i hi i' ht => (treated_events hm hbw hf hb hi ht).symm)]

include hm hbw hf in
theorem function_events {blocks : List (Nat × GBlock)} (ht : List.Forall₂ (BlockTreated H names m d g f) f.blocks blocks) :
    (functionItems (declarations (d.symbols H names m)) d.bw { f with blocks }).map (event H (d.sym H names m)) =
      functionEvents H names m d g f := by
  unfold functionItems functionEvents
  rw [List.map_flatMap]
  exact (flatMap_eq_of_forall₂ ht (fun b hb b' h => (block_events hm hbw hf hb h).symm)).symm

end Treated

section Verdicts

variable {H : HashOps} {names : Nat → GValue → String} {m : Module} {d : Drive} {g : Nat} {f : GFunction}

/-- An outliner makes a call with any number of arguments itself. -/
theorem judge_outliner (j : Nat) : judge H (d.symbols H names m) d.bw (m.symbols.length + j) = none := by
  refine Option.eq_none_iff_forall_ne_some.mpr (fun v hv => ?_)
  obtain ⟨_, hget, _, _, _, _, hscan⟩ := judge_eq_some.mp hv
  unfold Drive.symbols at hget
  cases hpfo : d.usePFO with
  | false =>
      rw [hpfo, if_neg Bool.false_ne_true, List.getElem?_eq_none_iff.mpr (Nat.le_add_right _ _)] at hget
      cases hget
  | true =>
      rw [hpfo, if_pos rfl, outline_above, Option.map_eq_some_iff] at hget
      obtain ⟨e, he, hfunc⟩ := hget
      obtain ⟨c, ⟨g, b, i, inst, hsite⟩, hc⟩ := (outline_spec H names m d.bw).1.calls e (List.mem_of_getElem? he)
      have hva := ((outlined?_eq_some _).mp hsite.outlined).2.2.1
      rw [← GlobalValue.function.inj hfunc, hc] at hscan
      have hall := (foldlM_visit_ok_iff _ _).mp ⟨_, hscan⟩
      have hmem : Item.callback (outlinerClone c) ∈
          functionItems (declarations (d.symbols H names m)) d.bw (outlinerFunction c) := by
        simp [functionItems, outlinerFunction, outlinerBlock, blockItems, instItems, calleeItems, outlinerClone]
      have hsupported := List.all_eq_true.mp hall _ hmem
      have hrefused : isSupported H (.callback (outlinerClone c)) = false := by
        simp [isSupported, outlinerClone, hva]
      rw [hrefused] at hsupported
      cases hsupported

theorem judge_other (hnone : m.function? g = none) (hg : g < m.symbols.length) :
    judge H (d.symbols H names m) d.bw g = none := by
  refine Option.eq_none_iff_forall_ne_some.mpr (fun v hv => ?_)
  obtain ⟨_, hget, _⟩ := judge_eq_some.mp hv
  have hsymbol := List.getElem?_eq_getElem hg
  unfold Drive.symbols at hget
  cases hpfo : d.usePFO with
  | false =>
      rw [hpfo, if_neg Bool.false_ne_true] at hget
      rw [Module.function?_eq_some.mpr hget] at hnone
      cases hnone
  | true =>
      rw [hpfo, if_pos rfl] at hget
      obtain ⟨w, hw, hchanged⟩ := outline_symbol H names d.bw hsymbol
      rw [hget] at hw
      cases hw
      cases hv : m.symbols[g] with
      | function f =>
          rw [hv] at hsymbol
          rw [Module.function?_eq_some.mpr hsymbol] at hnone
          cases hnone
      | _ =>
          rw [hv] at hchanged
          cases hchanged

variable (H m) in
def signature (g : Nat) : HashCode × StubInfo :=
  match m.function? g with
  | some f => ((functionHash H f).getD 0, callingStub f 0)
  | none => (0, .ofType ⟨.void, [], false⟩)

theorem events_eq (hf : m.function? g = some f) : events H names m d g = functionEvents H names m d g f := by
  simp only [events, hf]

theorem takes_iff (hf : m.function? g = some f) : takes H names m d g = true ↔
    (d.bw.funcs g).bind FuncBw.analyze ≠ some false ∧ (f.isDeclaration = false ∧ f.type.isVarArg = false ∧
      (functionHash H f).isSome) ∧ (functionEvents H names m d g f).all Event.passes = true := by
  simp only [takes, offered, supported, events, hf, Bool.and_eq_true, decide_eq_true_eq, Bool.not_eq_true', and_assoc]

theorem forall₂_filterMap {α β γ : Type} {R : β → γ → Prop} {p : α → Option β} {q : α → Option γ} {l : List α}
    (h : ∀ a ∈ l, Option.Rel R (p a) (q a)) : List.Forall₂ R (l.filterMap p) (l.filterMap q) := by
  induction l with
  | nil => exact .nil
  | cons a l ih =>
      have hrest := ih (fun b hb => h b (List.mem_cons_of_mem _ hb))
      have ha := h a List.mem_cons_self
      rw [List.filterMap_cons, List.filterMap_cons]
      generalize p a = x, q a = y at ha
      cases ha with
      | none => exact hrest
      | some hab => exact .cons hab hrest

variable (hm : Closed m) (hbw : Named m d.bw)

include hm hbw in
theorem scan_iff (hf : m.function? g = some f) {blocks : List (Nat × GBlock)}
    (ht : List.Forall₂ (BlockTreated H names m d g f) f.blocks blocks) :
    (∃ scan, scanFunction H (declarations (d.symbols H names m)) d.bw { f with blocks } = .ok scan) ↔
      (functionEvents H names m d g f).all Event.passes = true := by
  rw [← function_events hm hbw hf ht, all_passes]
  exact foldlM_visit_ok_iff _ _

theorem isDeclaration_treated {blocks : List (Nat × GBlock)}
    (ht : List.Forall₂ (BlockTreated H names m d g f) f.blocks blocks) :
    Function.isDeclaration { f with blocks } = f.isDeclaration := by
  have hlen := ht.length_eq
  unfold Function.isDeclaration
  rw [Bool.eq_iff_iff, List.isEmpty_iff_length_eq_zero, List.isEmpty_iff_length_eq_zero, hlen]

include hm hbw in
theorem describes_scan (hf : m.function? g = some f) {blocks : List (Nat × GBlock)}
    (ht : List.Forall₂ (BlockTreated H names m d g f) f.blocks blocks) {h : HashCode} (hh : functionHash H f = some h)
    {scan : Scan} (hscan : scanFunction H (declarations (d.symbols H names m)) d.bw { f with blocks } = .ok scan) :
    Describes (signature H m) (d.sym H names m) ⟨g, { f with blocks }, h, scan⟩
      ⟨g, refs (functionEvents H names m d g f), calls (functionEvents H names m d g f)⟩ := by
  have hlearned := foldlM_learned (sym_injective H names m d) learned_empty hscan
  rw [List.nil_append, function_events hm hbw hf ht] at hlearned
  have hg : g < m.symbols.length := (List.getElem?_eq_some_iff.mp (Module.function?_eq_some.mp hf)).1
  refine ⟨rfl, sym_below hg, ?_, hlearned.refs, hlearned.stubs, hlearned.hashes, ?_⟩
  · simp only [signature, hf, hh]
    rfl
  · intro e he
    have he : e ∈ calls (functionEvents H names m d g f) := he
    rw [← function_events hm hbw hf ht] at he
    obtain ⟨c, hc⟩ := mem_calls he
    rw [hc]
    rfl

include hm hbw in
theorem judge_describes (g : Nat) : Option.Rel (Describes (signature H m) (d.sym H names m))
    (judge H (d.symbols H names m) d.bw g) (account H names m d g) := by
  cases hf : m.function? g with
  | none =>
      have hjudge : judge H (d.symbols H names m) d.bw g = none := by
        by_cases hg : g < m.symbols.length
        · exact judge_other hf hg
        · obtain ⟨j, rfl⟩ := Nat.exists_eq_add_of_le (Nat.le_of_not_lt hg)
          exact judge_outliner j
      have haccount : account H names m d g = none := by simp [account, takes, offered, hf]
      rw [hjudge, haccount]
      exact .none
  | some f =>
      obtain ⟨blocks, hget, ht⟩ := function_treated H names d hf
      by_cases htakes : takes H names m d g = true
      · rw [account, if_pos htakes, events_eq hf]
        obtain ⟨hlisted, ⟨hdefined, hfixed, hhash⟩, hpass⟩ := (takes_iff hf).mp htakes
        obtain ⟨h, hh⟩ := Option.isSome_iff_exists.mp hhash
        obtain ⟨scan, hscan⟩ := (scan_iff hm hbw hf ht).mpr hpass
        have hjudge : judge H (d.symbols H names m) d.bw g = some ⟨g, { f with blocks }, h, scan⟩ :=
          judge_eq_some.mpr ⟨rfl, hget, hlisted, (isDeclaration_treated ht).trans hdefined, hfixed, hh, hscan⟩
        rw [hjudge]
        exact .some (describes_scan hm hbw hf ht hh hscan)
      · have hjudge : judge H (d.symbols H names m) d.bw g = none := by
          refine Option.eq_none_iff_forall_ne_some.mpr (fun v hv => htakes ?_)
          obtain ⟨_, hv, hlisted, hdefined, hfixed, hh, hscan⟩ := judge_eq_some.mp hv
          rw [hget] at hv
          have hfunc := GlobalValue.function.inj (Option.some.inj hv)
          rw [← hfunc] at hdefined hfixed hh hscan
          rw [isDeclaration_treated ht] at hdefined
          exact (takes_iff hf).mpr ⟨hlisted, ⟨hdefined, hfixed, Option.isSome_iff_exists.mpr ⟨_, hh⟩⟩,
            (scan_iff hm hbw hf ht).mp ⟨_, hscan⟩⟩
        rw [account, if_neg htakes, hjudge]
        exact .none

variable (H names) in
include hm hbw in
theorem verdicts_describe : List.Forall₂ (Describes (signature H m) (d.sym H names m))
    (verdicts H (d.symbols H names m) d.bw) (accounts H names m d) := by
  have hlength : ∃ n, (d.symbols H names m).length = m.symbols.length + n := by
    unfold Drive.symbols
    cases d.usePFO with
    | false => exact ⟨0, rfl⟩
    | true =>
        have hlen := (outline_spec H names m d.bw).2.length_eq
        rw [List.length_zipIdx] at hlen
        refine ⟨(outliners H names m d.bw).length, ?_⟩
        rw [if_pos rfl, outline, List.length_append, List.length_map, hlen]
        rfl
  obtain ⟨n, hn⟩ := hlength
  have hverdicts : verdicts H (d.symbols H names m) d.bw =
      (List.range m.symbols.length).filterMap (judge H (d.symbols H names m) d.bw) := by
    have habove : ((List.range n).map (m.symbols.length + ·)).filterMap (judge H (d.symbols H names m) d.bw) = [] := by
      refine List.filterMap_eq_nil_iff.mpr (fun x hx => ?_)
      obtain ⟨j, _, rfl⟩ := List.mem_map.mp hx
      exact judge_outliner j
    rw [verdicts, hn, List.range_add, List.filterMap_append, habove, List.append_nil]
  rw [hverdicts]
  exact forall₂_filterMap (fun g _ => judge_describes hm hbw g)

end Verdicts

end Comulator.Treatment
