import Comulator.CallCopy
import Comulator.EntryRun
import Comulator.GuestSymbols

namespace Comulator.SelfContained

open Fallible Types Ir TypeHash Symtbl HostIr TakeOut Analyze AnalyzeSpec Lookups GuestSymbols CallbackRun CallCopy

section Pieces

def pieceInstructions : Piece → List AnyInst
  | .code l => l.map .inst
  | .split pre s => (pre ++ s.check ++ s.left ++ s.right).map .inst ++
      [.term (.condBr s.cond (.left s.call) (.right s.call))] ++ s.phi.toList.map .phi

theorem mem_assemble (b : Nat) (id : HostId) (t : HTerm) (phis : List HPhi) (code : List HInst) (ps : List Piece)
    {x : AnyInst} (h : x ∈ phis.map .phi ∨ x ∈ code.map .inst ∨ x = .term t ∨ x ∈ ps.flatMap pieceInstructions) :
    x ∈ blocksInstructions (assemble b id t phis code ps) := by
  induction ps generalizing phis code with
  | nil => simpa [assemble, blocksInstructions, blockInstructions] using h
  | cons p ps ih =>
      cases p with
      | code l =>
          rw [assemble]
          apply ih phis (code ++ l)
          rw [List.flatMap_cons, List.mem_append, pieceInstructions] at h
          rw [List.map_append, List.mem_append]
          grind only
      | split pre s =>
          have hrest := ih s.phi.toList []
          simp only [assemble, blocksInstructions, List.flatMap_cons, List.mem_append] at hrest ⊢
          simp only [blockInstructions, pieceInstructions, List.flatMap_cons, List.map_append, List.mem_append,
            List.mem_cons, List.not_mem_nil, or_false, List.map_nil, false_or] at h hrest ⊢
          grind only

theorem of_mem_assemble (b : Nat) (id : HostId) (t : HTerm) (phis : List HPhi) (code : List HInst) (ps : List Piece)
    {x : AnyInst} (h : x ∈ blocksInstructions (assemble b id t phis code ps)) :
    (∃ d, x = .term (.br d)) ∨ x ∈ phis.map .phi ∨ x ∈ code.map .inst ∨ x = .term t ∨
      x ∈ ps.flatMap pieceInstructions := by
  induction ps generalizing phis code with
  | nil =>
      right
      simpa [assemble, blocksInstructions, blockInstructions] using h
  | cons p ps ih =>
      cases p with
      | code l =>
          have hrest := ih phis (code ++ l) h
          rw [List.map_append, List.mem_append] at hrest
          rw [List.flatMap_cons, List.mem_append, pieceInstructions]
          grind only
      | split pre s =>
          have hrest := ih s.phi.toList []
          simp only [assemble, blocksInstructions, List.flatMap_cons, List.mem_append] at h hrest
          simp only [blockInstructions, pieceInstructions, List.flatMap_cons, List.map_append, List.mem_append,
            List.mem_cons, List.not_mem_nil, or_false, List.map_nil, false_or] at h hrest ⊢
          grind only

structure BlockCopy where
  phis : List (List HInst × HPhi)
  pieces : List Piece
  code : List HInst
  term : HTerm

def BlockCopy.instructions (o : BlockCopy) : List AnyInst :=
  (o.phis.flatMap Prod.fst).map .inst ++ (o.phis.map Prod.snd).map .phi ++ o.pieces.flatMap pieceInstructions ++
    o.code.map .inst ++ [.term o.term]

variable {P : Input} {X : Copy} {f : GFunction}

structure CopiedTo (P : Input) (X : Copy) (f : GFunction) (b : GBlock) (o : BlockCopy) : Prop where
  phis : b.phis.mapM (doPhi P X) = .ok o.phis
  pieces : b.insts.mapM (doInstruction P X) = .ok o.pieces
  term : doTerminator P X f b.termId b.term = .ok (o.code, o.term)

theorem doBlock_instructions {b : Nat × GBlock} {r : List HInst × List (HostBlock × HBlock)}
    (h : doBlock P X f b = .ok r) : ∃ o, CopiedTo P X f b.2 o ∧
      (∀ x ∈ o.instructions, x ∈ r.1.map AnyInst.inst ∨ x ∈ blocksInstructions r.2) ∧
      ∀ x, x ∈ r.1.map AnyInst.inst ∨ x ∈ blocksInstructions r.2 → (∃ d, x = .term (.br d)) ∨ x ∈ o.instructions := by
  obtain ⟨phis, hphis, h⟩ := bind_eq_ok.mp h
  obtain ⟨pieces, hpieces, h⟩ := bind_eq_ok.mp h
  obtain ⟨⟨code, term⟩, hterm, h⟩ := bind_eq_ok.mp h
  cases h
  refine ⟨⟨phis, pieces, code, term⟩, ⟨hphis, hpieces, hterm⟩, ?_, ?_⟩
  · intro x hx
    have hmem := mem_assemble b.1 (bodyId b.2.termId) term (phis.map Prod.snd) [] (pieces ++ [.code code]) (x := x)
    simp only [BlockCopy.instructions, List.flatMap_append, List.mem_append, List.flatMap_cons, List.flatMap_nil,
      pieceInstructions, List.mem_singleton, List.map_nil, List.not_mem_nil, false_or, List.append_nil] at hx hmem
    grind only
  · intro x hx
    have hmem := of_mem_assemble b.1 (bodyId b.2.termId) term (phis.map Prod.snd) [] (pieces ++ [.code code]) (x := x)
    simp only [BlockCopy.instructions, List.flatMap_append, List.mem_append, List.flatMap_cons, List.flatMap_nil,
      pieceInstructions, List.mem_singleton, List.map_nil, List.not_mem_nil, false_or, List.append_nil] at hx hmem ⊢
    grind only

/-- The instructions of a copied body are those of the entry and of the copies
of the blocks. -/
theorem doBody_instructions {entry : List HInst} {blocks : List (HostBlock × HBlock)}
    (h : doBody P X f entry = .ok blocks) :
    (∀ b ∈ f.blocks, ∃ o, CopiedTo P X f b.2 o ∧ ∀ x ∈ o.instructions, x ∈ blocksInstructions blocks) ∧
      ∀ x ∈ blocksInstructions blocks, x ∈ entry.map AnyInst.inst ∨ (∃ d, x = .term (.br d)) ∨
        ∃ b ∈ f.blocks, ∃ o, CopiedTo P X f b.2 o ∧ x ∈ o.instructions := by
  obtain ⟨rs, hrs, h⟩ := bind_eq_ok.mp h
  obtain ⟨hblocks, hresults⟩ := mapM_ok_mem hrs
  split at h
  next => cases h
  next b₀ bs hbs =>
    cases h
    have hmem : ∀ x, x ∈ blocksInstructions ((.entry, ⟨[], entry ++ rs.flatMap Prod.fst, ⟨none, 0⟩,
          .br (entryLabel P f b₀.1)⟩) :: rs.flatMap Prod.snd) ↔
        x ∈ entry.map AnyInst.inst ∨ x = .term (.br (entryLabel P f b₀.1)) ∨
          ∃ r ∈ rs, x ∈ r.1.map AnyInst.inst ∨ x ∈ blocksInstructions r.2 := by
      intro x
      simp only [blocksInstructions, blockInstructions, List.flatMap_cons, List.map_nil, List.nil_append,
        List.map_append, List.mem_append, List.mem_singleton, List.mem_flatMap, List.mem_map]
      constructor
      · rintro ((( h | ⟨y, ⟨r, hr, hy⟩, rfl⟩) | rfl) | ⟨c, ⟨r, hr, hc⟩, hx⟩)
        · exact .inl h
        · exact .inr (.inr ⟨r, hr, .inl ⟨y, hy, rfl⟩⟩)
        · exact .inr (.inl rfl)
        · exact .inr (.inr ⟨r, hr, .inr ⟨c, hc, hx⟩⟩)
      · rintro (h | rfl | ⟨r, hr, ⟨y, hy, rfl⟩ | ⟨c, hc, hx⟩⟩)
        · exact .inl (.inl (.inl h))
        · exact .inl (.inr rfl)
        · exact .inl (.inl (.inr ⟨y, ⟨r, hr, hy⟩, rfl⟩))
        · exact .inr ⟨c, ⟨r, hr, hc⟩, hx⟩
    constructor
    · intro b hb
      obtain ⟨r, hr, hrb⟩ := hblocks b hb
      obtain ⟨o, ho, hx, _⟩ := doBlock_instructions hrb
      exact ⟨o, ho, fun x hxo => (hmem x).mpr (.inr (.inr ⟨r, hr, hx x hxo⟩))⟩
    · intro x hx
      rcases (hmem x).mp hx with h | rfl | ⟨r, hr, hx⟩
      · exact .inl h
      · exact .inr (.inl ⟨_, rfl⟩)
      · obtain ⟨b, hb, hrb⟩ := hresults r hr
        obtain ⟨o, ho, _, hxo⟩ := doBlock_instructions hrb
        rcases hxo x hx with hbr | hxo
        · exact .inr (.inl hbr)
        · exact .inr (.inr ⟨b, hb, o, ho, hxo⟩)

end Pieces

section Users

variable {P : Input} {X : Copy}

def copyPlace (X : Copy) (dropped : Bool) : Place := ⟨fun g => (X.refs g).isSome, X.func, dropped⟩

theorem placeOf_site (n : Nat) (dbg : Bool) : placeOf (site P X n dbg) = copyPlace X dbg := rfl

theorem mem_codeUsers_packCode {name : Nat → HostId} {ty : Ty} {vs : List HValue} {r : Nat} :
    r ∈ codeUsers (packCode name ty vs) ↔ r ∈ valuesUsers vs := by
  simp [packCode, mem_codeUsers_insertChain, opUsers, valueUsers_chainValue]

theorem valueUsers_retPtr (n k : Nat) (t : Ty) : valueUsers (retPtr n k t) = [] := by
  unfold retPtr
  split <;> rfl

theorem valueUsers_argPtr (n k : Nat) (vs : List HValue) : valueUsers (argPtr n k vs) = [] := by
  unfold argPtr
  split <;> rfl

theorem mem_codeUsers_ite {c : Prop} [Decidable c] {l : List HInst} {us : List Nat} {r : Nat}
    (h : ¬ c → (r ∈ codeUsers l ↔ r ∈ us)) (hc : c → us = []) : r ∈ codeUsers (if c then [] else l) ↔ r ∈ us := by
  split
  next hpos => simp [hc hpos]
  next hneg => exact h hneg

/-- A callback refers to what its stub, its callee and its arguments refer to. -/
theorem mem_codeUsers_callbackCode {debug : Bool} {n k : Nat} {result : HostId} {cbStub callee : HValue} {ret : Ty}
    {args : List (Ty × HValue)} {r : Nat} :
    r ∈ codeUsers (callbackCode debug n k result cbStub callee ret args) ↔
      r ∈ valueUsers cbStub ∨ r ∈ valueUsers callee ∨ r ∈ valuesUsers (args.map Prod.snd) := by
  have hpads : valuesUsers ((callbackArgs n k ret (args.map Prod.snd) cbStub callee).map Prod.snd) =
      valueUsers cbStub ++ valueUsers callee := by
    simp [callbackArgs, pointer, valueUsers_retPtr, valueUsers_argPtr]
  have hpack : r ∈ codeUsers (if (args.map Prod.snd).isEmpty then []
      else packCode (fun i => callName n k (5 + i)) (.struct (args.map Prod.fst) false) (args.map Prod.snd)) ↔
        r ∈ valuesUsers (args.map Prod.snd) := by
    refine mem_codeUsers_ite (fun _ => mem_codeUsers_packCode) (fun hempty => ?_)
    rw [List.isEmpty_iff.mp hempty]
    rfl
  have halloca : codeUsers (if ret = .void then [] else [⟨callName n k 1, .alloca ret⟩]) = [] := by
    split <;> rfl
  have hload : codeUsers (callbackEpilogue n k result ret) = [] := by
    unfold callbackEpilogue
    split
    · rfl
    · simp [opUsers, valueUsers_retPtr]
  have hdebug : r ∈ codeUsers (if debug then [⟨callName n k 4, TakeOut.debugCall .callbackDebugFmt
      (callbackArgs n k ret (args.map Prod.snd) cbStub callee)⟩] else []) →
        r ∈ valueUsers cbStub ++ valueUsers callee := by
    rw [← hpads]
    cases debug <;> simp [debugCall, opUsers, valueUsers, constUsers]
  have hcall : codeUsers [⟨callName n k 3, .call (gyhCallbackCall
      (callbackArgs n k ret (args.map Prod.snd) cbStub callee))⟩] = valueUsers cbStub ++ valueUsers callee := by
    rw [← hpads]
    simp [opUsers, gyhCallbackCall, valueUsers, constUsers]
  rw [callbackCode_eq]
  simp only [codeUsers_append, List.mem_append, halloca, hload, hcall, hpack] at hdebug ⊢
  simp only [codeUsers_cons, codeUsers_nil, opUsers, List.append_nil, List.not_mem_nil, or_false, false_or]
  grind only

variable (P X) in
def callLeft (c : GCall) : List Nat :=
  valuesLeft (copyPlace X (isDbgValueInst P.module c)) (c.args.map Prod.snd) ++
    if P.route c = .callback then valueLeft (copyPlace X (isDbgValueInst P.module c)) c.calledOperand else []

variable (P X) in
def instLeft (i : GInst) : List Nat :=
  match i.op with
  | .call c => callLeft P X c
  | op => valuesLeft (copyPlace X false) (Module.argOperands op)

theorem instLeft_call {i : GInst} {c : GCall} (hop : i.op = .call c) : instLeft P X i = callLeft P X c := by
  simp only [instLeft, hop]

variable (P X) in
def blockLeft (b : GBlock) : List Nat :=
  valuesLeft (copyPlace X false) (b.phis.flatMap (fun p => p.incoming.map Prod.fst)) ++ b.insts.flatMap (instLeft P X) ++
    valuesLeft (copyPlace X false) (Module.termOperands b.term)

theorem doOperands_length {S : Site} {args : Nat → HValue} {k : Nat} {vs : List GValue} {code : List HInst}
    {ws : List HValue} (h : doOperands S args k vs = .ok (code, ws)) : ws.length = vs.length := by
  induction vs generalizing k code ws with
  | nil =>
      cases h
      rfl
  | cons v vs ih =>
      obtain ⟨⟨code₁, w⟩, _, h⟩ := bind_eq_ok.mp h
      obtain ⟨⟨code₂, ws₂⟩, h₂, h⟩ := bind_eq_ok.mp h
      cases h
      rw [List.length_cons, List.length_cons, ih h₂]

theorem zip_snd {c : GCall} {ws : List HValue} (h : ws.length = (c.args.map Prod.snd).length) :
    ((c.args.map Prod.fst).zip ws).map Prod.snd = ws := by
  apply List.map_snd_zip
  rw [h, List.length_map, List.length_map]

theorem doCallback_users {n k : Nat} {result : HostId} {c : GCall} {callee : HValue} {args : List (Ty × HValue)}
    {code : List HInst} (h : doCallback P X n k result c callee args = .ok code) (r : Nat) :
    r ∈ codeUsers code ↔ r ∈ valueUsers callee ∨ r ∈ valuesUsers (args.map Prod.snd) := by
  obtain ⟨_, _, _, _, rfl⟩ := doCallback_eq_ok.mp h
  simp [mem_codeUsers_callbackCode]

theorem doFcpCm_users {n k : Nat} {c : GCall} {pre : List HInst} {callee : HValue} {args : List (Ty × HValue)}
    {s : Split} (h : doFcpCm P X n k c callee args = .ok s) (r : Nat) :
    r ∈ allUsers (pieceInstructions (.split pre s)) ↔
      r ∈ codeUsers pre ∨ r ∈ valueUsers callee ∨ r ∈ valuesUsers (args.map Prod.snd) := by
  obtain ⟨right, hright, h⟩ := bind_eq_ok.mp h
  cases h
  have hcallback := doCallback_users hright r
  have hphi : allUsers ((if c.functionType.ret = .void then none else some (⟨bodyId n, c.functionType.ret,
      [(.inst ⟨some n, k + 7⟩, .left n), (.inst ⟨some n, k + 8⟩, .right n)]⟩ : HPhi)).toList.map .phi) = [] := by
    split <;> rfl
  have hterms : allUsers [.term (.condBr (.inst ⟨some n, k + 5⟩) (.left n) (.right n))] = [] := rfl
  simp only [pieceInstructions, allUsers_append, allUsers_inst, codeUsers_append, List.mem_append, hphi, hterms,
    hcallback]
  simp only [codeUsers_cons, codeUsers_nil, opUsers, valueUsers_inst, List.append_nil, List.nil_append,
    List.mem_append, List.not_mem_nil, or_false]
  grind only

theorem directCall_users {n : Nat} {code : List HInst} {t : FunctionType} {cc : Nat} {a : AttributeList}
    {s : HostSym} {args : List (Ty × HValue)} (hs : ∀ g, s ≠ .user g) (r : Nat) :
    r ∈ allUsers (pieceInstructions (.code (code ++ [⟨bodyId n, .call ⟨t, cc, a, .const (.global s), args⟩⟩]))) ↔
      r ∈ codeUsers code ∨ r ∈ valuesUsers (args.map Prod.snd) := by
  have hsym : valueUsers (.const (.global s)) = [] := by
    cases s with
    | user g => exact absurd rfl (hs g)
    | _ => rfl
  rw [pieceInstructions, allUsers_inst, codeUsers_append, List.mem_append, codeUsers_cons, codeUsers_nil,
    List.append_nil, opUsers, hsym, List.nil_append]

section Copy

variable (hself : ∀ g, X.hfunc ≠ .user g) (hargs : Plain X.args)

include hself hargs

theorem doArgs_users {n : Nat} {c : GCall} {code : List HInst} {vs : List HValue}
    (h : doOperands (site P X n (isDbgValueInst P.module c)) X.args 1 (c.args.map Prod.snd) = .ok (code, vs)) (r : Nat) :
    (r ∈ codeUsers code ∨ r ∈ valuesUsers (((c.args.map Prod.fst).zip vs).map Prod.snd)) ↔
      r ∈ valuesLeft (copyPlace X (isDbgValueInst P.module c)) (c.args.map Prod.snd) := by
  have hleft := doOperands_users (S := site P X n (isDbgValueInst P.module c)) hself hargs h r
  rw [placeOf_site] at hleft
  rw [zip_snd (doOperands_length h)]
  exact hleft

theorem doInstruction_users {i : GInst} {p : Piece} (h : doInstruction P X i = .ok p) (r : Nat) :
    r ∈ allUsers (pieceInstructions p) ↔ r ∈ instLeft P X i := by
  cases doInstruction_made h with
  | op hop hops =>
      have hleft := doOperands_users (S := site P X i.id false) hself hargs hops r
      rw [placeOf_site] at hleft
      simp only [instLeft, hop, Module.argOperands, ← hleft, pieceInstructions, allUsers_inst, codeUsers_append, codeUsers_cons,
        codeUsers_nil, opUsers, List.append_nil, List.mem_append]
  | @direct c d code vs hop hcode hd =>
      rw [instLeft_call hop, callLeft, if_neg (directCall_route hd), List.append_nil, ← doArgs_users hself hargs hcode]
      cases hroute : P.route c with
      | callback => exact absurd hroute (directCall_route hd)
      | white | intrinsic | fcp =>
          rw [hroute] at hd
          cases hd
          exact directCall_users (by simp) r
  | @callback c code code' code'' vs callee hop hcode hroute hcallee _ hcallback =>
      have hleft := doOperand_users (S := site P X i.id (isDbgValueInst P.module c)) hself hargs hcallee r
      rw [placeOf_site] at hleft
      rw [instLeft_call hop, callLeft, if_pos hroute, List.mem_append, ← doArgs_users hself hargs hcode, ← hleft]
      simp only [pieceInstructions, allUsers_inst, codeUsers_append, List.mem_append, doCallback_users hcallback r]
      grind only
  | @split c code code' vs callee s hop hcode hroute hcallee _ hs =>
      have hleft := doOperand_users (S := site P X i.id (isDbgValueInst P.module c)) hself hargs hcallee r
      rw [placeOf_site] at hleft
      rw [instLeft_call hop, callLeft, if_pos hroute, List.mem_append, ← doArgs_users hself hargs hcode, ← hleft, doFcpCm_users hs r]
      simp only [codeUsers_append, List.mem_append]
      grind only

theorem doPhi_users {p : Phi Nat Nat Nat} {q : List HInst × HPhi} (h : doPhi P X p = .ok q) (r : Nat) :
    r ∈ codeUsers q.1 ∨ r ∈ (AnyInst.phi q.2).users ↔
      r ∈ valuesLeft (copyPlace X false) (p.incoming.map Prod.fst) := by
  obtain ⟨⟨code, vs⟩, hvs, h⟩ := bind_eq_ok.mp h
  cases h
  have hleft := doOperands_users (S := site P X p.id false) hself hargs hvs r
  rw [placeOf_site] at hleft
  rw [← hleft]
  have hlen := doOperands_length hvs
  have hzip : (vs.zip (p.incoming.map (fun q => HostBlock.body q.2))).map Prod.fst = vs := by
    apply List.map_fst_zip
    simpa using Nat.le_of_eq hlen
  simp only [AnyInst.users, hzip]

theorem doTerminator_users {f : GFunction} {n : Nat} {t : Term Nat Nat Nat} {q : List HInst × HTerm}
    (h : doTerminator P X f n t = .ok q) (r : Nat) :
    r ∈ codeUsers q.1 ∨ r ∈ termUsers q.2 ↔ r ∈ valuesLeft (copyPlace X false) (Module.termOperands t) := by
  have hoperand : ∀ {v : GValue} {code : List HInst} {w : HValue},
      doOperand (site P X n false) X.args 1 v = .ok (code, w) →
        (r ∈ codeUsers code ∨ r ∈ valueUsers w ↔ r ∈ valuesLeft (copyPlace X false) [v]) := by
    intro v code w hv
    have hleft := doOperand_users (S := site P X n false) hself hargs hv r
    rw [placeOf_site] at hleft
    simpa [valuesLeft] using hleft
  unfold doTerminator at h
  simp only at h
  split at h
  case h_1 | h_3 | h_6 =>
    cases h
    simp [Module.termOperands, valuesLeft, termUsers]
  case h_2 ty v =>
    obtain ⟨⟨code, w⟩, hv, h⟩ := bind_eq_ok.mp h
    rw [Module.termOperands, ← hoperand hv]
    split at h
    · cases h
      simp [termUsers]
    · cases h
      simp [termUsers, opUsers, valueUsers]
  case h_4 v a b =>
    obtain ⟨⟨code, w⟩, hv, h⟩ := bind_eq_ok.mp h
    cases h
    rw [Module.termOperands, ← hoperand hv]
    rfl
  case h_5 v d cases =>
    obtain ⟨⟨code, w⟩, hv, h⟩ := bind_eq_ok.mp h
    cases h
    rw [Module.termOperands, ← hoperand hv]
    rfl
  case h_7 => cases h

theorem copiedTo_users {f : GFunction} {blk : GBlock} {o : BlockCopy} (h : CopiedTo P X f blk o) (r : Nat) :
    r ∈ allUsers o.instructions ↔ r ∈ blockLeft P X blk := by
  obtain ⟨hphis, hphis'⟩ := mapM_ok_mem h.phis
  obtain ⟨hpieces, hpieces'⟩ := mapM_ok_mem h.pieces
  have hterm := doTerminator_users hself hargs h.term r
  have hphi : (r ∈ codeUsers (o.phis.flatMap Prod.fst) ∨ r ∈ allUsers ((o.phis.map Prod.snd).map .phi)) ↔
      r ∈ valuesLeft (copyPlace X false) (blk.phis.flatMap (fun p => p.incoming.map Prod.fst)) := by
    have hcode : r ∈ codeUsers (o.phis.flatMap Prod.fst) ↔ ∃ q ∈ o.phis, r ∈ codeUsers q.1 := by
      rw [codeUsers, List.flatMap_assoc, List.mem_flatMap]
      rfl
    have hcopies : r ∈ allUsers ((o.phis.map Prod.snd).map .phi) ↔ ∃ q ∈ o.phis, r ∈ (AnyInst.phi q.2).users := by
      rw [allUsers, List.map_map, List.flatMap_map, List.mem_flatMap]
      rfl
    have hleft : r ∈ valuesLeft (copyPlace X false) (blk.phis.flatMap (fun p => p.incoming.map Prod.fst)) ↔
        ∃ p ∈ blk.phis, r ∈ valuesLeft (copyPlace X false) (p.incoming.map Prod.fst) := by
      rw [valuesLeft, List.flatMap_assoc, List.mem_flatMap]
      rfl
    rw [hcode, hcopies, hleft, ← exists_or]
    constructor
    · rintro ⟨q, h⟩
      obtain ⟨p, hp, hpq⟩ := hphis' q (by grind only)
      exact ⟨p, hp, (doPhi_users hself hargs hpq r).mp (by grind only)⟩
    · rintro ⟨p, hp, h⟩
      obtain ⟨q, hq, hpq⟩ := hphis p hp
      rcases (doPhi_users hself hargs hpq r).mpr h with h | h
      · exact ⟨q, .inl ⟨hq, h⟩⟩
      · exact ⟨q, .inr ⟨hq, h⟩⟩
  have hpiece : r ∈ allUsers (o.pieces.flatMap pieceInstructions) ↔ r ∈ blk.insts.flatMap (instLeft P X) := by
    rw [allUsers, List.flatMap_assoc, List.mem_flatMap, List.mem_flatMap]
    constructor
    · rintro ⟨p, hp, h⟩
      obtain ⟨i, hi, hip⟩ := hpieces' p hp
      exact ⟨i, hi, (doInstruction_users hself hargs hip r).mp h⟩
    · rintro ⟨i, hi, h⟩
      obtain ⟨p, hp, hip⟩ := hpieces i hi
      exact ⟨p, hp, (doInstruction_users hself hargs hip r).mpr h⟩
  simp only [BlockCopy.instructions, allUsers_append, allUsers_inst, List.mem_append, blockLeft, ← hphi, ← hpiece,
    ← hterm]
  have hlast : allUsers [.term o.term] = termUsers o.term := List.append_nil _
  rw [hlast]
  grind only

/-- The guest symbols in a copied body are those of the code of its entry and
what is left of the operands of the function. -/
theorem doBody_users {f : GFunction} {entry : List HInst} {blocks : List (HostBlock × HBlock)}
    (h : doBody P X f entry = .ok blocks) (hentry : codeUsers entry = []) (r : Nat) :
    r ∈ allUsers (blocksInstructions blocks) ↔ ∃ b ∈ f.blocks, r ∈ blockLeft P X b.2 := by
  obtain ⟨hblocks, hall⟩ := doBody_instructions h
  rw [allUsers, List.mem_flatMap]
  constructor
  · rintro ⟨x, hx, hr⟩
    rcases hall x hx with hmem | ⟨d, rfl⟩ | ⟨b, hb, o, ho, hxo⟩
    · obtain ⟨i, hi, rfl⟩ := List.mem_map.mp hmem
      have : r ∈ codeUsers entry := List.mem_flatMap.mpr ⟨i, hi, hr⟩
      rw [hentry] at this
      cases this
    · cases hr
    · exact ⟨b, hb, (copiedTo_users hself hargs ho r).mp (List.mem_flatMap.mpr ⟨x, hxo, hr⟩)⟩
  · rintro ⟨b, hb, hr⟩
    obtain ⟨o, ho, hsub⟩ := hblocks b hb
    obtain ⟨x, hx, hr⟩ := List.mem_flatMap.mp ((copiedTo_users hself hargs ho r).mpr hr)
    exact ⟨x, hsub x hx, hr⟩

end Copy

end Users

section Generated

variable {P : Input} {g : Nat} {f : GFunction} {info : FuncInfo}

def called : HOp → Option HostSym
  | .call c => match c.calledOperand with
    | .const (.global s) => some s
    | _ => none
  | _ => none

def Quiet (l : List HInst) : Prop :=
  ∀ i ∈ l, opUsers i.op = [] ∧ (Module.callOf i.op = none ∨ called i.op = some .gyhDebug)

theorem called_eq_none {op : HOp} (h : Module.callOf op = none) : called op = none := by
  cases op with
  | call => cases h
  | _ => rfl

theorem Quiet.append {l k : List HInst} (hl : Quiet l) (hk : Quiet k) : Quiet (l ++ k) := by
  intro i hi
  rcases List.mem_append.mp hi with hi | hi
  · exact hl i hi
  · exact hk i hi

theorem Quiet.users {l : List HInst} (h : Quiet l) : codeUsers l = [] :=
  List.flatMap_eq_nil_iff.mpr (fun i hi => (h i hi).1)

theorem quiet_place {pos : Nat} {ops : List HOp}
    (h : ∀ op ∈ ops, opUsers op = [] ∧ (Module.callOf op = none ∨ called op = some .gyhDebug)) : Quiet (place pos ops) := by
  intro i hi
  obtain ⟨q, hq, rfl⟩ := List.mem_map.mp hi
  exact h q.1 (List.fst_mem_of_mem_zipIdx hq)

theorem quiet_debugCode : Quiet (debugCode P info) := by
  unfold debugCode
  split
  next =>
    apply quiet_place
    intro op hop
    cases List.mem_singleton.mp hop
    refine ⟨?_, .inr rfl⟩
    simp only [debugCall, opUsers, List.map_cons, List.map_map, valuesUsers_cons]
    refine List.append_eq_nil_iff.mpr ⟨rfl, List.append_eq_nil_iff.mpr ⟨rfl, List.append_eq_nil_iff.mpr ⟨rfl, ?_⟩⟩⟩
    apply List.flatMap_eq_nil_iff.mpr
    intro v hv
    obtain ⟨i, _, rfl⟩ := List.mem_map.mp hv
    rfl
  next =>
    intro i hi
    cases hi

theorem quiet_loadFields (pos : Nat) (ty : Ty) (j n : Nat) : Quiet (loadFields pos ty (.arg j) n) := by
  apply quiet_place
  intro op hop
  rcases List.mem_cons.mp hop with rfl | hop
  · exact ⟨rfl, .inl rfl⟩
  · obtain ⟨i, _, rfl⟩ := List.mem_map.mp hop
    exact ⟨rfl, .inl rfl⟩

theorem quiet_argsCode (pos : Nat) : Quiet (argsCode f info pos) := by
  unfold argsCode
  split
  next => exact quiet_loadFields _ _ _ _
  next =>
    intro i hi
    cases hi

variable (P f info) in
theorem quiet_stubEntry : Quiet (debugCode P info ++ argsCode f info (1 + (debugCode P info).length)) :=
  quiet_debugCode.append (quiet_argsCode _)

theorem quiet_padFields {K : Type} (pos j : Nat) (keys : List K) : Quiet (padFields pos (.arg j) keys) := by
  unfold padFields
  split
  next =>
    intro i hi
    cases hi
  next => exact quiet_loadFields _ _ _ _

theorem quiet_tableEntries {tbl : HostSym} (htbl : ∀ g, tbl ≠ .user g) (pos : Nat) (uids : List Nat) :
    Quiet (tableEntries pos tbl uids) := by
  have hsym : valueUsers (.const (.global tbl)) = [] := by
    cases tbl with
    | user g => exact absurd rfl (htbl g)
    | _ => rfl
  apply quiet_place
  intro op hop
  obtain ⟨q, _, hop⟩ := List.mem_flatMap.mp hop
  simp only [List.mem_cons, List.not_mem_nil, or_false] at hop
  rcases hop with rfl | rfl | rfl
  · exact ⟨hsym, .inl rfl⟩
  · exact ⟨rfl, .inl rfl⟩
  · exact ⟨rfl, .inl rfl⟩

theorem quiet_fcpTableEntries {tbl : HostSym} (htbl : ∀ g, tbl ≠ .user g) (pos : Nat) (uids : List Nat) :
    Quiet (fcpTableEntries pos tbl uids) := by
  have hsym : valueUsers (.const (.global tbl)) = [] := by
    cases tbl with
    | user g => exact absurd rfl (htbl g)
    | _ => rfl
  apply quiet_place
  intro op hop
  rcases List.mem_cons.mp hop with rfl | hop
  · exact ⟨hsym, .inl rfl⟩
  · obtain ⟨q, _, hop⟩ := List.mem_flatMap.mp hop
    simp only [List.mem_cons, List.not_mem_nil, or_false] at hop
    rcases hop with rfl | rfl
    · exact ⟨rfl, .inl rfl⟩
    · exact ⟨rfl, .inl rfl⟩

structure Copying (P : Input) (g : Nat) (f : GFunction) (info : FuncInfo) (X : Copy) (entry : List HInst)
    (hf : HFunction) : Prop where
  body : doBody P X f entry = .ok hf.blocks
  func : X.func = g
  hfunc : ∀ k, X.hfunc ≠ .user k
  refs : ∀ r, (X.refs r).isSome = true ↔ r ∈ info.extRefArgs
  args : Plain X.args
  entry : Quiet entry

theorem assign_isSome_iff {K V : Type} [DecidableEq K] {l : List (K × V)} {keys : List K}
    (hl : l.map Prod.fst = keys) (k : K) : (assign l k).isSome = true ↔ k ∈ keys := by
  constructor
  · intro h
    obtain ⟨x, hx⟩ := Option.isSome_iff_exists.mp h
    rw [← hl]
    exact List.mem_map.mpr ⟨(k, x), EntryRun.assign_mem hx, rfl⟩
  · intro h
    rw [← hl] at h
    exact Option.isSome_iff_ne_none.mpr (assign_ne_none h)

theorem plain_hstubArgs {pos : Nat} {args : Nat → HValue} (h : hstubArgs f info pos = .ok args) : Plain args := by
  unfold hstubArgs at h
  split at h
  next =>
    cases h
    exact fun i => .inl ⟨_, rfl⟩
  next => cases h

inductive Conversion (P : Input) (g : Nat) (f : GFunction) (info : FuncInfo) (X : Copy) (entry : List HInst) :
    Generated → Prop
  | plain {args : Nat → HValue} {pre : List HInst} {pos pos' : Nat} {blocks : List (HostBlock × HBlock)}
      (hargs : Plain args) (hpre : Quiet pre)
      (hX : X = ⟨g, .hstub info.uid, assign (fieldNames pos info.extRefArgs), assign (fieldNames pos' info.cbStubArgs), args⟩)
      (hentry : entry = pre ++ padFields pos (.arg 2) info.extRefArgs ++ padFields pos' (.arg 3) info.cbStubArgs)
      (hbody : doBody P X f entry = .ok blocks) :
      Conversion P g f info X entry ⟨copyOf g f (hstubType P) ⟨[]⟩ X.hfunc blocks, none⟩
  | grt {args : Nat → HValue} {pre : List HInst} {pos pos' : Nat} {uids uids' : List Nat}
      {blocks : List (HostBlock × HBlock)} (hargs : Plain args) (hpre : Quiet pre) (hrefs : P.grefUids info = .ok uids)
      (hX : X = ⟨g, .hstub info.uid, assign (entryNames pos info.extRefArgs), assign (entryNames pos' info.cbStubArgs), args⟩)
      (hentry : entry = pre ++ tableEntries pos .extreftbl uids ++ tableEntries pos' .cbstubtbl uids')
      (hbody : doBody P X f entry = .ok blocks) :
      Conversion P g f info X entry ⟨copyOf g f (hstubType P) ⟨[]⟩ X.hfunc blocks, none⟩
  | fcp {pos : Nat} {uids uids' : List Nat} {blocks : List (HostBlock × HBlock)} (hrefs : P.grefUids info = .ok uids)
      (hX : X = ⟨g, .fcpFunc g, assign (fcpEntryNames 1 info.extRefArgs), assign (fcpEntryNames pos info.cbStubArgs),
        Value.arg⟩)
      (hentry : entry = fcpTableEntries 1 .extreftbl uids ++ fcpTableEntries pos .cbstubtbl uids')
      (hbody : doBody P X f entry = .ok blocks) :
      Conversion P g f info X entry
        ⟨fcpStub P g f info, some (copyOf g f f.type ⟨[] :: f.attributes.sets.tail⟩ X.hfunc blocks)⟩

theorem doHstubcvt_cases {gen : Generated} (h : doHstubcvt P g f info = .ok gen) :
    ∃ X entry, Conversion P g f info X entry gen := by
  unfold doHstubcvt at h
  split at h
  next =>
    split at h
    next =>
      simp only [genFcp] at h
      split at h
      next =>
        obtain ⟨uids, huids, h⟩ := bind_eq_ok.mp h
        obtain ⟨uids', _, h⟩ := bind_eq_ok.mp h
        obtain ⟨blocks, hblocks, h⟩ := bind_eq_ok.mp h
        cases h
        exact ⟨_, _, .fcp huids rfl rfl hblocks⟩
      next => cases h
    next =>
      obtain ⟨args, hargs, h⟩ := bind_eq_ok.mp h
      obtain ⟨uids, huids, h⟩ := bind_eq_ok.mp h
      obtain ⟨uids', _, h⟩ := bind_eq_ok.mp h
      obtain ⟨blocks, hblocks, h⟩ := bind_eq_ok.mp h
      cases h
      exact ⟨_, _, .grt (plain_hstubArgs hargs) (quiet_debugCode.append (quiet_argsCode _)) huids rfl rfl hblocks⟩
  next =>
    split at h
    next =>
      split at h
      next => cases h
      next => cases h
    next =>
      obtain ⟨args, hargs, h⟩ := bind_eq_ok.mp h
      obtain ⟨blocks, hblocks, h⟩ := bind_eq_ok.mp h
      cases h
      exact ⟨_, _, .plain (plain_hstubArgs hargs) (quiet_debugCode.append (quiet_argsCode _)) rfl rfl hblocks⟩

theorem Conversion.copying {gen : Generated} {X : Copy} {entry : List HInst} (h : Conversion P g f info X entry gen) :
    ∃ hf, Copying P g f info X entry hf ∧
      (gen.stub = hf ∧ gen.copy = none ∨ gen.stub = fcpStub P g f info ∧ gen.copy = some hf) := by
  cases h with
  | plain hargs hpre hX hentry hbody =>
      subst hX hentry
      refine ⟨_, ⟨hbody, rfl, by simp, assign_isSome_iff (fieldNames_keys _ _), hargs, ?_⟩, .inl ⟨rfl, rfl⟩⟩
      exact (hpre.append (quiet_padFields _ _ _)).append (quiet_padFields _ _ _)
  | grt hargs hpre _ hX hentry hbody =>
      subst hX hentry
      refine ⟨_, ⟨hbody, rfl, by simp, assign_isSome_iff (entryNames_keys _ _), hargs, ?_⟩, .inl ⟨rfl, rfl⟩⟩
      exact (hpre.append (quiet_tableEntries (by simp) _ _)).append (quiet_tableEntries (by simp) _ _)
  | fcp _ hX hentry hbody =>
      subst hX hentry
      refine ⟨_, ⟨hbody, rfl, by simp, assign_isSome_iff (fcpEntryNames_keys _ _), fun i => .inr ⟨i, rfl⟩, ?_⟩,
        .inr ⟨rfl, rfl⟩⟩
      exact (quiet_fcpTableEntries (by simp) _ _).append (quiet_fcpTableEntries (by simp) _ _)

/-- A guest function is copied into its entry of the table, or into a function
that this entry calls. -/
theorem doHstubcvt_copying {gen : Generated} (h : doHstubcvt P g f info = .ok gen) : ∃ X entry hf,
    Copying P g f info X entry hf ∧
      (gen.stub = hf ∧ gen.copy = none ∨ gen.stub = fcpStub P g f info ∧ gen.copy = some hf) := by
  obtain ⟨X, entry, hconv⟩ := doHstubcvt_cases h
  obtain ⟨hf, hX, hwhere⟩ := hconv.copying
  exact ⟨X, entry, hf, hX, hwhere⟩

theorem fcpStub_users : allUsers (instructions (fcpStub P g f info)) = [] := by
  have hentry := quiet_stubEntry P f info
  have hargs : ∀ pos, valuesUsers ((f.type.params.zipIdx.map
      (fun p => (p.1, (.inst (entryName (pos + p.2)) : HValue)))).map Prod.snd) = [] := by
    intro pos
    apply List.flatMap_eq_nil_iff.mpr
    intro v hv
    obtain ⟨q, hq, rfl⟩ := List.mem_map.mp hv
    obtain ⟨p, _, rfl⟩ := List.mem_map.mp hq
    rfl
  simp only [fcpStub, instructions, blocksInstructions, List.flatMap_cons, List.flatMap_nil, List.append_nil,
    blockInstructions, List.map_nil, List.nil_append, allUsers_append, allUsers_inst, codeUsers_append, hentry.users]
  split
  · simp [TakeOut.place, opUsers, hargs, valueUsers, constUsers, AnyInst.users, termUsers, -List.map_map]
  · simp [TakeOut.place, opUsers, hargs, valueUsers, constUsers, AnyInst.users, termUsers, -List.map_map]

end Generated

section Kept

variable (m : Module) (g : Nat) (f : GFunction)

def refOf : Item → Option Nat
  | .ref g => some g
  | _ => none

def registeredRefs : List Nat := (functionItems m .null f).filterMap refOf

def guestPlace : Place := ⟨fun r => decide (r ∈ registeredRefs m f), g, false⟩

end Kept

section Analyzed

variable {H : HashOps} {L : Layout} {m : Module} {config : Config} {uid g : Nat} {f : GFunction} {info : FuncInfo}

theorem mem_refs {items : List Item} {r : Nat} : r ∈ items.filterMap refOf ↔ Item.ref r ∈ items := by
  rw [List.mem_filterMap]
  constructor
  · rintro ⟨i, hi, hr⟩
    cases i with
    | ref k =>
        cases hr
        exact hi
    | callback | reject => cases hr
  · intro h
    exact ⟨_, h, rfl⟩

theorem mem_registeredRefs {r : Nat} : r ∈ registeredRefs m f ↔ Item.ref r ∈ functionItems m .null f := mem_refs

theorem mem_extRefArgs_iff (hinfo : (analyze H L m .null uid).functbl.find? g = some info) (hfun : m.function? g = some f)
    (r : Nat) : r ∈ info.extRefArgs ↔ r ∈ registeredRefs m f := by
  obtain ⟨f', scan, h, he⟩ := (analyze_wellFormed H L m .null uid).entries g info hinfo
  cases hfun.symm.trans he.function
  rw [mem_registeredRefs, he.refs, (scanFunction_scanned he.scanned).refs]

theorem copyPlace_eq {X : Copy} {entry : List HInst} {hf : HFunction}
    (hinfo : (analyze H L m .null uid).functbl.find? g = some info) (hfun : m.function? g = some f)
    (hX : Copying (analyzed H L m config .null uid) g f info X entry hf) : copyPlace X false = guestPlace m g f := by
  have hrefs : (fun r => (X.refs r).isSome) = fun r => decide (r ∈ registeredRefs m f) := by
    funext r
    rw [Bool.eq_iff_iff, hX.refs, decide_eq_true_eq, mem_extRefArgs_iff hinfo hfun]
  rw [copyPlace, guestPlace, hX.func, hrefs]

theorem registers_of_route {c : GCall} (hfun : m.function? g = some f)
    (haccepted : ∀ e, Item.reject e ∉ functionItems m .null f) (hc : c ∈ Module.calls f)
    (hroute : (analyzed H L m config .null uid).route c = .callback) : Registers m .null c := by
  rcases registers_or_listed hfun haccepted hc hroute with h | ⟨k, callee, h, _⟩
  · exact h
  · cases h.listed

/-- A global value that is called through a callback is registered. -/
theorem callee_registered {c : GCall} {k : Nat} (hc : c ∈ Module.calls f) (hk : c.calledOperand = .const (.global k))
    (hreg : Registers m .null c) : k ∈ registeredRefs m f := by
  refine mem_registeredRefs.mpr (calleeItems_subset hc ?_)
  simp only [Registers, hk] at hreg
  simp only [calleeItems, hk]
  cases hcallee : m.function? k with
  | none => simp
  | some callee =>
      rw [hcallee] at hreg
      simp [hreg.1, hreg.2]

end Analyzed

def returning (c : Const Nat) : GFunction :=
  ⟨⟨ptrTy, [], false⟩, 0, ⟨[]⟩, none, [(0, ⟨[], [], 0, .ret (some (ptrTy, .const c))⟩)], [], none⟩

def returningModule (c : Const Nat) : Module :=
  ⟨[.function (returning c), .function ⟨⟨.void, [], false⟩, 0, ⟨[]⟩, none, [], [], none⟩], rfl⟩

def returningInput (c : Const Nat) : Input :=
  analyzed HostTable.sumHash HostTable.plainLayout (returningModule c) HostTable.chopAll .null 7

end Comulator.SelfContained
