import Comulator.TypeHash
import Mathlib.Logic.Equiv.List

namespace Comulator.HashSpec

open Types Ir TypeHash

def typeID : Ty → Nat
  | .half => 0 | .bfloat => 1 | .float => 2 | .double => 3 | .x86Fp80 => 4 | .fp128 => 5 | .ppcFp128 => 6
  | .void => 7 | .label => 8 | .metadata => 9 | .x86Mmx => 10 | .x86Amx => 11 | .token => 12
  | .integer _ => 13 | .function _ _ _ => 14 | .pointer _ => 15 | .struct _ _ | .opaqueStruct _ => 16
  | .array _ _ => 17 | .fixedVector _ _ => 18 | .scalableVector _ _ => 19 | .typedPointer _ _ => 20
  | .targetExt _ => 21

/-- LLVM's hash functions as constructors: what they return determines what
they were given, and is never a bare constant. -/
structure Constructors (H : HashOps) : Prop where
  combine : Function.Injective H.combine
  ofNat : Function.Injective H.ofNat
  constant : ∀ n l, H.ofNat n ≠ H.combine l
  valueFalse : ∀ l, H.valueFalse ≠ H.combine l
  typeId : ∀ s t, H.typeId s = H.typeId t → typeID s = typeID t
  attrKind : Function.Injective H.attrKind

variable {H : HashOps}

section Chain

variable (H)

def chain (n : Nat) (l : List HashCode) : HashCode :=
  l.foldl (fun acc h => H.combine [.code acc, .code h]) (H.ofNat n)

variable {H}

theorem chain_append (n : Nat) (l : List HashCode) (h : HashCode) :
    chain H n (l ++ [h]) = H.combine [.code (chain H n l), .code h] := List.foldl_concat _ _ _ _

theorem chain_inj (hH : Constructors H) {m n : Nat} {l k : List HashCode} (h : chain H m l = chain H n k) :
    m = n ∧ l = k := by
  induction l using List.reverseRecOn generalizing k with
  | nil =>
      cases k using List.reverseRecOn with
      | nil => exact ⟨hH.ofNat h, rfl⟩
      | append_singleton k b =>
          rw [chain_append] at h
          exact absurd h (hH.constant _ _)
  | append_singleton l a ih =>
      cases k using List.reverseRecOn with
      | nil =>
          rw [chain_append] at h
          exact absurd h.symm (hH.constant _ _)
      | append_singleton k b =>
          rw [chain_append, chain_append] at h
          have hargs := hH.combine h
          simp only [List.cons.injEq, HashArg.code.injEq, and_true] at hargs
          obtain ⟨hmn, hlk⟩ := ih hargs.1
          exact ⟨hmn, by rw [hlk, hargs.2]⟩

end Chain

theorem paramsHash_eq (acc : HashCode) (ts : List Ty) : paramsHash H acc ts =
    (ts.mapM (typeHash H)).map (List.foldl (fun acc h => H.combine [.code acc, .code h]) acc) := by
  induction ts generalizing acc with
  | nil => rfl
  | cons t ts ih =>
      rw [paramsHash, List.mapM_cons]
      cases typeHash H t with
      | none => rfl
      | some h =>
          simp only [Option.bind_eq_bind, Option.bind_some, ih]
          cases ts.mapM (typeHash H) <;> rfl

theorem elementsHash_eq (acc : HashCode) (ts : List Ty) : elementsHash H acc ts =
    (ts.mapM (typeHash H)).map (fun hs => (hs.map (fun h => hashOptional H (some h))).foldl
      (fun acc h => H.combine [.code acc, .code h]) acc) := by
  induction ts generalizing acc with
  | nil => rfl
  | cons t ts ih =>
      rw [elementsHash, List.mapM_cons]
      cases typeHash H t with
      | none => rfl
      | some h =>
          simp only [Option.bind_eq_bind, Option.bind_some, ih]
          cases ts.mapM (typeHash H) <;> rfl

inductive Shape
  | leaf
  | number (n : Nat)
  | function (ret : Ty) (params : List Ty) (isVarArg : Bool)
  | struct (elements : List Ty) (isPacked : Bool)
  | sequence (element : Ty) (n : Nat)

def shape : Ty → Option Shape
  | .half | .bfloat | .float | .double | .fp128 | .void | .label | .metadata | .token => some .leaf
  | .integer n | .pointer n => some (.number n)
  | .function r ps v => some (.function r ps v)
  | .struct es p => some (.struct es p)
  | .array e n | .fixedVector e n | .scalableVector e n => some (.sequence e n)
  | .x86Fp80 | .ppcFp128 | .x86Mmx | .x86Amx | .opaqueStruct _ | .typedPointer _ _ | .targetExt _ => none

def ofShape : Nat → Shape → Ty
  | 0, .leaf => .half | 1, .leaf => .bfloat | 2, .leaf => .float | 3, .leaf => .double | 5, .leaf => .fp128
  | 8, .leaf => .label | 9, .leaf => .metadata | 12, .leaf => .token | _, .leaf => .void
  | 13, .number n => .integer n | _, .number n => .pointer n
  | _, .function r ps v => .function r ps v
  | _, .struct es p => .struct es p
  | 17, .sequence e n => .array e n | 18, .sequence e n => .fixedVector e n | _, .sequence e n => .scalableVector e n

theorem ofShape_shape {t : Ty} {s : Shape} (h : shape t = some s) : ofShape (typeID t) s = t := by
  cases t <;> cases h <;> rfl

variable (H) in
def shapeHash (id : Nat) : Shape → Option HashCode
  | .leaf => some (H.ofNat id)
  | .number n => some (H.combine [.word id, .word n])
  | .function r ps v =>
      ((r :: ps).mapM (typeHash H)).map (fun hs => H.combine [.code (chain H id hs), .flag v])
  | .struct es p => (es.mapM (typeHash H)).map (fun hs =>
      H.combine [.code (chain H id (hs.map (fun h => hashOptional H (some h)))), .flag p, .flag (isSizedList es)])
  | .sequence e n => (typeHash H e).map (fun h => H.combine [.code (H.ofNat id), .code h, .word n])

theorem typeHash_eq (t : Ty) : typeHash H t = (shape t).bind (shapeHash H (H.typeId t)) := by
  cases t with
  | function r ps v =>
      simp only [typeHash, shape, shapeHash, paramsHash_eq, Option.bind_some, List.mapM_cons]
      cases typeHash H r with
      | none => rfl
      | some h => cases ps.mapM (typeHash H) <;> rfl
  | struct es p =>
      simp only [typeHash, shape, shapeHash, elementsHash_eq, Option.bind_some]
      cases es.mapM (typeHash H) <;> rfl
  | array e n | fixedVector e n | scalableVector e n =>
      simp only [typeHash, shape, shapeHash, Option.bind_some]
      cases typeHash H e <;> rfl
  | _ => simp only [typeHash, shape, shapeHash, Option.bind_some, Option.bind_none]

def Identified (H : HashOps) (t : Ty) : Prop := ∀ u h, typeHash H t = some h → typeHash H u = some h → t = u

theorem mapM_cons_eq_some {t : Ty} {ts : List Ty} {hs : List HashCode} :
    (t :: ts).mapM (typeHash H) = some hs ↔
      ∃ h k, typeHash H t = some h ∧ ts.mapM (typeHash H) = some k ∧ hs = h :: k := by
  rw [List.mapM_cons]
  simp only [Option.bind_eq_bind, Option.bind_eq_some_iff, Option.pure_def, Option.some.injEq]
  constructor
  · rintro ⟨h, hh, k, hk, rfl⟩
    exact ⟨h, k, hh, hk, rfl⟩
  · rintro ⟨h, k, hh, hk, rfl⟩
    exact ⟨h, hh, k, hk, rfl⟩

theorem mapM_inj {ts us : List Ty} {hs : List HashCode} (hts : ∀ t ∈ ts, Identified H t)
    (h : ts.mapM (typeHash H) = some hs) (h' : us.mapM (typeHash H) = some hs) : ts = us := by
  induction ts generalizing us hs with
  | nil =>
      cases h
      cases us with
      | nil => rfl
      | cons u us =>
          obtain ⟨_, _, _, _, hne⟩ := mapM_cons_eq_some.mp h'
          cases hne
  | cons t ts ih =>
      obtain ⟨a, as, ha, has, rfl⟩ := mapM_cons_eq_some.mp h
      cases us with
      | nil => cases h'
      | cons u us =>
          obtain ⟨b, bs, hb, hbs, heq⟩ := mapM_cons_eq_some.mp h'
          cases heq
          rw [hts t List.mem_cons_self u a ha hb, ih (fun t ht => hts t (List.mem_cons_of_mem _ ht)) has hbs]

def Shape.parts : Shape → List Ty
  | .leaf | .number _ => []
  | .function r ps _ => r :: ps
  | .struct es _ => es
  | .sequence e _ => [e]

theorem sizeOf_parts {t u : Ty} {s : Shape} (h : shape t = some s) (hu : u ∈ s.parts) : sizeOf u < sizeOf t := by
  cases t with
  | function r ps v =>
      cases h
      rcases List.mem_cons.mp hu with rfl | hu
      · simp only [Ty.function.sizeOf_spec]
        omega
      · have := List.sizeOf_lt_of_mem hu
        simp only [Ty.function.sizeOf_spec]
        omega
  | struct es p =>
      cases h
      have := List.sizeOf_lt_of_mem (show u ∈ es from hu)
      simp only [Ty.struct.sizeOf_spec]
      omega
  | array e n | fixedVector e n | scalableVector e n =>
      cases h
      cases List.mem_singleton.mp hu
      simp only [Ty.array.sizeOf_spec, Ty.fixedVector.sizeOf_spec, Ty.scalableVector.sizeOf_spec, sizeOf_nat]
      omega
  | _ => cases h <;> cases hu

theorem hashOptional_inj (hH : Constructors H) {l k : List HashCode}
    (h : l.map (fun h => hashOptional H (some h)) = k.map (fun h => hashOptional H (some h))) : l = k := by
  refine List.map_injective_iff.mpr ?_ h
  intro a b hab
  have hargs := hH.combine hab
  simpa using hargs

/-- The hash of a type tells its class, and its shape once the parts are known. -/
theorem shapeHash_inj (hH : Constructors H) {i j : Nat} {s t : Shape} {h : HashCode}
    (hparts : ∀ u ∈ s.parts, Identified H u) (hs : shapeHash H i s = some h) (ht : shapeHash H j t = some h) :
    i = j ∧ s = t := by
  cases s with
  | leaf =>
      cases hs
      cases t with
      | leaf => exact ⟨(hH.ofNat (Option.some.inj ht)).symm, rfl⟩
      | number n => exact absurd (Option.some.inj ht).symm (hH.constant _ _)
      | function r ps v | struct es p | sequence e n =>
          obtain ⟨_, _, ht⟩ := Option.map_eq_some_iff.mp ht
          exact absurd ht.symm (hH.constant _ _)
  | number n =>
      cases hs
      cases t with
      | leaf => exact absurd (Option.some.inj ht) (hH.constant _ _)
      | number m =>
          have hargs := hH.combine (Option.some.inj ht)
          simp only [List.cons.injEq, HashArg.word.injEq, and_true] at hargs
          exact ⟨hargs.1.symm, by rw [hargs.2]⟩
      | function r ps v | struct es p | sequence e n =>
          obtain ⟨_, _, ht⟩ := Option.map_eq_some_iff.mp ht
          simpa using hH.combine ht
  | function r ps v =>
      obtain ⟨k, hk, rfl⟩ := Option.map_eq_some_iff.mp hs
      cases t with
      | leaf => exact absurd (Option.some.inj ht) (hH.constant _ _)
      | number m => simpa using hH.combine (Option.some.inj ht)
      | function r' ps' v' =>
          obtain ⟨k', hk', ht⟩ := Option.map_eq_some_iff.mp ht
          have hargs := hH.combine ht
          simp only [List.cons.injEq, HashArg.code.injEq, HashArg.flag.injEq, and_true] at hargs
          obtain ⟨hid, rfl⟩ := chain_inj hH hargs.1
          have htypes := mapM_inj hparts hk hk'
          cases htypes
          exact ⟨hid.symm, by rw [hargs.2]⟩
      | struct es p | sequence e n =>
          obtain ⟨_, _, ht⟩ := Option.map_eq_some_iff.mp ht
          simpa using hH.combine ht
  | struct es p =>
      obtain ⟨k, hk, rfl⟩ := Option.map_eq_some_iff.mp hs
      cases t with
      | leaf => exact absurd (Option.some.inj ht) (hH.constant _ _)
      | number m => simpa using hH.combine (Option.some.inj ht)
      | struct es' p' =>
          obtain ⟨k', hk', ht⟩ := Option.map_eq_some_iff.mp ht
          have hargs := hH.combine ht
          simp only [List.cons.injEq, HashArg.code.injEq, HashArg.flag.injEq, and_true] at hargs
          obtain ⟨hid, hmap⟩ := chain_inj hH hargs.1
          cases hashOptional_inj hH hmap
          have htypes : es' = es := (mapM_inj hparts hk hk').symm
          exact ⟨hid.symm, by rw [htypes, hargs.2.1]⟩
      | function r ps v | sequence e n =>
          obtain ⟨_, _, ht⟩ := Option.map_eq_some_iff.mp ht
          simpa using hH.combine ht
  | sequence e n =>
      obtain ⟨k, hk, rfl⟩ := Option.map_eq_some_iff.mp hs
      cases t with
      | leaf => exact absurd (Option.some.inj ht) (hH.constant _ _)
      | number m => simpa using hH.combine (Option.some.inj ht)
      | sequence e' n' =>
          obtain ⟨k', hk', ht⟩ := Option.map_eq_some_iff.mp ht
          have hargs := hH.combine ht
          simp only [List.cons.injEq, HashArg.code.injEq, HashArg.word.injEq, and_true] at hargs
          obtain ⟨hid, rfl, rfl⟩ := hargs
          have he := hparts e List.mem_cons_self e' _ hk hk'
          exact ⟨(hH.ofNat hid).symm, by rw [he]⟩
      | function r ps v | struct es p =>
          obtain ⟨_, _, ht⟩ := Option.map_eq_some_iff.mp ht
          simpa using hH.combine ht

theorem typeHash_inj (hH : Constructors H) (t : Ty) : Identified H t := by
  induction hn : sizeOf t using Nat.strongRecOn generalizing t with
  | ind n ih =>
      intro u h ht hu
      rw [typeHash_eq] at ht hu
      obtain ⟨s, hs, hsh⟩ := Option.bind_eq_some_iff.mp ht
      obtain ⟨s', hs', hsh'⟩ := Option.bind_eq_some_iff.mp hu
      have hparts : ∀ p ∈ s.parts, Identified H p := by
        intro p hp
        exact ih (sizeOf p) (hn ▸ sizeOf_parts hs hp) p rfl
      obtain ⟨hid, rfl⟩ := shapeHash_inj hH hparts hsh hsh'
      rw [← ofShape_shape hs, ← ofShape_shape hs', hH.typeId t u hid]

mutual

def isHashable : Ty → Bool
  | .x86Fp80 | .ppcFp128 | .x86Mmx | .x86Amx | .typedPointer _ _ | .targetExt _ | .opaqueStruct _ => false
  | .function r ps _ => isHashable r && areHashable ps
  | .struct es _ => areHashable es
  | .array e _ | .fixedVector e _ | .scalableVector e _ => isHashable e
  | _ => true

def areHashable : List Ty → Bool
  | [] => true
  | t :: ts => isHashable t && areHashable ts

end

mutual

theorem typeHash_isSome (t : Ty) : (typeHash H t).isSome = isHashable t := by
  cases t with
  | function r ps v =>
      rw [typeHash, isHashable, ← typeHash_isSome r, ← mapM_isSome ps]
      simp only [paramsHash_eq]
      cases typeHash H r with
      | none => rfl
      | some h => cases ps.mapM (typeHash H) <;> rfl
  | struct es p =>
      rw [typeHash, isHashable, ← mapM_isSome es]
      simp only [elementsHash_eq]
      cases es.mapM (typeHash H) <;> rfl
  | array e n | fixedVector e n | scalableVector e n =>
      rw [typeHash, isHashable, ← typeHash_isSome e]
      cases typeHash H e <;> rfl
  | _ => rfl

theorem mapM_isSome (ts : List Ty) : (ts.mapM (typeHash H)).isSome = areHashable ts := by
  cases ts with
  | nil => rfl
  | cons t ts =>
      rw [List.mapM_cons, areHashable, ← typeHash_isSome t, ← mapM_isSome ts]
      cases typeHash H t with
      | none => rfl
      | some h => cases ts.mapM (typeHash H) <;> rfl

end

/-- What the hash of an attribute does not read: the key of a string attribute
but for its length, and a type that cannot be hashed. -/
inductive Hidden
  | key (key : String)
  | type (ty : Option Ty)
  deriving DecidableEq

def hidden : Attribute → Option Hidden
  | .string key _ => some (.key key)
  | .type _ ty => if (ty.map isHashable).getD false then none else some (.type ty)
  | .enum _ | .int _ _ => none

theorem attributeHash_inj (hH : Constructors H) {a b : Attribute} (h : attributeHash H a = attributeHash H b)
    (hhid : hidden a = hidden b) : a = b := by
  cases a with
  | enum k =>
      cases b with
      | enum l => rw [hH.attrKind (hH.ofNat h)]
      | int l v | string l v | type l ty => exact absurd h (hH.constant _ _)
  | int k v =>
      cases b with
      | enum l => exact absurd h.symm (hH.constant _ _)
      | int l w =>
          have hargs := hH.combine h
          simp only [List.cons.injEq, HashArg.code.injEq, HashArg.word.injEq, and_true] at hargs
          rw [hH.attrKind (hH.ofNat hargs.1), hargs.2]
      | string l w | type l ty => simpa using hH.combine h
  | string k v =>
      cases b with
      | enum l => exact absurd h.symm (hH.constant _ _)
      | string l w =>
          have hargs := hH.combine h
          simp only [List.cons.injEq, HashArg.text.injEq, and_true] at hargs
          simp only [hidden, Option.some.injEq, Hidden.key.injEq] at hhid
          rw [hhid, hargs.2]
      | int l w | type l ty => simpa using hH.combine h
  | type k ty =>
      cases b with
      | enum l => exact absurd h.symm (hH.constant _ _)
      | int l w | string l w => simpa using hH.combine h
      | type l ty' =>
          have hargs := hH.combine h
          simp only [List.cons.injEq, HashArg.code.injEq, and_true] at hargs
          have hkind := hH.attrKind (hH.ofNat hargs.1)
          suffices hty : ty = ty' by rw [hkind, hty]
          have hopt := hargs.2
          simp only [hidden] at hhid
          split at hhid
          next hs =>
            split at hhid
            next hs' =>
              obtain ⟨t, rfl⟩ := Option.isSome_iff_exists.mp (show ty.isSome from by cases ty <;> simp_all)
              obtain ⟨t', rfl⟩ := Option.isSome_iff_exists.mp (show ty'.isSome from by cases ty' <;> simp_all)
              obtain ⟨k₁, hk₁⟩ := Option.isSome_iff_exists.mp ((typeHash_isSome (H := H) t).trans hs)
              obtain ⟨k₂, hk₂⟩ := Option.isSome_iff_exists.mp ((typeHash_isSome (H := H) t').trans hs')
              rw [Option.bind_some, Option.bind_some, hk₁, hk₂] at hopt
              have hcodes := hH.combine hopt
              simp only [List.cons.injEq, HashArg.code.injEq, and_true, true_and] at hcodes
              rw [typeHash_inj hH t t' k₁ hk₁ (hcodes ▸ hk₂)]
            next => cases hhid
          next =>
            split at hhid
            next => cases hhid
            next => exact Hidden.type.inj (Option.some.inj hhid)

theorem attributeSetHash_eq (s : AttributeSet) : attributeSetHash H s = chain H 200000406 (s.map (attributeHash H)) := by
  simp only [attributeSetHash, chain, List.foldl_map]

theorem attributeListHash_eq (a : AttributeList) :
    attributeListHash H a = chain H 200000906 (a.sets.map (attributeSetHash H)) := by
  simp only [attributeListHash, chain, List.foldl_map]

/-- Equal hashes of attribute lists are equal place by place. -/
theorem attributeListHash_inj (hH : Constructors H) {a b : AttributeList}
    (h : attributeListHash H a = attributeListHash H b) (i : Nat) :
    (a.getAttributes i).map (attributeHash H) = (b.getAttributes i).map (attributeHash H) := by
  rw [attributeListHash_eq, attributeListHash_eq] at h
  have hsets := congrArg (fun l => l[i + 1]?) (chain_inj hH h).2
  simp only [List.getElem?_map] at hsets
  unfold AttributeList.getAttributes
  rw [List.getD_eq_getElem?_getD, List.getD_eq_getElem?_getD]
  cases ha : a.sets[i + 1]? with
  | none =>
      cases hb : b.sets[i + 1]? with
      | none => rfl
      | some t => simp [ha, hb] at hsets
  | some s =>
      cases hb : b.sets[i + 1]? with
      | none => simp [ha, hb] at hsets
      | some t =>
          simp only [ha, hb, Option.map_some, Option.some.injEq, attributeSetHash_eq] at hsets
          exact (chain_inj hH hsets).2

theorem attributes_eq_of_hidden (hH : Constructors H) {s t : AttributeSet}
    (h : s.map (attributeHash H) = t.map (attributeHash H)) (hhid : s.map hidden = t.map hidden) : s = t := by
  induction s generalizing t with
  | nil => simpa using h
  | cons a s ih =>
      cases t with
      | nil => simp at h
      | cons b t =>
          rw [List.map_cons, List.map_cons, List.cons.injEq] at h hhid
          rw [attributeHash_inj hH h.1 hhid.1, ih h.2 hhid.2]

def Tells (s t : FunctionType × AttributeList) : Prop :=
  s.1 = t.1 ∧ ((∀ i, s.2.getAttributes i = t.2.getAttributes i) ↔
    ∀ i, (s.2.getAttributes i).map hidden = (t.2.getAttributes i).map hidden)

theorem signatureHash_tells (hH : Constructors H) {s t : FunctionType × AttributeList} {h : HashCode}
    (hs : signatureHash H s.1 s.2 = some h) (ht : signatureHash H t.1 t.2 = some h) : Tells s t := by
  obtain ⟨k, hk, hs⟩ := Option.bind_eq_some_iff.mp hs
  obtain ⟨k', hk', ht⟩ := Option.bind_eq_some_iff.mp ht
  have hargs := hH.combine (Option.some.inj (hs.trans ht.symm))
  simp only [List.cons.injEq, HashArg.code.injEq, and_true] at hargs
  have htype := hH.combine hargs.1
  simp only [List.cons.injEq, HashArg.code.injEq, and_true, true_and] at htype
  subst htype
  have hty := typeHash_inj hH _ _ _ hk hk'
  refine ⟨?_, ?_, ?_⟩
  · obtain ⟨⟨r, ps, v⟩, a⟩ := s
    obtain ⟨⟨r', ps', v'⟩, a'⟩ := t
    cases hty
    rfl
  · intro heq i
    rw [heq i]
  · intro hhid i
    exact attributes_eq_of_hidden hH (attributeListHash_inj hH hargs.2 i) (hhid i)

/-- Two functions, or two call sites, with the same hash have the same function
type; their return and parameter attributes are the same exactly when what the
hash does not read is the same. -/
theorem hash_identifies_iff (H : HashOps) (hH : Constructors H) :
    (∀ (f f' : GFunction) (h : HashCode), functionHash H f = some h → functionHash H f' = some h →
      Tells (f.type, f.attributes) (f'.type, f'.attributes)) ∧
      ∀ (c c' : GCall) (h : HashCode), callSiteHash H c = some h → callSiteHash H c' = some h →
        Tells (c.functionType, c.attributes) (c'.functionType, c'.attributes) := by
  constructor
  · intro f f' h hf hf'
    exact signatureHash_tells (s := (f.type, f.attributes)) (t := (f'.type, f'.attributes)) hH hf hf'
  · intro c c' h hc hc'
    exact signatureHash_tells (s := (c.functionType, c.attributes)) (t := (c'.functionType, c'.attributes)) hH hc hc'

def argCode : HashArg → Nat ⊕ Nat ⊕ Bool ⊕ List Nat
  | .code h => .inl h
  | .word n => .inr (.inl n)
  | .flag b => .inr (.inr (.inl b))
  | .text s => .inr (.inr (.inr (s.toList.map Char.toNat)))

theorem argCode_injective : Function.Injective argCode := by
  intro a b h
  cases a <;> cases b <;> simp only [argCode, Sum.inl.injEq, Sum.inr.injEq, reduceCtorEq] at h
  case text.text s t =>
    have hchars : s.toList = t.toList := List.map_injective_iff.mpr (fun _ _ => Char.toNat_inj.mp) h
    rw [String.toList_inj.mp hchars]
  all_goals rw [h]

def kindCode : AttrKind → Nat
  | .byVal => 0 | .structRet => 1 | .inAlloca => 2 | .preallocated => 3 | .byRef => 4 | .inReg => 5 | .zExt => 6
  | .sExt => 7 | .stackAlignment => 8 | .swiftSelf => 9 | .swiftAsync => 10 | .swiftError => 11 | .nest => 12
  | .other n => 13 + n

def freeHash : HashOps where
  ofNat n := 3 * n
  combine l := 3 * Encodable.encode (l.map argCode) + 1
  valueFalse := 2
  typeId := typeID
  attrKind := kindCode

theorem freeHash_constructors : Constructors freeHash where
  combine := by
    intro l k h
    have h : 3 * Encodable.encode (l.map argCode) + 1 = 3 * Encodable.encode (k.map argCode) + 1 := h
    have hcode : Encodable.encode (l.map argCode) = Encodable.encode (k.map argCode) := by omega
    exact List.map_injective_iff.mpr argCode_injective (Encodable.encode_injective hcode)
  ofNat := by
    intro m n h
    have h : 3 * m = 3 * n := h
    omega
  constant := by
    intro n l h
    have h : 3 * n = 3 * Encodable.encode (l.map argCode) + 1 := h
    omega
  valueFalse := by
    intro l h
    have h : 2 = 3 * Encodable.encode (l.map argCode) + 1 := h
    omega
  typeId := fun _ _ h => h
  attrKind := by
    intro k l h
    cases k <;> cases l <;> simp [freeHash, kindCode] at h ⊢
    all_goals omega

def byValue (ty : Ty) : GFunction :=
  ⟨⟨.void, [.pointer 0], false⟩, 0, ⟨[[], [], [.type .byVal (some ty)]]⟩, none, [], [], none⟩

theorem byValue_hash {ty : Ty} (h : isHashable ty = false) : functionHash H (byValue ty) = functionHash H (byValue .x86Fp80) := by
  have hty : typeHash H ty = none := by
    rw [← Option.isNone_iff_eq_none, ← Option.not_isSome, typeHash_isSome, h]
    rfl
  simp [functionHash, signatureHash, attributeListHash, attributeSetHash, attributeHash, byValue, hty, typeHash]

theorem byValue_tells : Tells (⟨.void, [.pointer 0], false⟩, (byValue .double).attributes)
    (⟨.void, [.pointer 0], false⟩, (byValue .double).attributes) :=
  (hash_identifies_iff freeHash freeHash_constructors).1 (byValue .double) (byValue .double) _ rfl rfl

/-- Structures that hold a `long double` are not told apart. -/
theorem longDouble_collision : Constructors freeHash ∧
    (functionHash freeHash (byValue (.struct [.x86Fp80] false))).isSome ∧
      functionHash freeHash (byValue (.struct [.x86Fp80] false)) =
        functionHash freeHash (byValue (.struct [.x86Fp80, .integer 32] false)) ∧
      (byValue (.struct [.x86Fp80] false)).attributes.getAttributes 1 ≠
        (byValue (.struct [.x86Fp80, .integer 32] false)).attributes.getAttributes 1 := by
  refine ⟨freeHash_constructors, rfl, ?_, by decide⟩
  exact (byValue_hash rfl).trans (byValue_hash rfl).symm

end Comulator.HashSpec
