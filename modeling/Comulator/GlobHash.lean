import Comulator.TypeHash
import Comulator.FirstSeen

namespace Comulator.GlobHash

open Types TypeHash FirstSeen

inductive Kind
  | variable
  | function (attributes : AttributeList)
  | other
deriving DecidableEq

/-- A global value of a module, with its value type as an object of the context:
two struct types of one body are two objects. -/
structure Global (T : Type) where
  name : String
  kind : Kind
  valueType : T

def Global.isVariable {T : Type} (s : Global T) : Bool := s.kind = .variable

def Global.isFunction {T : Type} (s : Global T) : Bool := s.kind ≠ .variable && s.kind ≠ .other

structure GlobModule (T : Type) where
  symbols : List (Global T)
  /-- No two symbols have one name. -/
  distinct : ((symbols.map Global.name).filter (fun n => !n.isEmpty)).Nodup

def GlobModule.getNamedValue {T : Type} (m : GlobModule T) (name : String) : Option (Global T) :=
  if name.isEmpty then none else m.symbols.find? (fun s => s.name = name)

inductive Side
  | base
  | compared
deriving DecidableEq

structure Place where
  side : Side
  index : Nat
deriving DecidableEq

def GlobModule.select {T : Type} (m : GlobModule T) (side : Side) (p : Global T → Bool) : List (Place × Global T) :=
  (m.symbols.zipIdx.filter (fun q => p q.1)).map (fun q => (⟨side, q.2⟩, q.1))

structure Result where
  normal : UInt32
  unhashable : UInt32
  additional : UInt32
  collision : UInt32
  mismatch : UInt32

inductive Count
  | normal
  | unhashable
  | additional
  | collision
  | mismatch
deriving DecidableEq

def Result.add (r : Result) : Count → Result
  | .normal => { r with normal := r.normal + 1 }
  | .unhashable => { r with unhashable := r.unhashable + 1 }
  | .additional => { r with additional := r.additional + 1 }
  | .collision => { r with collision := r.collision + 1 }
  | .mismatch => { r with mismatch := r.mismatch + 1 }

abbrev TAPair (T : Type) := T × AttributeList

/-- The global table, the counters, and for which symbol each step of a counter was made. -/
structure Run (T : Type) where
  hashes : List (HashCode × TAPair T)
  result : Result
  counts : List (Place × Count)

def Run.count {T : Type} (r : Run T) (p : Place) (c : Count) : Run T :=
  { r with result := r.result.add c, counts := r.counts ++ [(p, c)] }

variable {T : Type} (H : HashOps) (typeOf : T → Ty)

def hashTaPair (gv : Global T) : Option (HashCode × TAPair T) :=
  match gv.kind, typeOf gv.valueType with
  | .function attributes, .function ret params isVarArg =>
      (signatureHash H ⟨ret, params, isVarArg⟩ attributes).map (fun h => (h, gv.valueType, attributes))
  -- The value type of a function is a function type.
  | .function _, _ => none
  | _, t => (typeHash H t).map (fun h => (h, gv.valueType, ⟨[]⟩))

/-- The second half of `compare`. There is no result where the symbol of the base
module has no hash: `print_ta_pair` then prints a type that is a null pointer. -/
def checkMatch (base : GlobModule T) (r : Run T) (p : Place) (name : String) (hash : HashCode) : Option (Run T) :=
  match base.getNamedValue name with
  | none => some (r.count p .additional)
  | some gv =>
      match hashTaPair H typeOf gv with
      | none => none
      | some (hash', _) =>
          if hash' = hash then some (r.count p .normal) else some ((r.count p .mismatch).count p .normal)

/-- What the two loops of `main_body` go over: the global variables of the compared
module, and the functions of the base module. -/
def visited (base cmp : GlobModule T) : List (Place × Global T) :=
  cmp.select .compared Global.isVariable ++ base.select .base Global.isFunction

def Global.isChecked (s : Global T) : Bool := s.isVariable || s.isFunction

def hashOf (s : Global T) : Option HashCode := (hashTaPair H typeOf s).map Prod.fst

/-- The differences that the tool is for: two symbols of the compared module with one
hash, or a symbol whose namesake in the base module has another hash or none. -/
def Differs (base cmp : GlobModule T) : Prop :=
  (∃ s ∈ cmp.symbols, ∃ s' ∈ cmp.symbols, s.isChecked ∧ s'.isChecked ∧
    ∃ hash ta ta', hashTaPair H typeOf s = some (hash, ta) ∧ hashTaPair H typeOf s' = some (hash, ta') ∧ ta ≠ ta') ∨
  ∃ s ∈ cmp.symbols, s.isChecked ∧ ∃ gv, base.getNamedValue s.name = some gv ∧
    (hashOf H typeOf gv = none ∨ hashOf H typeOf gv ≠ hashOf H typeOf s)

def entries (l : List (Place × Global T)) : List (HashCode × TAPair T) := l.filterMap (fun p => hashTaPair H typeOf p.2)

def matchCounts (base : GlobModule T) (name : String) (hash : HashCode) : Option (List Count) :=
  match base.getNamedValue name with
  | none => some [.additional]
  | some gv => (hashOf H typeOf gv).map (fun hash' => if hash' = hash then [.normal] else [.mismatch, .normal])

def Run.counted (r : Run T) (cs : List (Place × Count)) : Run T := cs.foldl (fun r c => r.count c.1 c.2) r

theorem counted_append (r : Run T) (cs cs' : List (Place × Count)) :
    r.counted (cs ++ cs') = (r.counted cs).counted cs' := List.foldl_append

theorem counted_hashes (r : Run T) (hashes : List (HashCode × TAPair T)) (cs : List (Place × Count)) :
    ({ r with hashes := hashes } : Run T).counted cs = { r.counted cs with hashes := hashes } := by
  induction cs generalizing r with
  | nil => rfl
  | cons c cs ih => exact ih (r.count c.1 c.2)

theorem counted_counts (r : Run T) (cs : List (Place × Count)) : (r.counted cs).counts = r.counts ++ cs := by
  induction cs generalizing r with
  | nil => rw [List.append_nil]; rfl
  | cons c cs ih =>
      have h := ih (r.count c.1 c.2)
      rw [Run.count, List.append_assoc] at h
      exact h

/-- The counters are those of the recorded steps. -/
theorem counted_collision (r : Run T) (cs : List (Place × Count)) :
    (r.counted cs).result.collision = r.result.collision + UInt32.ofNat (cs.countP (fun c => c.2 = .collision)) := by
  induction cs generalizing r with
  | nil => exact (UInt32.add_zero _).symm
  | cons c cs ih =>
      obtain ⟨p, c⟩ := c
      have h := ih (r.count p c)
      have hstep : (r.counted ((p, c) :: cs)) = (r.count p c).counted cs := rfl
      rw [hstep, h, List.countP_cons]
      cases c <;> simp [Run.count, Result.add, UInt32.add_assoc, UInt32.add_comm 1]

theorem counted_mismatch (r : Run T) (cs : List (Place × Count)) (h : ∀ c ∈ cs, c.2 ≠ .mismatch) :
    (r.counted cs).result.mismatch = r.result.mismatch := by
  induction cs generalizing r with
  | nil => rfl
  | cons c cs ih =>
      have hstep : (r.counted (c :: cs)) = (r.count c.1 c.2).counted cs := rfl
      rw [hstep, ih _ (fun d hd => h d (List.mem_cons_of_mem c hd))]
      have hc := h c List.mem_cons_self
      obtain ⟨p, c⟩ := c
      cases c with
      | mismatch => exact absurd rfl hc
      | normal | unhashable | additional | collision => rfl

theorem checkMatch_eq (base : GlobModule T) (r : Run T) (p : Place) (name : String) (hash : HashCode) :
    checkMatch H typeOf base r p name hash =
      (matchCounts H typeOf base name hash).map (fun cs => r.counted (cs.map (fun c => (p, c)))) := by
  unfold checkMatch matchCounts hashOf
  cases base.getNamedValue name with
  | none => rfl
  | some gv =>
      cases hgv : hashTaPair H typeOf gv with
      | none => simp only [hgv, Option.map_none]
      | some e =>
          by_cases he : e.1 = hash
          · simp [hgv, he, Run.counted]
          · simp [hgv, he, Run.counted]

variable {H typeOf} {base cmp : GlobModule T} {l : List (Place × Global T)} {s : Global T}

theorem entries_concat (pre : List (Place × Global T)) (p : Place × Global T) :
    entries H typeOf (pre ++ [p]) = entries H typeOf pre ++ (hashTaPair H typeOf p.2).toList := by
  cases h : hashTaPair H typeOf p.2 <;> simp [entries, h]

theorem getNamedValue_mem (hs : s ∈ base.symbols) {gv : Global T} (h : base.getNamedValue s.name = some gv) : gv = s := by
  rw [GlobModule.getNamedValue] at h
  split at h
  next => cases h
  next hname =>
    have hgv : gv ∈ base.symbols := List.mem_of_find?_eq_some h
    have heq : gv.name = s.name := by simpa using List.find?_some h
    have hnodup := base.distinct
    rw [List.filter_map] at hnodup
    refine List.inj_on_of_nodup_map hnodup ?_ ?_ heq
    · rw [List.mem_filter]
      refine ⟨hgv, ?_⟩
      simpa [heq] using hname
    · rw [List.mem_filter]
      refine ⟨hs, ?_⟩
      simpa using hname

theorem mem_select {m : GlobModule T} {side : Side} {q : Global T → Bool} {p : Place × Global T} :
    p ∈ m.select side q ↔ p.1.side = side ∧ m.symbols[p.1.index]? = some p.2 ∧ q p.2 := by
  obtain ⟨⟨side', i⟩, s⟩ := p
  simp only [GlobModule.select, List.mem_map, List.mem_filter, Prod.exists, List.mem_zipIdx_iff_getElem?, Prod.mk.injEq,
    Place.mk.injEq]
  constructor
  · rintro ⟨s', i', ⟨hs, hq⟩, ⟨rfl, rfl⟩, rfl⟩
    exact ⟨rfl, hs, hq⟩
  · rintro ⟨rfl, hs, hq⟩
    exact ⟨s, i, ⟨hs, hq⟩, ⟨rfl, rfl⟩, rfl⟩

theorem select_nodup (m : GlobModule T) (side : Side) (q : Global T → Bool) : ((m.select side q).map Prod.fst).Nodup := by
  rw [GlobModule.select, List.map_map]
  have hidx : (m.symbols.zipIdx.map Prod.snd).Nodup := by
    rw [List.zipIdx_map_snd]
    exact List.nodup_range'
  have hsub : ((m.symbols.zipIdx.filter (fun p => q p.1)).map Prod.snd).Nodup :=
    hidx.sublist (List.filter_sublist.map Prod.snd)
  have hmap := hsub.map (f := fun i => Place.mk side i) (fun i j h => congrArg Place.index h)
  rw [List.map_map] at hmap
  exact hmap

theorem visited_nodup (base cmp : GlobModule T) : ((visited base cmp).map Prod.fst).Nodup := by
  rw [visited, List.map_append]
  refine (select_nodup _ _ _).append (select_nodup _ _ _) ?_
  intro p hcmp hbase
  obtain ⟨q, hq, rfl⟩ := List.mem_map.mp hcmp
  obtain ⟨q', hq', heq⟩ := List.mem_map.mp hbase
  have hside := congrArg Place.side heq
  rw [(mem_select.mp hq).1, (mem_select.mp hq').1] at hside
  cases hside

theorem lookup_variable {i : Nat} (hs : cmp.symbols[i]? = some s) (hvar : s.isVariable) :
    (visited base cmp).lookup ⟨.compared, i⟩ = some s := by
  apply OrderedMap.lookup_eq_some_of_mem (visited_nodup base cmp)
  exact List.mem_append_left _ (mem_select.mpr ⟨rfl, hs, hvar⟩)

theorem lookup_function {i : Nat} (hs : cmp.symbols[i]? = some s) (hfun : s.isVariable = false) :
    (visited base cmp).lookup ⟨.compared, i⟩ = none := by
  rw [lookup_eq_none]
  intro hmem
  obtain ⟨p, hp, hplace⟩ := List.mem_map.mp hmem
  rcases List.mem_append.mp hp with h | h
  · obtain ⟨_, hsym, hvar⟩ := mem_select.mp h
    rw [hplace, hs] at hsym
    rw [← Option.some.inj hsym, hfun] at hvar
    cases hvar
  · have hside := (mem_select.mp h).1
    rw [hplace] at hside
    cases hside

variable [DecidableEq T] (H typeOf)

def compare (base : GlobModule T) (r : Run T) (gvCmp : Place × Global T) : Option (Run T) :=
  match hashTaPair H typeOf gvCmp.2 with
  | none => some (r.count gvCmp.1 .unhashable)
  | some (hash, taPair) =>
      match r.hashes.lookup hash with
      | none => checkMatch H typeOf base { r with hashes := r.hashes ++ [(hash, taPair)] } gvCmp.1 gvCmp.2.name hash
      | some seen =>
          if taPair ≠ seen then some (r.count gvCmp.1 .collision)
          else checkMatch H typeOf base r gvCmp.1 gvCmp.2.name hash

def mainBody (base cmp : GlobModule T) (init : Result) : Option (Int × Run T) := do
  let r ← (visited base cmp).foldlM (compare H typeOf base) ⟨[], init, []⟩
  return (if r.result.collision > 0 || r.result.mismatch > 0 then -3 else 0, r)

/-- The tool returns, reports the differences exactly, and counts every symbol once. -/
def Exact (base cmp : GlobModule T) (init : Result) : Prop :=
  ∃ code r, mainBody H typeOf base cmp init = some (code, r) ∧ (code = -3 ↔ Differs H typeOf base cmp) ∧
    ∀ i s, cmp.symbols[i]? = some s → s.isChecked → r.counts.countP (fun c => c.1 = ⟨.compared, i⟩) = 1

def collides (l : List (Place × Global T)) (s : Global T) : Bool :=
  match hashTaPair H typeOf s with
  | none => false
  | some (hash, taPair) => (entries H typeOf l).lookup hash ≠ some taPair

def countsOf (base : GlobModule T) (l : List (Place × Global T)) (s : Global T) : Option (List Count) :=
  match hashOf H typeOf s with
  | none => some [.unhashable]
  | some hash => if collides H typeOf l s then some [.collision] else matchCounts H typeOf base s.name hash

def countsAt (base : GlobModule T) (l : List (Place × Global T)) (p : Place × Global T) : List (Place × Count) :=
  ((countsOf H typeOf base l p.2).getD []).map (fun c => (p.1, c))

def Clean (base : GlobModule T) (l : List (Place × Global T)) (s : Global T) : Prop :=
  ∀ hash, hashOf H typeOf s = some hash → collides H typeOf l s = false →
    ∀ gv, base.getNamedValue s.name = some gv → hashOf H typeOf gv = some hash

def collisions (base cmp : GlobModule T) : Nat :=
  (visited base cmp).countP (fun p => collides H typeOf (visited base cmp) p.2)

variable {H typeOf}

/-- Whether a visited symbol collides is known when it is reached. -/
theorem collides_iff (pre rest : List (Place × Global T)) {p : Place × Global T} {hash : HashCode} {taPair : TAPair T}
    (hp : hashTaPair H typeOf p.2 = some (hash, taPair)) :
    collides H typeOf (pre ++ p :: rest) p.2 ↔ ∃ seen, (entries H typeOf pre).lookup hash = some seen ∧ taPair ≠ seen := by
  have hentries : entries H typeOf (pre ++ p :: rest) =
      entries H typeOf pre ++ (hash, taPair) :: entries H typeOf rest := by
    rw [entries, List.filterMap_append, List.filterMap_cons, hp]
    rfl
  rw [collides, hp]
  simp only [hentries, List.lookup_append, List.lookup_cons_self, decide_eq_true_eq]
  cases (entries H typeOf pre).lookup hash with
  | none => simp
  | some seen => simp [eq_comm]

theorem compare_eq (base : GlobModule T) (pre rest : List (Place × Global T)) (p : Place × Global T) (r : Run T) :
    compare H typeOf base { r with hashes := firsts Prod.fst (entries H typeOf pre) } p =
      (countsOf H typeOf base (pre ++ p :: rest) p.2).map (fun cs =>
        ({ r with hashes := firsts Prod.fst (entries H typeOf (pre ++ [p])) } : Run T).counted
          (cs.map (fun c => (p.1, c)))) := by
  rw [entries_concat, compare, countsOf, hashOf]
  cases hp : hashTaPair H typeOf p.2 with
  | none => simp [Run.counted]
  | some e =>
      obtain ⟨hash, taPair⟩ := e
      have hcollides := collides_iff pre rest hp
      simp only [Option.map_some, Option.toList_some, firsts_concat, lookup_firsts]
      cases hl : (entries H typeOf pre).lookup hash with
      | none =>
          have hnot : ¬ collides H typeOf (pre ++ p :: rest) p.2 := by
            rw [hcollides, hl]
            rintro ⟨seen, h, _⟩
            cases h
          have hnew : hash ∉ (firsts Prod.fst (entries H typeOf pre)).map Prod.fst := by
            rw [← lookup_eq_none, lookup_firsts]
            exact hl
          simp only [if_neg hnot, add_of_not_mem (a := (hash, taPair)) hnew]
          apply checkMatch_eq
      | some seen =>
          have hold : (hash, taPair).1 ∈ (firsts Prod.fst (entries H typeOf pre)).map Prod.fst := by
            by_contra hnew
            rw [← lookup_eq_none, lookup_firsts, hl] at hnew
            cases hnew
          rw [add_of_mem hold]
          by_cases hta : taPair = seen
          · have hnot : ¬ collides H typeOf (pre ++ p :: rest) p.2 := by
              rw [hcollides, hl]
              rintro ⟨seen', h, hne⟩
              cases h
              exact hne hta
            simp only [if_neg hnot, if_neg (not_not_intro hta)]
            apply checkMatch_eq
          · have hyes : collides H typeOf (pre ++ p :: rest) p.2 := hcollides.mpr ⟨seen, hl, hta⟩
            simp only [if_pos hyes, if_pos hta]
            rfl

theorem foldlM_compare (base : GlobModule T) (pre rest : List (Place × Global T)) (r : Run T) :
    rest.foldlM (compare H typeOf base) { r with hashes := firsts Prod.fst (entries H typeOf pre) } =
      if rest.all (fun p => (countsOf H typeOf base (pre ++ rest) p.2).isSome) then
        some (({ r with hashes := firsts Prod.fst (entries H typeOf (pre ++ rest)) } : Run T).counted
          (rest.flatMap (countsAt H typeOf base (pre ++ rest))))
      else none := by
  induction rest generalizing pre r with
  | nil => rw [List.append_nil]; rfl
  | cons p rest ih =>
      rw [List.foldlM_cons, compare_eq base pre rest, List.all_cons, List.flatMap_cons, countsAt]
      cases hp : countsOf H typeOf base (pre ++ p :: rest) p.2 with
      | none => rfl
      | some cs =>
          have hstep := ih (pre ++ [p]) (r.counted (cs.map (fun c => (p.1, c))))
          rw [List.append_assoc, List.singleton_append] at hstep
          simp only [Option.map_some, Option.bind_eq_bind, Option.bind_some, counted_hashes, hstep, Option.isSome_some,
            Bool.true_and, Option.getD_some, counted_append]

/-- One count, unless the hash of the namesake is missing or another one. -/
theorem countsOf_cases (base : GlobModule T) (l : List (Place × Global T)) (s : Global T) :
    (Clean H typeOf base l s ∧ ∃ c, c ≠ .mismatch ∧ countsOf H typeOf base l s = some [c]) ∨
      (¬ Clean H typeOf base l s ∧ ∀ cs, countsOf H typeOf base l s = some cs → cs = [.mismatch, .normal]) := by
  unfold countsOf Clean
  cases hashOf H typeOf s with
  | none => simp
  | some hash =>
      cases collides H typeOf l s with
      | true => simp
      | false =>
          cases hb : base.getNamedValue s.name with
          | none => simp [matchCounts, hb]
          | some gv =>
              cases hgv : hashOf H typeOf gv with
              | none => simp [matchCounts, hb, hgv]
              | some hash' =>
                  by_cases hh : hash' = hash
                  · simp [matchCounts, hb, hgv, hh]
                  · simp [matchCounts, hb, hgv, hh, Ne.symm hh, eq_comm]

theorem clean_countsOf (h : Clean H typeOf base l s) : ∃ c, c ≠ .mismatch ∧ countsOf H typeOf base l s = some [c] := by
  rcases countsOf_cases base l s with ⟨_, hc⟩ | ⟨hnot, _⟩
  · exact hc
  · exact absurd h hnot

theorem clean_of_length {cs : List Count} (h : countsOf H typeOf base l s = some cs) (hlength : cs.length = 1) :
    Clean H typeOf base l s := by
  rcases countsOf_cases base l s with ⟨hclean, _⟩ | ⟨_, htwo⟩
  · exact hclean
  · rw [htwo cs h] at hlength
    cases hlength

theorem clean_base (hs : s ∈ base.symbols) : Clean H typeOf base l s := by
  intro hash hhash _ gv hgv
  rw [getNamedValue_mem hs hgv]
  exact hhash

theorem countP_collision (base : GlobModule T) (l : List (Place × Global T)) (p : Place × Global T) :
    (countsAt H typeOf base l p).countP (fun c => c.2 = .collision) = if collides H typeOf l p.2 then 1 else 0 := by
  rw [countsAt, List.countP_map, countsOf]
  cases hs : hashOf H typeOf p.2 with
  | none =>
      have hp : hashTaPair H typeOf p.2 = none := Option.map_eq_none_iff.mp hs
      simp [collides, hp]
  | some hash =>
      cases hc : collides H typeOf l p.2 with
      | true => simp
      | false =>
          cases hb : base.getNamedValue p.2.name with
          | none => simp [matchCounts, hb]
          | some gv =>
              cases hgv : hashOf H typeOf gv with
              | none => simp [matchCounts, hb, hgv]
              | some hash' => by_cases hh : hash' = hash <;> simp [matchCounts, hb, hgv, hh]

/-- The counts made for one place are those of its symbol. -/
theorem countP_place {visits : List (Place × Global T)} (hnodup : (visits.map Prod.fst).Nodup) (place : Place) :
    (visits.flatMap (countsAt H typeOf base l)).countP (fun c => c.1 = place) =
      ((visits.lookup place).map (fun s => ((countsOf H typeOf base l s).getD []).length)).getD 0 := by
  induction visits with
  | nil => rfl
  | cons p visits ih =>
      rw [List.map_cons, List.nodup_cons] at hnodup
      rw [List.flatMap_cons, List.countP_append, ih hnodup.2, countsAt, List.countP_map]
      by_cases hp : place = p.1
      · have hnone : visits.lookup place = none := by
          rw [lookup_eq_none, hp]
          exact hnodup.1
        rw [hnone, List.lookup_cons, beq_iff_eq.mpr hp]
        simp [hp, Function.comp_def]
      · rw [List.lookup_cons, beq_false_of_ne hp]
        simp [Ne.symm hp, Function.comp_def]

theorem countP_collisions (base : GlobModule T) (l visits : List (Place × Global T)) :
    (visits.flatMap (countsAt H typeOf base l)).countP (fun c => c.2 = .collision) =
      visits.countP (fun p => collides H typeOf l p.2) := by
  induction visits with
  | nil => rfl
  | cons p visits ih => rw [List.flatMap_cons, List.countP_append, countP_collision, ih, List.countP_cons, Nat.add_comm]

variable (H typeOf) in
def fullRun (base cmp : GlobModule T) (init : Result) : Run T :=
  Run.counted ⟨firsts Prod.fst (entries H typeOf (visited base cmp)), init, []⟩
    ((visited base cmp).flatMap (countsAt H typeOf base (visited base cmp)))

theorem foldlM_visited (base cmp : GlobModule T) (init : Result) :
    (visited base cmp).foldlM (compare H typeOf base) ⟨[], init, []⟩ =
      if (visited base cmp).all (fun p => (countsOf H typeOf base (visited base cmp) p.2).isSome) then
        some (fullRun H typeOf base cmp init)
      else none :=
  foldlM_compare base [] (visited base cmp) ⟨[], init, []⟩

theorem fullRun_counts (base cmp : GlobModule T) (init : Result) :
    (fullRun H typeOf base cmp init).counts = (visited base cmp).flatMap (countsAt H typeOf base (visited base cmp)) := by
  rw [fullRun, counted_counts, List.nil_append]

theorem mainBody_eq_some {code : Int} {init : Result} {r : Run T} (h : mainBody H typeOf base cmp init = some (code, r)) :
    (∀ p ∈ visited base cmp, (countsOf H typeOf base (visited base cmp) p.2).isSome) ∧
      r = fullRun H typeOf base cmp init := by
  rw [mainBody, foldlM_visited] at h
  split at h
  next hall =>
    rw [List.all_eq_true] at hall
    cases h
    exact ⟨hall, rfl⟩
  next => cases h

theorem mainBody_clean (hclean : ∀ p ∈ visited base cmp, Clean H typeOf base (visited base cmp) p.2) (init : Result) :
    ∃ code, mainBody H typeOf base cmp init = some (code, fullRun H typeOf base cmp init) ∧
      (code = -3 ↔ init.mismatch ≠ 0 ∨ init.collision + UInt32.ofNat (collisions H typeOf base cmp) ≠ 0) := by
  have hall : (visited base cmp).all (fun p => (countsOf H typeOf base (visited base cmp) p.2).isSome) = true := by
    rw [List.all_eq_true]
    intro p hp
    obtain ⟨c, _, hc⟩ := clean_countsOf (hclean p hp)
    rw [hc]
    rfl
  have hmismatch : (fullRun H typeOf base cmp init).result.mismatch = init.mismatch := by
    apply counted_mismatch
    intro c hc
    obtain ⟨p, hp, hc⟩ := List.mem_flatMap.mp hc
    obtain ⟨d, hd, hcount⟩ := clean_countsOf (hclean p hp)
    rw [countsAt, hcount] at hc
    rw [List.mem_singleton.mp hc]
    exact hd
  have hcollision : (fullRun H typeOf base cmp init).result.collision =
      init.collision + UInt32.ofNat (collisions H typeOf base cmp) := by
    rw [fullRun, counted_collision, countP_collisions]
    rfl
  rw [mainBody, foldlM_visited, if_pos hall]
  refine ⟨_, rfl, ?_⟩
  rw [hmismatch, hcollision]
  generalize init.collision + UInt32.ofNat (collisions H typeOf base cmp) = x
  generalize init.mismatch = y
  have hpos : ∀ z : UInt32, 0 < z ↔ z ≠ 0 := fun z => UInt32.pos_iff_ne_zero
  simp only [gt_iff_lt, Bool.or_eq_true, decide_eq_true_eq, hpos]
  split
  next h => exact iff_of_true rfl (Or.symm h)
  next h => exact iff_of_false (by decide) (fun h' => h (Or.symm h'))

theorem clean_visited (h : ∀ s ∈ cmp.symbols, s.isVariable → Clean H typeOf base (visited base cmp) s) :
    ∀ p ∈ visited base cmp, Clean H typeOf base (visited base cmp) p.2 := by
  intro p hp
  rcases List.mem_append.mp hp with hcmp | hbase
  · obtain ⟨_, hs, hvar⟩ := mem_select.mp hcmp
    exact h p.2 (List.mem_of_getElem? hs) hvar
  · obtain ⟨_, hs, _⟩ := mem_select.mp hbase
    exact clean_base (List.mem_of_getElem? hs)

/-- What it takes in terms of the counters. -/
theorem exact_iff_counted (base cmp : GlobModule T) (init : Result) :
    Exact H typeOf base cmp init ↔
      (∀ s ∈ cmp.symbols, s.isFunction = false) ∧
      (∀ s ∈ cmp.symbols, s.isVariable → Clean H typeOf base (visited base cmp) s) ∧
      ((init.mismatch ≠ 0 ∨ init.collision + UInt32.ofNat (collisions H typeOf base cmp) ≠ 0) ↔
        Differs H typeOf base cmp) := by
  constructor
  · rintro ⟨code, r, hrun, hcode, honce⟩
    obtain ⟨hall, rfl⟩ := mainBody_eq_some hrun
    rw [fullRun_counts] at honce
    have hvars : ∀ s ∈ cmp.symbols, s.isChecked → s.isVariable ∧ Clean H typeOf base (visited base cmp) s := by
      intro s hs hchecked
      obtain ⟨i, hi⟩ := List.mem_iff_getElem?.mp hs
      have hone := honce i s hi hchecked
      rw [countP_place (visited_nodup base cmp)] at hone
      cases hvar : s.isVariable with
      | false =>
          rw [lookup_function hi hvar] at hone
          cases hone
      | true =>
          have hmem : (⟨.compared, i⟩, s) ∈ visited base cmp := List.mem_append_left _ (mem_select.mpr ⟨rfl, hi, hvar⟩)
          obtain ⟨cs, hcs⟩ := Option.isSome_iff_exists.mp (hall _ hmem)
          rw [lookup_variable hi hvar, Option.map_some, Option.getD_some, hcs, Option.getD_some] at hone
          exact ⟨rfl, clean_of_length hcs hone⟩
    have hclean : ∀ s ∈ cmp.symbols, s.isVariable → Clean H typeOf base (visited base cmp) s := by
      intro s hs hvar
      exact (hvars s hs (by rw [Global.isChecked, hvar, Bool.true_or])).2
    refine ⟨?_, hclean, ?_⟩
    · intro s hs
      by_contra hfun
      rw [Bool.not_eq_false] at hfun
      have hvar := (hvars s hs (by rw [Global.isChecked, hfun, Bool.or_true])).1
      rw [Global.isVariable, decide_eq_true_eq] at hvar
      rw [Global.isFunction, hvar] at hfun
      cases hfun
    · obtain ⟨code', hrun', hcode'⟩ := mainBody_clean (clean_visited hclean) init
      cases hrun.symm.trans hrun'
      rw [← hcode', hcode]
  · rintro ⟨hfun, hclean, hverdict⟩
    obtain ⟨code, hrun, hcode⟩ := mainBody_clean (clean_visited hclean) init
    refine ⟨code, _, hrun, hcode.trans hverdict, ?_⟩
    intro i s hi hchecked
    have hmem := List.mem_of_getElem? hi
    have hvar : s.isVariable := by
      rw [Global.isChecked, hfun s hmem, Bool.or_false] at hchecked
      exact hchecked
    obtain ⟨c, _, hc⟩ := clean_countsOf (hclean s hmem hvar)
    rw [fullRun_counts, countP_place (visited_nodup base cmp), lookup_variable hi hvar, Option.map_some,
      Option.getD_some, hc]
    rfl

section Verdict

def Colliding (H : HashOps) (typeOf : T → Ty) (l : List (Global T)) : Prop :=
  ∃ s ∈ l, ∃ s' ∈ l, ∃ hash ta ta',
    hashTaPair H typeOf s = some (hash, ta) ∧ hashTaPair H typeOf s' = some (hash, ta') ∧ ta ≠ ta'

def GlobModule.variables (m : GlobModule T) : List (Global T) := m.symbols.filter Global.isVariable

def GlobModule.functions (m : GlobModule T) : List (Global T) := m.symbols.filter Global.isFunction

def Unseen (H : HashOps) (typeOf : T → Ty) (base cmp : GlobModule T) : Prop :=
  ∃ s ∈ cmp.variables, hashOf H typeOf s = none ∧ base.getNamedValue s.name ≠ none

/-- Modules whose differences the tool tells when the counters start from zero. -/
structure Detectable (H : HashOps) (typeOf : T → Ty) (base cmp : GlobModule T) : Prop where
  functions : ∀ s ∈ cmp.symbols, s.isFunction = false
  clean : ∀ s ∈ cmp.symbols, s.isVariable → Clean H typeOf base (visited base cmp) s
  -- with no collision among the variables, those of the base module's functions are counted for the missing hashes
  others : ¬ Colliding H typeOf cmp.variables →
    (Colliding H typeOf (cmp.variables ++ base.functions) ↔ Unseen H typeOf base cmp)

omit [DecidableEq T] in
theorem Colliding.mono {l l' : List (Global T)} (h : Colliding H typeOf l) (hsub : ∀ s ∈ l, s ∈ l') :
    Colliding H typeOf l' := by
  obtain ⟨s, hs, s', hs', hash, ta, ta', hpair⟩ := h
  exact ⟨s, hsub s hs, s', hsub s' hs', hash, ta, ta', hpair⟩

omit [DecidableEq T] in
theorem select_snd (m : GlobModule T) (side : Side) (q : Global T → Bool) :
    (m.select side q).map Prod.snd = m.symbols.filter q := by
  have hfilter := List.filter_map (f := Prod.fst) (p := q) (l := m.symbols.zipIdx)
  rw [List.zipIdx_map_fst] at hfilter
  rw [hfilter, GlobModule.select, List.map_map]
  rfl

omit [DecidableEq T] in
theorem visited_snd (base cmp : GlobModule T) : (visited base cmp).map Prod.snd = cmp.variables ++ base.functions := by
  rw [visited, List.map_append, select_snd, select_snd]
  rfl

omit [DecidableEq T] in
theorem entry_of_lookup {hash : HashCode} {ta : TAPair T} (h : (entries H typeOf l).lookup hash = some ta) :
    ∃ p ∈ l, hashTaPair H typeOf p.2 = some (hash, ta) := by
  exact List.mem_filterMap.mp (OrderedMap.mem_of_lookup h)

omit [DecidableEq T] in
theorem lookup_of_entry {p : Place × Global T} (hp : p ∈ l) {hash : HashCode} {ta : TAPair T}
    (h : hashTaPair H typeOf p.2 = some (hash, ta)) : ∃ seen, (entries H typeOf l).lookup hash = some seen := by
  have hmem : (hash, ta) ∈ entries H typeOf l := List.mem_filterMap.mpr ⟨p, hp, h⟩
  rw [← Option.isSome_iff_exists, List.lookup_isSome_iff]
  exact ⟨_, hmem, beq_self_eq_true hash⟩

theorem colliding_of_collides {p : Place × Global T} (hp : p ∈ l) (h : collides H typeOf l p.2 = true) :
    Colliding H typeOf (l.map Prod.snd) := by
  rw [collides] at h
  split at h
  next => cases h
  next hash ta hta =>
    obtain ⟨seen, hseen⟩ := lookup_of_entry hp hta
    obtain ⟨q, hq, hqta⟩ := entry_of_lookup hseen
    rw [hseen, decide_eq_true_eq] at h
    refine ⟨p.2, List.mem_map_of_mem hp, q.2, List.mem_map_of_mem hq, hash, ta, seen, hta, hqta, ?_⟩
    rintro rfl
    exact h rfl

/-- There is a collision exactly if a symbol differs from the first one with its hash. -/
theorem exists_collides_iff : (∃ p ∈ l, collides H typeOf l p.2 = true) ↔ Colliding H typeOf (l.map Prod.snd) := by
  constructor
  · rintro ⟨p, hp, h⟩
    exact colliding_of_collides hp h
  · rintro ⟨s, hs, s', hs', hash, ta, ta', hta, hta', hne⟩
    obtain ⟨p, hp, rfl⟩ := List.mem_map.mp hs
    obtain ⟨q, hq, rfl⟩ := List.mem_map.mp hs'
    obtain ⟨seen, hseen⟩ := lookup_of_entry hp hta
    by_cases heq : ta = seen
    · refine ⟨q, hq, ?_⟩
      rw [collides, hta']
      simpa [hseen, ← heq] using hne
    · refine ⟨p, hp, ?_⟩
      rw [collides, hta]
      simpa [hseen] using fun h => heq h.symm

/-- What comes after it does not matter to a symbol. -/
theorem collides_append {p : Place × Global T} (hp : p ∈ l) (l' : List (Place × Global T)) :
    collides H typeOf (l ++ l') p.2 = collides H typeOf l p.2 := by
  rw [collides, collides]
  cases hta : hashTaPair H typeOf p.2 with
  | none => rfl
  | some e =>
      obtain ⟨seen, hseen⟩ := lookup_of_entry hp hta
      have happend : (entries H typeOf (l ++ l')).lookup e.1 = some seen := by
        rw [entries, List.filterMap_append, List.lookup_append]
        exact congrArg (Option.or · _) hseen
      simp only [hseen, happend]

theorem collisions_pos_iff (base cmp : GlobModule T) :
    0 < collisions H typeOf base cmp ↔ Colliding H typeOf (cmp.variables ++ base.functions) := by
  rw [collisions, List.countP_pos_iff, ← visited_snd]
  exact exists_collides_iff

theorem collisions_lt (h : base.symbols.length + cmp.symbols.length < 2 ^ 32) : collisions H typeOf base cmp < 2 ^ 32 := by
  have hcount : collisions H typeOf base cmp ≤ (visited base cmp).length := List.countP_le_length
  have hlength : (visited base cmp).length = cmp.variables.length + base.functions.length := by
    rw [← List.length_map (f := Prod.snd), visited_snd, List.length_append]
  have hvariables : cmp.variables.length ≤ cmp.symbols.length := List.length_filter_le _ _
  have hfunctions : base.functions.length ≤ base.symbols.length := List.length_filter_le _ _
  omega

/-- What the differences are of modules that the tool counts rightly. -/
theorem differs_iff (hfun : ∀ s ∈ cmp.symbols, s.isFunction = false)
    (hclean : ∀ s ∈ cmp.symbols, s.isVariable → Clean H typeOf base (visited base cmp) s) :
    Differs H typeOf base cmp ↔ Colliding H typeOf cmp.variables ∨ Unseen H typeOf base cmp := by
  have hvariable : ∀ {s}, s ∈ cmp.variables ↔ s ∈ cmp.symbols ∧ s.isChecked := by
    intro s
    rw [GlobModule.variables, List.mem_filter, and_congr_right_iff]
    intro hs
    rw [Global.isChecked, hfun s hs, Bool.or_false]
  constructor
  · rintro (⟨s, hs, s', hs', hc, hc', hpair⟩ | ⟨s, hs, hc, gv, hgv, hdiff⟩)
    · exact .inl ⟨s, hvariable.mpr ⟨hs, hc⟩, s', hvariable.mpr ⟨hs', hc'⟩, hpair⟩
    · have hvar := hvariable.mpr ⟨hs, hc⟩
      cases hhash : hashOf H typeOf s with
      | none => exact .inr ⟨s, hvar, hhash, by rw [hgv]; exact Option.some_ne_none gv⟩
      | some hash =>
          left
          -- the hash of the namesake was not looked at, so the symbol is a collision
          have hcollides : collides H typeOf (visited base cmp) s = true := by
            by_contra hnot
            have hsame := hclean s hs (List.mem_filter.mp hvar).2 hash hhash (Bool.eq_false_iff.mpr hnot) gv hgv
            rw [hhash, hsame] at hdiff
            simp at hdiff
          rw [GlobModule.variables, ← select_snd cmp .compared] at hvar ⊢
          obtain ⟨p, hp, rfl⟩ := List.mem_map.mp hvar
          rw [visited, collides_append hp] at hcollides
          exact colliding_of_collides hp hcollides
  · rintro (⟨s, hs, s', hs', hpair⟩ | ⟨s, hs, hhash, hname⟩)
    · obtain ⟨hs, hc⟩ := hvariable.mp hs
      obtain ⟨hs', hc'⟩ := hvariable.mp hs'
      exact .inl ⟨s, hs, s', hs', hc, hc', hpair⟩
    · obtain ⟨hs, hc⟩ := hvariable.mp hs
      obtain ⟨gv, hgv⟩ := Option.ne_none_iff_exists'.mp hname
      refine .inr ⟨s, hs, hc, gv, hgv, ?_⟩
      rw [hhash]
      exact Classical.em _

/-- For no two modules is the tool exact whatever the counters start from; when those of
the verdict start from zero, it is for the modules of the condition only. -/
theorem exact_never (base cmp : GlobModule T) :
    (¬ ∀ init, Exact H typeOf base cmp init) ∧
      ∀ init : Result, init.collision = 0 → init.mismatch = 0 → base.symbols.length + cmp.symbols.length < 2 ^ 32 →
        (Exact H typeOf base cmp init ↔ Detectable H typeOf base cmp) := by
  constructor
  · intro hall
    have hone := (exact_iff_counted base cmp ⟨0, 0, 0, 0, 1⟩).mp (hall _)
    have hzero := (exact_iff_counted base cmp ⟨0, 0, 0, -UInt32.ofNat (collisions H typeOf base cmp), 0⟩).mp (hall _)
    have hdiffers := hone.2.2.mp (.inl (by decide))
    rcases hzero.2.2.mpr hdiffers with h | h
    · exact h rfl
    · exact h (UInt32.add_left_neg _)
  · intro init hcollision hmismatch hlength
    have hpos : UInt32.ofNat (collisions H typeOf base cmp) ≠ 0 ↔ Colliding H typeOf (cmp.variables ++ base.functions) := by
      rw [← collisions_pos_iff, ← UInt32.pos_iff_ne_zero, UInt32.lt_iff_toNat_lt,
        UInt32.toNat_ofNat_of_lt' (collisions_lt hlength)]
      rfl
    have hsub : Colliding H typeOf cmp.variables → Colliding H typeOf (cmp.variables ++ base.functions) :=
      fun h => h.mono (fun s hs => List.mem_append_left _ hs)
    rw [exact_iff_counted, hcollision, hmismatch, UInt32.zero_add, hpos]
    constructor
    · rintro ⟨hfun, hclean, hverdict⟩
      refine ⟨hfun, hclean, fun hnone => ?_⟩
      rw [differs_iff hfun hclean] at hverdict
      constructor
      · intro h
        exact (hverdict.mp (.inr h)).resolve_left hnone
      · intro h
        exact (hverdict.mpr (.inr h)).resolve_left (fun h => h rfl)
    · rintro ⟨hfun, hclean, hothers⟩
      refine ⟨hfun, hclean, ?_⟩
      rw [differs_iff hfun hclean]
      by_cases hsome : Colliding H typeOf cmp.variables
      · exact iff_of_true (.inr (hsub hsome)) (.inl hsome)
      · rw [← hothers hsome]
        constructor
        · rintro (h | h)
          · exact absurd rfl h
          · exact .inr h
        · rintro (h | h)
          · exact absurd h hsome
          · exact .inr h

end Verdict

def sumHash : HashOps where
  ofNat n := n
  combine l := l.foldl (fun n a => n + match a with | .code h => h + 1 | .word w => w + 1 | _ => 1) 0
  valueFalse := 0
  typeId _ := 0
  attrKind _ := 0

def variableModule : GlobModule Ty where
  symbols := [⟨"v", .variable, .integer 32⟩]
  distinct := (List.nodup_singleton "v").filter _

/-- A module with one variable is the same as itself, with zeros in the two counters. -/
theorem variable_exact : Detectable sumHash id variableModule variableModule ∧
    Exact sumHash id variableModule variableModule ⟨5, 0, 2, 0, 0⟩ := by
  have honly : ∀ s ∈ variableModule.symbols, s = ⟨"v", .variable, .integer 32⟩ := fun s hs => List.mem_singleton.mp hs
  have hdetectable : Detectable sumHash id variableModule variableModule := by
    refine ⟨?_, ?_, fun hnone => iff_of_false hnone ?_⟩
    · intro s hs
      rw [honly s hs]
      rfl
    · intro s hs _
      exact clean_base hs
    · rintro ⟨s, hs, hhash, _⟩
      rw [honly s (List.mem_filter.mp hs).1] at hhash
      cases hhash
  exact ⟨hdetectable, ((exact_never _ _).2 _ rfl rfl (by decide)).mpr hdetectable⟩

def functionModule (params : List Ty) : GlobModule Ty where
  symbols := [⟨"f", .function ⟨[]⟩, .function .void params false⟩]
  distinct := (List.nodup_singleton "f").filter _

/-- A function whose parameters have changed passes, and with another value in the
counters a module differs from itself. -/
theorem changed_function_passes :
    ((mainBody sumHash id (functionModule []) (functionModule [.integer 32]) ⟨0, 0, 0, 0, 0⟩).map Prod.fst = some 0 ∧
      Differs sumHash id (functionModule []) (functionModule [.integer 32])) ∧
    ((mainBody sumHash id (functionModule []) (functionModule []) ⟨0, 0, 0, 1, 0⟩).map Prod.fst = some (-3) ∧
      ¬ Differs sumHash id (functionModule []) (functionModule [])) := by
  refine ⟨⟨by decide, ?_⟩, by decide, ?_⟩
  · right
    refine ⟨_, List.mem_singleton_self _, by decide, _, rfl, .inr (by decide)⟩
  · have honly : ∀ s ∈ (functionModule []).symbols, s = ⟨"f", .function ⟨[]⟩, .function .void [] false⟩ :=
      fun s hs => List.mem_singleton.mp hs
    rintro (⟨s, hs, s', hs', _, _, hash, ta, ta', h, h', hne⟩ | ⟨s, hs, _, gv, hgv, hdiff⟩)
    · rw [honly s hs] at h
      rw [honly s' hs', h] at h'
      cases h'
      exact hne rfl
    · rw [getNamedValue_mem hs hgv, honly s hs] at hdiff
      rcases hdiff with hnone | hne
      · revert hnone
        decide
      · exact hne rfl

end Comulator.GlobHash
