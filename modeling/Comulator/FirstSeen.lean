import Comulator.OrderedMap

namespace Comulator.FirstSeen

section Seen

variable {α κ : Type} [DecidableEq κ] (key : α → κ)

def add (acc : List α) (a : α) : List α := if key a ∈ acc.map key then acc else acc ++ [a]

def firsts (l : List α) : List α := l.foldl (add key) []

def seen (acc : List α) (k : κ) : Option (α × Nat) := acc.zipIdx.find? (fun p => key p.1 = k)

variable {key} {acc l : List α} {a : α} {k : κ}

theorem add_of_mem (h : key a ∈ acc.map key) : add key acc a = acc := if_pos h

theorem add_of_not_mem (h : key a ∉ acc.map key) : add key acc a = acc ++ [a] := if_neg h

theorem firsts_concat (l : List α) (a : α) : firsts key (l ++ [a]) = add key (firsts key l) a := by
  rw [firsts, List.foldl_append]
  rfl

variable (key) in
theorem isPrefix_foldl_add (l acc : List α) : acc <+: l.foldl (add key) acc := by
  induction l generalizing acc with
  | nil => exact List.prefix_rfl
  | cons a l ih =>
      refine List.IsPrefix.trans ?_ (ih (add key acc a))
      unfold add
      split
      next => exact List.prefix_rfl
      next => exact List.prefix_append _ _

theorem add_nodup (h : (acc.map key).Nodup) (a : α) : ((add key acc a).map key).Nodup := by
  unfold add
  split
  next => exact h
  next hnew =>
    rw [List.map_append]
    exact h.append (List.nodup_singleton _) (List.disjoint_singleton.mpr hnew)

theorem foldl_add_nodup (h : (acc.map key).Nodup) (l : List α) : ((l.foldl (add key) acc).map key).Nodup := by
  induction l generalizing acc with
  | nil => exact h
  | cons a l ih => exact ih (add_nodup h a)

variable (key) in
theorem firsts_nodup (l : List α) : ((firsts key l).map key).Nodup := by
  apply foldl_add_nodup
  exact List.nodup_nil

theorem mem_foldl_add (l acc : List α) : k ∈ (l.foldl (add key) acc).map key ↔ k ∈ acc.map key ∨ k ∈ l.map key := by
  induction l generalizing acc with
  | nil => simp
  | cons a l ih =>
      rw [List.foldl_cons, ih, List.map_cons, List.mem_cons]
      by_cases ha : key a ∈ acc.map key
      · rw [add_of_mem ha]
        constructor
        · rintro (h | h)
          · exact .inl h
          · exact .inr (.inr h)
        · rintro (h | rfl | h)
          · exact .inl h
          · exact .inl ha
          · exact .inr h
      · rw [add_of_not_mem ha, List.map_append, List.mem_append, List.map_singleton, List.mem_singleton, or_assoc]

theorem mem_of_mem_foldl_add {l acc : List α} (h : a ∈ l.foldl (add key) acc) : a ∈ acc ∨ a ∈ l := by
  induction l generalizing acc with
  | nil => exact .inl h
  | cons b l ih =>
      rcases ih h with h | h
      · by_cases hb : key b ∈ acc.map key
        · rw [add_of_mem hb] at h
          exact .inl h
        · rw [add_of_not_mem hb] at h
          rcases List.mem_append.mp h with h | h
          · exact .inl h
          · exact .inr (List.mem_singleton.mp h ▸ List.mem_cons_self)
      · exact .inr (List.mem_cons_of_mem _ h)

theorem mem_of_mem_firsts (h : a ∈ firsts key l) : a ∈ l := (mem_of_mem_foldl_add h).resolve_left List.not_mem_nil

theorem seen_eq_none : seen key acc k = none ↔ k ∉ acc.map key := by
  unfold seen
  rw [List.find?_eq_none]
  constructor
  · intro h hk
    obtain ⟨a, ha, rfl⟩ := List.mem_map.mp hk
    obtain ⟨i, hi⟩ := List.mem_iff_getElem?.mp ha
    exact h (a, i) (List.mem_zipIdx_iff_getElem?.mpr hi) (by simp)
  · intro h p hp
    have hmem := List.mem_of_getElem? (List.mem_zipIdx_iff_getElem?.mp hp)
    simp only [decide_eq_true_eq]
    rintro rfl
    exact h (List.mem_map_of_mem hmem)

theorem getElem?_of_seen {i : Nat} (h : seen key acc k = some (a, i)) : acc[i]? = some a ∧ key a = k :=
  ⟨List.mem_zipIdx_iff_getElem?.mp (List.mem_of_find?_eq_some h), by simpa using List.find?_some h⟩

theorem seen_of_getElem? (hacc : (acc.map key).Nodup) {i : Nat} (h : acc[i]? = some a) :
    seen key acc (key a) = some (a, i) := by
  cases hs : seen key acc (key a) with
  | none => exact absurd (List.mem_map_of_mem (List.mem_of_getElem? h)) (seen_eq_none.mp hs)
  | some p =>
      obtain ⟨hget, hkey⟩ := getElem?_of_seen hs
      have hsame : (acc.map key)[p.2]? = (acc.map key)[i]? := by
        rw [List.getElem?_map, List.getElem?_map, hget, h, Option.map_some, Option.map_some, hkey]
      have hi : p.2 < (acc.map key).length := by
        rw [List.length_map]
        exact (List.getElem?_eq_some_iff.mp hget).1
      have hindex := (List.getElem?_inj hi hacc).mp hsame
      rw [hindex, h] at hget
      cases hget
      rw [← hindex]

theorem seen_concat (h : key a ∉ acc.map key) (k : κ) :
    seen key (acc ++ [a]) k = if k = key a then some (a, acc.length) else seen key acc k := by
  unfold seen
  rw [List.zipIdx_append, List.find?_append]
  by_cases hk : k = key a
  · subst hk
    have hnone := seen_eq_none.mpr h
    unfold seen at hnone
    rw [hnone, if_pos rfl]
    simp
  · rw [if_neg hk]
    have hne : ¬ key a = k := fun heq => hk heq.symm
    simp [hne]

/-- The places tell the lists apart. -/
theorem eq_of_seen_eq {l l' : List α} (hl : (l.map key).Nodup) (hl' : (l'.map key).Nodup)
    (h : ∀ k, seen key l k = seen key l' k) : l = l' := by
  refine List.ext_getElem? (fun i => Option.ext (fun a => ?_))
  constructor
  · intro ha
    exact (getElem?_of_seen ((h (key a)).symm.trans (seen_of_getElem? hl ha))).1
  · intro ha
    exact (getElem?_of_seen ((h (key a)).trans (seen_of_getElem? hl' ha))).1

theorem seen_mono {acc' : List α} {p : α × Nat} (hle : acc <+: acc') (h : seen key acc k = some p) :
    seen key acc' k = some p := by
  obtain ⟨l, rfl⟩ := hle
  unfold seen at h ⊢
  rw [List.zipIdx_append, List.find?_append, h]
  rfl

/-- The map, in the order `before`, has an entry for each key that was seen, made
from the element and its place; the counter is the next place. -/
structure Holds {V : Type} (key : α → κ) (entry : α × Nat → V) (before : κ → κ → Bool) (map : OrderedMap κ V)
    (counter : Nat) (acc : List α) : Prop where
  built : OrderedMap.Built before map
  find? : ∀ k, map.find? k = (seen key acc k).map entry
  counter : counter = acc.length
  nodup : (acc.map key).Nodup

variable {V : Type} {entry : α × Nat → V} {before : κ → κ → Bool} {map : OrderedMap κ V} {counter : Nat}

theorem holds_empty : Holds key entry before .empty 0 [] := ⟨.empty, fun _ => rfl, rfl, List.nodup_nil⟩

theorem Holds.find?_eq_none (h : Holds key entry before map counter acc) : map.find? k = none ↔ k ∉ acc.map key := by
  rw [h.find?, Option.map_eq_none_iff, seen_eq_none]

theorem Holds.congr {entry' : α × Nat → V} (h : Holds key entry before map counter acc)
    (heq : ∀ a ∈ acc, ∀ i, entry (a, i) = entry' (a, i)) : Holds key entry' before map counter acc := by
  refine ⟨h.built, fun k => ?_, h.counter, h.nodup⟩
  rw [h.find?]
  cases hs : seen key acc k with
  | none => rfl
  | some p =>
      have hmem := List.mem_of_getElem? (getElem?_of_seen (a := p.1) (i := p.2) hs).1
      rw [Option.map_some, Option.map_some, heq p.1 hmem p.2]

theorem Holds.tryEmplace (h : Holds key entry before map counter acc)
    (hnew : map.find? (key a) = none) :
    Holds key entry before (map.tryEmplace before (key a) (entry (a, counter))) (counter + 1) (add key acc a) := by
  have hfresh := h.find?_eq_none.mp hnew
  rw [add_of_not_mem hfresh]
  refine ⟨h.built.tryEmplace _ _, fun k => ?_, ?_, ?_⟩
  · rw [seen_concat hfresh]
    by_cases hk : k = key a
    · subst hk
      rw [OrderedMap.find?_tryEmplace_self, hnew, if_pos rfl, h.counter]
      rfl
    · rw [OrderedMap.find?_tryEmplace_of_ne hk, if_neg hk, h.find?]
  · rw [List.length_append, List.length_singleton, h.counter]
  · rw [← add_of_not_mem hfresh]
    exact add_nodup h.nodup a

/-- Two maps that hold the same list have the same entries; and if entries tell
the elements and places for a key apart, only then. -/
theorem Holds.find?_eq_iff {before' : κ → κ → Bool} {map' : OrderedMap κ V} {counter' : Nat} {acc' : List α}
    (h : Holds key entry before map counter acc) (h' : Holds key entry before' map' counter' acc')
    (hinj : ∀ p q : α × Nat, key p.1 = key q.1 → entry p = entry q → p = q) :
    (∀ k, map.find? k = map'.find? k) ↔ acc = acc' := by
  constructor
  · intro heq
    refine eq_of_seen_eq h.nodup h'.nodup (fun k => ?_)
    have hk := heq k
    rw [h.find?, h'.find?] at hk
    cases hp : seen key acc k with
    | none =>
        rw [hp, Option.map_none, eq_comm, Option.map_eq_none_iff] at hk
        rw [hk]
    | some p =>
        rw [hp, Option.map_some] at hk
        obtain ⟨q, hq, hpq⟩ := Option.map_eq_some_iff.mp hk.symm
        have hkeys := (getElem?_of_seen (a := p.1) (i := p.2) hp).2.trans
          (getElem?_of_seen (a := q.1) (i := q.2) hq).2.symm
        rw [hq, hinj p q hkeys hpq.symm]
  · rintro rfl k
    rw [h.find?, h'.find?]

end Seen

section Maps

variable {α β κ κ' : Type} [DecidableEq κ] [DecidableEq κ'] {key : α → κ} {key' : β → κ'} {π : α → β}

/-- A map that respects the keys commutes with the choice of first elements. -/
theorem foldl_add_map (h : ∀ a b, key' (π a) = key' (π b) ↔ key a = key b) (l acc : List α) :
    (l.map π).foldl (add key') (acc.map π) = (l.foldl (add key) acc).map π := by
  induction l generalizing acc with
  | nil => rfl
  | cons a l ih =>
      have hmem : key' (π a) ∈ (acc.map π).map key' ↔ key a ∈ acc.map key := by
        simp only [List.mem_map, exists_exists_and_eq_and, h]
      have hadd : add key' (acc.map π) (π a) = (add key acc a).map π := by
        unfold add
        simp only [hmem]
        split
        next => rfl
        next => rw [List.map_append, List.map_singleton]
      rw [List.map_cons, List.foldl_cons, List.foldl_cons, hadd, ih]

variable (key key' π) in
theorem firsts_map (h : ∀ a b, key' (π a) = key' (π b) ↔ key a = key b) (l : List α) :
    firsts key' (l.map π) = (firsts key l).map π :=
  foldl_add_map h l []

end Maps

section Lookup

variable {κ V : Type} [DecidableEq κ] {l l' : List (κ × V)} {k : κ}

theorem lookup_eq_none : l.lookup k = none ↔ k ∉ l.map Prod.fst := by
  rw [List.lookup_eq_none_iff]
  constructor
  · intro h hk
    obtain ⟨e, he, rfl⟩ := List.mem_map.mp hk
    simpa using h e he
  · intro h e he
    rw [bne_iff_ne]
    rintro rfl
    exact h (List.mem_map_of_mem he)

theorem lookup_foldl_add (l acc : List (κ × V)) : (l.foldl (add Prod.fst) acc).lookup k = (acc ++ l).lookup k := by
  induction l generalizing acc with
  | nil => rw [List.foldl_nil, List.append_nil]
  | cons e l ih =>
      rw [List.foldl_cons, ih, List.lookup_append, List.lookup_append]
      by_cases he : e.1 ∈ acc.map Prod.fst
      · rw [add_of_mem he, List.lookup_cons]
        cases hk : acc.lookup k with
        | some v => rfl
        | none =>
            have hne : k ≠ e.1 := by
              rintro rfl
              exact lookup_eq_none.mp hk he
            rw [beq_false_of_ne hne]
      · rw [add_of_not_mem he, List.lookup_append, Option.or_assoc]
        congr 1
        rw [List.lookup_cons, List.lookup_cons]
        cases k == e.1 <;> rfl

theorem lookup_firsts (l : List (κ × V)) (k : κ) : (firsts Prod.fst l).lookup k = l.lookup k := lookup_foldl_add l []

/-- The keys and the values under them are all there is to a list. -/
theorem eq_of_lookup (hl : (l.map Prod.fst).Nodup) (hkeys : l.map Prod.fst = l'.map Prod.fst)
    (h : ∀ k, l.lookup k = l'.lookup k) : l = l' := by
  have hvalue : ∀ {l l' : List (κ × V)}, (l.map Prod.fst).Nodup → l.map Prod.fst = l'.map Prod.fst →
      (∀ k, l.lookup k = l'.lookup k) → ∀ {i : Nat} {e : κ × V}, l[i]? = some e → l'[i]? = some e := by
    intro l l' hl hkeys h i e he
    have hkey : (l'.map Prod.fst)[i]? = some e.1 := by
      rw [← hkeys, List.getElem?_map, he]
      rfl
    rw [List.getElem?_map, Option.map_eq_some_iff] at hkey
    obtain ⟨e', he', hkey⟩ := hkey
    have hsame := h e.1
    rw [OrderedMap.lookup_eq_some_of_mem hl (List.mem_of_getElem? he), ← hkey,
      OrderedMap.lookup_eq_some_of_mem (hkeys ▸ hl) (List.mem_of_getElem? he')] at hsame
    rw [he', Prod.ext hkey (Option.some.inj hsame.symm)]
  refine List.ext_getElem? (fun i => Option.ext (fun e => ⟨?_, ?_⟩))
  · exact fun he => hvalue hl hkeys h he
  · exact fun he => hvalue (hkeys ▸ hl) hkeys.symm (fun k => (h k).symm) he

/-- Two lists with the same keys have the same first elements exactly if these have
the same values. -/
theorem firsts_eq_iff (hkeys : l.map Prod.fst = l'.map Prod.fst) :
    firsts Prod.fst l = firsts Prod.fst l' ↔ ∀ k, l.lookup k = l'.lookup k := by
  constructor
  · intro h k
    rw [← lookup_firsts l, ← lookup_firsts l', h]
  · intro h
    have hfst : ∀ l : List (κ × V), (firsts Prod.fst l).map Prod.fst = firsts id (l.map Prod.fst) := by
      intro l
      exact (firsts_map Prod.fst id Prod.fst (fun _ _ => Iff.rfl) l).symm
    refine eq_of_lookup (firsts_nodup Prod.fst l) ?_ (fun k => ?_)
    · rw [hfst, hfst, hkeys]
    · rw [lookup_firsts, lookup_firsts, h]

end Lookup

section Rows

variable {κ W : Type}

structure Rows (look : κ → Option W) (place : W → Nat) (rows : List (κ × W)) : Prop where
  look : ∀ k w, look k = some w ↔ (k, w) ∈ rows
  place : ∀ {i k w}, rows[i]? = some (k, w) → place w = i

theorem Rows.look_eq_iff {look look' : κ → Option W} {place : W → Nat} {rows rows' : List (κ × W)}
    (h : Rows look place rows) (h' : Rows look' place rows') : (∀ k, look k = look' k) ↔ rows = rows' := by
  have hget : ∀ {look look' : κ → Option W} {rows rows' : List (κ × W)}, Rows look place rows → Rows look' place rows' →
      (∀ k, look k = look' k) → ∀ {i : Nat} {e : κ × W}, rows[i]? = some e → rows'[i]? = some e := by
    intro look look' rows rows' h h' heq i e he
    have hmem : e ∈ rows' := by
      rw [← h'.look, ← heq, h.look]
      exact List.mem_of_getElem? he
    obtain ⟨j, hj⟩ := List.mem_iff_getElem?.mp hmem
    rw [← h.place he, h'.place hj, hj]
  constructor
  · intro heq
    refine List.ext_getElem? (fun i => Option.ext (fun e => ⟨?_, ?_⟩))
    · exact hget h h' heq
    · exact hget h' h (fun k => (heq k).symm)
  · rintro rfl k
    refine Option.ext (fun w => ?_)
    rw [h.look, h'.look]

def keyed {K V : Type} (k : K → κ) (f : V → W) (map : OrderedMap K V) : List (κ × W) :=
  map.entries.map (fun e => (k e.1, f e.2))

variable {K V α : Type} [DecidableEq K] [DecidableEq κ] {key : α → K} {entry : α × Nat → V} {before : K → K → Bool}
  {map : OrderedMap K V} {counter : Nat} {acc : List α}

theorem lookup_keyed {k : K → κ} (hk : Function.Injective k) (f : V → W) (s : κ) (w : W) :
    (keyed k f map).lookup s = some w ↔ ∃ x v, map.find? x = some v ∧ k x = s ∧ f v = w := by
  have hmem : (s, w) ∈ keyed k f map ↔ ∃ x v, map.find? x = some v ∧ k x = s ∧ f v = w := by
    simp only [keyed, List.mem_map, Prod.mk.injEq, Prod.exists, OrderedMap.mem_entries]
  rw [← hmem]
  refine ⟨OrderedMap.mem_of_lookup, OrderedMap.lookup_eq_some_of_mem ?_⟩
  have hkeys : (keyed k f map).map Prod.fst = (map.entries.map Prod.fst).map k := by
    rw [keyed, List.map_map, List.map_map]
    rfl
  rw [hkeys]
  exact map.nodup.map hk

theorem Holds.rows (h : Holds key entry before map counter acc) {k : K → κ} (hk : Function.Injective k) (f : V → W)
    {place : W → Nat} (hplace : ∀ a i, place (f (entry (a, i))) = i) :
    Rows (fun s => (keyed k f map).lookup s) place (acc.zipIdx.map (fun p => (k (key p.1), f (entry p)))) where
  look s w := by
    rw [lookup_keyed hk, List.mem_map]
    constructor
    · rintro ⟨x, v, hv, rfl, rfl⟩
      rw [h.find?] at hv
      obtain ⟨p, hp, rfl⟩ := Option.map_eq_some_iff.mp hv
      obtain ⟨hget, hkey⟩ := getElem?_of_seen (a := p.1) (i := p.2) hp
      exact ⟨p, List.mem_zipIdx_iff_getElem?.mpr hget, by rw [hkey]⟩
    · rintro ⟨p, hp, heq⟩
      cases heq
      refine ⟨key p.1, entry p, ?_, rfl, rfl⟩
      rw [h.find?, seen_of_getElem? (i := p.2) h.nodup (List.mem_zipIdx_iff_getElem?.mp hp)]
      rfl
  place := by
    intro i s w hi
    rw [List.getElem?_map, Option.map_eq_some_iff] at hi
    obtain ⟨⟨a, j⟩, hp, heq⟩ := hi
    cases heq
    rw [List.getElem?_zipIdx, Option.map_eq_some_iff] at hp
    obtain ⟨b, _, heq⟩ := hp
    cases heq
    rw [hplace, Nat.zero_add]

end Rows

section Blocks

variable {α : Type} [DecidableEq α]

/-- An order for the elements of a block, which leaves those of a small one where
they are. -/
structure BlockOrder (α : Type) (n : Nat) where
  order : List α → List α
  perm : ∀ l, (order l).Perm l
  small : ∀ l, l.length ≤ n → order l = l

def FewFresh (n : Nat) : List α → List (List α) → Prop
  | _, [] => True
  | old, b :: bs => (b.length ≤ n ∨ (b.filter (· ∉ old)).length ≤ 1) ∧ FewFresh n (old ++ b) bs

variable {n : Nat} {acc : List α} {blocks : List (List α)}

theorem fewFresh_congr {old old' : List α} (h : ∀ a, a ∈ old ↔ a ∈ old') :
    FewFresh n old blocks ↔ FewFresh n old' blocks := by
  induction blocks generalizing old old' with
  | nil => rfl
  | cons b bs ih =>
      have hfilter : b.filter (· ∉ old) = b.filter (· ∉ old') := by
        simp only [h]
      have happend : ∀ a, a ∈ old ++ b ↔ a ∈ old' ++ b := by
        intro a
        rw [List.mem_append, List.mem_append, h]
      rw [FewFresh, FewFresh, hfilter, ih happend]

theorem foldl_add_eq {b : List α} (hb : b.Nodup) (acc : List α) : b.foldl (add id) acc = acc ++ b.filter (· ∉ acc) := by
  induction b generalizing acc with
  | nil => simp
  | cons a b ih =>
      obtain ⟨ha, hb⟩ := List.nodup_cons.mp hb
      rw [List.foldl_cons]
      by_cases hmem : a ∈ acc
      · rw [add_of_mem (by simpa using hmem), ih hb]
        simp [hmem]
      · rw [add_of_not_mem (by simpa using hmem), ih hb]
        have hfilter : b.filter (· ∉ acc ++ [a]) = b.filter (· ∉ acc) := by
          refine List.filter_congr (fun c hc => ?_)
          have hca : c ≠ a := by
            rintro rfl
            exact ha hc
          simp [hca]
        rw [hfilter]
        simp [hmem]

def Reordered (n : Nat) (b b' : List α) : Prop := b'.Perm b ∧ (b.length ≤ n → b' = b)

omit [DecidableEq α] in
theorem Reordered.filter {b b' : List α} (hb : Reordered n b b') (p : α → Bool)
    (h : b.length ≤ n ∨ (b.filter p).length ≤ 1) : b'.filter p = b.filter p := by
  rcases h with hsmall | hone
  · rw [hb.2 hsmall]
  · have hperm := hb.1.filter p
    match hf : b.filter p, hone with
    | [], _ =>
        rw [hf] at hperm
        exact hperm.eq_nil
    | [a], _ =>
        rw [hf] at hperm
        exact hperm.eq_singleton

theorem mem_concat_filter (acc b : List α) (a : α) : a ∈ acc ++ b.filter (· ∉ acc) ↔ a ∈ acc ++ b := by
  by_cases ha : a ∈ acc <;> simp [ha]

/-- Then the orders do not matter. -/
theorem foldl_reordered {blocks' : List (List α)} (h : List.Forall₂ (Reordered n) blocks blocks')
    (hnodup : ∀ b ∈ blocks, b.Nodup) (hfew : FewFresh n acc blocks) :
    blocks'.flatten.foldl (add id) acc = blocks.flatten.foldl (add id) acc := by
  induction h generalizing acc with
  | nil => rfl
  | cons hb _ ih =>
      obtain ⟨hnodup, hnodups⟩ := List.forall_mem_cons.mp hnodup
      rw [List.flatten_cons, List.flatten_cons, List.foldl_append, List.foldl_append, foldl_add_eq hnodup,
        foldl_add_eq (hb.1.nodup_iff.mpr hnodup), hb.filter _ hfew.1]
      exact ih hnodups ((fewFresh_congr (mem_concat_filter acc _)).mpr hfew.2)

omit [DecidableEq α] in
theorem BlockOrder.reordered (ord : BlockOrder α n) (blocks : List (List α)) :
    List.Forall₂ (Reordered n) blocks (blocks.map ord.order) := by
  rw [List.forall₂_map_right_iff, List.forall₂_same]
  exact fun b _ => ⟨ord.perm b, ord.small b⟩

theorem foldl_order (ord : BlockOrder α n) (hnodup : ∀ b ∈ blocks, b.Nodup) (hfew : FewFresh n acc blocks) :
    (blocks.flatMap ord.order).foldl (add id) acc = blocks.flatten.foldl (add id) acc := by
  rw [List.flatMap_def]
  exact foldl_reordered (ord.reordered blocks) hnodup hfew

variable (α n) in
def backwards : BlockOrder α n where
  order l := if l.length ≤ n then l else l.reverse
  perm l := by
    split
    · exact .refl l
    · exact l.reverse_perm
  small l h := if_pos h

omit [DecidableEq α] in
theorem length_le_one_of_reverse_eq {l : List α} (hl : l.Nodup) (h : l.reverse = l) : l.length ≤ 1 := by
  by_contra hlen
  have hfirst : l[0]? = l[l.length - 1]? := by
    conv_lhs => rw [← h]
    rw [List.getElem?_reverse (by omega)]
    simp
  have hzero := (List.getElem?_inj (by omega) hl).mp hfirst
  omega

/-- And only then. -/
theorem fewFresh_of_foldl_eq (hnodup : ∀ b ∈ blocks, b.Nodup)
    (h : (blocks.flatMap (backwards α n).order).foldl (add id) acc = blocks.flatten.foldl (add id) acc) :
    FewFresh n acc blocks := by
  induction blocks generalizing acc with
  | nil => trivial
  | cons b bs ih =>
      obtain ⟨hb, hbs⟩ := List.forall_mem_cons.mp hnodup
      rw [List.flatMap_cons, List.flatten_cons, List.foldl_append, List.foldl_append, foldl_add_eq hb,
        foldl_add_eq (((backwards α n).perm b).nodup_iff.mpr hb)] at h
      -- both results begin with what the first block brought
      have hfilter : ((backwards α n).order b).filter (· ∉ acc) = b.filter (· ∉ acc) := by
        have hl := isPrefix_foldl_add id (bs.flatMap (backwards α n).order)
          (acc ++ ((backwards α n).order b).filter (· ∉ acc))
        have hr := isPrefix_foldl_add id bs.flatten (acc ++ b.filter (· ∉ acc))
        rw [h] at hl
        have hlen := ((((backwards α n).perm b).filter (· ∉ acc)).append_left acc).length_eq
        exact List.append_cancel_left ((List.prefix_of_prefix_length_le hl hr (Nat.le_of_eq hlen)).eq_of_length hlen)
      refine ⟨?_, ?_⟩
      · by_cases hsmall : b.length ≤ n
        · exact .inl hsmall
        · refine .inr (length_le_one_of_reverse_eq (hb.filter _) ?_)
          have hreverse : (backwards α n).order b = b.reverse := if_neg hsmall
          rwa [hreverse, List.filter_reverse] at hfilter
      · rw [hfilter] at h
        exact (fewFresh_congr (mem_concat_filter acc b)).mp (ih hbs h)

end Blocks

end Comulator.FirstSeen
