import Comulator.AlignDown
import Comulator.QlibTable

namespace Comulator.FcpPages

open AlignDown QlibTable

/-- What `gyh_do_ctor_fcp_cm` asks of the memory: a range to be writable, by its
beginning and its length, or a word to be stored. -/
inductive Access
  | mprotect (start length : UInt64)
  | store (addr value : UInt64)
  deriving DecidableEq

structure Loop where
  pageBegin : UInt64
  pageEnd : UInt64
  memory : UInt64 → UInt64
  trace : List Access

structure Entry where
  gfunc : UInt64
  hfunc : UInt64

def magicWord : UInt64 := 0x6666200009068888

section Run

variable (pageSize : UInt64)

def Loop.protect (l : Loop) (gfunc : UInt64) : Loop :=
  if gfunc - 16 < l.pageBegin ∨ l.pageEnd ≤ gfunc then
    let pageBegin := alignDown pageSize (gfunc - 16)
    let pageEnd := alignDown pageSize (gfunc + pageSize)
    { l with pageBegin, pageEnd, trace := l.trace ++ [.mprotect pageBegin (pageEnd - pageBegin)] }
  else l

def Loop.store (l : Loop) (addr value : UInt64) : Loop :=
  { l with memory := Function.update l.memory addr value, trace := l.trace ++ [.store addr value] }

def turn (l : Loop) (e : Entry) : Option Loop :=
  if l.memory (e.gfunc - 16) ≠ magicWord then none
  else some (((l.protect pageSize e.gfunc).store (e.gfunc - 8) e.hfunc).store (e.gfunc - 16) (magicWord ^^^ e.hfunc))

def run : List Entry → Loop → Loop
  | [], l => l
  | e :: es, l =>
      match turn pageSize l e with
      | none => l
      | some l' => run es l'

end Run

def latest (trace : List Access) : Option (UInt64 × UInt64) :=
  trace.reverse.findSome? (fun a => match a with
    | .mprotect start length => some (start, length)
    | .store _ _ => none)

def Inside (range : UInt64 × UInt64) (addr : UInt64) : Prop :=
  range.1.toNat ≤ addr.toNat ∧ addr.toNat + 8 ≤ range.1.toNat + range.2.toNat

def Covered (trace : List Access) : Prop :=
  ∀ earlier addr value later, trace = earlier ++ .store addr value :: later →
    ∃ range, latest earlier = some range ∧ Inside range addr

theorem latest_mprotect (trace : List Access) (start length : UInt64) :
    latest (trace ++ [.mprotect start length]) = some (start, length) := by
  simp [latest]

theorem latest_store (trace : List Access) (addr value : UInt64) :
    latest (trace ++ [.store addr value]) = latest trace := by
  simp [latest]

theorem covered_nil : Covered [] := by
  intro earlier addr value later h
  simp at h

theorem split_concat {trace earlier later : List Access} {a b : Access} (h : trace ++ [a] = earlier ++ b :: later) :
    (earlier = trace ∧ b = a) ∨ ∃ rest, trace = earlier ++ b :: rest := by
  rcases List.eq_nil_or_concat later with rfl | ⟨rest, c, rfl⟩
  · obtain ⟨htrace, hlast⟩ := List.append_inj' h rfl
    cases hlast
    exact .inl ⟨htrace.symm, rfl⟩
  · rw [List.concat_eq_append, ← List.cons_append, ← List.append_assoc] at h
    exact .inr ⟨rest, (List.append_inj' h rfl).1⟩

theorem Covered.mprotect {trace : List Access} (h : Covered trace) (start length : UInt64) :
    Covered (trace ++ [.mprotect start length]) := by
  intro earlier addr value later hsplit
  rcases split_concat hsplit with ⟨_, hb⟩ | ⟨rest, hrest⟩
  · cases hb
  · exact h earlier addr value rest hrest

theorem Covered.store {trace : List Access} (h : Covered trace) {range : UInt64 × UInt64} {addr : UInt64}
    (hlatest : latest trace = some range) (hinside : Inside range addr) (value : UInt64) :
    Covered (trace ++ [.store addr value]) := by
  intro earlier addr' value' later hsplit
  rcases split_concat hsplit with ⟨rfl, hb⟩ | ⟨rest, hrest⟩
  · cases hb
    exact ⟨range, hlatest, hinside⟩
  · exact h earlier addr' value' rest hrest

structure Inv (l : Loop) : Prop where
  covered : Covered l.trace
  ordered : l.pageBegin.toNat ≤ l.pageEnd.toNat
  latest : latest l.trace = some (l.pageBegin, l.pageEnd - l.pageBegin) ∨ l.pageEnd = 0

def Fits (pageSize gfunc : UInt64) : Prop := 16 ≤ gfunc.toNat ∧ gfunc.toNat + pageSize.toNat < 2 ^ 64

section Turn

variable {pageSize : UInt64} {k : Nat} {l : Loop} {gfunc : UInt64}

theorem toNat_sub_word {a : UInt64} (n : UInt64) (hn : n.toNat ≤ a.toNat) : (a - n).toNat = a.toNat - n.toNat :=
  UInt64.toNat_sub_of_le _ _ (UInt64.le_iff_toNat_le.mpr hn)

structure Ready (l : Loop) (gfunc : UInt64) : Prop where
  covered : Covered l.trace
  latest : latest l.trace = some (l.pageBegin, l.pageEnd - l.pageBegin)
  low : l.pageBegin.toNat ≤ gfunc.toNat - 16
  high : gfunc.toNat < l.pageEnd.toNat

theorem Ready.inv (h : Ready l gfunc) : Inv l := by
  have hlow := h.low
  have hhigh := h.high
  exact ⟨h.covered, by omega, .inl h.latest⟩

theorem protect_ready (hk : k < 64) (hsize : pageSize.toNat = 2 ^ k) (hl : Inv l) (hfits : Fits pageSize gfunc) :
    Ready (l.protect pageSize gfunc) gfunc := by
  obtain ⟨hroom, htop⟩ := hfits
  have hmagic : (gfunc - 16).toNat = gfunc.toNat - 16 := toNat_sub_word 16 hroom
  unfold Loop.protect
  split
  next =>
    have hsum : (gfunc + pageSize).toNat = gfunc.toNat + pageSize.toNat := by
      rw [UInt64.toNat_add, Nat.mod_eq_of_lt htop]
    have hbegin := alignDown_le hk hsize (gfunc - 16)
    have hend := lt_alignDown_add hk hsize (gfunc + pageSize)
    refine ⟨hl.covered.mprotect _ _, latest_mprotect _ _ _, ?_, ?_⟩
    · exact hmagic ▸ hbegin
    · dsimp only
      omega
  next hcached =>
    rw [not_or, UInt64.lt_iff_toNat_lt, UInt64.le_iff_toNat_le, hmagic] at hcached
    have hlatest : latest l.trace = some (l.pageBegin, l.pageEnd - l.pageBegin) := by
      rcases hl.latest with h | h
      · exact h
      · have hzero : l.pageEnd.toNat = 0 := by rw [h]; rfl
        omega
    exact ⟨hl.covered, hlatest, by omega, by omega⟩

theorem Ready.store (hl : Ready l gfunc) (addr : UInt64) (hlow : gfunc.toNat - 16 ≤ addr.toNat)
    (hhigh : addr.toNat + 8 ≤ gfunc.toNat) (value : UInt64) : Ready (l.store addr value) gfunc := by
  have hbegin := hl.low
  have hend := hl.high
  have hlength : (l.pageEnd - l.pageBegin).toNat = l.pageEnd.toNat - l.pageBegin.toNat :=
    toNat_sub_word _ (by omega)
  have hinside : Inside (l.pageBegin, l.pageEnd - l.pageBegin) addr := by
    unfold Inside
    dsimp only
    omega
  exact ⟨hl.covered.store hl.latest hinside value, (latest_store _ _ _).trans hl.latest, hbegin, hend⟩

theorem turn_inv (hk : k < 64) (hsize : pageSize.toNat = 2 ^ k) (hl : Inv l) {e : Entry} (hfits : Fits pageSize e.gfunc)
    {l' : Loop} (h : turn pageSize l e = some l') : Inv l' := by
  unfold turn at h
  split at h
  next => cases h
  next =>
    cases h
    have hroom := hfits.1
    have h16 : (e.gfunc - 16).toNat = e.gfunc.toNat - 16 := toNat_sub_word 16 hroom
    have h8 : (e.gfunc - 8).toNat = e.gfunc.toNat - 8 := toNat_sub_word 8 (Nat.le_trans (by decide) hroom)
    have hready := protect_ready hk hsize hl hfits
    have hhfunc := hready.store (e.gfunc - 8) (by omega) (by omega) e.hfunc
    exact (hhfunc.store (e.gfunc - 16) (by omega) (by omega) _).inv

theorem run_inv (hk : k < 64) (hsize : pageSize.toNat = 2 ^ k) {es : List Entry}
    (hfits : ∀ e ∈ es, Fits pageSize e.gfunc) (hl : Inv l) : Inv (run pageSize es l) := by
  induction es generalizing l with
  | nil => exact hl
  | cons e es ih =>
      obtain ⟨he, hes⟩ := List.forall_mem_cons.mp hfits
      unfold run
      cases hturn : turn pageSize l e with
      | none => exact hl
      | some l' => exact ih hes (turn_inv hk hsize hl he hturn)

end Turn

section Refinement

variable {Lib : Type} {pageSize : UInt64} {k : Nat}

def rangeOf : Access → Option (Nat × Nat)
  | .mprotect start length => some (start.toNat, start.toNat + length.toNat)
  | .store _ _ => none

structure Simulates (old : List (Nat × Nat)) (pages : Nat × Nat) (s : State Lib) (l : Loop) : Prop where
  pages : pages = (l.pageBegin.toNat, l.pageEnd.toNat)
  memory : ∀ a : UInt64, s.memory a.toNat = (l.memory a).toNat
  writable : s.writable = old ++ l.trace.filterMap rangeOf

variable {old : List (Nat × Nat)} {pages : Nat × Nat} {s : State Lib} {l : Loop} {e : Entry} {functbl gfunctbl i : Nat}

theorem memory_update {memory : Nat → Nat} {words : UInt64 → UInt64} (h : ∀ a : UInt64, memory a.toNat = (words a).toNat)
    (addr value : UInt64) (a : UInt64) :
    Function.update memory addr.toNat value.toNat a.toNat = (Function.update words addr value a).toNat := by
  by_cases ha : a = addr
  · rw [ha, Function.update_self, Function.update_self]
  · have hne : a.toNat ≠ addr.toNat := fun heq => ha (UInt64.toNat_inj.mp heq)
    rw [Function.update_of_ne hne, Function.update_of_ne ha, h]

/-- The condition and the ranges, with divisions in place of masks. -/
theorem protect_simulates (hk : k < 64) (hsize : pageSize.toNat = 2 ^ k) (hs : Simulates old pages s l) {gfunc : UInt64}
    (hfits : Fits pageSize gfunc) {fresh : Bool} {pages' : Nat × Nat}
    (hfresh : fresh = (decide (gfunc.toNat - 16 < pages.1) || decide (pages.2 ≤ gfunc.toNat)))
    (hpages : pages' = if fresh then ((gfunc.toNat - 16) / pageSize.toNat * pageSize.toNat,
      (gfunc.toNat + pageSize.toNat) / pageSize.toNat * pageSize.toNat) else pages) :
    Simulates old pages' { s with writable := if fresh then s.writable ++ [pages'] else s.writable }
      (l.protect pageSize gfunc) := by
  obtain ⟨hroom, htop⟩ := hfits
  have h16 : (gfunc - 16).toNat = gfunc.toNat - 16 := toNat_sub_word 16 hroom
  have hsum : (gfunc + pageSize).toNat = gfunc.toNat + pageSize.toNat := by
    rw [UInt64.toNat_add, Nat.mod_eq_of_lt htop]
  have hbegin : (alignDown pageSize (gfunc - 16)).toNat = (gfunc.toNat - 16) / pageSize.toNat * pageSize.toNat := by
    rw [toNat_alignDown hk hsize, h16, hsize]
  have hend : (alignDown pageSize (gfunc + pageSize)).toNat =
      (gfunc.toNat + pageSize.toNat) / pageSize.toNat * pageSize.toNat := by
    rw [toNat_alignDown hk hsize, hsum, hsize]
  have hcond : fresh = true ↔ gfunc - 16 < l.pageBegin ∨ l.pageEnd ≤ gfunc := by
    rw [hfresh, hs.pages, UInt64.lt_iff_toNat_lt, UInt64.le_iff_toNat_le, h16]
    simp
  unfold Loop.protect
  by_cases hnew : gfunc - 16 < l.pageBegin ∨ l.pageEnd ≤ gfunc
  · rw [if_pos hnew]
    rw [hcond.mpr hnew, if_pos rfl] at hpages
    have hle : (alignDown pageSize (gfunc - 16)).toNat ≤ (alignDown pageSize (gfunc + pageSize)).toNat := by
      have hlow := alignDown_le hk hsize (gfunc - 16)
      have hhigh := lt_alignDown_add hk hsize (gfunc + pageSize)
      omega
    have hlength := toNat_sub_word _ hle
    refine ⟨?_, hs.memory, ?_⟩
    · rw [hpages, hbegin, hend]
    · have hrange : rangeOf (.mprotect (alignDown pageSize (gfunc - 16))
          (alignDown pageSize (gfunc + pageSize) - alignDown pageSize (gfunc - 16))) = some pages' := by
        rw [rangeOf, hlength, Nat.add_sub_cancel' hle, hbegin, hend, hpages]
      rw [List.filterMap_append, List.filterMap_cons_some hrange, List.filterMap_nil, ← List.append_assoc,
        ← hs.writable, hcond.mpr hnew, if_pos rfl]
  · have hold : fresh = false := by
      rw [← Bool.not_eq_true, hcond]
      exact hnew
    rw [if_neg hnew, hold]
    rw [hold] at hpages
    exact ⟨hpages.trans hs.pages, hs.memory, hs.writable⟩

theorem Simulates.store (hs : Simulates old pages s l) (addr value : UInt64) :
    Simulates old pages { s with memory := Function.update s.memory addr.toNat value.toNat } (l.store addr value) := by
  refine ⟨hs.pages, memory_update hs.memory addr value, ?_⟩
  rw [hs.writable, Loop.store, List.filterMap_append]
  simp [rangeOf]

/-- A turn does what `patchPrefix` does. -/
theorem patchPrefix_turn (hk : k < 64) (hsize : pageSize.toNat = 2 ^ k) (hs : Simulates old pages s l)
    (hgfunc : s.memory (gfunctbl + 8 * i) = e.gfunc.toNat) (hhfunc : s.memory (functbl + 8 * i) = e.hfunc.toNat)
    (hfits : Fits pageSize e.gfunc) {l' : Loop} (h : turn pageSize l e = some l') :
    ∃ pages' s', patchPrefix pageSize.toNat functbl gfunctbl i pages s = .ok (pages', s') ∧ Simulates old pages' s' l' := by
  have hroom := hfits.1
  have h16 : (e.gfunc - 16).toNat = e.gfunc.toNat - 16 := toNat_sub_word 16 hroom
  have h8 : (e.gfunc - 8).toNat = e.gfunc.toNat - 8 := toNat_sub_word 8 (Nat.le_trans (by decide) hroom)
  unfold turn at h
  split at h
  next => cases h
  next hmagic =>
    cases h
    have hword : s.memory (e.gfunc.toNat - 16) = kFCPcmMagic := by
      rw [← h16, hs.memory, not_not.mp hmagic]
      rfl
    have hxor : kFCPcmMagic ^^^ e.hfunc.toNat = (magicWord ^^^ e.hfunc).toNat := by
      rw [UInt64.toNat_xor]
      rfl
    have hprotect := protect_simulates hk hsize hs hfits rfl rfl
    have hstores := (hprotect.store (e.gfunc - 8) e.hfunc).store (e.gfunc - 16) (magicWord ^^^ e.hfunc)
    rw [h8, h16, ← hxor] at hstores
    refine ⟨_, _, ?_, hstores⟩
    simp only [patchPrefix, hgfunc, hhfunc, if_neg (not_not.mpr hword)]

end Refinement

/-- Whatever the order of the table, no store leaves the range made writable
before it. -/
theorem stores_covered (k : Nat) (hk : k < 64) (pageSize : UInt64) (hsize : pageSize.toNat = 2 ^ k)
    (memory : UInt64 → UInt64) (es : List Entry) (hfits : ∀ e ∈ es, Fits pageSize e.gfunc) :
    Covered (run pageSize es ⟨0, 0, memory, []⟩).trace :=
  (run_inv hk hsize hfits ⟨covered_nil, Nat.le_refl _, .inr rfl⟩).covered

def unsorted : List Entry := [⟨0x3000, 1⟩, ⟨0x2008, 2⟩]

theorem stores_covered_unsorted :
    (run 0x1000 unsorted ⟨0, 0, fun _ => magicWord, []⟩).trace =
      [.mprotect 0x2000 0x2000, .store 0x2ff8 1, .store 0x2ff0 (magicWord ^^^ 1),
        .mprotect 0x1000 0x2000, .store 0x2000 2, .store 0x1ff8 (magicWord ^^^ 2)] ∧
    Covered (run 0x1000 unsorted ⟨0, 0, fun _ => magicWord, []⟩).trace := by
  refine ⟨by decide, stores_covered 12 (by decide) 0x1000 (by decide) (fun _ => magicWord) unsorted ?_⟩
  intro e he
  rcases List.mem_pair.mp he with rfl | rfl
  · exact ⟨by decide, by decide⟩
  · exact ⟨by decide, by decide⟩

end Comulator.FcpPages
