import Mathlib.Data.List.Induction
import Mathlib.Logic.Function.Basic

namespace Comulator.SharedDisk

/-- A program that draws numbers, makes directories and saves files. One that is
at `stop` has come to no result. -/
inductive Prog (N D F C M α : Type)
  | ret (a : α)
  | stop
  | draw (next : N → Prog N D F C M α)
  | mkdir (d : D) (next : Bool → Prog N D F C M α)
  | create (d : D) (f : F) (next : Option M → Prog N D F C M α)
  | write (d : D) (f : F) (c : C) (next : Prog N D F C M α)

inductive Answer (N M : Type)
  | number (n : N)
  | done
  | refused
  | failed (m : M)

inductive Effect (D F C : Type)
  | none
  | make (d : D)
  | create (d : D) (f : F)
  | write (d : D) (f : F) (c : C)

/-- The files of a directory by their names; one that has been created and not been
written has no content. -/
abbrev Files (F C : Type) := F → Option (Option C)

structure Disk (D F C : Type) where
  dirs : D → Bool
  files : D → Files F C

variable {ι N D F C M α β : Type}

section Programs

def Prog.bind (p : Prog N D F C M α) (k : α → Prog N D F C M β) : Prog N D F C M β :=
  match p with
  | .ret a => k a
  | .stop => .stop
  | .draw next => .draw (fun n => (next n).bind k)
  | .mkdir d next => .mkdir d (fun b => (next b).bind k)
  | .create d f next => .create d f (fun m => (next m).bind k)
  | .write d f c next => .write d f c (next.bind k)

instance : Monad (Prog N D F C M) where
  pure := .ret
  bind := .bind

def number : Prog N D F C M N := .draw .ret

def makeDir (d : D) : Prog N D F C M Bool := .mkdir d .ret

def createFile (d : D) (f : F) : Prog N D F C M (Option M) := .create d f .ret

def writeFile (d : D) (f : F) (c : C) : Prog N D F C M Unit := .write d f c (.ret ())

def Prog.next : Prog N D F C M α → Answer N M → Option (Prog N D F C M α × Effect D F C)
  | .draw next, .number n => some (next n, .none)
  | .mkdir d next, .done => some (next true, .make d)
  | .mkdir _ next, .refused => some (next false, .none)
  | .create d f next, .done => some (next none, .create d f)
  | .create _ _ next, .failed m => some (next (some m), .none)
  | .write d f c next, .done => some (next, .write d f c)
  | _, _ => none

variable [DecidableEq D] [DecidableEq F]

def Disk.put (K : Disk D F C) (d : D) (f : F) (c : Option C) : Disk D F C :=
  { K with files := Function.update K.files d (Function.update (K.files d) f (some c)) }

/-- A directory is made if it is not there, and it is empty then; a file is created
in one that is there. -/
def Disk.apply (K : Disk D F C) : Effect D F C → Option (Disk D F C)
  | .none => some K
  | .make d =>
      if K.dirs d then none
      else some ⟨Function.update K.dirs d true, Function.update K.files d (fun _ => none)⟩
  | .create d f => if K.dirs d then some (K.put d f none) else none
  | .write d f c => some (K.put d f (some c))

def Prog.step (p : Prog N D F C M α) (a : Answer N M) (K : Disk D F C) : Option (Prog N D F C M α × Disk D F C) := do
  let (p', e) ← p.next a
  let K' ← K.apply e
  return (p', K')

def Prog.run (p : Prog N D F C M α) (l : List (Answer N M)) (K : Disk D F C) : Option (Prog N D F C M α × Disk D F C) :=
  l.foldlM (fun r a => r.1.step a r.2) (p, K)

theorem step_eq_some {p p' : Prog N D F C M α} {a : Answer N M} {K K' : Disk D F C} :
    p.step a K = some (p', K') ↔ ∃ e, p.next a = some (p', e) ∧ K.apply e = some K' := by
  unfold Prog.step
  constructor
  · intro h
    obtain ⟨⟨q, e⟩, hnext, h⟩ := Option.bind_eq_some_iff.mp h
    obtain ⟨K₁, happly, h⟩ := Option.bind_eq_some_iff.mp h
    cases h
    exact ⟨e, hnext, happly⟩
  · rintro ⟨e, hnext, happly⟩
    rw [hnext]
    simp only [Option.bind_eq_bind, Option.bind_some, happly]
    rfl

theorem run_concat {p p' p'' : Prog N D F C M α} {l : List (Answer N M)} {a : Answer N M} {K K' K'' : Disk D F C}
    (h : p.run l K = some (p', K')) (ha : p'.step a K' = some (p'', K'')) : p.run (l ++ [a]) K = some (p'', K'') := by
  unfold Prog.run at h ⊢
  rw [List.foldlM_append, h]
  simp only [Option.bind_eq_bind, Option.bind_some, List.foldlM_cons, List.foldlM_nil, ha]
  rfl

end Programs

section Rules

variable [DecidableEq D] [DecidableEq F]

/-- From the disk `K` the program always keeps `J`, and if it comes to a result then
with `Q`. -/
def Prog.Holds (J : Disk D F C → Prop) (Q : α → Disk D F C → Prop) : Prog N D F C M α → Disk D F C → Prop
  | .ret a, K => J K ∧ Q a K
  | .stop, K => J K
  | .draw next, K => J K ∧ ∀ n, (next n).Holds J Q K
  | .mkdir d next, K => J K ∧ (∀ K', K.apply (.make d) = some K' → (next true).Holds J Q K') ∧ (next false).Holds J Q K
  | .create d f next, K =>
      J K ∧ (∀ K', K.apply (.create d f) = some K' → (next none).Holds J Q K') ∧ ∀ m, (next (some m)).Holds J Q K
  | .write d f c next, K => J K ∧ next.Holds J Q (K.put d f (some c))

variable {J : Disk D F C → Prop} {Q : α → Disk D F C → Prop} {R : β → Disk D F C → Prop}

theorem Prog.Holds.always {p : Prog N D F C M α} {K : Disk D F C} (h : p.Holds J Q K) : J K := by
  cases p with
  | stop => exact h
  | ret | draw | mkdir | create | write => exact h.1

theorem Prog.Holds.step {p p' : Prog N D F C M α} {a : Answer N M} {K K' : Disk D F C} (h : p.Holds J Q K)
    (hstep : p.step a K = some (p', K')) : p'.Holds J Q K' := by
  obtain ⟨e, hnext, happly⟩ := step_eq_some.mp hstep
  cases p with
  | ret r => cases a <;> cases hnext
  | stop => cases a <;> cases hnext
  | draw next =>
      cases a with
      | number n =>
          cases hnext
          cases happly
          exact h.2 n
      | done | refused | failed => cases hnext
  | mkdir d next =>
      cases a with
      | done =>
          cases hnext
          exact h.2.1 K' happly
      | refused =>
          cases hnext
          cases happly
          exact h.2.2
      | number | failed => cases hnext
  | create d f next =>
      cases a with
      | done =>
          cases hnext
          exact h.2.1 K' happly
      | failed m =>
          cases hnext
          cases happly
          exact h.2.2 m
      | number | refused => cases hnext
  | write d f c next =>
      cases a with
      | done =>
          cases hnext
          cases happly
          exact h.2
      | number | refused | failed => cases hnext

theorem Prog.Holds.run {p p' : Prog N D F C M α} {l : List (Answer N M)} {K K' : Disk D F C} (h : p.Holds J Q K)
    (hrun : p.run l K = some (p', K')) : p'.Holds J Q K' := by
  induction l generalizing p K with
  | nil =>
      cases hrun
      exact h
  | cons a l ih =>
      unfold Prog.run at hrun
      rw [List.foldlM_cons] at hrun
      obtain ⟨⟨q, K₁⟩, hstep, hrun⟩ := Option.bind_eq_some_iff.mp hrun
      exact ih (h.step hstep) hrun

theorem Prog.Holds.imp {Q' : α → Disk D F C → Prop} {p : Prog N D F C M α} {K : Disk D F C} (h : p.Holds J Q K)
    (himp : ∀ a K, Q a K → J K → Q' a K) : p.Holds J Q' K := by
  induction p generalizing K with
  | ret a => exact ⟨h.1, himp a K h.2 h.1⟩
  | stop => exact h
  | draw next ih => exact ⟨h.1, fun n => ih n (h.2 n)⟩
  | mkdir d next ih => exact ⟨h.1, fun K' hK => ih true (h.2.1 K' hK), ih false h.2.2⟩
  | create d f next ih => exact ⟨h.1, fun K' hK => ih none (h.2.1 K' hK), fun m => ih (some m) (h.2.2 m)⟩
  | write d f c next ih => exact ⟨h.1, ih h.2⟩

theorem Prog.Holds.bind {p : Prog N D F C M α} {k : α → Prog N D F C M β} {K : Disk D F C}
    (h : p.Holds J (fun a K => (k a).Holds J R K) K) : (p >>= k).Holds J R K := by
  induction p generalizing K with
  | ret a => exact h.2
  | stop => exact h
  | draw next ih => exact ⟨h.1, fun n => ih n (h.2 n)⟩
  | mkdir d next ih => exact ⟨h.1, fun K' hK => ih true (h.2.1 K' hK), ih false h.2.2⟩
  | create d f next ih => exact ⟨h.1, fun K' hK => ih none (h.2.1 K' hK), fun m => ih (some m) (h.2.2 m)⟩
  | write d f c next ih => exact ⟨h.1, ih h.2⟩

end Rules

section Tidy

/-- The program saves files only in directories that it has made itself; it has made
those in `own`. When it returns, `T` holds of them. -/
def Prog.Tidy (T : α → List D → Prop) : List D → Prog N D F C M α → Prop
  | own, .ret a => T a own
  | _, .stop => True
  | own, .draw next => ∀ n, (next n).Tidy T own
  | own, .mkdir d next => (next true).Tidy T (d :: own) ∧ (next false).Tidy T own
  | own, .create d _ next => d ∈ own ∧ ∀ m, (next m).Tidy T own
  | own, .write d _ _ next => d ∈ own ∧ next.Tidy T own

variable {T : α → List D → Prop} {U : β → List D → Prop}

def Effect.own (own : List D) : Effect D F C → List D
  | .make d => d :: own
  | _ => own

def Effect.Within (own : List D) : Effect D F C → Prop
  | .create d _ | .write d _ _ => d ∈ own
  | _ => True

theorem Prog.Tidy.next {p p' : Prog N D F C M α} {own : List D} {a : Answer N M} {e : Effect D F C} (h : p.Tidy T own)
    (hnext : p.next a = some (p', e)) : e.Within own ∧ p'.Tidy T (e.own own) := by
  cases p with
  | ret r => cases a <;> cases hnext
  | stop => cases a <;> cases hnext
  | draw next =>
      cases a with
      | number n =>
          cases hnext
          exact ⟨trivial, h n⟩
      | done | refused | failed => cases hnext
  | mkdir d next =>
      cases a with
      | done =>
          cases hnext
          exact ⟨trivial, h.1⟩
      | refused =>
          cases hnext
          exact ⟨trivial, h.2⟩
      | number | failed => cases hnext
  | create d f next =>
      cases a with
      | done =>
          cases hnext
          exact ⟨h.1, h.2 none⟩
      | failed m =>
          cases hnext
          exact ⟨trivial, h.2 (some m)⟩
      | number | refused => cases hnext
  | write d f c next =>
      cases a with
      | done =>
          cases hnext
          exact ⟨h.1, h.2⟩
      | number | refused | failed => cases hnext

theorem Prog.Tidy.imp {T' : α → List D → Prop} {p : Prog N D F C M α} {own : List D} (h : p.Tidy T own)
    (himp : ∀ a own', T a own' → T' a own') : p.Tidy T' own := by
  induction p generalizing own with
  | ret a => exact himp a own h
  | stop => trivial
  | draw next ih => exact fun n => ih n (h n)
  | mkdir d next ih => exact ⟨ih true h.1, ih false h.2⟩
  | create d f next ih => exact ⟨h.1, fun m => ih m (h.2 m)⟩
  | write d f c next ih => exact ⟨h.1, ih h.2⟩

theorem Prog.Tidy.bind {p : Prog N D F C M α} {k : α → Prog N D F C M β} {own : List D}
    (h : p.Tidy (fun a own => (k a).Tidy U own) own) : (p >>= k).Tidy U own := by
  induction p generalizing own with
  | ret a => exact h
  | stop => trivial
  | draw next ih => exact fun n => ih n (h n)
  | mkdir d next ih => exact ⟨ih true h.1, ih false h.2⟩
  | create d f next ih => exact ⟨h.1, fun m => ih m (h.2 m)⟩
  | write d f c next ih => exact ⟨h.1, ih h.2⟩

end Tidy

section Effects

variable [DecidableEq D] [DecidableEq F] {e : Effect D F C} {K K' L L' : Disk D F C} {d : D} {own : List D}

def Effect.touched : Effect D F C → List D
  | .none => []
  | .make d | .create d _ | .write d _ _ => [d]

omit [DecidableEq D] [DecidableEq F] in
theorem mem_own : d ∈ e.own own ↔ d ∈ own ∨ d ∈ e.own [] := by
  cases e with
  | make d' => simp [Effect.own, or_comm]
  | none | create | write => simp [Effect.own]

omit [DecidableEq D] [DecidableEq F] in
theorem Effect.Within.touched (h : e.Within own) (hd : d ∈ e.touched) : d ∈ e.own own := by
  cases e with
  | none => cases hd
  | make d' => exact List.mem_cons.mpr (.inl (List.mem_singleton.mp hd))
  | create | write =>
      rw [List.mem_singleton.mp hd]
      exact h

theorem apply_made (h : K.apply e = some K') (hd : d ∈ e.own []) : K.dirs d = false := by
  cases e with
  | make d' =>
      rw [List.mem_singleton.mp hd]
      cases hdir : K.dirs d' with
      | false => rfl
      | true => simp [Disk.apply, hdir] at h
  | none | create | write => cases hd

theorem apply_dirs (h : K.apply e = some K') : K'.dirs d = true ↔ K.dirs d = true ∨ d ∈ e.own [] := by
  cases e with
  | none =>
      cases h
      simp [Effect.own]
  | make d' =>
      have hnew := apply_made h List.mem_cons_self
      simp only [Disk.apply, hnew, Bool.false_eq_true, if_false, Option.some.injEq] at h
      subst h
      by_cases hd : d = d'
      · subst hd
        simp [Effect.own]
      · simp [Effect.own, hd]
  | create d' f =>
      obtain ⟨_, h⟩ := Option.ite_none_right_eq_some.mp h
      cases h
      simp [Effect.own, Disk.put]
  | write d' f c =>
      cases h
      simp [Effect.own, Disk.put]

theorem apply_files_other (h : K.apply e = some K') (hd : d ∉ e.touched) : K'.files d = K.files d := by
  cases e with
  | none =>
      cases h
      rfl
  | make d' =>
      obtain ⟨_, h⟩ := Option.ite_none_left_eq_some.mp h
      cases h
      exact Function.update_of_ne (fun hne => hd (List.mem_singleton.mpr hne)) _ _
  | create d' f =>
      obtain ⟨_, h⟩ := Option.ite_none_right_eq_some.mp h
      cases h
      exact Function.update_of_ne (fun hne => hd (List.mem_singleton.mpr hne)) _ _
  | write d' f c =>
      cases h
      exact Function.update_of_ne (fun hne => hd (List.mem_singleton.mpr hne)) _ _

/-- What an effect makes of a directory depends on its files only. -/
theorem apply_files_same (h : K.apply e = some K') (h' : L.apply e = some L') (hd : K.files d = L.files d ∨ d ∈ e.own []) :
    K'.files d = L'.files d := by
  have hput : ∀ d' f (c : Option C), K.files d = L.files d → (K.put d' f c).files d = (L.put d' f c).files d := by
    intro d' f c hsame
    by_cases hne : d = d'
    · subst hne
      simp only [Disk.put, Function.update_self, hsame]
    · simp only [Disk.put, Function.update_of_ne hne, hsame]
  cases e with
  | none =>
      cases h
      cases h'
      exact hd.resolve_right (by simp [Effect.own])
  | make d' =>
      obtain ⟨_, h⟩ := Option.ite_none_left_eq_some.mp h
      obtain ⟨_, h'⟩ := Option.ite_none_left_eq_some.mp h'
      cases h
      cases h'
      by_cases hne : d = d'
      · subst hne
        simp only [Function.update_self]
      · simp only [Function.update_of_ne hne]
        exact hd.resolve_right (fun hmade => hne (List.mem_singleton.mp hmade))
  | create d' f =>
      obtain ⟨_, h⟩ := Option.ite_none_right_eq_some.mp h
      obtain ⟨_, h'⟩ := Option.ite_none_right_eq_some.mp h'
      cases h
      cases h'
      exact hput d' f none (hd.resolve_right (by simp [Effect.own]))
  | write d' f c =>
      cases h
      cases h'
      exact hput d' f (some c) (hd.resolve_right (by simp [Effect.own]))

end Effects

section Pools

variable [DecidableEq ι] [DecidableEq D] [DecidableEq F]

structure Pool (ι N D F C M α : Type) where
  progs : ι → Prog N D F C M α
  disk : Disk D F C

def Pool.step (s : Pool ι N D F C M α) (i : ι) (a : Answer N M) : Option (Pool ι N D F C M α) := do
  let (p, K) ← (s.progs i).step a s.disk
  return ⟨Function.update s.progs i p, K⟩

def Pool.run (s : Pool ι N D F C M α) (l : List (ι × Answer N M)) : Option (Pool ι N D F C M α) :=
  l.foldlM (fun s e => s.step e.1 e.2) s

def answersOf (i : ι) (l : List (ι × Answer N M)) : List (Answer N M) := (l.filter (fun e => e.1 = i)).map Prod.snd

variable {s₀ s s' : Pool ι N D F C M α} {l : List (ι × Answer N M)} {i j : ι} {a : Answer N M}

theorem answersOf_self : answersOf i (l ++ [(i, a)]) = answersOf i l ++ [a] := by simp [answersOf]

theorem answersOf_other (h : j ≠ i) : answersOf i (l ++ [(j, a)]) = answersOf i l := by simp [answersOf, h]

theorem pool_step (h : s.step i a = some s') : ∃ p e K, (s.progs i).next a = some (p, e) ∧ s.disk.apply e = some K ∧
    s' = ⟨Function.update s.progs i p, K⟩ := by
  obtain ⟨⟨p, K⟩, hstep, h⟩ := Option.bind_eq_some_iff.mp h
  obtain ⟨e, hnext, happly⟩ := step_eq_some.mp hstep
  cases h
  exact ⟨p, e, K, hnext, happly, rfl⟩

/-- After some steps each program is where it had come alone, and the directories
that it has made are as it had left them. -/
structure Isolated (s₀ s : Pool ι N D F C M α) (l : List (ι × Answer N M)) (own : ι → List D) (alone : ι → Disk D F C) :
    Prop where
  run : ∀ i, (s₀.progs i).run (answersOf i l) s₀.disk = some (s.progs i, alone i)
  tidy : ∀ i, (s.progs i).Tidy (fun _ _ => True) (own i)
  dirs : ∀ d, s.disk.dirs d = true ↔ s₀.disk.dirs d = true ∨ ∃ i, d ∈ own i
  ownDirs : ∀ i d, (alone i).dirs d = true ↔ s₀.disk.dirs d = true ∨ d ∈ own i
  fresh : ∀ i, ∀ d ∈ own i, s₀.disk.dirs d = false
  apart : ∀ i j d, d ∈ own i → d ∈ own j → i = j
  files : ∀ i, ∀ d ∈ own i, s.disk.files d = (alone i).files d
  others : ∀ d, (∀ i, d ∉ own i) → s.disk.files d = s₀.disk.files d

variable {own : ι → List D} {alone : ι → Disk D F C}

/-- What a program does on the shared disk it can do alone. -/
theorem Isolated.apply_alone (h : Isolated s₀ s l own alone) {e : Effect D F C} {K : Disk D F C} (happly : s.disk.apply e = some K)
    (hwithin : e.Within (own i)) : ∃ K', (alone i).apply e = some K' := by
  cases e with
  | none => exact ⟨_, rfl⟩
  | make d =>
      have hnew := apply_made happly List.mem_cons_self
      have halone : (alone i).dirs d = false := by
        rw [Bool.eq_false_iff] at hnew ⊢
        intro hd
        exact hnew ((h.dirs d).mpr (((h.ownDirs i d).mp hd).imp_right (fun hmem => ⟨i, hmem⟩)))
      exact ⟨_, if_neg (by rw [halone]; exact Bool.false_ne_true)⟩
  | create d f =>
      have hdir := (h.ownDirs i d).mpr (.inr hwithin)
      exact ⟨_, if_pos hdir⟩
  | write d f c => exact ⟨_, rfl⟩

theorem Isolated.step (h : Isolated s₀ s l own alone) (hstep : s.step i a = some s') :
    ∃ own' alone', Isolated s₀ s' (l ++ [(i, a)]) own' alone' := by
  obtain ⟨p, e, K, hnext, happly, rfl⟩ := pool_step hstep
  obtain ⟨hwithin, htidy⟩ := (h.tidy i).next hnext
  obtain ⟨K', halone⟩ := h.apply_alone happly hwithin
  have hown : ∀ {j d}, d ∈ Function.update own i (e.own (own i)) j ↔ d ∈ own j ∨ j = i ∧ d ∈ e.own [] := by
    intro j d
    by_cases hj : j = i
    · subst hj
      rw [Function.update_self, mem_own]
      simp
    · rw [Function.update_of_ne hj]
      simp [hj]
  have hold : ∀ {j d}, d ∈ own j → d ∉ e.own [] := by
    intro j d hd hmade
    have hnew := apply_made happly hmade
    rw [(h.dirs d).mpr (.inr ⟨j, hd⟩)] at hnew
    cases hnew
  have htouched : ∀ {d}, d ∈ e.touched → d ∈ own i ∨ d ∈ e.own [] := fun hd => mem_own.mp (hwithin.touched hd)
  refine ⟨Function.update own i (e.own (own i)), Function.update alone i K', ?_, ?_, ?_, ?_, ?_, ?_, ?_, ?_⟩
  · intro j
    by_cases hj : j = i
    · subst hj
      simp only [Function.update_self, answersOf_self]
      exact run_concat (h.run j) (step_eq_some.mpr ⟨e, hnext, halone⟩)
    · simp only [Function.update_of_ne hj, answersOf_other (Ne.symm hj)]
      exact h.run j
  · intro j
    by_cases hj : j = i
    · subst hj
      simp only [Function.update_self]
      exact htidy
    · simp only [Function.update_of_ne hj]
      exact h.tidy j
  · intro d
    rw [apply_dirs happly, h.dirs d]
    simp only [hown]
    constructor
    · rintro ((hd | ⟨j, hj⟩) | hd)
      · exact .inl hd
      · exact .inr ⟨j, .inl hj⟩
      · exact .inr ⟨i, .inr ⟨rfl, hd⟩⟩
    · rintro (hd | ⟨j, hj | ⟨_, hd⟩⟩)
      · exact .inl (.inl hd)
      · exact .inl (.inr ⟨j, hj⟩)
      · exact .inr hd
  · intro j d
    by_cases hj : j = i
    · subst hj
      rw [Function.update_self, Function.update_self, apply_dirs halone, h.ownDirs j d, or_assoc]
      exact or_congr_right mem_own.symm
    · rw [Function.update_of_ne hj, Function.update_of_ne hj]
      exact h.ownDirs j d
  · intro j d hd
    rcases hown.mp hd with hd | ⟨_, hd⟩
    · exact h.fresh j d hd
    · have hnew := apply_made happly hd
      rw [Bool.eq_false_iff] at hnew ⊢
      exact fun hd₀ => hnew ((h.dirs d).mpr (.inl hd₀))
  · intro j k d hj hk
    rcases hown.mp hj with hj | ⟨hji, hj⟩
    · rcases hown.mp hk with hk | ⟨_, hk⟩
      · exact h.apart j k d hj hk
      · exact absurd hk (hold hj)
    · rcases hown.mp hk with hk | ⟨hki, _⟩
      · exact absurd hj (hold hk)
      · exact hji.trans hki.symm
  · intro j d hd
    by_cases hj : j = i
    · subst hj
      rw [Function.update_self] at hd ⊢
      exact apply_files_same happly halone ((mem_own.mp hd).imp_left (h.files j d))
    · rw [Function.update_of_ne hj] at hd ⊢
      rw [apply_files_other happly, h.files j d hd]
      intro ht
      rcases htouched ht with hi | hmade
      · exact hj (h.apart j i d hd hi)
      · exact hold hd hmade
  · intro d hd
    rw [apply_files_other happly, h.others d (fun j hj => hd j (hown.mpr (.inl hj)))]
    intro ht
    exact hd i (by rw [Function.update_self]; exact hwithin.touched ht)

/-- Programs that save files in directories of their own only do not see each other,
whatever the order of their steps and whichever fail. -/
theorem isolated (htidy : ∀ i, (s₀.progs i).Tidy (fun _ _ => True) []) (hrun : s₀.run l = some s) : ∃ own alone, Isolated s₀ s l own alone := by
  induction l using List.reverseRecOn generalizing s with
  | nil =>
      cases hrun
      refine ⟨fun _ => [], fun _ => s₀.disk, ?_, htidy, ?_, ?_, ?_, ?_, ?_, ?_⟩
      · exact fun i => rfl
      · simp
      · simp
      · simp
      · simp
      · simp
      · exact fun _ _ => rfl
  | append_singleton l x ih =>
      unfold Pool.run at hrun
      rw [List.foldlM_append] at hrun
      obtain ⟨s₁, hrun₁, hstep⟩ := Option.bind_eq_some_iff.mp hrun
      rw [List.foldlM_cons] at hstep
      obtain ⟨s₂, hstep, hnil⟩ := Option.bind_eq_some_iff.mp hstep
      cases hnil
      obtain ⟨own, alone, h⟩ := ih hrun₁
      exact h.step hstep

end Pools

end Comulator.SharedDisk
