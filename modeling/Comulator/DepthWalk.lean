import Mathlib.Data.List.Chain
import Mathlib.Data.List.Perm.Subperm
import Mathlib.Logic.Relation

namespace Comulator.DepthWalk

open Relation

section ForM

variable {α ε : Type} {w : α → Except ε Unit} {l : List α}

/-- A loop over a list fails with the first element that does. -/
theorem forM_eq_error {e : ε} :
    forM l w = .error e ↔ ∃ pre a post, l = pre ++ a :: post ∧ (∀ c ∈ pre, w c = .ok ()) ∧ w a = .error e := by
  induction l with
  | nil =>
      constructor
      · intro h
        cases h
      · rintro ⟨pre, a, post, h, _⟩
        exact absurd h.symm (List.append_ne_nil_of_right_ne_nil _ (List.cons_ne_nil _ _))
  | cons b l ih =>
      rw [List.forM_cons]
      constructor
      · intro h
        cases hb : w b with
        | error e' =>
            rw [hb] at h
            cases h
            exact ⟨[], b, l, rfl, by simp, hb⟩
        | ok _ =>
            rw [hb] at h
            obtain ⟨pre, a, post, rfl, hpre, ha⟩ := ih.mp h
            refine ⟨b :: pre, a, post, rfl, ?_, ha⟩
            intro c hc
            rcases List.mem_cons.mp hc with rfl | hc
            · exact hb
            · exact hpre c hc
      · rintro ⟨pre, a, post, h, hpre, ha⟩
        cases pre with
        | nil =>
            cases h
            rw [ha]
            rfl
        | cons c pre =>
            cases h
            rw [hpre b List.mem_cons_self]
            exact ih.mpr ⟨pre, a, post, rfl, fun c hc => hpre c (List.mem_cons_of_mem _ hc), ha⟩

theorem forM_eq_ok : forM l w = .ok () ↔ ∀ a ∈ l, w a = .ok () := by
  induction l with
  | nil => exact iff_of_true rfl (by simp)
  | cons b l ih =>
      rw [List.forM_cons, List.forall_mem_cons, ← ih]
      cases w b with
      | error e =>
          constructor
          · intro h
            cases h
          · rintro ⟨h, _⟩
            cases h
      | ok u =>
          constructor
          · intro h
            exact ⟨rfl, h⟩
          · rintro ⟨_, h⟩
            exact h

end ForM

/-- A chain with an element twice holds a cycle. -/
theorem exists_cycle {α : Type} {r : α → α → Prop} {l : List α} (h : l.IsChain r) (hl : ¬ l.Nodup) :
    ∃ a ∈ l, TransGen r a a := by
  by_contra hno
  apply hl
  have hpair : l.Pairwise (TransGen r) := (h.imp (fun _ _ => TransGen.single)).pairwise
  apply hpair.imp_of_mem
  intro a b ha _ hab heq
  exact hno ⟨a, ha, heq ▸ hab⟩

variable {α ε : Type} (succ : α → List α) (stop : α → Bool) (deep stopped : ε)

/-- A recursion through the successors of a node, in their order, that stops where it
comes back to a node marked so. A depth is all it may use. -/
def walk : Nat → α → Except ε Unit
  | 0, _ => .error deep
  | n + 1, a => do
      forM (succ a) (walk n)
      if stop a then .error stopped else .ok ()

def Edge (a b : α) : Prop := b ∈ succ a

def Sound (a : α) : Prop := ∀ b, ReflTransGen (Edge succ) a b → stop b = false ∧ ¬ TransGen (Edge succ) b b

def Live (a b : α) : Prop := ∃ pre post, succ a = pre ++ b :: post ∧ ∀ c ∈ pre, Sound succ stop c

def Endless (a : α) : Prop := ∃ b, ReflTransGen (Live succ stop) a b ∧ TransGen (Live succ stop) b b

def EndlessFrom (l : List α) : Prop :=
  ∃ pre a post, l = pre ++ a :: post ∧ (∀ c ∈ pre, Sound succ stop c) ∧ Endless succ stop a

variable {succ stop deep stopped} {a b : α} {n : Nat}

theorem walk_eq_ok :
    walk succ stop deep stopped (n + 1) a = .ok () ↔
      (∀ b ∈ succ a, walk succ stop deep stopped n b = .ok ()) ∧ stop a = false := by
  rw [walk, ← forM_eq_ok]
  cases forM (succ a) (walk succ stop deep stopped n) with
  | error e =>
      constructor
      · intro h
        cases h
      · rintro ⟨h, _⟩
        cases h
  | ok u => cases stop a <;> simp [bind, Except.bind]

theorem walk_eq_error {e : ε} (h : walk succ stop deep stopped (n + 1) a = .error e) :
    (∃ pre b post, succ a = pre ++ b :: post ∧ (∀ c ∈ pre, walk succ stop deep stopped n c = .ok ()) ∧
      walk succ stop deep stopped n b = .error e) ∨ stop a = true ∧ e = stopped := by
  rw [walk] at h
  cases hall : forM (succ a) (walk succ stop deep stopped n) with
  | error e' =>
      rw [hall] at h
      cases h
      exact .inl (forM_eq_error.mp hall)
  | ok u =>
      rw [hall] at h
      right
      cases hstop : stop a with
      | false =>
          rw [hstop] at h
          cases h
      | true =>
          rw [hstop] at h
          cases h
          exact ⟨rfl, rfl⟩

theorem Sound.edge (h : Sound succ stop a) (hb : b ∈ succ a) : Sound succ stop b :=
  fun c hc => h c (.head hb hc)

/-- A recursion that comes back comes back from everything below with less depth. -/
theorem walk_ok_below (h : walk succ stop deep stopped n a = .ok ()) (hab : TransGen (Edge succ) a b) :
    ∃ k < n, walk succ stop deep stopped k b = .ok () := by
  induction hab with
  | single hb =>
      cases n with
      | zero => cases h
      | succ n => exact ⟨n, Nat.lt_succ_self n, (walk_eq_ok.mp h).1 _ hb⟩
  | tail _ hc ih =>
      obtain ⟨k, hk, hwalk⟩ := ih
      cases k with
      | zero => cases hwalk
      | succ k => exact ⟨k, by omega, (walk_eq_ok.mp hwalk).1 _ hc⟩

theorem walk_ok_acyclic (h : walk succ stop deep stopped n a = .ok ()) : ¬ TransGen (Edge succ) a a := by
  induction n using Nat.strong_induction_on generalizing a with
  | _ n ih =>
      intro hcycle
      obtain ⟨k, hk, hwalk⟩ := walk_ok_below h hcycle
      exact ih k hk hwalk hcycle

theorem sound_of_walk (h : walk succ stop deep stopped n a = .ok ()) : Sound succ stop a := by
  intro b hab
  obtain ⟨k, hwalk⟩ : ∃ k, walk succ stop deep stopped k b = .ok () := by
    rcases reflTransGen_iff_eq_or_transGen.mp hab with rfl | hab
    · exact ⟨n, h⟩
    · obtain ⟨k, _, hwalk⟩ := walk_ok_below h hab
      exact ⟨k, hwalk⟩
  refine ⟨?_, walk_ok_acyclic hwalk⟩
  cases k with
  | zero => cases hwalk
  | succ k => exact (walk_eq_ok.mp hwalk).2

/-- Below a sound node only the depth can run out. -/
theorem Sound.walk_cases (h : Sound succ stop a) (n : Nat) :
    walk succ stop deep stopped n a = .ok () ∨ walk succ stop deep stopped n a = .error deep := by
  induction n generalizing a with
  | zero => exact .inr rfl
  | succ n ih =>
      cases hwalk : walk succ stop deep stopped (n + 1) a with
      | ok u => exact .inl rfl
      | error e =>
          right
          rcases walk_eq_error hwalk with ⟨pre, b, post, hsucc, _, hb⟩ | ⟨hstop, _⟩
          · have hmem : b ∈ succ a := by simp [hsucc]
            rcases ih (h.edge hmem) with hok | hdeep
            · cases hb.symm.trans hok
            · exact congrArg Except.error (Except.error.inj (hb.symm.trans hdeep))
          · cases (h a .refl).1.symm.trans hstop

/-- After sound nodes the recursion gets to the next one unless the depth runs out. -/
theorem forM_deep {pre post : List α} (hpre : ∀ c ∈ pre, Sound succ stop c)
    (hb : walk succ stop deep stopped n b = .error deep) :
    forM (pre ++ b :: post) (walk succ stop deep stopped n) = .error deep := by
  induction pre with
  | nil =>
      rw [List.nil_append, List.forM_cons, hb]
      rfl
  | cons c pre ih =>
      rw [List.cons_append, List.forM_cons]
      rcases (hpre c List.mem_cons_self).walk_cases n with hok | hdeep
      · rw [hok]
        exact ih (fun d hd => hpre d (List.mem_cons_of_mem c hd))
      · rw [hdeep]
        rfl

theorem walk_endless (h : Endless succ stop a) (n : Nat) : walk succ stop deep stopped n a = .error deep := by
  induction n generalizing a with
  | zero => rfl
  | succ n ih =>
      obtain ⟨b, hab, hcycle⟩ := h
      -- A node on a way into a cycle has a successor on such a way.
      obtain ⟨c, ⟨pre, post, hsucc, hpre⟩, hc⟩ : ∃ c, Live succ stop a c ∧ Endless succ stop c := by
        rcases ReflTransGen.cases_head hab with rfl | ⟨c, hac, hcb⟩
        · obtain ⟨c, hac, hca⟩ := TransGen.head'_iff.mp hcycle
          exact ⟨c, hac, a, hca, hcycle⟩
        · exact ⟨c, hac, b, hcb, hcycle⟩
      rw [walk, hsucc, forM_deep hpre (ih hc)]
      rfl

/-- Where the depth runs out, there is a chain as long. -/
theorem walk_chain (hne : deep ≠ stopped) (h : walk succ stop deep stopped n a = .error deep) :
    ∃ l : List α, l.length = n ∧ l.IsChain (Live succ stop) ∧ (∀ b ∈ l.head?, b = a) ∧
      ∀ b ∈ l, succ b ≠ [] ∧ ReflTransGen (Live succ stop) a b := by
  induction n generalizing a with
  | zero => exact ⟨[], rfl, .nil, by simp, by simp⟩
  | succ n ih =>
      rcases walk_eq_error h with ⟨pre, b, post, hsucc, hpre, hb⟩ | ⟨_, hdeep⟩
      · obtain ⟨l, hlength, hchain, hhead, hall⟩ := ih hb
        have hlive : Live succ stop a b := ⟨pre, post, hsucc, fun c hc => sound_of_walk (hpre c hc)⟩
        refine ⟨a :: l, by rw [List.length_cons, hlength], ?_, by simp, ?_⟩
        · rw [List.isChain_cons]
          refine ⟨?_, hchain⟩
          intro c hc
          rw [hhead c hc]
          exact hlive
        · intro c hc
          rcases List.mem_cons.mp hc with rfl | hc
          · exact ⟨by simp [hsucc], .refl⟩
          · exact ⟨(hall c hc).1, .head hlive (hall c hc).2⟩
      · exact absurd hdeep hne

/-- With more depth than there are nodes with successors, running out of it means
that there is no end. -/
theorem endless_of_walk {nodes : List α} (hne : deep ≠ stopped) (hnodes : ∀ a, succ a ≠ [] → a ∈ nodes)
    (h : walk succ stop deep stopped (nodes.length + 1) a = .error deep) : Endless succ stop a := by
  obtain ⟨l, hlength, hchain, _, hall⟩ := walk_chain hne h
  have hdup : ¬ l.Nodup := by
    intro hnodup
    have hle := (List.subperm_of_subset hnodup (fun b hb => hnodes b (hall b hb).1)).length_le
    omega
  obtain ⟨b, hb, hcycle⟩ := exists_cycle hchain hdup
  exact ⟨b, (hall b hb).2, hcycle⟩

/-- With as much depth the recursion comes back exactly from sound nodes. -/
theorem walk_ok_iff {nodes : List α} (hne : deep ≠ stopped) (hnodes : ∀ a, succ a ≠ [] → a ∈ nodes) :
    walk succ stop deep stopped (nodes.length + 1) a = .ok () ↔ Sound succ stop a := by
  constructor
  · exact sound_of_walk
  · intro h
    rcases h.walk_cases (nodes.length + 1) with hok | hdeep
    · exact hok
    · have hedge : ∀ b c, Live succ stop b c → Edge succ b c := by
        rintro b c ⟨pre, post, hsucc, _⟩
        rw [Edge, hsucc]
        exact List.mem_append_right _ List.mem_cons_self
      obtain ⟨b, hab, hcycle⟩ := endless_of_walk hne hnodes hdeep
      exact absurd (TransGen.mono hedge _ _ hcycle) (h b (ReflTransGen.mono hedge _ _ hab)).2

theorem forM_endless {l : List α} (h : EndlessFrom succ stop l) (n : Nat) :
    forM l (walk succ stop deep stopped n) = .error deep := by
  obtain ⟨pre, a, post, rfl, hpre, ha⟩ := h
  exact forM_deep hpre (walk_endless ha n)

theorem endlessFrom_of_forM (nodes : List α) {l : List α} (hne : deep ≠ stopped) (hnodes : ∀ a, succ a ≠ [] → a ∈ nodes)
    (h : forM l (walk succ stop deep stopped (nodes.length + 1)) = .error deep) : EndlessFrom succ stop l := by
  obtain ⟨pre, a, post, rfl, hpre, ha⟩ := forM_eq_error.mp h
  exact ⟨pre, a, post, rfl, fun c hc => sound_of_walk (hpre c hc), endless_of_walk hne hnodes ha⟩

end Comulator.DepthWalk
