import Mathlib.Data.Nat.Notation
import Mathlib.Data.List.Basic
import Mathlib.Data.List.Induction
import Mathlib.Order.WellFounded

/-!
# Runs of a labelled step function

A system is a step function from a state and an act to the next state, or to none where the act cannot
happen.  `run` performs a list of acts; `Every step P` says that each act of a list meets the condition
`P` in the state it is performed in, `Always step Q` that every state passed through meets `Q`.  An
invariant that every step meeting the condition keeps is kept by every run whose steps all meet it
(`run_invariant`); where a step keeps it only by meeting the condition, the runs that keep it are those
(`always_iff_every_under`).  A machine whose steps simulate those of another one has its runs
(`run_simulates`).  `Sometime step P` says that some act meets the condition (`run_sometime`), and
`Lastly step P Q` that some act meets `P` and no act after it meets `Q`: what it brings about stands if the
acts that do not meet `Q` keep it (`run_lastly`), and what only such acts can undo was brought about so
(`lastly_of_run`).  `Throughout P` is about a list alone: every element is in the relation `P` to those
before it.
-/

namespace Libaergo.Lib

variable {σ α : Type*} (step : σ → α → Option σ)

/-- The acts one after the other. -/
def run : σ → List α → Option σ
  | s, [] => some s
  | s, a :: as => (step s a).bind fun s' => run s' as

/-- Every act of the list meets the condition in the state it is performed in. -/
def Every (P : σ → α → Prop) : σ → List α → Prop
  | _, [] => True
  | s, a :: as => P s a ∧ ∀ s', step s a = some s' → Every P s' as

/-- Every state that the acts of the list lead through meets the condition. -/
def Always (Q : σ → Prop) : σ → List α → Prop
  | s, [] => Q s
  | s, a :: as => Q s ∧ ∀ s', step s a = some s' → Always Q s' as

/-- Some act of the list meets the condition in the state it is performed in. -/
def Sometime (P : σ → α → Prop) : σ → List α → Prop
  | _, [] => False
  | s, a :: as => P s a ∨ ∃ s', step s a = some s' ∧ Sometime P s' as

/-- Some act of the list meets the condition `P`, and none after it the condition `Q`. -/
def Lastly (P Q : σ → α → Prop) : σ → List α → Prop
  | _, [] => False
  | s, a :: as =>
    (P s a ∧ ∀ s', step s a = some s' → Every step (fun s a => ¬ Q s a) s' as) ∨
      ∃ s', step s a = some s' ∧ Lastly P Q s' as

instance Sometime.decidable (P : σ → α → Prop) [∀ s a, Decidable (P s a)] :
    ∀ s as, Decidable (Sometime step P s as)
  | _, [] => .isFalse id
  | s, a :: as =>
    match h : step s a with
    | none => decidable_of_iff (P s a) <| by simp [Sometime, h]
    | some s' =>
      have := Sometime.decidable P s' as
      decidable_of_iff (P s a ∨ Sometime step P s' as) <| by simp [Sometime, h]

instance Every.decidable (P : σ → α → Prop) [∀ s a, Decidable (P s a)] :
    ∀ s as, Decidable (Every step P s as)
  | _, [] => .isTrue trivial
  | s, a :: as =>
    match h : step s a with
    | none => decidable_of_iff (P s a) <| by simp [Every, h]
    | some s' =>
      have := Every.decidable P s' as
      decidable_of_iff (P s a ∧ Every step P s' as) <| by simp [Every, h]

instance Lastly.decidable (P Q : σ → α → Prop) [∀ s a, Decidable (P s a)] [∀ s a, Decidable (Q s a)] :
    ∀ s as, Decidable (Lastly step P Q s as)
  | _, [] => .isFalse id
  | s, a :: as =>
    match h : step s a with
    | none => decidable_of_iff (P s a) <| by simp [Lastly, h]
    | some s' =>
      have := Lastly.decidable P Q s' as
      decidable_of_iff (P s a ∧ Every step (fun s a => ¬ Q s a) s' as ∨ Lastly step P Q s' as) <| by
        simp [Lastly, h]

variable {step}

@[simp] lemma run_nil (s : σ) : run step s [] = some s := rfl

lemma run_cons_eq_some {s t : σ} {a : α} {as : List α} :
    run step s (a :: as) = some t ↔ ∃ s', step s a = some s' ∧ run step s' as = some t :=
  Option.bind_eq_some_iff

lemma run_append_eq_some {s t : σ} {as bs : List α} :
    run step s (as ++ bs) = some t ↔ ∃ u, run step s as = some u ∧ run step u bs = some t := by
  induction as generalizing s with
  | nil => simp
  | cons a as ih =>
    rw [List.cons_append, run_cons_eq_some]
    constructor
    · rintro ⟨s', hs, h⟩
      obtain ⟨u, hu, ht⟩ := ih.mp h
      exact ⟨u, run_cons_eq_some.mpr ⟨s', hs, hu⟩, ht⟩
    · rintro ⟨u, hu, ht⟩
      obtain ⟨s', hs, hu⟩ := run_cons_eq_some.mp hu
      exact ⟨s', hs, ih.mpr ⟨u, hu, ht⟩⟩

lemma run_concat_eq_some {s t : σ} {as : List α} {a : α} :
    run step s (as ++ [a]) = some t ↔ ∃ u, run step s as = some u ∧ step u a = some t := by
  rw [run_append_eq_some]
  refine exists_congr fun u => and_congr_right fun _ => ?_
  rw [run_cons_eq_some]
  simp

lemma Every.mono {P Q : σ → α → Prop} (hPQ : ∀ s a, P s a → Q s a) {s : σ} {as : List α}
    (h : Every step P s as) : Every step Q s as := by
  induction as generalizing s with
  | nil => trivial
  | cons a as ih => exact ⟨hPQ _ _ h.1, fun s' hs => ih (h.2 s' hs)⟩

lemma every_of_forall {P : α → Prop} {s : σ} {as : List α} (h : ∀ a ∈ as, P a) :
    Every step (fun _ => P) s as := by
  induction as generalizing s with
  | nil => trivial
  | cons a as ih =>
    exact ⟨h a List.mem_cons_self, fun _ _ => ih fun b hb => h b (List.mem_cons_of_mem a hb)⟩

lemma every_append {P : σ → α → Prop} {s : σ} {as bs : List α} :
    Every step P s (as ++ bs) ↔
      Every step P s as ∧ ∀ t, run step s as = some t → Every step P t bs := by
  induction as generalizing s with
  | nil => simp [Every]
  | cons a as ih =>
    constructor
    · rintro ⟨ha, hrest⟩
      refine ⟨⟨ha, fun s' hs => (ih.mp (hrest s' hs)).1⟩, fun t ht => ?_⟩
      obtain ⟨s', hs, ht⟩ := run_cons_eq_some.mp ht
      exact (ih.mp (hrest s' hs)).2 t ht
    · rintro ⟨⟨ha, hrest⟩, hlast⟩
      refine ⟨ha, fun s' hs => ih.mpr ⟨hrest s' hs, fun t ht => ?_⟩⟩
      exact hlast t (run_cons_eq_some.mpr ⟨s', hs, ht⟩)

/-- **An invariant of the steps is an invariant of the runs.** -/
theorem run_invariant {Inv : σ → Prop} {P : σ → α → Prop}
    (hstep : ∀ s a s', Inv s → P s a → step s a = some s' → Inv s') {s t : σ} {as : List α}
    (h0 : Inv s) (hP : Every step P s as) (h : run step s as = some t) : Inv t := by
  induction as generalizing s with
  | nil =>
    obtain rfl := Option.some.inj h
    exact h0
  | cons a as ih =>
    obtain ⟨s', hs, h⟩ := run_cons_eq_some.mp h
    exact ih (hstep s a s' h0 hP.1 hs) (hP.2 s' hs) h

/-- **What each act adds to a list under an invariant, a run adds act by act.** -/
theorem run_collects {β : Type*} (Inv : σ → Prop) (f : σ → List β) {g : α → List β}
    (hstep : ∀ s a s', Inv s → step s a = some s' → Inv s' ∧ f s' = f s ++ g a) {s t : σ} {as : List α} (h0 : Inv s)
    (h : run step s as = some t) : Inv t ∧ f t = f s ++ as.flatMap g := by
  induction as generalizing s with
  | nil =>
    obtain rfl := Option.some.inj h
    exact ⟨h0, by simp⟩
  | cons a as ih =>
    obtain ⟨s', hs, h⟩ := run_cons_eq_some.mp h
    obtain ⟨h1, hadd⟩ := hstep s a s' h0 hs
    obtain ⟨ht, hrest⟩ := ih h1 h
    exact ⟨ht, by rw [hrest, hadd, List.flatMap_cons, List.append_assoc]⟩

/-- **A step that simulates another one runs with it**: where the abstract machine goes, meeting the condition,
the other one goes too, and they stay in the relation. -/
theorem run_simulates {τ : Type*} {step' : τ → α → Option τ} {R : σ → τ → Prop} {P : τ → α → Prop}
    (hstep : ∀ s t a t', R s t → P t a → step' t a = some t' → ∃ s', step s a = some s' ∧ R s' t') {s : σ}
    {t t' : τ} {as : List α} (h0 : R s t) (hP : Every step' P t as) (h : run step' t as = some t') :
    ∃ s', run step s as = some s' ∧ R s' t' := by
  induction as generalizing s t with
  | nil =>
    obtain rfl := Option.some.inj h
    exact ⟨s, rfl, h0⟩
  | cons a as ih =>
    obtain ⟨t₁, ht₁, h⟩ := run_cons_eq_some.mp h
    obtain ⟨s₁, hs₁, hR⟩ := hstep s t a t₁ h0 hP.1 ht₁
    obtain ⟨s', hs', hR⟩ := ih hR (hP.2 t₁ ht₁) h
    exact ⟨s', run_cons_eq_some.mpr ⟨s₁, hs₁, hs'⟩, hR⟩

/-- A measure that a step raises by one at most is below a bound that leaves room for the acts. -/
lemma every_lt_of_length {f : σ → ℕ} (hstep : ∀ s a s', step s a = some s' → f s' ≤ f s + 1) {s : σ} {n : ℕ}
    {as : List α} (h : f s + as.length ≤ n) : Every step (fun s _ => f s < n) s as := by
  induction as generalizing s with
  | nil => trivial
  | cons a as ih =>
    rw [List.length_cons] at h
    refine ⟨by omega, fun s' hs => ih ?_⟩
    have := hstep s a s' hs
    omega

/-- What follows from the invariant holds all along the run. -/
theorem always_of_invariant {Inv Q : σ → Prop} {P : σ → α → Prop}
    (hstep : ∀ s a s', Inv s → P s a → step s a = some s' → Inv s') (hQ : ∀ s, Inv s → Q s) {s : σ} {as : List α}
    (h0 : Inv s) (hP : Every step P s as) : Always step Q s as := by
  induction as generalizing s with
  | nil => exact hQ s h0
  | cons a as ih => exact ⟨hQ s h0, fun s' hs => ih (hstep s a s' h0 hP.1 hs) (hP.2 s' hs)⟩

/-- **An invariant that a step keeps exactly if it meets the condition** holds all along a run exactly if
every step of it does.  The steps may rest on another invariant `J`, which steps that meet `K` keep. -/
theorem always_iff_every_under {Inv J : σ → Prop} {P K : σ → α → Prop}
    (hJ : ∀ s a s', J s → K s a → step s a = some s' → J s')
    (hstep : ∀ s a s', J s → K s a → Inv s → step s a = some s' → (Inv s' ↔ P s a)) {s t : σ} {as : List α}
    (h0J : J s) (h0 : Inv s) (hK : Every step K s as) (h : run step s as = some t) :
    Always step Inv s as ↔ Every step P s as := by
  induction as generalizing s with
  | nil => exact iff_of_true h0 trivial
  | cons a as ih =>
    obtain ⟨s', hs, h⟩ := run_cons_eq_some.mp h
    have hall : ∀ Q : σ → Prop, (∀ u, step s a = some u → Q u) ↔ Q s' := by
      intro Q
      simp [hs]
    have hone := hstep s a s' h0J hK.1 h0 hs
    have hrest : Inv s' → (Always step Inv s' as ↔ Every step P s' as) := fun hs' =>
      ih (hJ s a s' h0J hK.1 hs) hs' (hK.2 s' hs) h
    simp only [Always, Every, hall]
    constructor
    · rintro ⟨-, halways⟩
      have hs' : Inv s' := by
        cases as with
        | nil => exact halways
        | cons => exact halways.1
      exact ⟨hone.mp hs', (hrest hs').mp halways⟩
    · rintro ⟨ha, hevery⟩
      have hs' : Inv s' := hone.mpr ha
      exact ⟨h0, (hrest hs').mpr hevery⟩

/-- The same without another invariant. -/
theorem always_iff_every {Inv : σ → Prop} {P : σ → α → Prop}
    (hstep : ∀ s a s', Inv s → step s a = some s' → (Inv s' ↔ P s a)) {s t : σ} {as : List α}
    (h0 : Inv s) (h : run step s as = some t) : Always step Inv s as ↔ Every step P s as :=
  always_iff_every_under (J := fun _ => True) (fun _ _ _ _ _ _ => trivial)
    (fun s a s' _ _ => hstep s a s') trivial h0 (every_of_forall (P := fun _ => True) fun _ _ => trivial) h

lemma Every.and {P Q : σ → α → Prop} {s : σ} {as : List α} (hP : Every step P s as)
    (hQ : Every step Q s as) : Every step (fun s a => P s a ∧ Q s a) s as := by
  induction as generalizing s with
  | nil => trivial
  | cons a as ih => exact ⟨⟨hP.1, hQ.1⟩, fun s' hs => ih (hP.2 s' hs) (hQ.2 s' hs)⟩

lemma every_not_of_not_sometime {P : σ → α → Prop} {s : σ} {as : List α}
    (h : ¬ Sometime step P s as) : Every step (fun s a => ¬ P s a) s as := by
  induction as generalizing s with
  | nil => trivial
  | cons a as ih =>
    simp only [Sometime, not_or, not_exists, not_and] at h
    exact ⟨h.1, fun s' hs => ih (h.2 s' hs)⟩

/-- **What an act brings about under an invariant, and later steps keep, holds at the end** of a run in
which that act occurs. -/
theorem run_sometime (Inv Post : σ → Prop) {P Q : σ → α → Prop}
    (hinv : ∀ s a s', Inv s → Q s a → step s a = some s' → Inv s')
    (hpost : ∀ s a s', Inv s → Q s a → P s a → step s a = some s' → Post s')
    (hkeep : ∀ s a s', Inv s → Post s → Q s a → step s a = some s' → Post s') {s t : σ} {as : List α}
    (h0 : Inv s) (hQ : Every step Q s as) (hP : Sometime step P s as) (h : run step s as = some t) :
    Inv t ∧ Post t := by
  induction as generalizing s with
  | nil => exact hP.elim
  | cons a as ih =>
    obtain ⟨s', hs, h⟩ := run_cons_eq_some.mp h
    have h0' := hinv s a s' h0 hQ.1 hs
    rcases hP with hP | ⟨s'', hs', hP⟩
    · have hboth : ∀ s a s', Inv s ∧ Post s → Q s a → step s a = some s' → Inv s' ∧ Post s' :=
        fun s a s' hs ha h => ⟨hinv s a s' hs.1 ha h, hkeep s a s' hs.1 hs.2 ha h⟩
      exact run_invariant hboth ⟨h0', hpost s a s' h0 hQ.1 hP hs⟩ (hQ.2 s' hs) h
    · obtain rfl := Option.some.inj (hs.symm.trans hs')
      exact ih h0' (hQ.2 s' hs) hP h

/-- **What an act brings about under an invariant, and later acts that do not meet `Q` keep, holds at the
end** of a run whose last act that meets `Q` is such an act. -/
theorem run_lastly {Inv : σ → Prop} (Post : σ → Prop) {P Q K : σ → α → Prop}
    (hinv : ∀ s a s', Inv s → K s a → step s a = some s' → Inv s')
    (hpost : ∀ s a s', Inv s → K s a → P s a → step s a = some s' → Post s')
    (hkeep : ∀ s a s', Inv s → Post s → K s a → ¬ Q s a → step s a = some s' → Post s') {s t : σ}
    {as : List α} (h0 : Inv s) (hK : Every step K s as) (hP : Lastly step P Q s as)
    (h : run step s as = some t) : Post t := by
  induction as generalizing s with
  | nil => exact hP.elim
  | cons a as ih =>
    obtain ⟨s', hs, h⟩ := run_cons_eq_some.mp h
    have h0' := hinv s a s' h0 hK.1 hs
    rcases hP with ⟨hP, hQ⟩ | ⟨s'', hs', hP⟩
    · have hboth : ∀ s a s', Inv s ∧ Post s → K s a ∧ ¬ Q s a → step s a = some s' → Inv s' ∧ Post s' :=
        fun s a s' hs ha h => ⟨hinv s a s' hs.1 ha.1 h, hkeep s a s' hs.1 hs.2 ha.1 ha.2 h⟩
      exact (run_invariant hboth ⟨h0', hpost s a s' h0 hK.1 hP hs⟩ ((hK.2 s' hs).and (hQ s' hs)) h).2
    · obtain rfl := Option.some.inj (hs.symm.trans hs')
      exact ih h0' (hK.2 s' hs) hP h

/-- **What holds at first, is kept by the acts that do not meet `Q`, and comes back with those that meet it
without `P`**, holds at the end, unless the last act that meets `Q` meets `P` as well. -/
theorem lastly_of_run (Inv Post : σ → Prop) {P Q K : σ → α → Prop}
    (hinv : ∀ s a s', Inv s → K s a → step s a = some s' → Inv s')
    (hpost : ∀ s a s', Inv s → K s a → Q s a → ¬ P s a → step s a = some s' → Post s')
    (hkeep : ∀ s a s', Inv s → Post s → K s a → ¬ Q s a → step s a = some s' → Post s') {s t : σ}
    {as : List α} (h0 : Inv s) (h0' : Post s) (hK : Every step K s as) (h : run step s as = some t) :
    Lastly step P Q s as ∨ Post t := by
  have hboth : ∀ s a s', Inv s ∧ Post s → K s a ∧ ¬ Q s a → step s a = some s' → Inv s' ∧ Post s' :=
    fun s a s' hs ha h => ⟨hinv s a s' hs.1 ha.1 h, hkeep s a s' hs.1 hs.2 ha.1 ha.2 h⟩
  have hmain : ∀ {s : σ} {as : List α}, Inv s → Every step K s as → run step s as = some t →
      Lastly step P Q s as ∨ Post t ∨ Every step (fun s a => ¬ Q s a) s as := by
    intro s as h0 hK h
    induction as generalizing s with
    | nil => exact .inr (.inr trivial)
    | cons a as ih =>
      obtain ⟨s', hs, h⟩ := run_cons_eq_some.mp h
      have h1 := hinv s a s' h0 hK.1 hs
      rcases ih h1 (hK.2 s' hs) h with hl | ht | hnot
      · exact .inl (.inr ⟨s', hs, hl⟩)
      · exact .inr (.inl ht)
      have hall : ∀ u, step s a = some u → Every step (fun s a => ¬ Q s a) u as := by
        intro u hu
        obtain rfl := Option.some.inj (hs.symm.trans hu)
        exact hnot
      by_cases hq : Q s a
      · by_cases hp : P s a
        · exact .inl (.inl ⟨hp, hall⟩)
        · have hs' := hpost s a s' h0 hK.1 hq hp hs
          exact .inr (.inl (run_invariant hboth ⟨h1, hs'⟩ ((hK.2 s' hs).and hnot) h).2)
      · exact .inr (.inr ⟨hq, hall⟩)
  rcases hmain h0 hK h with hl | ht | hnot
  · exact .inl hl
  · exact .inr ht
  · exact .inr (run_invariant hboth ⟨h0, h0'⟩ (hK.and hnot) h).2

/-! ### Lists element by element -/

/-- Every element of a list is in this relation to those before it. -/
def Throughout (P : List α → α → Prop) (as : List α) : Prop :=
  ∀ before a after, as = before ++ a :: after → P before a

section Throughout

variable {P Q : List α → α → Prop} {as : List α} {a : α}

lemma throughout_nil : Throughout P [] := fun _ _ _ h => absurd h.symm (by simp)

lemma throughout_append_singleton : Throughout P (as ++ [a]) ↔ Throughout P as ∧ P as a := by
  constructor
  · refine fun h => ⟨fun before b after heq => ?_, h as a [] rfl⟩
    exact h before b (after ++ [a]) (by rw [heq, List.append_assoc, List.cons_append])
  · rintro ⟨hbefore, ha⟩ before b after heq
    rcases List.eq_nil_or_concat' after with rfl | ⟨after, c, rfl⟩
    · obtain ⟨rfl, hb⟩ := List.append_inj' heq rfl
      obtain rfl := (List.cons.inj hb).1
      exact ha
    · rw [← List.cons_append, ← List.append_assoc] at heq
      exact hbefore before b after (List.append_inj' heq rfl).1

/-- Relations that agree behind the lists that meet the first are met by the same lists. -/
theorem throughout_congr
    (h : ∀ before a after, as = before ++ a :: after → Throughout P before → (P before a ↔ Q before a)) :
    Throughout P as ↔ Throughout Q as := by
  induction as using List.reverseRecOn with
  | nil => exact iff_of_true throughout_nil throughout_nil
  | append_singleton as a ih =>
    have hbefore : Throughout P as ↔ Throughout Q as := ih fun before b after heq =>
      h before b (after ++ [a]) (by rw [heq, List.append_assoc, List.cons_append])
    rw [throughout_append_singleton, throughout_append_singleton, ← hbefore]
    exact and_congr_right fun hP => h as a [] rfl hP

end Throughout

/-! ### Lists that grow -/

section Growing

variable {f : ℕ → List α}

lemma prefix_of_le (h : ∀ n, f n <+: f (n + 1)) {n m : ℕ} (hnm : n ≤ m) : f n <+: f m := by
  induction m, hnm using Nat.le_induction with
  | base => exact List.prefix_rfl
  | succ m _ ih => exact ih.trans (h m)

lemma le_length_of_growing (h : ∀ n, ∃ p, p ≠ [] ∧ f (n + 1) = f n ++ p) (n : ℕ) : n ≤ (f n).length := by
  induction n with
  | zero => exact Nat.zero_le _
  | succ n ih =>
    obtain ⟨p, hne, hp⟩ := h n
    rw [hp, List.length_append]
    exact Nat.add_le_add ih (List.length_pos_of_ne_nil hne)

/-- Lists that grow on and on are the beginnings of one sequence. -/
lemma exists_sequence (h : ∀ n, ∃ p, p ≠ [] ∧ f (n + 1) = f n ++ p) :
    ∃ g : ℕ → α, ∀ n, (List.range (f n).length).map g = f n := by
  have hprefix : ∀ n, f n <+: f (n + 1) := by
    intro n
    obtain ⟨p, -, hp⟩ := h n
    exact ⟨p, hp.symm⟩
  have hlen := le_length_of_growing h
  refine ⟨fun i => (f (i + 1)).get ⟨i, hlen (i + 1)⟩, fun n => List.ext_getElem (by simp) fun i hi hi' => ?_⟩
  rw [List.getElem_map, List.getElem_range, List.get_eq_getElem]
  rcases le_total n (i + 1) with hle | hle
  · exact ((prefix_of_le hprefix hle).getElem hi').symm
  · exact (prefix_of_le hprefix hle).getElem (hlen (i + 1))

/-- **What happens finitely often along every sequence happens finitely often to a list that grows.** -/
theorem wellFounded_growing {P : List α → Prop}
    (h : ∀ g : ℕ → α, ∃ n, ∀ m ≥ n, ¬ P ((List.range m).map g)) :
    WellFounded fun as bs : List α => (∃ p, p ≠ [] ∧ as = bs ++ p) ∧ P as := by
  refine wellFounded_iff_isEmpty_descending_chain.mpr ⟨fun ⟨f, hf⟩ => ?_⟩
  obtain ⟨g, hg⟩ := exists_sequence fun n => (hf n).1
  obtain ⟨n, hn⟩ := h g
  have hlen := le_length_of_growing fun n => (hf n).1
  refine hn (f (n + 1)).length ((Nat.le_succ n).trans (hlen (n + 1))) ?_
  rw [hg]
  exact (hf n).2

end Growing

end Libaergo.Lib
