/-
Systems that move by labelled steps.

A `StepSystem` says where the runs of a system start and what a label does to a
state; a label that is not enabled there gives `none`.  All the choices of the
surroundings (which request arrives, how a job ends, who is scheduled) are in the
label, so the system itself is a function and a run on a list of labels can be
computed.

`ReachedBy ok` are the states at the end of runs whose steps all meet `ok`; with no
condition on the steps they are the reachable states.  The rules below are the ones
every proof about runs uses: an invariant that the first states have and every step
keeps holds in every state reached (`ReachedBy.invariant`), and a run that was computed
ends in a reached state (`ReachedBy.exec`).
-/
import Mathlib.Data.List.Basic
import Mathlib.Tactic.Common

/-- A system with labelled steps. -/
structure StepSystem (σ α : Type*) where
  /-- The states in which a run may start. -/
  init : σ → Prop
  /-- What a label does to a state, if it is enabled there. -/
  next : σ → α → Option σ

namespace StepSystem

variable {σ α : Type*} (S : StepSystem σ α)

/-- The states at the end of a run from an initial state whose steps all meet `ok`. -/
inductive ReachedBy (ok : σ → α → Prop) : σ → Prop
  | init {s : σ} : S.init s → ReachedBy ok s
  | step {s s' : σ} {a : α} : ReachedBy ok s → ok s a → S.next s a = some s' → ReachedBy ok s'

/-- The states at the end of any run from an initial state. -/
def Reachable (s : σ) : Prop := S.ReachedBy (fun _ _ => True) s

/-- The states at the end of a run from `s`. -/
inductive Steps : σ → σ → Prop
  | refl (s : σ) : Steps s s
  | tail {s t t' : σ} {a : α} : Steps s t → S.next t a = some t' → Steps s t'

/-- The state after the steps of a list of labels, if they are enabled one after the other. -/
def exec : σ → List α → Option σ
  | s, [] => some s
  | s, a :: as => (S.next s a).bind fun s' => exec s' as

/-- The same, as long as every step meets `ok`. -/
def execBy (ok : σ → α → Prop) [∀ s a, Decidable (ok s a)] : σ → List α → Option σ
  | s, [] => some s
  | s, a :: as => if ok s a then (S.next s a).bind fun s' => execBy ok s' as else none

/-- Every step of a list of labels meets `ok`. -/
def Meets (ok : σ → α → Prop) : σ → List α → Prop
  | _, [] => True
  | s, a :: as => ok s a ∧ ∀ s', S.next s a = some s' → Meets ok s' as

variable {S}

@[simp] lemma exec_nil (s : σ) : S.exec s [] = some s := rfl

@[simp] lemma exec_cons (s : σ) (a : α) (as : List α) :
    S.exec s (a :: as) = (S.next s a).bind fun s' => S.exec s' as := rfl

lemma meets_cons {ok : σ → α → Prop} {s : σ} {a : α} {as : List α} :
    S.Meets ok s (a :: as) ↔ ok s a ∧ ∀ s', S.next s a = some s' → S.Meets ok s' as := Iff.rfl

/-- Labels that meet the condition in every state. -/
lemma meets_of_forall {ok : σ → α → Prop} {as : List α} (h : ∀ s, ∀ a ∈ as, ok s a) (s : σ) :
    S.Meets ok s as := by
  induction as generalizing s with
  | nil => trivial
  | cons a as ih =>
      exact ⟨h s a List.mem_cons_self,
        fun s' _ => ih (fun s b hb => h s b (List.mem_cons_of_mem a hb)) s'⟩

variable (S) in
/-- What was computed of the end of a run holds of a state. -/
lemma exists_of_exec_any (s : σ) (as : List α) (p : σ → Bool)
    (h : (S.exec s as).any p = true) : ∃ t, S.exec s as = some t ∧ p t = true := by
  cases hexec : S.exec s as with
  | none => simp [hexec] at h
  | some t => exact ⟨t, rfl, by simpa [hexec] using h⟩

lemma exec_append (s : σ) (as bs : List α) :
    S.exec s (as ++ bs) = (S.exec s as).bind fun s' => S.exec s' bs := by
  induction as generalizing s with
  | nil => rfl
  | cons a as ih =>
      cases h : S.next s a with
      | none => simp [h]
      | some s' => simp [h, ih]

/-- **Invariants.**  What the first states have and every step keeps, every state reached
has. -/
theorem ReachedBy.invariant {ok : σ → α → Prop} {Inv : σ → Prop}
    (hinit : ∀ s, S.init s → Inv s)
    (hstep : ∀ s a s', Inv s → ok s a → S.next s a = some s' → Inv s')
    {s : σ} (h : S.ReachedBy ok s) : Inv s := by
  induction h with
  | init hs => exact hinit _ hs
  | step _ hok hnext ih => exact hstep _ _ _ ih hok hnext

lemma ReachedBy.mono {ok ok' : σ → α → Prop} (hle : ∀ s a, ok s a → ok' s a) {s : σ}
    (h : S.ReachedBy ok s) : S.ReachedBy ok' s := by
  induction h with
  | init hs => exact .init hs
  | step _ hok hnext ih => exact .step ih (hle _ _ hok) hnext

lemma ReachedBy.reachable {ok : σ → α → Prop} {s : σ} (h : S.ReachedBy ok s) :
    S.Reachable s :=
  h.mono fun _ _ _ => trivial

lemma ReachedBy.exec {ok : σ → α → Prop} {s t : σ} (h : S.ReachedBy ok s) {as : List α}
    (hmeets : S.Meets ok s as) (hexec : S.exec s as = some t) : S.ReachedBy ok t := by
  induction as generalizing s with
  | nil =>
      obtain rfl : s = t := by simpa using hexec
      exact h
  | cons a as ih =>
      obtain ⟨s', hnext, hrest⟩ := Option.bind_eq_some_iff.1 hexec
      exact ih (h.step hmeets.1 hnext) (hmeets.2 s' hnext) hrest

/-- A run whose steps were checked as it was computed ends in a state reached by such steps. -/
lemma ReachedBy.execBy {ok : σ → α → Prop} [∀ s a, Decidable (ok s a)] {s t : σ}
    (h : S.ReachedBy ok s) {as : List α} (hexec : S.execBy ok s as = some t) :
    S.ReachedBy ok t := by
  induction as generalizing s with
  | nil =>
      obtain rfl : s = t := by simpa [StepSystem.execBy] using hexec
      exact h
  | cons a as ih =>
      rw [StepSystem.execBy] at hexec
      split at hexec
      · rename_i hok
        obtain ⟨s', hnext, hrest⟩ := Option.bind_eq_some_iff.1 hexec
        exact ih (h.step hok hnext) hrest
      · cases hexec

/-- What was computed of the end of a checked run holds of a state reached by such steps. -/
lemma ReachedBy.exists_of_execBy_any {ok : σ → α → Prop} [∀ s a, Decidable (ok s a)] {s : σ}
    (h : S.ReachedBy ok s) (as : List α) (p : σ → Bool)
    (hany : (S.execBy ok s as).any p = true) : ∃ t, S.ReachedBy ok t ∧ p t = true := by
  cases hexec : S.execBy ok s as with
  | none => simp [hexec] at hany
  | some t => exact ⟨t, h.execBy hexec, by simpa [hexec] using hany⟩

/-- A run that was computed ends in a reachable state. -/
lemma Reachable.exec {s t : σ} (h : S.Reachable s) {as : List α}
    (hexec : S.exec s as = some t) : S.Reachable t :=
  ReachedBy.exec h (meets_of_forall (fun _ _ _ => trivial) s) hexec

lemma Steps.trans {s t u : σ} (h : S.Steps s t) (h' : S.Steps t u) : S.Steps s u := by
  induction h' with
  | refl => exact h
  | tail _ hnext ih => exact ih.tail hnext

lemma Steps.head {s s' t : σ} {a : α} (hnext : S.next s a = some s') (h : S.Steps s' t) :
    S.Steps s t :=
  ((Steps.refl s).tail hnext).trans h

lemma Steps.of_exec {s t : σ} (as : List α) (h : S.exec s as = some t) : S.Steps s t := by
  induction as generalizing s with
  | nil =>
      obtain rfl : s = t := by simpa using h
      exact .refl _
  | cons a as ih =>
      obtain ⟨s', hnext, hrest⟩ := Option.bind_eq_some_iff.1 h
      exact .head hnext (ih hrest)

lemma Reachable.steps {s t : σ} (h : S.Reachable s) (h' : S.Steps s t) : S.Reachable t := by
  induction h' with
  | refl => exact h
  | tail _ hnext ih => exact ReachedBy.step ih trivial hnext

/-- What every step keeps holds after every run from a state that has it. -/
theorem Steps.invariant {Inv : σ → Prop}
    (hstep : ∀ s a s', Inv s → S.next s a = some s' → Inv s') {s t : σ}
    (h : S.Steps s t) (hs : Inv s) : Inv t := by
  induction h with
  | refl => exact hs
  | tail _ hnext ih => exact hstep _ _ _ ih hnext

end StepSystem
