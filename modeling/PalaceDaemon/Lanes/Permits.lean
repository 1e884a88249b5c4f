/-
The permits of the daemon: who holds them, and who waits for them.

`Traffic` is what is left of a step when the workers and the flag are forgotten: coroutines
arrive, take permits, change what they do, give their permits back, or stop waiting.  From it
comes `Regular`, the invariant under every result about waiting.  The queues are orderly; the
permits of each semaphore add up to its size; every coroutine holds and wants what its operation
says (`Fits`); and no two coroutines have the same name.
-/
import PalaceDaemon.Lanes.Moves

namespace PalaceDaemon.Lanes

open Semaphore Tasks

/-- A coroutine as it takes permits: it goes on with its plan, or, when no save is in flight, with
the mine permit. -/
inductive Resumes (s : State) (t : Coroutine) : Coroutine → Prop
  | plan : t.todo ≠ [] → Resumes s t t
  | gate {rebuild : Bool} : t.op = .exclusive rebuild → t.todo = [] → ¬ 0 < s.inflight .save →
      Resumes s t { t with op := .holding rebuild, todo := [.mine] }

/-- The coroutine goes on with `op`, and with the permits it has. -/
inductive Becomes (t : Coroutine) : Op → Prop
  | begins {op : Op} : Begins t op → Becomes t op
  | submits {l : Lane} {r : Bool} : t.op = .call l r → t.todo = [] →
      Becomes t (.awaiting false r)
  | looks : t.op = .silentSave → t.todo = [] → Becomes t .enqueuing

/-- What a step does to the coroutines. -/
inductive Traffic (cfg : Config) (s s' : State) : Prop
  | still : s'.sems = s.sems → s'.ready = s.ready → s'.next = s.next → Traffic cfg s s'
  | arrives {a : Arrival} {op : Op} {plan : List Sem} : a.coroutine cfg s = some (op, plan) →
      s'.sems = s.sems → s'.ready = s.ready ++ [⟨s.next, op, [], plan⟩] →
      s'.next = s.next + 1 → Traffic cfg s s'
  | resumes {i : ℕ} {t t' : Coroutine} : s.ready[i]? = some t → Resumes s t t' →
      s'.sems = (acquire s.sems t').1 →
      s'.ready = replaceAt s.ready i (acquire s.sems t').2.toList → s'.next = s.next →
      Traffic cfg s s'
  | becomes {i : ℕ} {t : Coroutine} {op : Op} : s.ready[i]? = some t → Becomes t op →
      s'.sems = s.sems → s'.ready = replaceAt s.ready i [{ t with op := op }] →
      s'.next = s.next → Traffic cfg s s'
  | departs {i : ℕ} {t : Coroutine} {after : List Coroutine} : s.ready[i]? = some t →
      (after = [] ∨ (after = [⟨t.name, .clearing, [], []⟩] ∧ Ends s t true)) →
      s'.sems = (releaseAll s.sems t.held).1 →
      s'.ready = replaceAt s.ready i after ++ (releaseAll s.sems t.held).2 →
      s'.next = s.next → Traffic cfg s s'
  | abandons {x : Sem} {k : ℕ} {t : Coroutine} {l : Lane} {r : Bool} :
      (s.sems.queue x)[k]? = some t → t.op = .call l r → s'.sems = s.sems.drop x k →
      s'.ready = s.ready → s'.next = s.next → Traffic cfg s s'

lemma traffic_of_moves {cfg : Config} {s s' : State} (h : Moves cfg s s') :
    Traffic cfg s s' := by
  cases h with
  | answered => exact .still rfl rfl rfl
  | arrives harrives => exact .arrives harrives rfl rfl rfl
  | resumes ht htodo => exact .resumes ht (.plan htodo) rfl rfl rfl
  | passes ht htodo hop hzero => exact .resumes ht (.gate hop htodo hzero) rfl rfl rfl
  | begins ht hbegins => exact .becomes ht (.begins hbegins) rfl rfl rfl
  | submits ht htodo hop _ => exact .becomes ht (.submits hop htodo) rfl rfl rfl
  | @refused i t l r ht hop _ =>
      rw [release_eq]
      exact .departs ht (.inl rfl) rfl rfl rfl
  | looks ht htodo hop => exact .becomes ht (.looks hop htodo) rfl rfl rfl
  | @ends i t repair ht hends =>
      cases repair with
      | false => exact .departs ht (.inl rfl) rfl rfl rfl
      | true => exact .departs ht (.inr ⟨rfl, hends⟩) rfl rfl rfl
  | enqueued ht _ => exact .departs ht (.inl rfl) rfl rfl rfl
  | cleared ht _ => exact .departs ht (.inl rfl) rfl rfl rfl
  | leaves ht _ => exact .departs ht (.inl rfl) rfl rfl rfl
  | abandons ht hop => exact .abandons ht hop rfl rfl rfl
  | advances hw _ => exact .still rfl rfl rfl
  | releases hw hended hlane =>
      rw [release_eq]
      exact .still rfl rfl rfl

/-- The coroutine is ready or waits. -/
def State.Has (s : State) (t : Coroutine) : Prop := t ∈ s.ready ∨ ∃ x, t ∈ s.sems.queue x

/-- Where the operation of a coroutine comes from. -/
lemma op_origin {cfg : Config} {s s' : State} {u : Coroutine} (h : Traffic cfg s s')
    (hu : s'.Has u) :
    (∃ t, s.Has t ∧ t.op = u.op) ∨ (∃ a plan, Arrival.coroutine cfg s a = some (u.op, plan)) ∨
      (∃ t ∈ s.ready, Becomes t u.op) ∨ (∃ t ∈ s.ready, ∃ t', Resumes s t t' ∧ t'.op = u.op) ∨
      u.op = .clearing := by
  cases h with
  | still hsems hready _ =>
      rw [State.Has, hsems, hready] at hu
      exact .inl ⟨u, hu, rfl⟩
  | @arrives a op plan harrives hsems hready _ =>
      rw [State.Has, hsems, hready] at hu
      rcases hu with hu | hu
      · rcases List.mem_append.1 hu with hu | hu
        · exact .inl ⟨u, .inl hu, rfl⟩
        · obtain rfl := List.mem_singleton.1 hu
          exact .inr (.inl ⟨a, plan, harrives⟩)
      · exact .inl ⟨u, .inr hu, rfl⟩
  | @resumes i t t' ht hresumes hsems hready _ =>
      rw [State.Has, hsems, hready] at hu
      have hmem := List.mem_of_getElem? ht
      rcases hu with hu | ⟨x, hu⟩
      · rcases mem_replaceAt.1 hu with hu | hu
        · obtain ⟨_, hop, _⟩ := acquire_some (Option.mem_toList.1 hu)
          exact .inr (.inr (.inr (.inl ⟨t, hmem, t', hresumes, hop.symm⟩)))
        · exact .inl ⟨u, .inl (mem_of_mem_others ht hu), rfl⟩
      · rcases mem_queue_of_acquire hu with hu | ⟨_, hop, _⟩
        · exact .inl ⟨u, .inr ⟨x, hu⟩, rfl⟩
        · exact .inr (.inr (.inr (.inl ⟨t, hmem, t', hresumes, hop.symm⟩)))
  | @becomes i t op ht hop hsems hready _ =>
      rw [State.Has, hsems, hready] at hu
      rcases hu with hu | hu
      · rcases mem_replaceAt.1 hu with hu | hu
        · obtain rfl := List.mem_singleton.1 hu
          exact .inr (.inr (.inl ⟨t, List.mem_of_getElem? ht, hop⟩))
        · exact .inl ⟨u, .inl (mem_of_mem_others ht hu), rfl⟩
      · exact .inl ⟨u, .inr hu, rfl⟩
  | @departs i t after ht hafter hsems hready _ =>
      rw [State.Has, hsems, hready] at hu
      rcases hu with hu | ⟨x, hu⟩
      · rcases List.mem_append.1 hu with hu | hu
        · rcases mem_replaceAt.1 hu with hu | hu
          · rcases hafter with rfl | ⟨rfl, _⟩
            · cases hu
            · obtain rfl := List.mem_singleton.1 hu
              exact .inr (.inr (.inr (.inr rfl)))
          · exact .inl ⟨u, .inl (mem_of_mem_others ht hu), rfl⟩
        · obtain ⟨x, v, hv, rfl⟩ := woken_of_releaseAll hu
          exact .inl ⟨v, .inr ⟨x, hv⟩, rfl⟩
      · exact .inl ⟨u, .inr ⟨x, mem_queue_of_releaseAll hu⟩, rfl⟩
  | abandons ht hop hsems hready _ =>
      rw [State.Has, hsems, hready] at hu
      rcases hu with hu | ⟨x, hu⟩
      · exact .inl ⟨u, .inl hu, rfl⟩
      · exact .inl ⟨u, .inr ⟨x, mem_queue_of_drop ht hu⟩, rfl⟩

/-! ### What an operation holds and wants -/

/-- The permits of a coroutine are those of its operation. -/
def Fits (cfg : Config) (t : Coroutine) : Prop :=
  match t.op with
  | .work _ => ∃ x, t.plan = [x]
  | .call _ _ => ∃ x, x ≠ .mine ∧ t.plan = [x]
  | .clearCaches | .silentSave => t.plan = [.write]
  | .awaiting _ _ | .enqueuing => ∃ x, t.held = [x] ∧ t.todo = []
  | .exclusive _ => t.plan = cfg.exclusivePlan
  | .holding _ => t.plan = cfg.exclusivePlan ++ [.mine] ∧ t.todo <:+ [.mine]
  | .clearing => t.held = [] ∧ t.todo = []

variable {cfg : Config} {s s' : State} {t t' : Coroutine}

/-- A coroutine that has permits left to take is told by its operation and its plan. -/
lemma Fits.of_plan (h : Fits cfg t) (htodo : t.todo ≠ []) (hop : t'.op = t.op)
    (hplan : t'.plan = t.plan) (hsuffix : t'.todo <:+ t.todo) : Fits cfg t' := by
  unfold Fits at h ⊢
  rw [hop, hplan]
  cases hcase : t.op with
  | work _ | call _ _ | clearCaches | silentSave | exclusive _ =>
      simpa only [hcase] using h
  | holding _ =>
      simp only [hcase] at h
      exact ⟨h.1, hsuffix.trans h.2⟩
  | awaiting _ _ | enqueuing =>
      simp only [hcase] at h
      obtain ⟨x, _, hnil⟩ := h
      exact absurd hnil htodo
  | clearing =>
      simp only [hcase] at h
      exact absurd h.2 htodo

lemma held_of_plan {x : Sem} (hplan : t.plan = [x]) (htodo : t.todo = []) : t.held = [x] := by
  simpa [Task.plan, htodo] using hplan

/-- What a request starts. -/
inductive Starts (cfg : Config) : Op → List Sem → Prop
  | work {repair : Bool} {x : Sem} : Starts cfg (.work repair) [x]
  | clearCaches : Starts cfg .clearCaches [.write]
  | call {l : Lane} {r : Bool} {x : Sem} : x ≠ .mine → Starts cfg (.call l r) [x]
  | silentSave : Starts cfg .silentSave [.write]
  | exclusive {rebuild : Bool} : Starts cfg (.exclusive rebuild) cfg.exclusivePlan

lemma starts_of_coroutine {a : Arrival} {op : Op} {plan : List Sem}
    (h : a.coroutine cfg s = some (op, plan)) : Starts cfg op plan := by
  cases a with
  | call r =>
      simp only [Arrival.coroutine] at h
      split at h
      · cases h
      · obtain ⟨rfl, rfl⟩ := Prod.mk.inj (Option.some.inj h)
        exact .call (semFor_ne_mine r)
  | read | write | mine =>
      obtain ⟨rfl, rfl⟩ := Prod.mk.inj (Option.some.inj h)
      exact .work
  | silentSave =>
      obtain ⟨rfl, rfl⟩ := Prod.mk.inj (Option.some.inj h)
      exact .silentSave
  | mineExclusive =>
      simp only [Arrival.coroutine] at h
      split at h
      · cases h
      · obtain ⟨rfl, rfl⟩ := Prod.mk.inj (Option.some.inj h)
        exact .exclusive
  | repair mode =>
      simp only [Arrival.coroutine] at h
      split at h
      · cases h
      · cases mode with
        | light =>
            obtain ⟨rfl, rfl⟩ := Prod.mk.inj (Option.some.inj h)
            exact .clearCaches
        | scan | prune =>
            obtain ⟨rfl, rfl⟩ := Prod.mk.inj (Option.some.inj h)
            exact .work
        | rebuild =>
            obtain ⟨rfl, rfl⟩ := Prod.mk.inj (Option.some.inj h)
            exact .exclusive

lemma fits_of_starts {op : Op} {plan : List Sem} (h : Starts cfg op plan) (name : ℕ) :
    Fits cfg ⟨name, op, [], plan⟩ := by
  cases h with
  | work => exact ⟨_, rfl⟩
  | call hx => exact ⟨_, hx, rfl⟩
  | clearCaches | silentSave | exclusive => rfl

lemma fits_of_becomes {op : Op} (h : Fits cfg t) (hop : Becomes t op) :
    Fits cfg { t with op := op } := by
  unfold Fits at h
  cases hop with
  | begins hbegins =>
      cases hbegins with
      | work hop htodo =>
          rw [hop] at h
          obtain ⟨x, hplan⟩ := h
          exact ⟨x, held_of_plan hplan htodo, htodo⟩
      | silentSave hop htodo =>
          rw [hop] at h
          exact ⟨.write, held_of_plan h htodo, htodo⟩
      | again hop =>
          rw [hop] at h
          exact h
  | submits hop htodo =>
      rw [hop] at h
      obtain ⟨x, _, hplan⟩ := h
      exact ⟨x, held_of_plan hplan htodo, htodo⟩
  | looks hop htodo =>
      rw [hop] at h
      exact ⟨.write, held_of_plan h htodo, htodo⟩

lemma fits_of_resumes (h : Fits cfg t) (hresumes : Resumes s t t') : Fits cfg t' := by
  cases hresumes with
  | plan _ => exact h
  | gate hop htodo _ =>
      unfold Fits at h
      rw [hop] at h
      have hheld : t.held.reverse = cfg.exclusivePlan := by
        simpa [Task.plan, htodo] using h
      refine ⟨?_, List.suffix_refl _⟩
      show t.held.reverse ++ [Sem.mine] = _
      rw [hheld]

lemma resumes_todo (h : Resumes s t t') : t'.todo ≠ [] := by
  cases h with
  | plan htodo => exact htodo
  | gate _ _ _ => simp

lemma resumes_name (h : Resumes s t t') : t'.name = t.name := by
  cases h <;> rfl

lemma resumes_held (h : Resumes s t t') : t'.held = t.held := by
  cases h <;> rfl

/-! ### Sums over all coroutines -/

/-- A sum over the coroutines: `w` of the ones that wait and `w'` of the ones that are ready. -/
def State.total (s : State) (w w' : Coroutine → ℕ) : ℕ := s.sems.weigh w + weigh w' s.ready

section total

variable (w w' : Coroutine → ℕ) {i : ℕ}

lemma total_congr (hsems : s'.sems = s.sems) (hready : s'.ready = s.ready) :
    s'.total w w' = s.total w w' := by
  rw [State.total, State.total, hsems, hready]

lemma total_enroll (s : State) (op : Op) (plan : List Sem) :
    (s.enroll op plan).total w w' = s.total w w' + w' ⟨s.next, op, [], plan⟩ := by
  show s.sems.weigh w + weigh w' (s.ready ++ _) = _
  rw [weigh_append, weigh_cons, weigh_nil, State.total]
  omega

lemma total_become (ht : s.ready[i]? = some t) (op : Op) :
    (s.become i t op).total w w' + w' t = s.total w w' + w' { t with op := op } := by
  have hold := weigh_eq w' ht
  show s.sems.weigh w + weigh w' (replaceAt s.ready i _) + _ = _
  rw [weigh_replaceAt, weigh_cons, weigh_nil, State.total]
  omega

lemma total_resume_le {b : ℕ} (ht : s.ready[i]? = some t)
    (hwaits : ∀ xs x rest, t'.todo = xs ++ x :: rest → w (t'.advance xs (x :: rest)) ≤ b)
    (hback : w' (t'.advance t'.todo []) ≤ b) :
    (s.resume i t').total w w' + w' t ≤ s.total w w' + b := by
  have hold := weigh_eq w' ht
  have hle := weigh_acquire_le s.sems t' hwaits hback
  show (acquire s.sems t').1.weigh w + weigh w' (replaceAt s.ready i _) + _ ≤ _
  rw [weigh_replaceAt, State.total]
  omega

lemma total_depart_le (after : List Coroutine) (horderly : Orderly s.sems)
    (ht : s.ready[i]? = some t)
    (hwoken : ∀ (u : Coroutine) (x : Sem), u.todo.head? = some x → w' (u.handed x) ≤ w u)
    (hsems : s'.sems = (releaseAll s.sems t.held).1)
    (hready : s'.ready = replaceAt s.ready i after ++ (releaseAll s.sems t.held).2) :
    s'.total w w' + w' t ≤ s.total w w' + weigh w' after := by
  have hold := weigh_eq w' ht
  have hle := weigh_releaseAll_le hwoken horderly t.held
  rw [State.total, hsems, hready, weigh_append, weigh_replaceAt, State.total]
  omega

lemma total_abandon {x : Sem} {k : ℕ} (ht : (s.sems.queue x)[k]? = some t) :
    (s.abandon x k).total w w' + w t = s.total w w' := by
  have hdrop := weigh_drop w ht
  show (s.sems.drop x k).weigh w + weigh w' s.ready + _ = _
  rw [State.total]
  omega

/-- A weight of the name and the operation of a coroutine that goes down when it moves. -/
structure Carried (s : State) (w : Coroutine → ℕ) : Prop where
  same : ∀ t u : Coroutine, u.name = t.name → u.op = t.op → w u = w t
  resumes : ∀ t u, Resumes s t u → w u ≤ w t
  becomes : ∀ t op, Becomes t op → w { t with op := op } ≤ w t
  ends : ∀ t, Ends s t true → w ⟨t.name, .clearing, [], []⟩ ≤ w t

/-- Such a weight grows with arrivals only. -/
lemma total_traffic {w : Coroutine → ℕ} (hw : Carried s w) (horderly : Orderly s.sems)
    (htraffic : Traffic cfg s s') :
    (s'.total w w ≤ s.total w w ∧ s'.next = s.next) ∨
      ∃ a op plan, Arrival.coroutine cfg s a = some (op, plan) ∧
        s'.total w w = s.total w w + w ⟨s.next, op, [], plan⟩ ∧ s'.next = s.next + 1 := by
  cases htraffic with
  | still hsems hready hnext => exact .inl ⟨(total_congr _ _ hsems hready).le, hnext⟩
  | @arrives a op plan harrives hsems hready hnext =>
      refine .inr ⟨a, op, plan, harrives, ?_, hnext⟩
      rw [total_congr (s := s.enroll op plan) _ _ hsems hready, total_enroll]
  | @resumes i t t' ht hresumes hsems hready hnext =>
      have htotal : (s.resume i t').total w w + w t ≤ s.total w w + w t' :=
        total_resume_le w w ht
          (fun xs x rest _ => (hw.same t' (t'.advance xs (x :: rest)) rfl rfl).le)
          (hw.same t' (t'.advance t'.todo []) rfl rfl).le
      have hle := hw.resumes t t' hresumes
      rw [total_congr (s := s.resume i t') _ _ hsems hready]
      exact .inl ⟨by omega, hnext⟩
  | @becomes i t op ht hop hsems hready hnext =>
      have htotal := total_become w w ht op
      have hle := hw.becomes t op hop
      rw [total_congr (s := s.become i t op) _ _ hsems hready]
      exact .inl ⟨by omega, hnext⟩
  | @departs i t after ht hafter hsems hready hnext =>
      have htotal := total_depart_le w w after horderly ht
        (fun u x _ => (hw.same u (u.handed x) rfl rfl).le) hsems hready
      have hle : weigh w after ≤ w t := by
        rcases hafter with rfl | ⟨rfl, hends⟩
        · exact Nat.zero_le _
        · simpa using hw.ends t hends
      exact .inl ⟨by omega, hnext⟩
  | @abandons x k t l r ht hop hsems hready hnext =>
      have htotal := total_abandon w w ht
      rw [total_congr (s := s.abandon x k) _ _ hsems hready]
      exact .inl ⟨by omega, hnext⟩

end total

lemma le_total (w : Coroutine → ℕ) (ht : s.Has t) : w t ≤ s.total w w := by
  unfold State.total
  rcases ht with ht | ⟨x, ht⟩
  · have hle := le_weigh w ht
    omega
  · have hle := le_weigh_queue w ht
    omega

/-! ### The invariant -/

/-- The coroutine has the name `n`. -/
def named (n : ℕ) (t : Coroutine) : ℕ := if t.name = n then 1 else 0

/-- Orderly queues, permits that add up, coroutines that fit, and names that are their own. -/
structure Regular (cfg : Config) (s : State) : Prop where
  orderly : Orderly s.sems
  conserved : ∀ x, permits s.sems s.ready x = cfg.permits x
  fits : ∀ t ∈ s.ready, Fits cfg t
  waits : ∀ x, ∀ t ∈ s.sems.queue x, Fits cfg t
  names : ∀ n, s.total (named n) (named n) ≤ if n < s.next then 1 else 0

lemma regular_fresh (cfg : Config) : Regular cfg (State.fresh cfg) where
  orderly := ⟨fun _ h => absurd rfl h, fun _ _ h => absurd h List.not_mem_nil⟩
  conserved x := by simp [State.fresh, permits, Sems.weigh]
  fits _ h := absurd h List.not_mem_nil
  waits _ _ h := absurd h List.not_mem_nil
  names n := by simp [State.fresh, State.total, Sems.weigh]

lemma orderly_traffic (h : Orderly s.sems) (htraffic : Traffic cfg s s') :
    Orderly s'.sems := by
  cases htraffic with
  | still hsems _ _ => rwa [hsems]
  | arrives _ hsems _ _ => rwa [hsems]
  | resumes _ _ hsems _ _ => rw [hsems]; exact orderly_acquire h _
  | becomes _ _ hsems _ _ => rwa [hsems]
  | departs _ _ hsems _ _ => rw [hsems]; exact orderly_releaseAll h _
  | abandons ht _ hsems _ _ => rw [hsems]; exact orderly_drop h ht

/-- A call that waits holds nothing yet. -/
lemma held_nil_of_call {x : Sem} {l : Lane} {r : Bool} (h : Regular cfg s)
    (ht : t ∈ s.sems.queue x) (hop : t.op = .call l r) : t.held = [] := by
  have hfits := h.waits x t ht
  unfold Fits at hfits
  rw [hop] at hfits
  obtain ⟨y, _, hplan⟩ := hfits
  obtain ⟨rest, htodo⟩ := List.head?_eq_some_iff.1 (h.orderly.waits x t ht)
  have hlength := congrArg List.length hplan
  simp only [Task.plan, htodo, List.length_append, List.length_reverse, List.length_cons,
    List.length_nil] at hlength
  exact List.length_eq_zero_iff.1 (by omega)

lemma conserved_traffic (h : Regular cfg s) (htraffic : Traffic cfg s s') (x : Sem) :
    permits s'.sems s'.ready x = cfg.permits x := by
  rw [← h.conserved x]
  cases htraffic with
  | still hsems hready _ => rw [hsems, hready]
  | arrives _ hsems hready _ =>
      rw [hsems, hready, permits_append]
      simp [Task.count]
  | @resumes i t t' ht hresumes hsems hready _ =>
      rw [hsems, hready]
      have hacquire := acquire_permits s.sems t' x
      have hcount : t'.count x = t.count x := by rw [Task.count, resumes_held hresumes]; rfl
      have hold := weigh_eq (·.count x) ht
      simp only [permits, weigh_replaceAt, weigh_cons, weigh_nil] at hacquire ⊢
      omega
  | @becomes i t op ht _ hsems hready _ =>
      rw [hsems, hready]
      have hold := weigh_eq (·.count x) ht
      simp only [permits, weigh_replaceAt, weigh_cons, weigh_nil]
      show s.sems.free x + _ + (t.count x + 0 + _) = _
      omega
  | @departs i t after ht hafter hsems hready _ =>
      rw [hsems, hready]
      have hrelease := releaseAll_permits s.sems t.held x
      have hold := weigh_eq (·.count x) ht
      have hnothing : weigh (fun u : Task Sem Op => u.count x) after = 0 := by
        rcases hafter with rfl | ⟨rfl, _⟩ <;> simp [Task.count]
      have hheld : t.held.count x = t.count x := rfl
      simp only [permits, weigh_append, weigh_replaceAt, weigh_nil] at hrelease ⊢
      omega
  | @abandons y k t l r ht hop hsems hready _ =>
      rw [hsems, hready]
      have hdrop := weigh_drop (·.count x) ht
      have hcount : t.count x = 0 := by
        rw [Task.count, held_nil_of_call h (List.mem_of_getElem? ht) hop]
        rfl
      show s.sems.free x + (s.sems.drop y k).weigh (·.count x) + _ = _
      rw [permits]
      omega

lemma carried_named (s : State) (n : ℕ) : Carried s (named n) where
  same t u hname _ := by simp only [named, hname]
  resumes t u h := by simp only [named, resumes_name h, le_refl]
  becomes t op _ := le_rfl
  ends t _ := le_rfl

lemma names_traffic (h : Regular cfg s) (htraffic : Traffic cfg s s') (n : ℕ) :
    s'.total (named n) (named n) ≤ if n < s'.next then 1 else 0 := by
  have hbefore := h.names n
  rcases total_traffic (carried_named s n) h.orderly htraffic with
    ⟨hle, hnext⟩ | ⟨a, op, plan, _, heq, hnext⟩
  · rw [hnext]
    omega
  · rw [heq, hnext]
    by_cases hn : s.next = n
    · -- the name is new
      subst hn
      simp only [lt_irrefl, if_false] at hbefore
      simp only [named, if_true, Nat.lt_succ_self]
      omega
    · simp only [named, hn, if_false]
      split_ifs at hbefore ⊢ <;> omega

lemma fits_traffic (h : Regular cfg s) (htraffic : Traffic cfg s s') :
    (∀ t ∈ s'.ready, Fits cfg t) ∧ ∀ x, ∀ t ∈ s'.sems.queue x, Fits cfg t := by
  cases htraffic with
  | still hsems hready _ => rw [hsems, hready]; exact ⟨h.fits, h.waits⟩
  | arrives harrives hsems hready _ =>
      rw [hsems, hready]
      refine ⟨fun u hu => ?_, h.waits⟩
      rcases List.mem_append.1 hu with hu | hu
      · exact h.fits u hu
      · rw [List.mem_singleton.1 hu]
        exact fits_of_starts (starts_of_coroutine harrives) _
  | @resumes i t t' ht hresumes hsems hready _ =>
      rw [hsems, hready]
      have hfits := fits_of_resumes (h.fits t (List.mem_of_getElem? ht)) hresumes
      refine ⟨fun u hu => ?_, fun x u hu => ?_⟩
      · rcases mem_replaceAt.1 hu with hu | hu
        · obtain ⟨_, hop, hplan, hnil⟩ := acquire_some (Option.mem_toList.1 hu)
          exact hfits.of_plan (resumes_todo hresumes) hop hplan (hnil ▸ List.nil_suffix)
        · exact h.fits u (mem_of_mem_others ht hu)
      · rcases mem_queue_of_acquire hu with hu | ⟨_, hop, hplan, hsuffix⟩
        · exact h.waits x u hu
        · exact hfits.of_plan (resumes_todo hresumes) hop hplan hsuffix
  | @becomes i t op ht hop hsems hready _ =>
      rw [hsems, hready]
      refine ⟨fun u hu => ?_, h.waits⟩
      rcases mem_replaceAt.1 hu with hu | hu
      · rw [List.mem_singleton.1 hu]
        exact fits_of_becomes (h.fits t (List.mem_of_getElem? ht)) hop
      · exact h.fits u (mem_of_mem_others ht hu)
  | @departs i t after ht hafter hsems hready _ =>
      rw [hsems, hready]
      refine ⟨fun u hu => ?_, fun x u hu => h.waits x u (mem_queue_of_releaseAll hu)⟩
      rcases List.mem_append.1 hu with hu | hu
      · rcases mem_replaceAt.1 hu with hu | hu
        · rcases hafter with rfl | ⟨rfl, _⟩
          · cases hu
          · rw [List.mem_singleton.1 hu]
            exact ⟨rfl, rfl⟩
        · exact h.fits u (mem_of_mem_others ht hu)
      · -- who was woken goes on with the same plan
        obtain ⟨x, v, hv, rfl⟩ := woken_of_releaseAll hu
        have hhead := h.orderly.waits x v hv
        have htodo : v.todo ≠ [] := by
          intro hnil
          simp [hnil] at hhead
        exact (h.waits x v hv).of_plan htodo rfl (handed_plan hhead) (List.tail_suffix _)
  | abandons ht hop hsems hready _ =>
      rw [hsems, hready]
      exact ⟨h.fits, fun x u hu => h.waits x u (mem_queue_of_drop ht hu)⟩

theorem regular_traffic (h : Regular cfg s) (htraffic : Traffic cfg s s') : Regular cfg s' :=
  ⟨orderly_traffic h.orderly htraffic, conserved_traffic h htraffic,
    (fits_traffic h htraffic).1, (fits_traffic h htraffic).2, names_traffic h htraffic⟩

/-- Every state reached is regular. -/
theorem regular_of_reachable (h : (laneSystem cfg).Reachable s) : Regular cfg s := by
  refine h.invariant (fun s hs => ?_) fun s a s' hs _ hstep => ?_
  · obtain rfl := hs
    exact regular_fresh cfg
  · exact regular_traffic hs (traffic_of_moves (moves_of_step hstep))

end PalaceDaemon.Lanes
