/-
The file watcher: `_DebouncedMineHandler` and `WatcherService.stop`.

A handler cancels its timer at each event it takes and arms a new one, whose thread calls
`_mine_fn` when the debounce interval has passed: of the events of a burst only the last one does
(`stop_quiet`).  `stop` cancels the timers of the handlers one after the other, and stops the
observer after that.  An event that the observer hands to a handler in between arms a timer that
nothing cancels, and a timer whose thread is past its check of `finished` cannot be cancelled: a
mine may start after `stop` has returned (`stop_quiet_fails`).  `stop_quiet` says that it does not
in the runs without these two, and `exists_late` that each of the two can end so.

Of `watchdog` only this is assumed: its thread hands events to the handlers one at a time, until it
ends, which it does at some time after `Observer.stop`.
-/
import Mathlib.Algebra.Order.Group.Int
import Mathlib.Algebra.Order.Group.Basic
import PalaceDaemon.Lib.StepSystem
import PalaceDaemon.Lib.Threads
import PalaceDaemon.Mines.Gate

namespace PalaceDaemon.Watcher

open Mines (Path pathStr pathSuffix)

/-! ### Events -/

inductive EventType
  | created | modified | moved | deleted
  /-- The handler has no method for these. -/
  | opened | closed | closedNoWrite
deriving DecidableEq

structure FileEvent where
  eventType : EventType
  isDirectory : Bool
  srcPath : Path
  /-- Empty unless the event is a move. -/
  destPath : Path
deriving DecidableEq

/-- `_WATCHABLE_EXTENSIONS`. -/
def watchableExtensions : List Path :=
  [".md", ".markdown", ".txt", ".py", ".js", ".jsx", ".ts", ".tsx", ".go", ".rs", ".java", ".kt",
    ".rb", ".php", ".c", ".h", ".cpp", ".hpp", ".cs", ".swift", ".sh", ".bash", ".zsh", ".fish",
    ".yaml", ".yml", ".toml", ".json", ".jsonl", ".sql", ".html", ".css", ".scss", ".vue",
    ".svelte"].map String.toList

/-- `_has_watchable_extension`. -/
def hasWatchableExtension (path : Path) : Bool := decide (pathSuffix path ∈ watchableExtensions)

/-- What `_maybe_schedule` checks before it takes the lock. -/
def FileEvent.schedules (e : FileEvent) (alsoCheckDest : Bool) : Bool :=
  !e.isDirectory &&
    (hasWatchableExtension e.srcPath || alsoCheckDest && hasWatchableExtension e.destPath)

/-- The event makes a handler arm a timer: `on_created`, `on_modified`, `on_moved` and
`on_deleted`. -/
def FileEvent.taken (e : FileEvent) : Bool :=
  match e.eventType with
  | .created | .modified | .deleted => e.schedules false
  | .moved => e.schedules true
  | .opened | .closed | .closedNoWrite => false

/-! ### Handlers -/

/-- A mine: the path and the wing that `_mine_fn` gets. -/
structure Mine where
  path : Path
  wing : List Char
deriving DecidableEq

structure WatchTarget where
  path : Path
  wing : List Char
deriving DecidableEq

/-- How far the thread of a timer is. -/
inductive Status
  | armed
  /-- Cancelled before the check of `finished`. -/
  | cancelled
  /-- Past the check of `finished`, with the call to come. -/
  | expired
  /-- `_fire` has called `_mine_fn`, after `stop` had returned or not. -/
  | called (mine : Mine) (afterStop : Bool)
deriving DecidableEq

/-- The debounce interval of the timer is over, and it was not cancelled before. -/
def Status.ran : Status → Bool
  | expired | called _ _ => true
  | armed | cancelled => false

structure Timer (τ : Type*) where
  armedAt : τ
  status : Status

/-- `Timer.cancel`. -/
def Timer.cancel {τ : Type*} (t : Timer τ) : Timer τ :=
  match t.status with
  | .armed => { t with status := .cancelled }
  | _ => t

/-- A `_DebouncedMineHandler`. -/
structure Handler (τ : Type*) where
  target : WatchTarget
  /-- All the timers it has armed, one for each event it took. -/
  timers : List (Timer τ)
  /-- `_timer` -/
  current : Option ℕ

namespace Handler

variable {τ : Type*} (h : Handler τ)

/-- The timers after `_timer` is cancelled, if there is one. -/
def cancelTimer : List (Timer τ) :=
  match h.current with
  | some k => h.timers.modify k Timer.cancel
  | none => h.timers

/-- `_maybe_schedule` with the lock. -/
def arm (clock : τ) : Handler τ :=
  { h with timers := h.cancelTimer ++ [⟨clock, .armed⟩], current := some h.timers.length }

/-- `cancel_pending` with the lock. -/
def cancelPending : Handler τ := { h with timers := h.cancelTimer, current := none }

/-- The thread of the timer `k` goes on. -/
def put (k : ℕ) (status : Status) : Handler τ :=
  { h with timers := h.timers.modify k fun t => { t with status := status } }

/-- What `_fire` calls `_mine_fn` with. -/
def mine : Mine := ⟨pathStr h.target.path, h.target.wing⟩

end Handler

/-! ### The service -/

/-- How far the call of `stop` is. -/
inductive Stop (τ : Type*)
  | notCalled
  /-- The timers of the handlers before this one are cancelled. -/
  | cancelling (g : ℕ)
  /-- `observer.join`, from this time on. -/
  | joining (since : τ)
  | returned
deriving DecidableEq

/-- `cancel_pending` of the handler is done. -/
def Stop.passed {τ : Type*} : Stop τ → ℕ → Bool
  | notCalled, _ => false
  | cancelling g, i => decide (i < g)
  | joining _, _ | returned, _ => true

/-- The thread of the observer. -/
inductive Observer
  | running
  | stopping
  | ended
deriving DecidableEq

/-- What is not of one handler. -/
structure Shared (τ : Type*) where
  clock : τ
  /-- How many handlers there are. -/
  handlers : ℕ
  stop : Stop τ
  observer : Observer

/-- The service after `start`. -/
abbrev Service (τ : Type*) := Threads (Shared τ) (Handler τ)

inductive Label (τ : Type*)
  | tick (t : τ)
  /-- The observer hands an event to a handler. -/
  | event (i : ℕ) (e : FileEvent)
  /-- The thread of the timer checks `finished` after its wait. -/
  | expire (i k : ℕ)
  /-- It calls back. -/
  | call (i k : ℕ)
  | stop
  /-- `stop` cancels the timer of the next handler. -/
  | cancel
  | stopObserver
  | observerEnds
  /-- `observer.join` returns, and `stop` with it. -/
  | joined

section model

variable {τ : Type*} [LinearOrder τ] [AddCommGroup τ]

/-- `stop` goes on. -/
def stopGoes (s : Service τ) (stop : Stop τ) (observer : Observer) : Service τ :=
  { s with shared := { s.shared with stop := stop, observer := observer } }

variable (debounce timeout : τ)

/-- A step of the service. -/
def next (s : Service τ) : Label τ → Option (Service τ)
  | .tick t =>
      if s.shared.clock ≤ t then some { s with shared := { s.shared with clock := t } } else none
  | .event i e =>
      if i < s.shared.handlers ∧ s.shared.observer ≠ .ended then
        if e.taken then some (s.move i s.shared ((s.own i).arm s.shared.clock)) else some s
      else none
  | .expire i k => match (s.own i).timers[k]? with
      | some ⟨armedAt, .armed⟩ =>
          if debounce ≤ s.shared.clock - armedAt then
            some (s.move i s.shared ((s.own i).put k .expired))
          else none
      | _ => none
  | .call i k => match (s.own i).timers[k]? with
      | some ⟨_, .expired⟩ => some (s.move i s.shared
          ((s.own i).put k (.called (s.own i).mine (decide (s.shared.stop = .returned)))))
      | _ => none
  | .stop => match s.shared.stop with
      -- without a handler `_observer` is `None`
      | .notCalled => some (stopGoes s
          (if s.shared.handlers = 0 then .returned else .cancelling 0) s.shared.observer)
      | _ => none
  | .cancel => match s.shared.stop with
      | .cancelling g =>
          if g < s.shared.handlers then
            some (s.move g { s.shared with stop := .cancelling (g + 1) } (s.own g).cancelPending)
          else none
      | _ => none
  | .stopObserver => match s.shared.stop with
      | .cancelling g =>
          if g = s.shared.handlers then some (stopGoes s (.joining s.shared.clock) .stopping)
          else none
      | _ => none
  | .observerEnds =>
      if s.shared.observer = .stopping then some (stopGoes s s.shared.stop .ended) else none
  | .joined => match s.shared.stop with
      | .joining since =>
          if s.shared.observer = .ended ∨ timeout ≤ s.shared.clock - since then
            some (stopGoes s .returned s.shared.observer)
          else none
      | _ => none

/-- The service from the end of `start`. -/
def system : StepSystem (Service τ) (Label τ) where
  init s := s.shared.stop = .notCalled ∧ s.shared.observer = .running ∧
    ∀ i, (s.own i).timers = [] ∧ (s.own i).current = none
  next := next debounce timeout

/-- No mine has started after `stop` returned. -/
def NoneLate (s : Service τ) : Prop :=
  ∀ i, ∀ t ∈ (s.own i).timers, ∀ mine, t.status ≠ .called mine true

/-- Of the events of a burst, whose gaps are all shorter than the debounce interval, at most one
causes a mine, which is of the target of the handler. -/
structure Debounced (s : Service τ) : Prop where
  once : ∀ i (k l : ℕ) (t u : Timer τ) mine mine' late late', k ≤ l →
    (∀ (m : ℕ) (v w : Timer τ), k ≤ m → m < l → (s.own i).timers[m]? = some v →
      (s.own i).timers[m + 1]? = some w → w.armedAt - v.armedAt < debounce) →
    (s.own i).timers[k]? = some t → t.status = .called mine late →
    (s.own i).timers[l]? = some u → u.status = .called mine' late' → k = l
  target : ∀ i, ∀ t ∈ (s.own i).timers, ∀ mine late, t.status = .called mine late →
    mine = (s.own i).mine

/-- No event is taken by a handler whose timer `stop` has cancelled, and when `stop` returns no
timer is between its check and its call. -/
def Orderly (s : Service τ) : Label τ → Prop
  | .event i e => e.taken = true → s.shared.stop.passed i = false
  | .joined => ∀ i < s.shared.handlers, ∀ t ∈ (s.own i).timers, t.status ≠ .expired
  | _ => True

instance : ∀ (s : Service τ) (l : Label τ), Decidable (Orderly s l)
  | s, .event i e => inferInstanceAs (Decidable (e.taken = true → s.shared.stop.passed i = false))
  | s, .joined => inferInstanceAs (Decidable
      (∀ i < s.shared.handlers, ∀ t ∈ (s.own i).timers, t.status ≠ .expired))
  | _, .tick _ | _, .expire _ _ | _, .call _ _ | _, .stop | _, .cancel | _, .stopObserver
  | _, .observerEnds => inferInstanceAs (Decidable True)

end model

/-! ### Steps -/

section steps

variable {τ : Type*} [LinearOrder τ] [AddCommGroup τ]

/-- What a step can do. -/
inductive Moves (debounce timeout : τ) (s : Service τ) : Label τ → Service τ → Prop
  | tick {t : τ} : s.shared.clock ≤ t →
      Moves debounce timeout s (.tick t) { s with shared := { s.shared with clock := t } }
  | taken {i : ℕ} {e : FileEvent} : i < s.shared.handlers → e.taken = true →
      Moves debounce timeout s (.event i e) (s.move i s.shared ((s.own i).arm s.shared.clock))
  | ignored {i : ℕ} {e : FileEvent} : e.taken = false → Moves debounce timeout s (.event i e) s
  | expire {i k : ℕ} {armedAt : τ} : (s.own i).timers[k]? = some ⟨armedAt, .armed⟩ →
      debounce ≤ s.shared.clock - armedAt →
      Moves debounce timeout s (.expire i k) (s.move i s.shared ((s.own i).put k .expired))
  | call {i k : ℕ} {armedAt : τ} : (s.own i).timers[k]? = some ⟨armedAt, .expired⟩ →
      Moves debounce timeout s (.call i k) (s.move i s.shared
        ((s.own i).put k (.called (s.own i).mine (decide (s.shared.stop = .returned)))))
  | stopEmpty : s.shared.stop = .notCalled → s.shared.handlers = 0 →
      Moves debounce timeout s .stop (stopGoes s .returned s.shared.observer)
  | stop : s.shared.stop = .notCalled → 0 < s.shared.handlers →
      Moves debounce timeout s .stop (stopGoes s (.cancelling 0) s.shared.observer)
  | cancel {g : ℕ} : s.shared.stop = .cancelling g → g < s.shared.handlers →
      Moves debounce timeout s .cancel
        (s.move g { s.shared with stop := .cancelling (g + 1) } (s.own g).cancelPending)
  | stopObserver : s.shared.stop = .cancelling s.shared.handlers →
      Moves debounce timeout s .stopObserver (stopGoes s (.joining s.shared.clock) .stopping)
  | observerEnds : s.shared.observer = .stopping →
      Moves debounce timeout s .observerEnds (stopGoes s s.shared.stop .ended)
  | joined {since : τ} : s.shared.stop = .joining since →
      s.shared.observer = .ended ∨ timeout ≤ s.shared.clock - since →
      Moves debounce timeout s .joined (stopGoes s .returned s.shared.observer)

variable {debounce timeout : τ} {s s' : Service τ} {a : Label τ}

lemma moves_of_next (hnext : next debounce timeout s a = some s') :
    Moves debounce timeout s a s' := by
  cases a with
  | tick t =>
      simp only [next, Option.ite_none_right_eq_some, Option.some.injEq] at hnext
      obtain ⟨ht, rfl⟩ := hnext
      exact .tick ht
  | event i e =>
      simp only [next, Option.ite_none_right_eq_some] at hnext
      obtain ⟨⟨hi, -⟩, hnext⟩ := hnext
      split at hnext
      · obtain rfl := Option.some.inj hnext
        exact .taken hi ‹_›
      · obtain rfl := Option.some.inj hnext
        exact .ignored (Bool.eq_false_iff.2 ‹_›)
  | expire i k =>
      simp only [next] at hnext
      split at hnext
      · rename_i hk
        simp only [Option.ite_none_right_eq_some, Option.some.injEq] at hnext
        obtain ⟨hdue, rfl⟩ := hnext
        exact .expire hk hdue
      · cases hnext
  | call i k =>
      simp only [next] at hnext
      split at hnext
      · rename_i hk
        obtain rfl := Option.some.inj hnext
        exact .call hk
      · cases hnext
  | stop =>
      simp only [next] at hnext
      split at hnext
      · rename_i hstop
        obtain rfl := Option.some.inj hnext
        split
        · exact .stopEmpty hstop ‹_›
        · exact .stop hstop (Nat.pos_of_ne_zero ‹_›)
      · cases hnext
  | cancel =>
      simp only [next] at hnext
      split at hnext
      · rename_i g hstop
        simp only [Option.ite_none_right_eq_some, Option.some.injEq] at hnext
        obtain ⟨hg, rfl⟩ := hnext
        exact .cancel hstop hg
      · cases hnext
  | stopObserver =>
      simp only [next] at hnext
      split at hnext
      · rename_i g hstop
        simp only [Option.ite_none_right_eq_some, Option.some.injEq] at hnext
        obtain ⟨rfl, rfl⟩ := hnext
        exact .stopObserver hstop
      · cases hnext
  | observerEnds =>
      simp only [next, Option.ite_none_right_eq_some, Option.some.injEq] at hnext
      obtain ⟨hobserver, rfl⟩ := hnext
      exact .observerEnds hobserver
  | joined =>
      simp only [next] at hnext
      split at hnext
      · rename_i since hstop
        simp only [Option.ite_none_right_eq_some, Option.some.injEq] at hnext
        obtain ⟨hjoin, rfl⟩ := hnext
        exact .joined hstop hjoin
      · cases hnext

end steps

/-! ### The timers of a handler -/

section timers

variable {τ : Type*} {h : Handler τ} {i k : ℕ} {t : Timer τ}

lemma getElem?_put {status : Status} {l : ℕ} (hl : (h.put k status).timers[l]? = some t) :
    ∃ u, h.timers[l]? = some u ∧ t.armedAt = u.armedAt ∧
      (l = k ∧ t.status = status ∨ l ≠ k ∧ t.status = u.status) := by
  rw [Handler.put, List.getElem?_modify] at hl
  obtain ⟨u, hu, rfl⟩ := Option.map_eq_some_iff.1 hl
  refine ⟨u, hu, ?_⟩
  by_cases hkl : k = l
  · rw [if_pos hkl]
    exact ⟨rfl, .inl ⟨hkl.symm, rfl⟩⟩
  · rw [if_neg hkl]
    exact ⟨rfl, .inr ⟨Ne.symm hkl, rfl⟩⟩

lemma getElem?_put_self (hk : h.timers[k]? = some t) (status : Status) :
    (h.put k status).timers[k]? = some ⟨t.armedAt, status⟩ := by
  simp [Handler.put, hk]

@[simp] lemma length_put {status : Status} : (h.put k status).timers.length = h.timers.length :=
  List.length_modify ..

@[simp] lemma length_cancelTimer : h.cancelTimer.length = h.timers.length := by
  rw [Handler.cancelTimer]
  split
  · exact List.length_modify ..
  · rfl

/-- Only `_timer` may be armed. -/
def OneArmed (h : Handler τ) : Prop :=
  ∀ k t, h.timers[k]? = some t → t.status = .armed → h.current = some k

lemma getElem?_cancelTimer (hone : OneArmed h) (hk : h.cancelTimer[k]? = some t) :
    ∃ u, h.timers[k]? = some u ∧ t.armedAt = u.armedAt ∧
      t.status ≠ .armed ∧ (t.status = .cancelled ∨ t.status = u.status) := by
  rw [Handler.cancelTimer] at hk
  split at hk
  · rename_i c hc
    rw [List.getElem?_modify] at hk
    obtain ⟨u, hu, rfl⟩ := Option.map_eq_some_iff.1 hk
    refine ⟨u, hu, ?_⟩
    by_cases hck : c = k
    · rw [if_pos hck, Timer.cancel]
      split
      · exact ⟨rfl, nofun, .inl rfl⟩
      · exact ⟨rfl, ‹_›, .inr rfl⟩
    · rw [if_neg hck]
      exact ⟨rfl, fun hu' => hck (Option.some.inj (hc.symm.trans (hone k u hu hu'))), .inr rfl⟩
  · rename_i hc
    refine ⟨t, hk, rfl, fun ht => ?_, .inr rfl⟩
    have hcur := hone k t hk ht
    rw [hc] at hcur
    cases hcur

/-- The timers after an event was taken are the cancelled ones and the new one. -/
lemma getElem?_arm {clock : τ} (hk : (h.arm clock).timers[k]? = some t) :
    h.cancelTimer[k]? = some t ∨ k = h.timers.length ∧ t = ⟨clock, .armed⟩ := by
  rw [Handler.arm, List.getElem?_append] at hk
  split at hk
  · exact .inl hk
  · rename_i hlt
    rw [length_cancelTimer] at hlt hk
    obtain ⟨hlt', rfl⟩ := List.getElem?_eq_some_iff.1 hk
    have hk0 : k - h.timers.length = 0 := by simpa using hlt'
    exact .inr ⟨by omega, by simp⟩

end timers

/-! ### Debouncing -/

section debounced

variable {τ : Type*} [LinearOrder τ] [AddCommGroup τ] {debounce timeout : τ} {x y : Shared τ}
  {i k : ℕ} {g : Handler τ} {s s' : Service τ} {a : Label τ}

variable (debounce) in
/-- What a handler has in every run. -/
structure HandlerOk (x : Shared τ) (i : ℕ) (g : Handler τ) : Prop where
  absent : x.handlers ≤ i → g.timers = []
  one : OneArmed g
  last : ∀ k : ℕ, g.current = some k → k + 1 = g.timers.length
  due : ∀ (k : ℕ) (t : Timer τ), g.timers[k]? = some t → t.status.ran = true →
    debounce ≤ x.clock - t.armedAt
  /-- A timer that was not cancelled had its interval before the next one was armed. -/
  gap : ∀ (k : ℕ) (t u : Timer τ), g.timers[k]? = some t → g.timers[k + 1]? = some u →
    t.status.ran = true → debounce ≤ u.armedAt - t.armedAt
  mine : ∀ t ∈ g.timers, ∀ mine late, t.status = .called mine late → mine = g.mine

lemma HandlerOk.mono [IsOrderedAddMonoid τ] (h : HandlerOk debounce x i g)
    (hclock : x.clock ≤ y.clock) (hhandlers : y.handlers = x.handlers) :
    HandlerOk debounce y i g where
  absent := by
    rw [hhandlers]
    exact h.absent
  one := h.one
  last := h.last
  due k t hk ht := (h.due k t hk ht).trans (sub_le_sub_right hclock _)
  gap := h.gap
  mine := h.mine

/-- A timer that ran and is there after the current one was cancelled ran before. -/
lemma HandlerOk.ran_of_cancelTimer (h : HandlerOk debounce x i g) {t : Timer τ}
    (hk : g.cancelTimer[k]? = some t) (ht : t.status.ran = true) :
    ∃ u, g.timers[k]? = some u ∧ t.armedAt = u.armedAt ∧ t.status = u.status := by
  obtain ⟨u, hu, hat, -, hstatus⟩ := getElem?_cancelTimer h.one hk
  rcases hstatus with hstatus | hstatus
  · rw [hstatus] at ht
    cases ht
  · exact ⟨u, hu, hat, hstatus⟩

lemma HandlerOk.cancelPending (h : HandlerOk debounce x i g) :
    HandlerOk debounce x i g.cancelPending where
  absent hi := List.eq_nil_of_length_eq_zero (by
    rw [Handler.cancelPending, length_cancelTimer, h.absent hi, List.length_nil])
  one k t hk ht := by
    obtain ⟨-, -, -, harmed, -⟩ := getElem?_cancelTimer h.one hk
    exact absurd ht harmed
  last := nofun
  due k t hk ht := by
    obtain ⟨u, hu, hat, hstatus⟩ := h.ran_of_cancelTimer hk ht
    rw [hat]
    exact h.due k u hu (hstatus ▸ ht)
  gap k t u hk hk' ht := by
    obtain ⟨v, hv, hat, hstatus⟩ := h.ran_of_cancelTimer hk ht
    obtain ⟨w, hw, hat', -⟩ := getElem?_cancelTimer h.one hk'
    rw [hat, hat']
    exact h.gap k v w hv hw (hstatus ▸ ht)
  mine t ht mine late hcalled := by
    obtain ⟨k, hk⟩ := List.mem_iff_getElem?.1 ht
    obtain ⟨u, hu, -, hstatus⟩ := h.ran_of_cancelTimer hk (by rw [hcalled]; rfl)
    exact h.mine u (List.mem_of_getElem? hu) mine late (hstatus ▸ hcalled)

lemma HandlerOk.arm (h : HandlerOk debounce x i g) (hi : i < x.handlers) :
    HandlerOk debounce x i (g.arm x.clock) where
  absent hi' := absurd hi (not_lt.2 hi')
  one k t hk ht := by
    rcases getElem?_arm hk with hk | ⟨rfl, -⟩
    · obtain ⟨-, -, -, harmed, -⟩ := getElem?_cancelTimer h.one hk
      exact absurd ht harmed
    · rfl
  last k hk := by
    obtain rfl := Option.some.inj hk
    simp [Handler.arm]
  due k t hk ht := by
    rcases getElem?_arm hk with hk | ⟨-, rfl⟩
    · exact h.cancelPending.due k t hk ht
    · cases ht
  gap k t u hk hk' ht := by
    rcases getElem?_arm hk with hk | ⟨-, rfl⟩
    · rcases getElem?_arm hk' with hk' | ⟨-, rfl⟩
      · exact h.cancelPending.gap k t u hk hk' ht
      -- the new timer is armed now, and the one before it is due
      · exact h.cancelPending.due k t hk ht
    · cases ht
  mine t ht mine late hcalled := by
    obtain ⟨k, hk⟩ := List.mem_iff_getElem?.1 ht
    rcases getElem?_arm hk with hk | ⟨-, rfl⟩
    · exact h.cancelPending.mine t (List.mem_of_getElem? hk) mine late hcalled
    · cases hcalled

/-- The thread of a timer that is due goes on. -/
lemma HandlerOk.put (h : HandlerOk debounce x i g) {t : Timer τ} {status : Status}
    (hk : g.timers[k]? = some t) (harmed : status ≠ .armed)
    (ht : t.status = .armed ∨ t.status.ran = true) (hdue : debounce ≤ x.clock - t.armedAt)
    (hmine : ∀ mine late, status = .called mine late → mine = g.mine) :
    HandlerOk debounce x i (g.put k status) where
  absent hi := List.eq_nil_of_length_eq_zero (by rw [length_put, h.absent hi, List.length_nil])
  one l u hl hu := by
    obtain ⟨v, hv, -, ⟨-, hstatus⟩ | ⟨-, hstatus⟩⟩ := getElem?_put hl
    · exact absurd (hstatus ▸ hu) harmed
    · exact h.one l v hv (hstatus ▸ hu)
  last l hl := by
    rw [length_put]
    exact h.last l hl
  due l u hl hu := by
    obtain ⟨v, hv, hat, ⟨rfl, -⟩ | ⟨-, hstatus⟩⟩ := getElem?_put hl
    · obtain rfl := Option.some.inj (hk.symm.trans hv)
      rw [hat]
      exact hdue
    · rw [hat]
      exact h.due l v hv (hstatus ▸ hu)
  gap l u w hl hl' hu := by
    obtain ⟨v, hv, hat, hcase⟩ := getElem?_put hl
    obtain ⟨z, hz, hat', -⟩ := getElem?_put hl'
    rw [hat, hat']
    rcases hcase with ⟨rfl, -⟩ | ⟨-, hstatus⟩
    · obtain rfl := Option.some.inj (hk.symm.trans hv)
      rcases ht with ht | ht
      -- an armed timer is the last one
      · have hlast := h.last l (h.one l t hk ht)
        have hlt := (List.getElem?_eq_some_iff.1 hz).1
        omega
      · exact h.gap l t z hk hz ht
    · exact h.gap l v z hv hz (hstatus ▸ hu)
  mine u hu mine late hcalled := by
    obtain ⟨l, hl⟩ := List.mem_iff_getElem?.1 hu
    obtain ⟨v, hv, -, ⟨-, hstatus⟩ | ⟨-, hstatus⟩⟩ := getElem?_put hl
    · exact hmine mine late (hstatus ▸ hcalled)
    · exact h.mine v (List.mem_of_getElem? hv) mine late (hstatus ▸ hcalled)

variable (debounce) in
/-- What all the handlers have. -/
def Inv (s : Service τ) : Prop := ∀ i, HandlerOk debounce s.shared i (s.own i)

/-- A handler moves. -/
lemma Inv.move [IsOrderedAddMonoid τ] (h : Inv debounce s)
    (hclock : x.clock = s.shared.clock) (hhandlers : x.handlers = s.shared.handlers)
    (hg : HandlerOk debounce s.shared i g) : Inv debounce (s.move i x g) :=
  Threads.forall_move h (hg.mono hclock.ge hhandlers)
    fun _ _ hj => hj.mono hclock.ge hhandlers

lemma inv_next [IsOrderedAddMonoid τ] (h : Inv debounce s)
    (hnext : next debounce timeout s a = some s') : Inv debounce s' := by
  cases moves_of_next hnext with
  | tick hclock => exact fun i => (h i).mono hclock rfl
  | taken hi _ => exact h.move rfl rfl ((h _).arm hi)
  | ignored _ => exact h
  | expire hk hdue => exact h.move rfl rfl ((h _).put hk nofun (.inl rfl) hdue nofun)
  | call hk =>
      refine h.move rfl rfl ((h _).put hk nofun (.inr rfl) ((h _).due _ _ hk rfl) ?_)
      rintro mine late hcalled
      exact (Status.called.inj hcalled).1.symm
  | cancel _ _ => exact h.move rfl rfl (h _).cancelPending
  | stopEmpty | stop | stopObserver | observerEnds | joined =>
      exact fun i => (h i).mono le_rfl rfl

lemma inv_init (h : (system debounce timeout).init s) : Inv debounce s := by
  rintro i
  obtain ⟨htimers, hcurrent⟩ := h.2.2 i
  refine ⟨fun _ => htimers, ?_, ?_, ?_, ?_, ?_⟩
  all_goals simp [OneArmed, htimers, hcurrent]

lemma inv_of_reachable [IsOrderedAddMonoid τ]
    (h : (system debounce timeout).Reachable s) : Inv debounce s :=
  h.invariant (fun _ => inv_init) fun _ _ _ hs _ hnext => inv_next hs hnext

/-- A timer that called back was not followed by an event before its interval was over. -/
lemma Inv.debounced (h : Inv debounce s) : Debounced debounce s where
  once i k l t u mine mine' late late' hkl hburst hk ht hl hu := by
    by_contra hne
    have hlt : k < l := lt_of_le_of_ne hkl hne
    have hlen := (List.getElem?_eq_some_iff.1 hl).1
    obtain ⟨w, hw⟩ : ∃ w, (s.own i).timers[k + 1]? = some w :=
      ⟨_, List.getElem?_eq_getElem (by omega)⟩
    have hgap := (h i).gap k t w hk hw (by rw [ht]; rfl)
    exact absurd (hburst k t w le_rfl hlt hk hw) (not_lt.2 hgap)
  target i := (h i).mine

end debounced

/-! ### The end of `stop` -/

section quiet

variable {τ : Type*} {stop stop' : Stop τ} {i k : ℕ} {g : Handler τ} {x : Shared τ}
  {s s' : Service τ} {a : Label τ}

/-- What a handler has in the runs that meet the conditions. -/
structure Quiet (stop : Stop τ) (i : ℕ) (g : Handler τ) : Prop where
  cancelled : stop.passed i = true → ∀ t ∈ g.timers, t.status ≠ .armed
  returned : stop = .returned → ∀ t ∈ g.timers, t.status ≠ .expired
  prompt : ∀ t ∈ g.timers, ∀ mine, t.status ≠ .called mine true

lemma quiet_of_nil (h : g.timers = []) : Quiet stop i g := by
  refine ⟨fun _ => ?_, fun _ => ?_, ?_⟩
  all_goals simp [h]

lemma ne_returned_of_passed (h : stop.passed i = false) : stop ≠ .returned := by
  rintro rfl
  cases h

lemma Quiet.mono (h : Quiet stop i g) (hpassed : stop'.passed i = true → stop.passed i = true)
    (hstop' : stop' ≠ .returned) : Quiet stop' i g :=
  ⟨fun hi => h.cancelled (hpassed hi), fun hret => absurd hret hstop', h.prompt⟩

/-- A timer that is there after the current one was cancelled is not armed, and called back before
if it has. -/
lemma Quiet.cancelTimer (h : Quiet stop i g) (hone : OneArmed g) {t : Timer τ}
    (ht : t ∈ g.cancelTimer) : t.status ≠ .armed ∧ ∀ mine, t.status ≠ .called mine true := by
  obtain ⟨k, hk⟩ := List.mem_iff_getElem?.1 ht
  obtain ⟨u, hu, -, harmed, hstatus⟩ := getElem?_cancelTimer hone hk
  refine ⟨harmed, fun mine hcalled => ?_⟩
  rcases hstatus with hstatus | hstatus
  · rw [hstatus] at hcalled
    cases hcalled
  · exact h.prompt u (List.mem_of_getElem? hu) mine (hstatus ▸ hcalled)

lemma Quiet.cancelPending (h : Quiet stop i g) (hone : OneArmed g) (hstop' : stop' ≠ .returned) :
    Quiet stop' i g.cancelPending where
  cancelled _ _ ht := (h.cancelTimer hone ht).1
  returned hret := absurd hret hstop'
  prompt _ ht := (h.cancelTimer hone ht).2

lemma Quiet.arm (h : Quiet stop i g) (hone : OneArmed g) (hpassed : stop.passed i = false)
    (clock : τ) : Quiet stop i (g.arm clock) where
  cancelled hi := by
    rw [hpassed] at hi
    cases hi
  returned hret := absurd hret (ne_returned_of_passed hpassed)
  prompt t ht mine := by
    rcases List.mem_append.1 ht with ht | ht
    · exact (h.cancelTimer hone ht).2 mine
    · obtain rfl := List.mem_singleton.1 ht
      nofun

lemma Quiet.put (h : Quiet stop i g) {status : Status} (harmed : status ≠ .armed)
    (hstop : stop ≠ .returned) (hlate : ∀ mine, status ≠ .called mine true) :
    Quiet stop i (g.put k status) where
  cancelled hi t ht := by
    obtain ⟨l, hl⟩ := List.mem_iff_getElem?.1 ht
    obtain ⟨u, hu, -, ⟨-, hstatus⟩ | ⟨-, hstatus⟩⟩ := getElem?_put hl
    · rw [hstatus]
      exact harmed
    · rw [hstatus]
      exact h.cancelled hi u (List.mem_of_getElem? hu)
  returned hret := absurd hret hstop
  prompt t ht mine := by
    obtain ⟨l, hl⟩ := List.mem_iff_getElem?.1 ht
    obtain ⟨u, hu, -, ⟨-, hstatus⟩ | ⟨-, hstatus⟩⟩ := getElem?_put hl
    · rw [hstatus]
      exact hlate mine
    · rw [hstatus]
      exact h.prompt u (List.mem_of_getElem? hu) mine

/-- What all the handlers have in the runs that meet the conditions. -/
def AllQuiet (s : Service τ) : Prop := ∀ i, Quiet s.shared.stop i (s.own i)

lemma AllQuiet.move (h : AllQuiet s) (hg : Quiet x.stop i g)
    (hothers : ∀ j, j ≠ i → Quiet s.shared.stop j (s.own j) → Quiet x.stop j (s.own j)) :
    AllQuiet (s.move i x g) := by
  exact Threads.forall_move (s := s) (P := fun x => Quiet x.stop) h hg hothers

variable [LinearOrder τ] [AddCommGroup τ] {debounce timeout : τ}

lemma allQuiet_next (hinv : Inv debounce s) (h : AllQuiet s) (hok : Orderly s a)
    (hnext : next debounce timeout s a = some s') : AllQuiet s' := by
  cases moves_of_next hnext with
  | tick _ => exact h
  | taken _ htaken => exact h.move ((h _).arm (hinv _).one (hok htaken) _) fun _ _ hj => hj
  | ignored _ => exact h
  | @expire i _ _ hk _ =>
      -- no timer is armed once `stop` has passed the handler
      have hpassed : s.shared.stop.passed i = false := by
        by_contra hi
        exact (h i).cancelled (Bool.not_eq_false _ ▸ hi) _ (List.mem_of_getElem? hk) rfl
      exact h.move ((h i).put nofun (ne_returned_of_passed hpassed) nofun) fun _ _ hj => hj
  | @call i _ _ hk =>
      have hstop : s.shared.stop ≠ .returned :=
        fun hret => (h i).returned hret _ (List.mem_of_getElem? hk) rfl
      refine h.move ((h i).put nofun hstop fun mine hcalled => ?_) fun _ _ hj => hj
      exact hstop (of_decide_eq_true (Status.called.inj hcalled).2)
  | stopEmpty _ hzero => exact fun i => quiet_of_nil ((hinv i).absent (by omega))
  | stop _ _ =>
      refine fun i => (h i).mono (fun hi => ?_) nofun
      have hlt : decide (i < 0) = true := hi
      exact absurd (of_decide_eq_true hlt) (Nat.not_lt_zero i)
  | @cancel g hstop _ =>
      refine h.move ((h g).cancelPending (hinv g).one nofun) fun j hj hq =>
        hq.mono (fun hpassed => ?_) nofun
      rw [hstop]
      have hlt := of_decide_eq_true hpassed
      exact decide_eq_true (by omega)
  | stopObserver hstop =>
      intro i
      by_cases hi : i < s.shared.handlers
      · refine (h i).mono (fun _ => ?_) nofun
        rw [hstop]
        exact decide_eq_true hi
      · exact quiet_of_nil ((hinv i).absent (not_lt.1 hi))
  | observerEnds _ => exact h
  | joined hstop _ =>
      intro i
      by_cases hi : i < s.shared.handlers
      · exact ⟨fun _ => (h i).cancelled (by rw [hstop]; rfl), fun _ => hok i hi, (h i).prompt⟩
      · exact quiet_of_nil ((hinv i).absent (not_lt.1 hi))

variable [IsOrderedAddMonoid τ]

/-- **The end of the watcher.**  No mine starts after `stop` has returned, in the runs that meet the
conditions; and in every run at most one event of a burst causes a mine. -/
theorem stop_quiet : ((system debounce timeout).ReachedBy Orderly s → NoneLate s) ∧
    ((system debounce timeout).Reachable s → Debounced debounce s) := by
  have hinit : ∀ s, (system debounce timeout).init s → Inv debounce s ∧ AllQuiet s :=
    fun s hs => ⟨inv_init hs, fun i => quiet_of_nil (hs.2.2 i).1⟩
  refine ⟨fun h i => ?_, fun h => (inv_of_reachable h).debounced⟩
  refine ((h.invariant hinit ?_).2 i).prompt
  rintro s a s' ⟨hinv, hquiet⟩ hok hnext
  exact ⟨inv_next hinv hnext, allQuiet_next hinv hquiet hok hnext⟩

end quiet

/-! ### A late mine -/

section late

variable {τ : Type*} [LinearOrder τ] [AddCommGroup τ] [IsOrderedAddMonoid τ]
  {debounce timeout since armedAt : τ} {i k g : ℕ} {s s' : Service τ} {a : Label τ}

variable (debounce timeout) in
/-- The run can go on so that a mine starts after `stop` has returned. -/
def Late (s : Service τ) : Prop := ∃ u, (system debounce timeout).Steps s u ∧ ¬NoneLate u

omit [IsOrderedAddMonoid τ] in
lemma Late.head (hnext : next debounce timeout s a = some s') (h : Late debounce timeout s') :
    Late debounce timeout s := by
  obtain ⟨u, hsteps, hlate⟩ := h
  exact ⟨u, .head hnext hsteps, hlate⟩

omit [IsOrderedAddMonoid τ] in
lemma late_of_expired (hstop : s.shared.stop = .returned)
    (hk : (s.own i).timers[k]? = some ⟨armedAt, .expired⟩) : Late debounce timeout s := by
  have hnext : next debounce timeout s (.call i k) =
      some (s.move i s.shared ((s.own i).put k (.called (s.own i).mine true))) := by
    simp only [next, hk, hstop, decide_true]
  refine .head hnext ⟨_, .refl _, fun hnone => ?_⟩
  refine hnone i ⟨armedAt, .called (s.own i).mine true⟩ ?_ _ rfl
  rw [Threads.own_move_self]
  exact List.mem_of_getElem? (getElem?_put_self hk _)

lemma late_of_armed (hstop : s.shared.stop = .returned)
    (hk : (s.own i).timers[k]? = some ⟨armedAt, .armed⟩) : Late debounce timeout s := by
  let later : Service τ :=
    { s with shared := { s.shared with clock := max s.shared.clock (armedAt + debounce) } }
  have htick : next debounce timeout s (.tick (max s.shared.clock (armedAt + debounce))) =
      some later := if_pos (le_max_left ..)
  have hdue : debounce ≤ later.shared.clock - armedAt :=
    le_sub_iff_add_le'.2 (le_max_right ..)
  have hexpire : next debounce timeout later (.expire i k) =
      some (later.move i later.shared ((s.own i).put k .expired)) := by
    have hk' : (later.own i).timers[k]? = some ⟨armedAt, .armed⟩ := hk
    simp only [next, hk', if_pos hdue]
    rfl
  have hput : ((later.move i later.shared ((s.own i).put k .expired)).own i).timers[k]? =
      some ⟨armedAt, .expired⟩ := by
    rw [Threads.own_move_self]
    exact getElem?_put_self hk _
  exact .head htick (.head hexpire (late_of_expired hstop hput))

lemma late_of_joining (hstop : s.shared.stop = .joining since)
    (hk : (s.own i).timers[k]? = some ⟨armedAt, .armed⟩) : Late debounce timeout s := by
  let later : Service τ :=
    { s with shared := { s.shared with clock := max s.shared.clock (since + timeout) } }
  have htick : next debounce timeout s (.tick (max s.shared.clock (since + timeout))) =
      some later := if_pos (le_max_left ..)
  have hover : timeout ≤ later.shared.clock - since := le_sub_iff_add_le'.2 (le_max_right ..)
  have hjoined : next debounce timeout later .joined =
      some (stopGoes later .returned later.shared.observer) := by
    have hstop' : later.shared.stop = .joining since := hstop
    simp only [next, hstop', if_pos (Or.inr hover)]
  exact .head htick (.head hjoined (late_of_armed rfl hk))

/-- The remaining handlers do not keep `stop` from going on. -/
lemma late_of_cancelling (hstop : s.shared.stop = .cancelling g) (hg : g ≤ s.shared.handlers)
    (hi : i < g) (hk : (s.own i).timers[k]? = some ⟨armedAt, .armed⟩) :
    Late debounce timeout s := by
  obtain ⟨d, hd⟩ := Nat.exists_eq_add_of_le hg
  induction d generalizing s g with
  | zero =>
      have hnext : next debounce timeout s .stopObserver =
          some (stopGoes s (.joining s.shared.clock) .stopping) := by
        simp only [next, hstop, if_pos (show g = s.shared.handlers from hd.symm)]
      exact .head hnext (late_of_joining rfl hk)
  | succ d ih =>
      have hlt : g < s.shared.handlers := by omega
      have hnext : next debounce timeout s .cancel = some (s.move g
          { s.shared with stop := .cancelling (g + 1) } (s.own g).cancelPending) := by
        simp only [next, hstop, if_pos hlt]
      refine .head hnext (ih rfl hlt (by omega) ?_ (by simp; omega))
      rw [Threads.own_move_of_ne (by omega)]
      exact hk

/-- `stop` does not cancel more handlers than there are. -/
def InRange (s : Service τ) : Prop := ∀ g, s.shared.stop = .cancelling g → g ≤ s.shared.handlers

omit [IsOrderedAddMonoid τ] in
lemma inRange_next (h : InRange s) (hnext : next debounce timeout s a = some s') :
    InRange s' := by
  cases moves_of_next hnext with
  | tick | taken | ignored | expire | call | observerEnds => exact h
  | stop _ _ =>
      intro g hg
      obtain rfl := Stop.cancelling.inj hg
      exact Nat.zero_le _
  | cancel _ hlt =>
      intro g hg
      obtain rfl := Stop.cancelling.inj hg
      exact hlt
  | stopEmpty | stopObserver | joined => nofun

omit [IsOrderedAddMonoid τ] in
lemma inRange_of_reachable (h : (system debounce timeout).Reachable s) : InRange s := by
  have hinit : ∀ s : Service τ, (system debounce timeout).init s → InRange s := by
    intro s hs g hg
    rw [hs.1] at hg
    cases hg
  exact h.invariant hinit fun _ _ _ hs _ hnext => inRange_next hs hnext

/-- **The conditions are needed.**  After a step that does not meet them a mine may start when
`stop` has returned. -/
theorem exists_late (h : (system debounce timeout).Reachable s)
    (hnext : next debounce timeout s a = some s') (hdis : ¬Orderly s a) :
    Late debounce timeout s' := by
  cases moves_of_next hnext with
  | @taken i e _ htaken =>
      simp only [Orderly, Classical.not_imp, Bool.not_eq_false] at hdis
      have hk : ((s.move i s.shared ((s.own i).arm s.shared.clock)).own i).timers[
          (s.own i).timers.length]? = some ⟨s.shared.clock, .armed⟩ := by
        rw [Threads.own_move_self]
        simp [Handler.arm]
      cases hstop : s.shared.stop with
      | notCalled => exact absurd hdis.2 (by rw [hstop]; nofun)
      | cancelling g =>
          rw [hstop] at hdis
          exact late_of_cancelling hstop (inRange_of_reachable h g hstop)
            (of_decide_eq_true hdis.2) hk
      | joining since => exact late_of_joining hstop hk
      | returned => exact late_of_armed hstop hk
  | ignored hignored =>
      refine absurd (fun htaken => ?_) hdis
      rw [hignored] at htaken
      cases htaken
  | joined _ _ =>
      simp only [Orderly, not_forall, not_not] at hdis
      obtain ⟨i, -, ⟨armedAt, status⟩, ht, rfl⟩ := hdis
      obtain ⟨k, hk⟩ := List.mem_iff_getElem?.1 ht
      exact late_of_expired rfl hk
  | tick | expire | call | stopEmpty | stop | cancel | stopObserver | observerEnds =>
      exact absurd trivial hdis

end late

/-! ### Two runs -/

def note : FileEvent := ⟨.modified, false, "/notes/a.md".toList, []⟩

/-- Two targets, and no event yet. -/
def started : Service ℤ :=
  ⟨⟨0, 2, .notCalled, .running⟩, fun i => ⟨⟨['/', Char.ofNat (97 + i)], ['w']⟩, [], none⟩⟩

lemma init_started : (system 2 5).init started := ⟨rfl, rfl, fun _ => ⟨rfl, rfl⟩⟩

/-- A mine after two events, and then `stop`. -/
def quietRun : List (Label ℤ) :=
  [.event 0 note, .tick 1, .event 0 note, .tick 3, .expire 0 1, .call 0 1, .event 1 note, .stop,
    .cancel, .cancel, .stopObserver, .observerEnds, .joined, .tick 9]

/-- An event reaches the handler when its timer is cancelled, and the observer not yet stopped. -/
def lateRun : List (Label ℤ) :=
  [.event 0 note, .tick 1, .stop, .cancel, .event 0 note, .cancel, .stopObserver, .observerEnds,
    .joined, .tick 3, .expire 0 1, .call 0 1]

theorem stop_quiet_two : ∃ s : Service ℤ, s.shared.stop = .returned ∧
    ((s.own 0).timers.map fun t => t.status) =
      [.cancelled, .called ⟨['/', 'a'], ['w']⟩ false] ∧
    NoneLate s ∧ Debounced 2 s := by
  have hinit : (system 2 5).ReachedBy Orderly started := .init init_started
  obtain ⟨s, hs, hend⟩ := hinit.exists_of_execBy_any quietRun
    (fun s => decide (s.shared.stop = .returned ∧ ((s.own 0).timers.map fun t => t.status) =
      [.cancelled, .called ⟨['/', 'a'], ['w']⟩ false])) (by decide +kernel)
  obtain ⟨hstop, htimers⟩ := of_decide_eq_true hend
  exact ⟨s, hstop, htimers, stop_quiet.1 hs, stop_quiet.2 hs.reachable⟩

theorem stop_quiet_fails :
    ¬∀ s : Service ℤ, (system 2 5).Reachable s → NoneLate s ∧ Debounced 2 s := by
  intro hquiet
  obtain ⟨s, hs, hend⟩ := (system 2 5).exists_of_exec_any started lateRun
    (fun s => (s.own 0).timers.any fun t =>
      decide (t.status = .called ⟨['/', 'a'], ['w']⟩ true)) (by decide +kernel)
  obtain ⟨t, ht, hcalled⟩ := List.any_eq_true.1 hend
  exact (hquiet s (StepSystem.Reachable.exec (.init init_started) hs)).1 0 t ht _
    (of_decide_eq_true hcalled)

end PalaceDaemon.Watcher
