import Smirror.Cron.NotifyAll

/-!
# The worker pool of `notifyAll` (proxy-based service)

`notifyAll` starts `Limit = 50` workers, sends the pending objects one by one
on a queue of capacity `n`, closes it, waits for the workers, and then reads `n`
results from an error channel of capacity `n`, returning the first non-nil one.
Each worker takes objects off the queue until it is closed and empty, calls
`notify` on each, and sends the result on the error channel.

The goroutines are interleaved by a step function over labels: `.main` moves
the main goroutine, `.worker j r` moves worker `j`, where `r` is the answer its
`notify` call gets if it is making one. A move that would block (a send on a
full channel, a receive on an empty open one, `Wait` with a worker still
running) is `none`. Every interleaving is a sequence of labels.

Three ghost fields record what the code does not keep: `received` (the objects
the workers took, in order), `notified` (each finished `notify` call and its
result) and `drained` (the results the main goroutine read).

## Main results

* `reach_inv`: every reachable state satisfies `Inv`.
* `queue_not_full`, `errors_not_full`: no send ever finds its
  channel full.
* `handed_subperm`, `returned_handed`: no object is handed to `notify`
  twice, and by the time `notifyAll` returns every object has been.
* `returned_answers`: what `notifyAll` returns keeps the promise of
  `Answers`: `nil` when every notification returned `nil`, otherwise one of
  their errors.
* `progress`, `stuck_finished`: a reachable state whose main goroutine has
  not returned can move, so a run can only stop with every goroutine finished.
* `step_rank_lt`, `run_finite`: every move lowers a rank, so every
  interleaving is finite.
-/

namespace Smirror.Cron.Pool

open scoped List

variable {α : Type}

/-- `Limit`, the number of workers. -/
def limit : Nat := 50

/-- Where the main goroutine is. -/
inductive Main
  | spawn (worker : Nat)
  | produce (i : Nat)
  | wait
  | drain (i : Nat)
  | returned (result : Option String)
deriving DecidableEq

/-- Where one worker is: in `for object := range queue`, calling `notify`,
sending a result, or finished (`waitGroup.Done()` ran). -/
inductive Worker (α : Type)
  | receiving
  | notifying (object : α)
  | sending (result : Option String)
  | done

namespace Worker

def isDone : Worker α → Bool
  | .done => true
  | _ => false

/-- The object a worker is calling `notify` on. -/
def inFlight : Worker α → Option α
  | .notifying object => some object
  | _ => none

/-- The result a worker is about to send. -/
def pendingSend : Worker α → Option (Option String)
  | .sending result => some result
  | _ => none

end Worker

/-- The goroutines and channels of one `notifyAll` call. -/
structure State (α : Type) where
  main : Main
  workers : List (Worker α)
  queue : List α
  closed : Bool
  errors : List (Option String)
  received : List α
  notified : List (α × Option String)
  drained : List (Option String)

/-- A move of one goroutine. -/
inductive Label
  | main
  | worker (j : Nat) (result : Option String)

/-- The state `notifyAll` starts in: an empty list returns `nil` at once. -/
def start (objects : List α) : State α :=
  { main := if objects.length = 0 then .returned none else .spawn 0, workers := [], queue := [],
    closed := false, errors := [], received := [], notified := [], drained := [] }

/-- The next move of the main goroutine. -/
def mainStep (objects : List α) (p : State α) : Option (State α) :=
  match p.main with
  | .spawn w =>
    if w < limit then some { p with main := .spawn (w + 1), workers := p.workers ++ [.receiving] }
    else some { p with main := .produce 0 }
  | .produce i =>
    match objects[i]? with
    | some object =>
      if p.queue.length < objects.length then
        some { p with main := .produce (i + 1), queue := p.queue ++ [object] }
      else none
    | none => some { p with main := .wait, closed := true }
  | .wait => if p.workers.all Worker.isDone then some { p with main := .drain 0 } else none
  | .drain i =>
    if i < objects.length then
      match p.errors with
      | [] => none
      | r :: rest =>
        some { p with errors := rest, drained := p.drained ++ [r],
                      main := if r.isSome then .returned r else .drain (i + 1) }
    else some { p with main := .returned none }
  | .returned _ => none

/-- The next move of worker `j`; `r` is the answer of its `notify` call. -/
def workerStep (objects : List α) (p : State α) (j : Nat) (r : Option String) :
    Option (State α) :=
  match p.workers[j]? with
  | some .receiving =>
    match p.queue with
    | object :: rest =>
      some { p with queue := rest, workers := p.workers.set j (.notifying object),
                    received := p.received ++ [object] }
    | [] => if p.closed then some { p with workers := p.workers.set j .done } else none
  | some (.notifying object) =>
    some { p with workers := p.workers.set j (.sending r), notified := p.notified ++ [(object, r)] }
  | some (.sending result) =>
    if p.errors.length < objects.length then
      some { p with errors := p.errors ++ [result], workers := p.workers.set j .receiving }
    else none
  | some .done => none
  | none => none

def step (objects : List α) (p : State α) : Label → Option (State α)
  | .main => mainStep objects p
  | .worker j r => workerStep objects p j r

/-- The states some interleaving reaches. -/
inductive Reach (objects : List α) : State α → Prop
  | start : Reach objects (start objects)
  | step {p q : State α} (l : Label) : Reach objects p → step objects p l = some q → Reach objects q

/-- The objects handed to `notify` so far: those whose call returned and those
whose call is under way. -/
def State.handed (p : State α) : List α :=
  p.notified.map Prod.fst ++ p.workers.filterMap Worker.inFlight

/-! ## What one move can do -/

theorem mainStep_cases {objects : List α} {p q : State α} (h : mainStep objects p = some q) :
    (∃ w, p.main = .spawn w ∧ w < limit ∧
      q = { p with main := .spawn (w + 1), workers := p.workers ++ [.receiving] }) ∨
    (∃ w, p.main = .spawn w ∧ limit ≤ w ∧ q = { p with main := .produce 0 }) ∨
    (∃ i object, p.main = .produce i ∧ objects[i]? = some object ∧
      p.queue.length < objects.length ∧
      q = { p with main := .produce (i + 1), queue := p.queue ++ [object] }) ∨
    (∃ i, p.main = .produce i ∧ objects[i]? = none ∧ q = { p with main := .wait, closed := true }) ∨
    (p.main = .wait ∧ (∀ w ∈ p.workers, w.isDone = true) ∧ q = { p with main := .drain 0 }) ∨
    (∃ i r rest, p.main = .drain i ∧ i < objects.length ∧ p.errors = r :: rest ∧
      q = { p with errors := rest, drained := p.drained ++ [r],
                   main := if r.isSome then .returned r else .drain (i + 1) }) ∨
    (∃ i, p.main = .drain i ∧ objects.length ≤ i ∧ q = { p with main := .returned none }) := by
  unfold mainStep at h
  split at h
  · split at h <;> cases h
    · exact .inl ⟨_, ‹_›, ‹_›, rfl⟩
    · exact .inr (.inl ⟨_, ‹_›, Nat.le_of_not_lt ‹_›, rfl⟩)
  · split at h
    · split at h <;> cases h
      exact .inr (.inr (.inl ⟨_, _, ‹_›, ‹_›, ‹_›, rfl⟩))
    · cases h
      exact .inr (.inr (.inr (.inl ⟨_, ‹_›, ‹_›, rfl⟩)))
  · split at h <;> cases h
    exact .inr (.inr (.inr (.inr (.inl ⟨‹_›, List.all_eq_true.mp ‹_›, rfl⟩))))
  · split at h
    · split at h <;> cases h
      exact .inr (.inr (.inr (.inr (.inr (.inl ⟨_, _, _, ‹_›, ‹_›, ‹_›, rfl⟩)))))
    · cases h
      exact .inr (.inr (.inr (.inr (.inr (.inr ⟨_, ‹_›, Nat.le_of_not_lt ‹_›, rfl⟩)))))
  · cases h

theorem workerStep_cases {objects : List α} {p q : State α} {j : Nat} {r : Option String}
    (h : workerStep objects p j r = some q) :
    (∃ object rest, p.workers[j]? = some .receiving ∧ p.queue = object :: rest ∧
      q = { p with queue := rest, workers := p.workers.set j (.notifying object),
                   received := p.received ++ [object] }) ∨
    (p.workers[j]? = some .receiving ∧ p.queue = [] ∧ p.closed = true ∧
      q = { p with workers := p.workers.set j .done }) ∨
    (∃ object, p.workers[j]? = some (.notifying object) ∧
      q = { p with workers := p.workers.set j (.sending r),
                   notified := p.notified ++ [(object, r)] }) ∨
    (∃ result, p.workers[j]? = some (.sending result) ∧ p.errors.length < objects.length ∧
      q = { p with errors := p.errors ++ [result], workers := p.workers.set j .receiving }) := by
  unfold workerStep at h
  split at h
  · split at h
    · cases h
      exact .inl ⟨_, _, ‹_›, ‹_›, rfl⟩
    · split at h <;> cases h
      exact .inr (.inl ⟨‹_›, ‹_›, ‹_›, rfl⟩)
  · cases h
    exact .inr (.inr (.inl ⟨_, ‹_›, rfl⟩))
  · split at h <;> cases h
    exact .inr (.inr (.inr ⟨_, ‹_›, ‹_›, rfl⟩))
  · cases h
  · cases h

/-! ## The invariant -/

namespace Main

/-- How many objects the main goroutine has sent on the queue. -/
def produced (n : Nat) : Main → Nat
  | .spawn _ => 0
  | .produce i => i
  | _ => n

def isProducing : Main → Bool
  | .spawn _ | .produce _ => true
  | _ => false

/-- Past `waitGroup.Wait()`. -/
def afterWait : Main → Bool
  | .drain _ | .returned _ => true
  | _ => false

/-- How many workers have been started. -/
def spawned : Main → Nat
  | .spawn w => w
  | _ => limit

/-- What the main goroutine has read from the error channel: only `nil`s, one
per loop turn, until it returns; an error it returns is among them. -/
def Drained (n : Nat) : Main → List (Option String) → Prop
  | .drain i, d => d.length = i ∧ i ≤ n ∧ ∀ x ∈ d, x = none
  | .returned none, d => d.length = n ∧ ∀ x ∈ d, x = none
  | .returned (some e), d => some e ∈ d
  | _, d => d = []

end Main

/-- The invariant of every reachable state. The workers took the objects the
main goroutine sent, in order; each taken object is notified or in flight;
each result is read, buffered, or about to be sent. -/
structure Inv (objects : List α) (p : State α) : Prop where
  queue_eq : p.received ++ p.queue = objects.take (p.main.produced objects.length)
  received_perm : p.notified.map Prod.fst ++ p.workers.filterMap Worker.inFlight ~ p.received
  results_perm :
    p.drained ++ p.errors ++ p.workers.filterMap Worker.pendingSend ~ p.notified.map Prod.snd
  closed_idle : p.closed = true → p.main.isProducing = false
  wait_closed : p.main = .wait → p.closed = true
  spawn_le : ∀ w, p.main = .spawn w → w ≤ limit
  workers_length : p.main.afterWait = false → p.workers.length = p.main.spawned
  done_empty : ∀ w ∈ p.workers, w.isDone = true → p.queue = [] ∧ p.closed = true
  after_wait : p.main.afterWait = true → p.queue = [] ∧ ∀ w ∈ p.workers, w.isDone = true
  drained : p.main.Drained objects.length p.drained

theorem inv_start (objects : List α) : Inv objects (start objects) := by
  unfold start
  split <;> constructor <;>
    simp_all [Main.produced, Main.isProducing, Main.afterWait, Main.spawned, Main.Drained]

/-- While the main goroutine produces, the queue is open and no worker has
finished. -/
theorem Inv.open_of_producing {objects : List α} {p : State α} (hI : Inv objects p)
    (hp : p.main.isProducing = true) : p.closed = false ∧ ∀ w ∈ p.workers, w.isDone = false := by
  have hOpen : p.closed = false := by
    cases hc : p.closed
    · rfl
    · simp [hI.closed_idle hc] at hp
  refine ⟨hOpen, fun w hw => ?_⟩
  cases hd : w.isDone
  · rfl
  · simp [(hI.done_empty w hw hd).2] at hOpen

theorem Inv.mainStep {objects : List α} {p q : State α} (hI : Inv objects p)
    (h : mainStep objects p = some q) : Inv objects q := by
  rcases mainStep_cases h with
    ⟨w, hm, hw, rfl⟩ | ⟨w, hm, hw, rfl⟩ | ⟨i, object, hm, hObj, hLen, rfl⟩ | ⟨i, hm, hNone, rfl⟩ |
    ⟨hm, hDone, rfl⟩ | ⟨i, r, rest, hm, hi, hErr, rfl⟩ | ⟨i, hm, hi, rfl⟩
  · -- `go func()`: one more worker
    obtain ⟨hOpen, hIdle⟩ := hI.open_of_producing (by simp [hm, Main.isProducing])
    exact {
      queue_eq := by simpa [hm, Main.produced] using hI.queue_eq
      received_perm := by simpa [List.filterMap_append, Worker.inFlight] using hI.received_perm
      results_perm := by simpa [List.filterMap_append, Worker.pendingSend] using hI.results_perm
      closed_idle := by simp [hOpen]
      wait_closed := by simp
      spawn_le := by simpa using hw
      workers_length := fun _ => by
        simp [hI.workers_length (by simp [hm, Main.afterWait]), hm, Main.spawned]
      done_empty := fun w hw' hd => by
        rcases List.mem_append.mp hw' with hw' | hw'
        · simp [hIdle w hw'] at hd
        · simp [List.mem_singleton.mp hw', Worker.isDone] at hd
      after_wait := by simp [Main.afterWait]
      drained := by simpa [hm, Main.Drained] using hI.drained }
  · -- the spawn loop ends
    obtain ⟨hOpen, hIdle⟩ := hI.open_of_producing (by simp [hm, Main.isProducing])
    have hLen : p.workers.length = limit := by
      rw [hI.workers_length (by simp [hm, Main.afterWait]), hm, Main.spawned]
      exact Nat.le_antisymm (hI.spawn_le w hm) hw
    exact {
      queue_eq := by simpa [hm, Main.produced] using hI.queue_eq
      received_perm := hI.received_perm
      results_perm := hI.results_perm
      closed_idle := by simp [hOpen]
      wait_closed := by simp
      spawn_le := by simp
      workers_length := fun _ => hLen
      done_empty := fun w hw' hd => by simp [hIdle w hw'] at hd
      after_wait := by simp [Main.afterWait]
      drained := by simpa [hm, Main.Drained] using hI.drained }
  · -- `queue <- objects[i]`
    obtain ⟨hOpen, hIdle⟩ := hI.open_of_producing (by simp [hm, Main.isProducing])
    exact {
      queue_eq := by
        rw [← List.append_assoc, hI.queue_eq]
        simp [hm, Main.produced, List.take_succ, hObj]
      received_perm := hI.received_perm
      results_perm := hI.results_perm
      closed_idle := by simp [hOpen]
      wait_closed := by simp
      spawn_le := by simp
      workers_length := fun _ => by
        simpa [hm, Main.spawned] using hI.workers_length (by simp [hm, Main.afterWait])
      done_empty := fun w hw' hd => by simp [hIdle w hw'] at hd
      after_wait := by simp [Main.afterWait]
      drained := by simpa [hm, Main.Drained] using hI.drained }
  · -- `close(queue)`
    have hAll : objects.length ≤ i := List.getElem?_eq_none_iff.mp hNone
    exact {
      queue_eq := by
        rw [hI.queue_eq, hm]
        simp [Main.produced, List.take_of_length_le hAll]
      received_perm := hI.received_perm
      results_perm := hI.results_perm
      closed_idle := fun _ => rfl
      wait_closed := by simp
      spawn_le := by simp
      workers_length := fun _ => by
        simpa [hm, Main.spawned] using hI.workers_length (by simp [hm, Main.afterWait])
      done_empty := fun w hw' hd => ⟨(hI.done_empty w hw' hd).1, rfl⟩
      after_wait := by simp [Main.afterWait]
      drained := by simpa [hm, Main.Drained] using hI.drained }
  · -- `waitGroup.Wait()` returns
    have hLen : p.workers.length = limit := by
      simpa [hm, Main.spawned] using hI.workers_length (by simp [hm, Main.afterWait])
    obtain ⟨w, hw⟩ := List.exists_mem_of_length_pos (by simp [hLen, limit] : 0 < p.workers.length)
    have hNone : p.drained = [] := by simpa [hm, Main.Drained] using hI.drained
    exact {
      queue_eq := by simpa [hm, Main.produced] using hI.queue_eq
      received_perm := hI.received_perm
      results_perm := hI.results_perm
      closed_idle := fun _ => rfl
      wait_closed := by simp
      spawn_le := by simp
      workers_length := by simp [Main.afterWait]
      done_empty := hI.done_empty
      after_wait := fun _ => ⟨(hI.done_empty w hw (hDone w hw)).1, hDone⟩
      drained := by simp [Main.Drained, hNone] }
  · -- `err := <-errorChannel`
    obtain ⟨hDrained, hle, hNil⟩ : p.drained.length = i ∧ i ≤ objects.length ∧
        ∀ x ∈ p.drained, x = none := by simpa [hm, Main.Drained] using hI.drained
    have hAfter := hI.after_wait (by simp [hm, Main.afterWait])
    exact {
      queue_eq := by cases r <;> simpa [hm, Main.produced] using hI.queue_eq
      received_perm := hI.received_perm
      results_perm := by simpa [hErr] using hI.results_perm
      closed_idle := fun _ => by cases r <;> rfl
      wait_closed := by cases r <;> simp
      spawn_le := by cases r <;> simp
      workers_length := by cases r <;> simp [Main.afterWait]
      done_empty := hI.done_empty
      after_wait := fun _ => hAfter
      drained := by
        cases r with
        | none =>
          exact ⟨by simp [hDrained], hi,
            fun x hx => (List.mem_append.mp hx).elim (hNil x) List.mem_singleton.mp⟩
        | some e => simp [Main.Drained] }
  · -- the loop ends: `return nil`
    obtain ⟨hDrained, hle, hNil⟩ : p.drained.length = i ∧ i ≤ objects.length ∧
        ∀ x ∈ p.drained, x = none := by simpa [hm, Main.Drained] using hI.drained
    exact {
      queue_eq := by simpa [hm, Main.produced] using hI.queue_eq
      received_perm := hI.received_perm
      results_perm := hI.results_perm
      closed_idle := fun _ => rfl
      wait_closed := by simp
      spawn_le := by simp
      workers_length := by simp [Main.afterWait]
      done_empty := hI.done_empty
      after_wait := fun _ => hI.after_wait (by simp [hm, Main.afterWait])
      drained := ⟨hDrained.trans (Nat.le_antisymm hle hi), hNil⟩ }

/-- A worker that has not finished rules out the phase after `Wait`. -/
theorem Inv.before_wait {objects : List α} {p : State α} (hI : Inv objects p) {j : Nat}
    {w : Worker α} (hj : p.workers[j]? = some w) (hw : w.isDone = false) :
    p.main.afterWait = false := by
  cases ha : p.main.afterWait
  · rfl
  · simp [(hI.after_wait ha).2 w (List.getElem?_mem hj)] at hw

theorem Inv.workerStep {objects : List α} {p q : State α} {j : Nat} {r : Option String}
    (hI : Inv objects p) (h : workerStep objects p j r = some q) : Inv objects q := by
  rcases workerStep_cases h with ⟨object, rest, hj, hq, rfl⟩ | ⟨hj, hq, hc, rfl⟩ |
    ⟨object, hj, rfl⟩ | ⟨result, hj, hLen, rfl⟩
  · -- `for object := range queue` takes `object`
    have hFlight := filterMap_set_perm Worker.inFlight hj (.notifying object)
    have hSend := filterMap_set_perm Worker.pendingSend hj (.notifying object)
    simp only [Worker.inFlight, Worker.pendingSend, Option.toList, List.nil_append] at hFlight hSend
    exact {
      queue_eq := by simpa [hq] using hI.queue_eq
      received_perm := perm_shift hI.received_perm hFlight
      results_perm := (hSend.append_left _).trans hI.results_perm
      closed_idle := hI.closed_idle
      wait_closed := hI.wait_closed
      spawn_le := hI.spawn_le
      workers_length := fun ha => by simpa using hI.workers_length ha
      done_empty := fun w hw hd => by
        rcases List.mem_or_eq_of_mem_set hw with hw | rfl
        · simp [(hI.done_empty w hw hd).1] at hq
        · simp [Worker.isDone] at hd
      after_wait := fun ha => by simp [hI.before_wait hj rfl] at ha
      drained := hI.drained }
  · -- the queue is closed and empty: the worker finishes
    have hFlight := filterMap_set_perm Worker.inFlight hj .done
    have hSend := filterMap_set_perm Worker.pendingSend hj .done
    simp only [Worker.inFlight, Worker.pendingSend, Option.toList, List.nil_append] at hFlight hSend
    exact {
      queue_eq := hI.queue_eq
      received_perm := (hFlight.append_left _).trans hI.received_perm
      results_perm := (hSend.append_left _).trans hI.results_perm
      closed_idle := hI.closed_idle
      wait_closed := hI.wait_closed
      spawn_le := hI.spawn_le
      workers_length := fun ha => by simpa using hI.workers_length ha
      done_empty := fun _ _ _ => ⟨hq, hc⟩
      after_wait := fun ha => by simp [hI.before_wait hj rfl] at ha
      drained := hI.drained }
  · -- `notify` returns `r`
    have hFlight := filterMap_set_perm Worker.inFlight hj (.sending r)
    have hSend := filterMap_set_perm Worker.pendingSend hj (.sending r)
    simp only [Worker.inFlight, Worker.pendingSend, Option.toList, List.nil_append] at hFlight hSend
    exact {
      queue_eq := hI.queue_eq
      received_perm := by
        simpa using (hFlight.append_left (p.notified.map Prod.fst)).trans hI.received_perm
      results_perm := by simpa using perm_shift hI.results_perm hSend
      closed_idle := hI.closed_idle
      wait_closed := hI.wait_closed
      spawn_le := hI.spawn_le
      workers_length := fun ha => by simpa using hI.workers_length ha
      done_empty := fun w hw hd => by
        rcases List.mem_or_eq_of_mem_set hw with hw | rfl
        · exact hI.done_empty w hw hd
        · simp [Worker.isDone] at hd
      after_wait := fun ha => by simp [hI.before_wait hj rfl] at ha
      drained := hI.drained }
  · -- `errorChannel <- result`
    have hFlight := filterMap_set_perm Worker.inFlight hj .receiving
    have hSend := filterMap_set_perm Worker.pendingSend hj .receiving
    simp only [Worker.inFlight, Worker.pendingSend, Option.toList, List.nil_append] at hFlight hSend
    exact {
      queue_eq := hI.queue_eq
      received_perm := (hFlight.append_left _).trans hI.received_perm
      results_perm := by
        simpa using (hSend.append_left (p.drained ++ p.errors)).trans hI.results_perm
      closed_idle := hI.closed_idle
      wait_closed := hI.wait_closed
      spawn_le := hI.spawn_le
      workers_length := fun ha => by simpa using hI.workers_length ha
      done_empty := fun w hw hd => by
        rcases List.mem_or_eq_of_mem_set hw with hw | rfl
        · exact hI.done_empty w hw hd
        · simp [Worker.isDone] at hd
      after_wait := fun ha => by simp [hI.before_wait hj rfl] at ha
      drained := hI.drained }

/-- Every state some interleaving reaches satisfies the invariant. -/
theorem reach_inv {objects : List α} {p : State α} (h : Reach objects p) : Inv objects p := by
  induction h with
  | start => exact inv_start objects
  | step l _ hs ih =>
    cases l with
    | main => exact ih.mainStep hs
    | worker j r => exact ih.workerStep hs

/-! ## Consequences for every interleaving -/

section Reachable

variable {objects : List α} {p : State α}

/-- Results read, buffered or about to be sent, objects in flight and objects
queued together number at most the objects sent. -/
theorem Inv.counts (hI : Inv objects p) :
    p.drained.length + p.errors.length + (p.workers.filterMap Worker.pendingSend).length +
      (p.workers.filterMap Worker.inFlight).length + p.queue.length ≤ objects.length := by
  have hResults := hI.results_perm.length_eq
  have hReceived := hI.received_perm.length_eq
  have hQueue := congrArg List.length hI.queue_eq
  simp only [List.length_append, List.length_map, List.length_take] at hResults hReceived hQueue
  omega

/-- After `Wait`, every object was taken and notified, and every result is read
or buffered. -/
theorem Inv.after_wait_eq (hI : Inv objects p) (ha : p.main.afterWait = true) :
    p.received = objects ∧ p.notified.map Prod.fst ~ objects ∧
      p.drained ++ p.errors ~ p.notified.map Prod.snd := by
  obtain ⟨hq, hDone⟩ := hI.after_wait ha
  have hIdle : ∀ w ∈ p.workers, w = .done := fun w hw => by
    have hd := hDone w hw
    cases w <;> first | rfl | simp [Worker.isDone] at hd
  have hIn : p.workers.filterMap Worker.inFlight = [] :=
    List.filterMap_eq_nil_iff.mpr fun w hw => by simp [hIdle w hw, Worker.inFlight]
  have hSend : p.workers.filterMap Worker.pendingSend = [] :=
    List.filterMap_eq_nil_iff.mpr fun w hw => by simp [hIdle w hw, Worker.pendingSend]
  have hReceived : p.received = objects := by
    have hEq := hI.queue_eq
    rw [hq, List.append_nil] at hEq
    rw [hEq]
    cases hm : p.main <;> simp_all [Main.produced, Main.afterWait]
  have hNotified := hI.received_perm
  have hResults := hI.results_perm
  rw [hIn, List.append_nil, hReceived] at hNotified
  rw [hSend, List.append_nil] at hResults
  exact ⟨hReceived, hNotified, hResults⟩

/-- No object is handed to `notify` twice, nor one that is not pending. -/
theorem handed_subperm (h : Reach objects p) : p.handed <+~ objects := by
  have hI := reach_inv h
  have hTaken : p.received <+ objects :=
    (List.sublist_append_left _ p.queue).trans (hI.queue_eq ▸ List.take_sublist _ _)
  exact hI.received_perm.subperm.trans hTaken.subperm

/-- The work queue is never full when the main goroutine sends on it. -/
theorem queue_not_full (h : Reach objects p) {i : Nat} (hm : p.main = .produce i)
    (hi : i < objects.length) : p.queue.length < objects.length := by
  have hQueue := congrArg List.length (reach_inv h).queue_eq
  simp only [hm, Main.produced, List.length_append, List.length_take] at hQueue
  omega

/-- The error channel is never full when a worker sends on it. -/
theorem errors_not_full (h : Reach objects p) {j : Nat} {r : Option String}
    (hj : p.workers[j]? = some (.sending r)) : p.errors.length < objects.length := by
  have hCounts := (reach_inv h).counts
  have hPos : 0 < (p.workers.filterMap Worker.pendingSend).length :=
    List.length_pos_of_mem (List.mem_filterMap.mpr ⟨_, List.getElem?_mem hj, rfl⟩)
  omega

/-- When `notifyAll` returns `nil`, every object was handed to `notify` exactly
once and every notification returned `nil`. -/
theorem returned_none (h : Reach objects p) (hm : p.main = .returned none) :
    p.notified.map Prod.fst ~ objects ∧ ∀ x ∈ p.notified, x.2 = none := by
  have hI := reach_inv h
  obtain ⟨-, hNotified, hResults⟩ := hI.after_wait_eq (by simp [hm, Main.afterWait])
  obtain ⟨hLen, hNil⟩ : p.drained.length = objects.length ∧ ∀ x ∈ p.drained, x = none := by
    simpa [hm, Main.Drained] using hI.drained
  have hErrors : p.errors = [] := by
    have h₁ := hResults.length_eq
    have h₂ := hNotified.length_eq
    simp only [List.length_append, List.length_map] at h₁ h₂
    exact List.eq_nil_of_length_eq_zero (by omega)
  rw [hErrors, List.append_nil] at hResults
  exact ⟨hNotified, fun x hx => hNil _ (hResults.mem_iff.mpr (List.mem_map_of_mem _ hx))⟩

/-- When `notifyAll` returns an error, some notification returned it. -/
theorem returned_some (h : Reach objects p) {e : String} (hm : p.main = .returned (some e)) :
    ∃ object, (object, some e) ∈ p.notified := by
  have hI := reach_inv h
  obtain ⟨-, -, hResults⟩ := hI.after_wait_eq (by simp [hm, Main.afterWait])
  have hIn : some e ∈ p.drained := by simpa [hm, Main.Drained] using hI.drained
  obtain ⟨⟨object, r⟩, hx, rfl⟩ :=
    List.mem_map.mp (hResults.mem_iff.mp (List.mem_append_left _ hIn))
  exact ⟨object, hx⟩

/-- When `notifyAll` returns, every object has been handed to `notify` once. -/
theorem returned_handed (h : Reach objects p) {r : Option String} (hm : p.main = .returned r) :
    p.handed ~ objects := by
  have hI := reach_inv h
  obtain ⟨hReceived, -, -⟩ := hI.after_wait_eq (by simp [hm, Main.afterWait])
  exact hReceived ▸ hI.received_perm

/-- What `notifyAll` returns keeps the promise of `Answers`. -/
theorem returned_answers (h : Reach objects p) {r : Option String} (hm : p.main = .returned r) :
    Answers objects p.notified r := by
  cases r with
  | none => exact returned_none h hm
  | some e => exact returned_some h hm

/-- No deadlock: until the main goroutine returns, some goroutine can move. -/
theorem progress (h : Reach objects p) (hm : ∀ r, p.main ≠ .returned r) :
    ∃ l q, step objects p l = some q := by
  have hI := reach_inv h
  suffices ∃ l, (step objects p l).isSome by
    obtain ⟨l, hl⟩ := this
    exact ⟨l, Option.isSome_iff_exists.mp hl⟩
  cases hMain : p.main with
  | spawn w => exact ⟨.main, by simp only [step, mainStep, hMain]; split <;> rfl⟩
  | produce i =>
    refine ⟨.main, ?_⟩
    cases hObj : objects[i]? with
    | none => simp [step, mainStep, hMain, hObj]
    | some object =>
      have hi : i < objects.length := (List.getElem?_eq_some_iff.mp hObj).1
      simp [step, mainStep, hMain, hObj, queue_not_full h hMain hi]
  | wait =>
    by_cases hAll : p.workers.all Worker.isDone
    · exact ⟨.main, by simp [step, mainStep, hMain, hAll]⟩
    · obtain ⟨w, hw, hd⟩ : ∃ w ∈ p.workers, w.isDone = false := by simpa using hAll
      obtain ⟨j, hj⟩ := List.mem_iff_getElem?.mp hw
      refine ⟨.worker j none, ?_⟩
      cases w with
      | receiving =>
        cases hq : p.queue with
        | nil => simp [step, workerStep, hj, hq, hI.wait_closed hMain]
        | cons object rest => simp [step, workerStep, hj, hq]
      | notifying object => simp [step, workerStep, hj]
      | sending r => simp [step, workerStep, hj, errors_not_full h hj]
      | done => simp [Worker.isDone] at hd
  | drain i =>
    refine ⟨.main, ?_⟩
    by_cases hi : i < objects.length
    · obtain ⟨-, hNotified, hResults⟩ := hI.after_wait_eq (by simp [hMain, Main.afterWait])
      obtain ⟨hLen, -, -⟩ : p.drained.length = i ∧ i ≤ objects.length ∧
          ∀ x ∈ p.drained, x = none := by simpa [hMain, Main.Drained] using hI.drained
      cases hErr : p.errors with
      | nil =>
        have h₁ := hResults.length_eq
        have h₂ := hNotified.length_eq
        simp only [hErr, List.length_append, List.length_map, List.length_nil] at h₁ h₂
        omega
      | cons r rest => simp [step, mainStep, hMain, hi, hErr]
    · simp [step, mainStep, hMain, hi]
  | returned r => exact absurd hMain (hm r)

/-- No goroutine is left blocked: a reachable state in which nothing can move
is one where `notifyAll` has returned and every worker has finished. -/
theorem stuck_finished (h : Reach objects p) (hStuck : ∀ l, step objects p l = none) :
    (∃ r, p.main = .returned r) ∧ ∀ w ∈ p.workers, w.isDone = true := by
  have hReturned : ∃ r, p.main = .returned r := by
    by_contra hm
    obtain ⟨l, q, hq⟩ := progress h fun r hr => hm ⟨r, hr⟩
    simp [hStuck l] at hq
  obtain ⟨r, hr⟩ := hReturned
  exact ⟨⟨r, hr⟩, ((reach_inv h).after_wait (by simp [hr, Main.afterWait])).2⟩

end Reachable

/-! ## Termination -/

/-- Moves a worker has left before it can finish, given an empty queue. -/
def Worker.cost : Worker α → Nat
  | .receiving => 1
  | .notifying _ => 3
  | .sending _ => 2
  | .done => 0

/-- Moves the main goroutine has left, at most. -/
def Main.cost (n : Nat) : Main → Nat
  | .spawn w => 2 * (limit - w) + 2 * n + 4
  | .produce i => (n - i) + n + 3
  | .wait => n + 2
  | .drain i => n - i + 1
  | .returned _ => 0

/-- The rank of a state: each move lowers it. An object not yet taken costs
three worker moves (take, notify, send). -/
def rank (objects : List α) (p : State α) : Nat :=
  p.main.cost objects.length + totalCost Worker.cost p.workers +
    3 * (objects.length - p.received.length)

theorem mainStep_rank_lt {objects : List α} {p q : State α} (h : mainStep objects p = some q) :
    rank objects q < rank objects p := by
  rcases mainStep_cases h with
    ⟨w, hm, hw, rfl⟩ | ⟨w, hm, hw, rfl⟩ | ⟨i, object, hm, hObj, -, rfl⟩ | ⟨i, hm, hNone, rfl⟩ |
    ⟨hm, -, rfl⟩ | ⟨i, r, rest, hm, hi, -, rfl⟩ | ⟨i, hm, hi, rfl⟩
  · simp only [rank, hm, Main.cost, totalCost_append, totalCost_singleton, Worker.cost]
    omega
  · simp only [rank, hm, Main.cost]
    omega
  · have hi : i < objects.length := (List.getElem?_eq_some_iff.mp hObj).1
    simp only [rank, hm, Main.cost]
    omega
  · have hAll : objects.length ≤ i := List.getElem?_eq_none_iff.mp hNone
    simp only [rank, hm, Main.cost]
    omega
  · simp only [rank, hm, Main.cost]
    omega
  · cases r with
    | none =>
      simp [rank, hm, Main.cost]
      omega
    | some e => simp [rank, hm, Main.cost]
  · simp only [rank, hm, Main.cost]
    omega

theorem workerStep_rank_lt {objects : List α} {p q : State α} {j : Nat} {r : Option String}
    (hI : Inv objects p) (h : workerStep objects p j r = some q) :
    rank objects q < rank objects p := by
  rcases workerStep_cases h with ⟨object, rest, hj, hq, rfl⟩ | ⟨hj, -, -, rfl⟩ |
    ⟨object, hj, rfl⟩ | ⟨result, hj, -, rfl⟩
  · have hCost := totalCost_set Worker.cost hj (.notifying object)
    have hQueue := congrArg List.length hI.queue_eq
    simp only [hq, List.length_append, List.length_cons, List.length_take] at hQueue
    simp only [rank, Worker.cost, List.length_append, List.length_singleton] at hCost ⊢
    omega
  · have hCost := totalCost_set Worker.cost hj .done
    simp only [rank, Worker.cost] at hCost ⊢
    omega
  · have hCost := totalCost_set Worker.cost hj (.sending r)
    simp only [rank, Worker.cost] at hCost ⊢
    omega
  · have hCost := totalCost_set Worker.cost hj .receiving
    simp only [rank, Worker.cost] at hCost ⊢
    omega

/-- Every move lowers the rank. -/
theorem step_rank_lt {objects : List α} {p q : State α} {l : Label} (h : Reach objects p)
    (hs : step objects p l = some q) : rank objects q < rank objects p := by
  cases l with
  | main => exact mainStep_rank_lt hs
  | worker j r => exact workerStep_rank_lt (reach_inv h) hs

/-- Every interleaving is finite: the moves between reachable states admit no
infinite sequence. -/
theorem run_finite (objects : List α) :
    WellFounded fun q p : State α => Reach objects p ∧ ∃ l, step objects p l = some q :=
  Subrelation.wf (fun ⟨hp, _, hs⟩ => step_rank_lt hp hs) (measure (rank objects)).wf

end Smirror.Cron.Pool
