import Smirror.Cron.NotifyAll

/-!
# One goroutine per object: `notifyAll` (trigger-based services)

The `notifyAll` of the trigger-based services starts one goroutine per pending
object; each calls `notify` on its object, sends the result on an error
channel of capacity `n`, and then runs its deferred `waitGroup.Done()`. The
main goroutine reads `n` results and returns the first non-nil one. It never
waits on the `WaitGroup`: it can return while goroutines have yet to run
`Done()`, and after an early return the rest still finish, into the channel's
spare room.

Moves are labelled as in `Smirror.Cron.Pool`: `.main` moves the main goroutine,
`.sender j r` moves goroutine `j`, where `r` is the answer its `notify` call
gets if it is making one. A move that would block is `none`. The ghost fields
`notified` and `drained` record the finished `notify` calls with their results
and the results the main goroutine read.

## Main results

* `reach_inv`: every reachable state satisfies `Inv`.
* `errors_not_full`: no send ever finds the error channel full.
* `handed_subperm`, `returned_handed`: no object is handed to `notify`
  twice, and by the time `notifyAll` returns every object has been.
* `returned_answers`: what `notifyAll` returns keeps the promise of `Answers`.
* `returned_none_sent`: a `nil` answer comes after every result was sent.
* `progress`, `sender_progress`, `stuck_finished`: until the main goroutine
  returns some goroutine can move, an unfinished goroutine can always move, so a
  run can only stop with every goroutine finished.
* `step_rank_lt`, `run_finite`: every interleaving is finite.
-/

namespace Smirror.Cron.Fanout

open scoped List

variable {α : Type}

/-- Where the main goroutine is: starting goroutine `i`, in turn `i` of the
receive loop, or returned. -/
inductive Main
  | spawn (i : Nat)
  | drain (i : Nat)
  | returned (result : Option String)
deriving DecidableEq

/-- Where one goroutine is: calling `notify`, sending its result, running the
deferred `waitGroup.Done()` after the send, or finished. -/
inductive Sender (α : Type)
  | notifying (object : α)
  | sending (result : Option String)
  | finishing
  | done

namespace Sender

def isDone : Sender α → Bool
  | .done => true
  | _ => false

/-- The object a goroutine is calling `notify` on. -/
def inFlight : Sender α → Option α
  | .notifying object => some object
  | _ => none

/-- The result a goroutine is about to send. -/
def pendingSend : Sender α → Option (Option String)
  | .sending result => some result
  | _ => none

end Sender

/-- The goroutines and the error channel of one `notifyAll` call. -/
structure State (α : Type) where
  main : Main
  senders : List (Sender α)
  errors : List (Option String)
  notified : List (α × Option String)
  drained : List (Option String)

/-- A move of one goroutine. -/
inductive Label
  | main
  | sender (j : Nat) (result : Option String)

/-- The state `notifyAll` starts in: an empty list returns `nil` at once. -/
def start (objects : List α) : State α :=
  { main := if objects.length = 0 then .returned none else .spawn 0, senders := [], errors := [],
    notified := [], drained := [] }

/-- The next move of the main goroutine. -/
def mainStep (objects : List α) (p : State α) : Option (State α) :=
  match p.main with
  | .spawn i =>
    match objects[i]? with
    | some object =>
      some { p with main := .spawn (i + 1), senders := p.senders ++ [.notifying object] }
    | none => some { p with main := .drain 0 }
  | .drain i =>
    if i < objects.length then
      match p.errors with
      | [] => none
      | r :: rest =>
        some { p with errors := rest, drained := p.drained ++ [r],
                      main := if r.isSome then .returned r else .drain (i + 1) }
    else some { p with main := .returned none }
  | .returned _ => none

/-- The next move of goroutine `j`; `r` is the answer of its `notify` call. -/
def senderStep (objects : List α) (p : State α) (j : Nat) (r : Option String) :
    Option (State α) :=
  match p.senders[j]? with
  | some (.notifying object) =>
    some { p with senders := p.senders.set j (.sending r), notified := p.notified ++ [(object, r)] }
  | some (.sending result) =>
    if p.errors.length < objects.length then
      some { p with errors := p.errors ++ [result], senders := p.senders.set j .finishing }
    else none
  | some .finishing => some { p with senders := p.senders.set j .done }
  | some .done => none
  | none => none

def step (objects : List α) (p : State α) : Label → Option (State α)
  | .main => mainStep objects p
  | .sender j r => senderStep objects p j r

/-- The states some interleaving reaches. -/
inductive Reach (objects : List α) : State α → Prop
  | start : Reach objects (start objects)
  | step {p q : State α} (l : Label) : Reach objects p → step objects p l = some q → Reach objects q

/-- The objects handed to `notify` so far: those whose call returned and those
whose call is under way. -/
def State.handed (p : State α) : List α :=
  p.notified.map Prod.fst ++ p.senders.filterMap Sender.inFlight

/-! ## What one move can do -/

theorem mainStep_cases {objects : List α} {p q : State α} (h : mainStep objects p = some q) :
    (∃ i object, p.main = .spawn i ∧ objects[i]? = some object ∧
      q = { p with main := .spawn (i + 1), senders := p.senders ++ [.notifying object] }) ∨
    (∃ i, p.main = .spawn i ∧ objects[i]? = none ∧ q = { p with main := .drain 0 }) ∨
    (∃ i r rest, p.main = .drain i ∧ i < objects.length ∧ p.errors = r :: rest ∧
      q = { p with errors := rest, drained := p.drained ++ [r],
                   main := if r.isSome then .returned r else .drain (i + 1) }) ∨
    (∃ i, p.main = .drain i ∧ objects.length ≤ i ∧ q = { p with main := .returned none }) := by
  unfold mainStep at h
  split at h
  · split at h <;> cases h
    · exact .inl ⟨_, _, ‹_›, ‹_›, rfl⟩
    · exact .inr (.inl ⟨_, ‹_›, ‹_›, rfl⟩)
  · split at h
    · split at h <;> cases h
      exact .inr (.inr (.inl ⟨_, _, _, ‹_›, ‹_›, ‹_›, rfl⟩))
    · cases h
      exact .inr (.inr (.inr ⟨_, ‹_›, Nat.le_of_not_lt ‹_›, rfl⟩))
  · cases h

theorem senderStep_cases {objects : List α} {p q : State α} {j : Nat} {r : Option String}
    (h : senderStep objects p j r = some q) :
    (∃ object, p.senders[j]? = some (.notifying object) ∧
      q = { p with senders := p.senders.set j (.sending r),
                   notified := p.notified ++ [(object, r)] }) ∨
    (∃ result, p.senders[j]? = some (.sending result) ∧ p.errors.length < objects.length ∧
      q = { p with errors := p.errors ++ [result], senders := p.senders.set j .finishing }) ∨
    (p.senders[j]? = some .finishing ∧ q = { p with senders := p.senders.set j .done }) := by
  unfold senderStep at h
  split at h
  · cases h
    exact .inl ⟨_, ‹_›, rfl⟩
  · split at h <;> cases h
    exact .inr (.inl ⟨_, ‹_›, ‹_›, rfl⟩)
  · cases h
    exact .inr (.inr ⟨‹_›, rfl⟩)
  · cases h
  · cases h

/-! ## The invariant -/

namespace Main

/-- How many goroutines have been started. -/
def spawned (n : Nat) : Main → Nat
  | .spawn i => i
  | _ => n

/-- What the main goroutine has read from the error channel: only `nil`s, one
per loop turn, until it returns; an error it returns is among them. -/
def Drained (n : Nat) : Main → List (Option String) → Prop
  | .spawn _, d => d = []
  | .drain i, d => d.length = i ∧ i ≤ n ∧ ∀ x ∈ d, x = none
  | .returned none, d => d.length = n ∧ ∀ x ∈ d, x = none
  | .returned (some e), d => some e ∈ d

end Main

/-- The invariant of every reachable state. The goroutines were started on the
first objects, in order; each started one has its object notified or in
flight; each result is read, buffered, or about to be sent. -/
structure Inv (objects : List α) (p : State α) : Prop where
  spawn_le : ∀ i, p.main = .spawn i → i ≤ objects.length
  senders_length : p.senders.length = p.main.spawned objects.length
  handed_perm : p.handed ~ objects.take p.senders.length
  results_perm :
    p.drained ++ p.errors ++ p.senders.filterMap Sender.pendingSend ~ p.notified.map Prod.snd
  drained : p.main.Drained objects.length p.drained

theorem inv_start (objects : List α) : Inv objects (start objects) := by
  unfold start
  split <;> constructor <;> simp_all [State.handed, Main.spawned, Main.Drained]

theorem Inv.mainStep {objects : List α} {p q : State α} (hI : Inv objects p)
    (h : mainStep objects p = some q) : Inv objects q := by
  rcases mainStep_cases h with ⟨i, object, hm, hObj, rfl⟩ | ⟨i, hm, hNone, rfl⟩ |
    ⟨i, r, rest, hm, hi, hErr, rfl⟩ | ⟨i, hm, hi, rfl⟩
  · -- `go func(object)`: one more goroutine
    have hi : i < objects.length := (List.getElem?_eq_some_iff.mp hObj).1
    have hLen : p.senders.length = i := by simpa [hm, Main.spawned] using hI.senders_length
    exact {
      spawn_le := by simpa using hi
      senders_length := by simp [hLen, Main.spawned]
      handed_perm := by
        simpa [State.handed, List.filterMap_append, Sender.inFlight, hLen, List.take_succ, hObj]
          using hI.handed_perm.append_right [object]
      results_perm := by simpa [List.filterMap_append, Sender.pendingSend] using hI.results_perm
      drained := by simpa [hm, Main.Drained] using hI.drained }
  · -- the spawn loop ends
    have hAll : objects.length ≤ i := List.getElem?_eq_none_iff.mp hNone
    have hLen : p.senders.length = objects.length := by
      rw [hI.senders_length, hm, Main.spawned]
      exact Nat.le_antisymm (hI.spawn_le i hm) hAll
    exact {
      spawn_le := by simp
      senders_length := by simpa [Main.spawned] using hLen
      handed_perm := hI.handed_perm
      results_perm := hI.results_perm
      drained := by
        simp [Main.Drained, show p.drained = [] by simpa [hm, Main.Drained] using hI.drained] }
  · -- `err := <-errors`
    obtain ⟨hDrained, hle, hNil⟩ : p.drained.length = i ∧ i ≤ objects.length ∧
        ∀ x ∈ p.drained, x = none := by simpa [hm, Main.Drained] using hI.drained
    exact {
      spawn_le := by cases r <;> simp
      senders_length := by cases r <;> simpa [hm, Main.spawned] using hI.senders_length
      handed_perm := hI.handed_perm
      results_perm := by simpa [hErr] using hI.results_perm
      drained := by
        cases r with
        | none =>
          exact ⟨by simp [hDrained], hi,
            fun x hx => (List.mem_append.mp hx).elim (hNil x) List.mem_singleton.mp⟩
        | some e => simp [Main.Drained] }
  · -- the loop ends: `return nil`
    obtain ⟨hDrained, hle, hNil⟩ : p.drained.length = i ∧ i ≤ objects.length ∧
        ∀ x ∈ p.drained, x = none := by simpa [hm, Main.Drained] using hI.drained
    exact {
      spawn_le := by simp
      senders_length := by simpa [hm, Main.spawned] using hI.senders_length
      handed_perm := hI.handed_perm
      results_perm := hI.results_perm
      drained := ⟨hDrained.trans (Nat.le_antisymm hle hi), hNil⟩ }

theorem Inv.senderStep {objects : List α} {p q : State α} {j : Nat} {r : Option String}
    (hI : Inv objects p) (h : senderStep objects p j r = some q) : Inv objects q := by
  rcases senderStep_cases h with ⟨object, hj, rfl⟩ | ⟨result, hj, -, rfl⟩ | ⟨hj, rfl⟩
  · -- `notify` returns `r`
    have hFlight := filterMap_set_perm Sender.inFlight hj (.sending r)
    have hSend := filterMap_set_perm Sender.pendingSend hj (.sending r)
    simp only [Sender.inFlight, Sender.pendingSend, Option.toList, List.nil_append] at hFlight hSend
    exact {
      spawn_le := hI.spawn_le
      senders_length := by simpa using hI.senders_length
      handed_perm := by
        simpa [State.handed] using
          (hFlight.append_left (p.notified.map Prod.fst)).trans hI.handed_perm
      results_perm := by simpa using perm_shift hI.results_perm hSend
      drained := hI.drained }
  · -- `errors <- result`
    have hFlight := filterMap_set_perm Sender.inFlight hj .finishing
    have hSend := filterMap_set_perm Sender.pendingSend hj .finishing
    simp only [Sender.inFlight, Sender.pendingSend, Option.toList, List.nil_append] at hFlight hSend
    exact {
      spawn_le := hI.spawn_le
      senders_length := by simpa using hI.senders_length
      handed_perm := by simpa [State.handed] using (hFlight.append_left _).trans hI.handed_perm
      results_perm := by
        simpa using (hSend.append_left (p.drained ++ p.errors)).trans hI.results_perm
      drained := hI.drained }
  · -- the deferred `waitGroup.Done()`
    have hFlight := filterMap_set_perm Sender.inFlight hj .done
    have hSend := filterMap_set_perm Sender.pendingSend hj .done
    simp only [Sender.inFlight, Sender.pendingSend, Option.toList, List.nil_append] at hFlight hSend
    exact {
      spawn_le := hI.spawn_le
      senders_length := by simpa using hI.senders_length
      handed_perm := by simpa [State.handed] using (hFlight.append_left _).trans hI.handed_perm
      results_perm := by simpa using (hSend.append_left _).trans hI.results_perm
      drained := hI.drained }

/-- Every state some interleaving reaches satisfies the invariant. -/
theorem reach_inv {objects : List α} {p : State α} (h : Reach objects p) : Inv objects p := by
  induction h with
  | start => exact inv_start objects
  | step l _ hs ih =>
    cases l with
    | main => exact ih.mainStep hs
    | sender j r => exact ih.senderStep hs

/-! ## Consequences for every interleaving -/

section Reachable

variable {objects : List α} {p : State α}

/-- Results read, buffered or about to be sent, and objects in flight, together
number at most the objects. -/
theorem Inv.counts (hI : Inv objects p) :
    p.drained.length + p.errors.length + (p.senders.filterMap Sender.pendingSend).length +
      (p.senders.filterMap Sender.inFlight).length ≤ objects.length := by
  have hResults := hI.results_perm.length_eq
  have hHanded := hI.handed_perm.length_eq
  simp only [State.handed, List.length_append, List.length_map, List.length_take]
    at hResults hHanded
  omega

/-- Once every goroutine is started, the objects handed to `notify` are all the
objects. -/
theorem Inv.handed_of_spawned (hI : Inv objects p) (hm : ∀ i, p.main ≠ .spawn i) :
    p.handed ~ objects := by
  have hLen : p.senders.length = objects.length := by
    rw [hI.senders_length]
    cases h : p.main with
    | spawn i => exact absurd h (hm i)
    | _ => rfl
  simpa [hLen] using hI.handed_perm

/-- No object is handed to `notify` twice, nor one that is not pending. -/
theorem handed_subperm (h : Reach objects p) : p.handed <+~ objects :=
  (reach_inv h).handed_perm.subperm.trans (List.take_sublist _ _).subperm

/-- The error channel is never full when a goroutine sends on it. -/
theorem errors_not_full (h : Reach objects p) {j : Nat} {r : Option String}
    (hj : p.senders[j]? = some (.sending r)) : p.errors.length < objects.length := by
  have hCounts := (reach_inv h).counts
  have hPos : 0 < (p.senders.filterMap Sender.pendingSend).length :=
    List.length_pos_of_mem (List.mem_filterMap.mpr ⟨_, List.getElem?_mem hj, rfl⟩)
  omega

/-- When `notifyAll` returns, every object has been handed to `notify` once. -/
theorem returned_handed (h : Reach objects p) {r : Option String} (hm : p.main = .returned r) :
    p.handed ~ objects :=
  (reach_inv h).handed_of_spawned fun i => by simp [hm]

/-- What `notifyAll` returns keeps the promise of `Answers`. -/
theorem returned_answers (h : Reach objects p) {r : Option String} (hm : p.main = .returned r) :
    Answers objects p.notified r := by
  have hI := reach_inv h
  cases r with
  | none =>
    obtain ⟨hLen, hNil⟩ : p.drained.length = objects.length ∧ ∀ x ∈ p.drained, x = none := by
      simpa [hm, Main.Drained] using hI.drained
    have hCounts := hI.counts
    have hErrors : p.errors = [] := List.eq_nil_of_length_eq_zero (by omega)
    have hSend : p.senders.filterMap Sender.pendingSend = [] :=
      List.eq_nil_of_length_eq_zero (by omega)
    have hIn : p.senders.filterMap Sender.inFlight = [] := List.eq_nil_of_length_eq_zero (by omega)
    have hResults := hI.results_perm
    rw [hErrors, hSend, List.append_nil, List.append_nil] at hResults
    have hHanded := returned_handed h hm
    rw [State.handed, hIn, List.append_nil] at hHanded
    exact ⟨hHanded, fun x hx => hNil _ (hResults.mem_iff.mpr (List.mem_map_of_mem _ hx))⟩
  | some e =>
    have hIn : some e ∈ p.drained := by simpa [hm, Main.Drained] using hI.drained
    obtain ⟨⟨object, r⟩, hx, rfl⟩ := List.mem_map.mp
      (hI.results_perm.mem_iff.mp (List.mem_append_left _ (List.mem_append_left _ hIn)))
    exact ⟨object, hx⟩

/-- When `notifyAll` returns `nil`, no `notify` call is under way and no result
is left to send: each goroutine has at most its deferred `waitGroup.Done()`
to run. -/
theorem returned_none_sent (h : Reach objects p) (hm : p.main = .returned none) :
    ∀ s ∈ p.senders, s = .finishing ∨ s = .done := by
  have hI := reach_inv h
  obtain ⟨hLen, -⟩ : p.drained.length = objects.length ∧ ∀ x ∈ p.drained, x = none := by
    simpa [hm, Main.Drained] using hI.drained
  have hCounts := hI.counts
  intro s hs
  cases s with
  | notifying object =>
    have hPos : 0 < (p.senders.filterMap Sender.inFlight).length :=
      List.length_pos_of_mem (List.mem_filterMap.mpr ⟨_, hs, rfl⟩)
    omega
  | sending r =>
    have hPos : 0 < (p.senders.filterMap Sender.pendingSend).length :=
      List.length_pos_of_mem (List.mem_filterMap.mpr ⟨_, hs, rfl⟩)
    omega
  | finishing => exact .inl rfl
  | done => exact .inr rfl

/-- An unfinished goroutine can always move, also after `notifyAll` returned:
none is left blocked on the error channel. -/
theorem sender_progress (h : Reach objects p) {j : Nat} {s : Sender α}
    (hj : p.senders[j]? = some s) (hs : s.isDone = false) :
    ∃ q, step objects p (.sender j none) = some q := by
  cases s with
  | notifying object => exact Option.isSome_iff_exists.mp (by simp [step, senderStep, hj])
  | sending r =>
    exact Option.isSome_iff_exists.mp (by simp [step, senderStep, hj, errors_not_full h hj])
  | finishing => exact Option.isSome_iff_exists.mp (by simp [step, senderStep, hj])
  | done => simp [Sender.isDone] at hs

/-- No deadlock: until the main goroutine returns, some goroutine can move. -/
theorem progress (h : Reach objects p) (hm : ∀ r, p.main ≠ .returned r) :
    ∃ l q, step objects p l = some q := by
  have hI := reach_inv h
  cases hMain : p.main with
  | spawn i =>
    cases hObj : objects[i]? <;>
      exact ⟨.main, Option.isSome_iff_exists.mp (by simp [step, mainStep, hMain, hObj])⟩
  | drain i =>
    by_cases hi : i < objects.length
    · cases hErr : p.errors with
      | cons r rest =>
        exact ⟨.main, Option.isSome_iff_exists.mp (by simp [step, mainStep, hMain, hi, hErr])⟩
      | nil =>
        -- the channel is empty, so some goroutine still holds a result
        obtain ⟨hDrained, -, -⟩ : p.drained.length = i ∧ i ≤ objects.length ∧
            ∀ x ∈ p.drained, x = none := by simpa [hMain, Main.Drained] using hI.drained
        have hResults := hI.results_perm.length_eq
        have hHanded := (hI.handed_of_spawned (by simp [hMain])).length_eq
        simp only [State.handed, hErr, List.length_append, List.length_map, List.length_nil]
          at hResults hHanded
        obtain ⟨s, hs, hd⟩ : ∃ s ∈ p.senders, s.isDone = false := by
          by_contra hAll
          push_neg at hAll
          have hIdle : ∀ s ∈ p.senders, s = .done := fun s hs => by
            have hd := hAll s hs
            cases s <;> first | rfl | simp [Sender.isDone] at hd
          have hIn : p.senders.filterMap Sender.inFlight = [] :=
            List.filterMap_eq_nil_iff.mpr fun s hs => by simp [hIdle s hs, Sender.inFlight]
          have hSend : p.senders.filterMap Sender.pendingSend = [] :=
            List.filterMap_eq_nil_iff.mpr fun s hs => by simp [hIdle s hs, Sender.pendingSend]
          rw [hIn] at hHanded
          rw [hSend] at hResults
          simp only [List.length_nil] at hResults hHanded
          omega
        obtain ⟨j, hj⟩ := List.mem_iff_getElem?.mp hs
        obtain ⟨q, hq⟩ := sender_progress h hj hd
        exact ⟨_, q, hq⟩
    · exact ⟨.main, Option.isSome_iff_exists.mp (by simp [step, mainStep, hMain, hi])⟩
  | returned r => exact absurd hMain (hm r)

/-- No goroutine is left blocked: a reachable state in which nothing can move
is one where `notifyAll` has returned and every goroutine has finished. -/
theorem stuck_finished (h : Reach objects p) (hStuck : ∀ l, step objects p l = none) :
    (∃ r, p.main = .returned r) ∧ ∀ s ∈ p.senders, s.isDone = true := by
  refine ⟨?_, fun s hs => ?_⟩
  · by_contra hm
    obtain ⟨l, q, hq⟩ := progress h fun r hr => hm ⟨r, hr⟩
    simp [hStuck l] at hq
  · by_contra hd
    obtain ⟨j, hj⟩ := List.mem_iff_getElem?.mp hs
    obtain ⟨q, hq⟩ := sender_progress h hj (by simpa using hd)
    simp [hStuck] at hq

end Reachable

/-! ## Termination -/

/-- Moves a goroutine has left. -/
def Sender.cost : Sender α → Nat
  | .notifying _ => 3
  | .sending _ => 2
  | .finishing => 1
  | .done => 0

/-- Moves the main goroutine has left, at most; each goroutine still to start
adds the three moves it will make. -/
def Main.cost (n : Nat) : Main → Nat
  | .spawn i => 4 * (n - i) + n + 2
  | .drain i => n - i + 1
  | .returned _ => 0

/-- The rank of a state: each move lowers it. -/
def rank (objects : List α) (p : State α) : Nat :=
  p.main.cost objects.length + totalCost Sender.cost p.senders

theorem mainStep_rank_lt {objects : List α} {p q : State α} (h : mainStep objects p = some q) :
    rank objects q < rank objects p := by
  rcases mainStep_cases h with ⟨i, object, hm, hObj, rfl⟩ | ⟨i, hm, hNone, rfl⟩ |
    ⟨i, r, rest, hm, hi, -, rfl⟩ | ⟨i, hm, hi, rfl⟩
  · have hi : i < objects.length := (List.getElem?_eq_some_iff.mp hObj).1
    simp only [rank, hm, Main.cost, totalCost_append, totalCost_singleton, Sender.cost]
    omega
  · have hAll : objects.length ≤ i := List.getElem?_eq_none_iff.mp hNone
    simp only [rank, hm, Main.cost]
    omega
  · cases r with
    | none =>
      simp [rank, hm, Main.cost]
      omega
    | some e => simp [rank, hm, Main.cost]
  · simp only [rank, hm, Main.cost]
    omega

theorem senderStep_rank_lt {objects : List α} {p q : State α} {j : Nat} {r : Option String}
    (h : senderStep objects p j r = some q) : rank objects q < rank objects p := by
  rcases senderStep_cases h with ⟨object, hj, rfl⟩ | ⟨result, hj, -, rfl⟩ | ⟨hj, rfl⟩
  · have hCost := totalCost_set Sender.cost hj (.sending r)
    simp only [rank, Sender.cost] at hCost ⊢
    omega
  · have hCost := totalCost_set Sender.cost hj .finishing
    simp only [rank, Sender.cost] at hCost ⊢
    omega
  · have hCost := totalCost_set Sender.cost hj .done
    simp only [rank, Sender.cost] at hCost ⊢
    omega

/-- Every move lowers the rank. -/
theorem step_rank_lt {objects : List α} {p q : State α} {l : Label}
    (hs : step objects p l = some q) : rank objects q < rank objects p := by
  cases l with
  | main => exact mainStep_rank_lt hs
  | sender j r => exact senderStep_rank_lt hs

/-- Every interleaving is finite: the moves between reachable states admit no
infinite sequence. -/
theorem run_finite (objects : List α) :
    WellFounded fun q p : State α => Reach objects p ∧ ∃ l, step objects p l = some q :=
  Subrelation.wf (fun ⟨_, _, hs⟩ => step_rank_lt hs) (measure (rank objects)).wf

end Smirror.Cron.Fanout
