import Smirror.Cron.Pool
import Smirror.Cron.Fanout

/-!
# Dispatch of a pending set

Both implementations of `notifyAll`, over every interleaving of their
goroutines: the pool of `Limit` workers fed by a queue, and one goroutine per
object. Every returned run answers an `Outcome`, the contract the tick
(`Smirror.Cron.Tick`) assumes of the call.

## Main results

* `notifyAll_dispatch`: in every reachable state no object has been handed to
  `notify` twice and no send finds its channel full; when `notifyAll` has
  returned, every object has been handed to `notify` and the answer keeps the
  promise of `Answers`; every run is finite and ends returned, with an
  `Outcome`.
* `notifyAll_runs_finish`: every interleaving is finite, and one can only stop
  with `notifyAll` returned and all its goroutines finished.
* `notifyAll_returns_settled`: the pooled `notifyAll` returns only once every
  worker has finished; the goroutine-per-object one, when it answers `nil`,
  only once every result has been sent.
* `Pool.outcome`, `Fanout.outcome`: a returned run as an `Outcome`.
-/

namespace Smirror.Cron

open scoped List

variable {α : Type}

/-- The answer of a run of the pooled `notifyAll` that has returned. -/
def Pool.outcome {objects : List α} {p : Pool.State α} (h : Pool.Reach objects p)
    {r : Option String} (hm : p.main = .returned r) : Outcome objects :=
  ⟨p.notified, r, Pool.returned_answers h hm⟩

/-- The answer of a run of the goroutine-per-object `notifyAll` that has
returned. -/
def Fanout.outcome {objects : List α} {p : Fanout.State α} (h : Fanout.Reach objects p)
    {r : Option String} (hm : p.main = .returned r) : Outcome objects :=
  ⟨p.notified, r, Fanout.returned_answers h hm⟩

/-- Dispatch of a pending set, for every list of objects and every interleaving
of either `notifyAll`. In every reachable state no object has been handed to
`notify` twice and no send finds its channel full; when `notifyAll` has
returned, every object has been handed to `notify` once and the answer keeps
the promise of `Answers`. Every interleaving is finite, and one that cannot go
on has returned, with an `Outcome`: so every run returns, with the answer the
tick assumes. -/
theorem notifyAll_dispatch (objects : List α) :
    (WellFounded
        (fun q p : Pool.State α => Pool.Reach objects p ∧ ∃ l, Pool.step objects p l = some q) ∧
      ∀ p, Pool.Reach objects p →
        p.handed <+~ objects ∧
        (∀ i : Nat, p.main = .produce i → i < objects.length → p.queue.length < objects.length) ∧
        (∀ (j : Nat) (r : Option String), p.workers[j]? = some (Pool.Worker.sending r) →
          p.errors.length < objects.length) ∧
        (∀ r, p.main = .returned r → p.handed ~ objects ∧ Answers objects p.notified r) ∧
        ((∀ l, Pool.step objects p l = none) →
          ∃ o : Outcome objects, p.main = .returned o.result ∧ o.notified = p.notified)) ∧
    (WellFounded
        (fun q p : Fanout.State α => Fanout.Reach objects p ∧ ∃ l, Fanout.step objects p l = some q) ∧
      ∀ p, Fanout.Reach objects p →
        p.handed <+~ objects ∧
        (∀ (j : Nat) (r : Option String), p.senders[j]? = some (Fanout.Sender.sending r) →
          p.errors.length < objects.length) ∧
        (∀ r, p.main = .returned r → p.handed ~ objects ∧ Answers objects p.notified r) ∧
        ((∀ l, Fanout.step objects p l = none) →
          ∃ o : Outcome objects, p.main = .returned o.result ∧ o.notified = p.notified)) := by
  refine ⟨⟨Pool.run_finite objects, fun p h => ?_⟩, ⟨Fanout.run_finite objects, fun p h => ?_⟩⟩
  · refine ⟨Pool.handed_subperm h, fun _ hm hi => Pool.queue_not_full h hm hi,
      fun _ _ hj => Pool.errors_not_full h hj,
      fun _ hm => ⟨Pool.returned_handed h hm, Pool.returned_answers h hm⟩, fun hStuck => ?_⟩
    obtain ⟨⟨r, hm⟩, -⟩ := Pool.stuck_finished h hStuck
    exact ⟨Pool.outcome h hm, hm, rfl⟩
  · refine ⟨Fanout.handed_subperm h, fun _ _ hj => Fanout.errors_not_full h hj,
      fun _ hm => ⟨Fanout.returned_handed h hm, Fanout.returned_answers h hm⟩, fun hStuck => ?_⟩
    obtain ⟨⟨r, hm⟩, -⟩ := Fanout.stuck_finished h hStuck
    exact ⟨Fanout.outcome h hm, hm, rfl⟩

/-- Every interleaving of either `notifyAll` is finite, and it can only stop
with `notifyAll` returned and every goroutine it started finished. -/
theorem notifyAll_runs_finish (objects : List α) :
    WellFounded
      (fun q p : Pool.State α => Pool.Reach objects p ∧ ∃ l, Pool.step objects p l = some q) ∧
    (∀ p, Pool.Reach objects p → (∀ l, Pool.step objects p l = none) →
      (∃ r, p.main = .returned r) ∧ ∀ w ∈ p.workers, w.isDone = true) ∧
    WellFounded
      (fun q p : Fanout.State α => Fanout.Reach objects p ∧ ∃ l, Fanout.step objects p l = some q) ∧
    (∀ p, Fanout.Reach objects p → (∀ l, Fanout.step objects p l = none) →
      (∃ r, p.main = .returned r) ∧ ∀ s ∈ p.senders, s.isDone = true) :=
  ⟨Pool.run_finite objects, fun _ => Pool.stuck_finished, Fanout.run_finite objects,
    fun _ => Fanout.stuck_finished⟩

/-- What is still running when `notifyAll` returns. The pooled version returns
only after `Wait`: whatever it answers, every object has been notified and
every worker has finished. The goroutine-per-object version never waits on its
`WaitGroup`: when it answers `nil`, every object has been notified and every
goroutine has sent its result, with at most its deferred `Done()` left. -/
theorem notifyAll_returns_settled (objects : List α) :
    (∀ p r, Pool.Reach objects p → p.main = .returned r →
      p.notified.map Prod.fst ~ objects ∧ ∀ w ∈ p.workers, w.isDone = true) ∧
    (∀ p, Fanout.Reach objects p → p.main = .returned none →
      p.notified.map Prod.fst ~ objects ∧ ∀ s ∈ p.senders, s = .finishing ∨ s = .done) := by
  refine ⟨fun p r h hm => ?_, fun p h hm => ?_⟩
  · have hI := Pool.reach_inv h
    have ha : p.main.afterWait = true := by simp [hm, Pool.Main.afterWait]
    exact ⟨(hI.after_wait_eq ha).2.1, (hI.after_wait ha).2⟩
  · exact ⟨(Fanout.returned_answers h hm).1, Fanout.returned_none_sent h hm⟩

end Smirror.Cron
