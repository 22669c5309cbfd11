import Mathlib.Data.List.Infix

/-!
# Job completion actions: `job.Actions.Run`

`Run` picks `OnSuccess` or `OnFailure` by the job context's error, then runs
the picked actions in order: `Do`, and on the failure path `WriteError` after
each `Do` that succeeded, returning the first error.

`Do` and `WriteError` belong to `job.Action`, which is not among the sources.
They are operations on a world `σ` (the storage service and whatever the
context points to), so every answer pattern, stateful or not, is an instance.
`Run` returns, besides the world and the error, the log of the calls it made
with their results.

The nested loop is a flat schedule in disguise: `run_eq_runSchedule` states
that `Run` executes `schedule` (every `Do`, each followed by its `WriteError`
on the failure path) one call at a time up to the first failure, and the
`runSchedule_*` lemmas describe that execution.
-/

namespace Smirror.Job

variable {σ α : Type}

/-- The calls `Run` makes on one action, as operations on the world. -/
structure ActionOps (σ α : Type) where
  doAction : σ → α → σ × Option String
  writeError : σ → α → σ × Option String

/-- `job.Context` as `Run` reads it: the job's error. -/
structure Context where
  error : Option String

/-- `job.Actions`: what to run after a job succeeded, and after it failed. -/
structure Actions (α : Type) where
  onSuccess : List α
  onFailure : List α

/-- One call `Run` makes. -/
inductive Call (α : Type)
  | doAction (action : α)
  | writeError (action : α)
deriving DecidableEq

/-- The `for _, action := range actions` loop: `Do`, then `WriteError` when the
job failed and `Do` succeeded, returning at the first error. -/
def runActions (ops : ActionOps σ α) (isError : Bool) :
    List α → σ → σ × List (Call α × Option String) × Option String
  | [], w => (w, [], none)
  | action :: rest, w =>
    match ops.doAction w action with
    | (w₁, some err) => (w₁, [(.doAction action, some err)], some err)
    | (w₁, none) =>
      if isError then
        match ops.writeError w₁ action with
        | (w₂, some err) =>
          (w₂, [(.doAction action, none), (.writeError action, some err)], some err)
        | (w₂, none) =>
          let (w₃, log, result) := runActions ops isError rest w₂
          (w₃, (.doAction action, none) :: (.writeError action, none) :: log, result)
      else
        let (w₂, log, result) := runActions ops isError rest w₁
        (w₂, (.doAction action, none) :: log, result)

/-- `Actions.Run`. -/
def Actions.run (ops : ActionOps σ α) (c : Actions α) (context : Context) (w : σ) :
    σ × List (Call α × Option String) × Option String :=
  let actions := if context.error.isSome then c.onFailure else c.onSuccess
  if actions.length = 0 then (w, [], none)
  else runActions ops context.error.isSome actions w

/-! ## The flat schedule -/

/-- The calls `Run` makes when none fails: `Do` of every action in order, each
followed by its `WriteError` on the failure path. -/
def schedule (isError : Bool) : List α → List (Call α)
  | [] => []
  | action :: rest =>
    .doAction action :: ((if isError then [.writeError action] else []) ++ schedule isError rest)

def Call.perform (ops : ActionOps σ α) : Call α → σ → σ × Option String
  | .doAction action, w => ops.doAction w action
  | .writeError action, w => ops.writeError w action

/-- Make the calls one after the other, each in the world the previous one
left, stopping at the first that fails; the log pairs each call made with its
answer. -/
def runSchedule (ops : ActionOps σ α) :
    List (Call α) → σ → σ × List (Call α × Option String) × Option String
  | [], w => (w, [], none)
  | call :: rest, w =>
    match call.perform ops w with
    | (w₁, some err) => (w₁, [(call, some err)], some err)
    | (w₁, none) =>
      let (w₂, log, result) := runSchedule ops rest w₁
      (w₂, (call, none) :: log, result)

theorem runActions_eq_runSchedule (ops : ActionOps σ α) (isError : Bool) (actions : List α)
    (w : σ) : runActions ops isError actions w = runSchedule ops (schedule isError actions) w := by
  induction actions generalizing w with
  | nil => rfl
  | cons action rest ih =>
    rcases hDo : ops.doAction w action with ⟨w₁, _ | err⟩
    · cases isError
      · simp [runActions, runSchedule, schedule, Call.perform, hDo, ih]
      · rcases hWrite : ops.writeError w₁ action with ⟨w₂, _ | err⟩ <;>
          simp [runActions, runSchedule, schedule, Call.perform, hDo, hWrite, ih]
    · simp [runActions, runSchedule, schedule, Call.perform, hDo]

/-- `Run` executes the schedule of the list the context picks. -/
theorem run_eq_runSchedule (ops : ActionOps σ α) (c : Actions α) (context : Context) (w : σ) :
    c.run ops context w = runSchedule ops (schedule context.error.isSome
      (if context.error.isSome then c.onFailure else c.onSuccess)) w := by
  unfold Actions.run
  generalize (if context.error.isSome then c.onFailure else c.onSuccess) = actions
  cases actions with
  | nil => rfl
  | cons action rest => exact runActions_eq_runSchedule ..

/-! ## Running a schedule -/

section RunSchedule

variable (ops : ActionOps σ α)

/-- The calls made are the schedule's first calls, in order. -/
theorem runSchedule_calls_start (calls : List (Call α)) (w : σ) :
    (runSchedule ops calls w).2.1.map Prod.fst <+: calls := by
  induction calls generalizing w with
  | nil => exact List.prefix_refl _
  | cons call rest ih =>
    rcases hCall : call.perform ops w with ⟨w₁, _ | err⟩
    · simpa [runSchedule, hCall] using ih w₁
    · simp [runSchedule, hCall]

/-- Every call but the last one made succeeded. -/
theorem runSchedule_dropLast_ok (calls : List (Call α)) (w : σ) :
    ∀ p ∈ (runSchedule ops calls w).2.1.dropLast, p.2 = none := by
  induction calls generalizing w with
  | nil => simp [runSchedule]
  | cons call rest ih =>
    rcases hCall : call.perform ops w with ⟨w₁, _ | err⟩
    · simp only [runSchedule, hCall]
      intro q hq
      cases hLog : (runSchedule ops rest w₁).2.1 with
      | nil => simp [hLog] at hq
      | cons p log =>
        rw [hLog, List.dropLast_cons₂, List.mem_cons] at hq
        rcases hq with rfl | hq
        · rfl
        · exact ih w₁ q (hLog ▸ hq)
    · simp [runSchedule, hCall]

/-- The result is the error of the last call made, if it failed. -/
theorem runSchedule_result (calls : List (Call α)) (w : σ) :
    (runSchedule ops calls w).2.2 = ((runSchedule ops calls w).2.1.getLast?).bind Prod.snd := by
  induction calls generalizing w with
  | nil => rfl
  | cons call rest ih =>
    rcases hCall : call.perform ops w with ⟨w₁, _ | err⟩
    · simp only [runSchedule, hCall]
      rw [ih w₁]
      cases (runSchedule ops rest w₁).2.1 <;> simp [List.getLast?_cons]
    · simp [runSchedule, hCall]

/-- With no failure, every call of the schedule is made. -/
theorem runSchedule_complete (calls : List (Call α)) (w : σ)
    (h : (runSchedule ops calls w).2.2 = none) :
    (runSchedule ops calls w).2.1.map Prod.fst = calls := by
  induction calls generalizing w with
  | nil => rfl
  | cons call rest ih =>
    rcases hCall : call.perform ops w with ⟨w₁, _ | err⟩ <;>
      simp only [runSchedule, hCall] at h ⊢
    · simpa using ih w₁ h
    · cases h

/-- The result is `nil` exactly when every call made succeeded. -/
theorem runSchedule_none_iff (calls : List (Call α)) (w : σ) :
    (runSchedule ops calls w).2.2 = none ↔ ∀ p ∈ (runSchedule ops calls w).2.1, p.2 = none := by
  induction calls generalizing w with
  | nil => simp [runSchedule]
  | cons call rest ih =>
    rcases hCall : call.perform ops w with ⟨w₁, _ | err⟩
    · simpa [runSchedule, hCall] using ih w₁
    · simp [runSchedule, hCall]

end RunSchedule

/-- Job completion. `Run` is the execution, one call after the other, of the
schedule of the list the context's error picks: each action's `Do`, followed on
the failure path by its `WriteError`, each call answered by `ops` in the world
the previous one left. It stops at the first call that fails and returns that
call's error; every earlier call succeeded, and no later call is made. It
returns `nil` exactly when every call it made succeeded, and then it has made
all of them. -/
theorem run_calls (ops : ActionOps σ α) (c : Actions α) (context : Context) (w : σ) :
    let calls := schedule context.error.isSome
      (if context.error.isSome then c.onFailure else c.onSuccess)
    let run := c.run ops context w
    run = runSchedule ops calls w ∧
      run.2.1.map Prod.fst <+: calls ∧
      (∀ p ∈ run.2.1.dropLast, p.2 = none) ∧
      run.2.2 = (run.2.1.getLast?).bind Prod.snd ∧
      (run.2.2 = none ↔ ∀ p ∈ run.2.1, p.2 = none) ∧
      (run.2.2 = none → run.2.1.map Prod.fst = calls) := by
  simp only [run_eq_runSchedule]
  exact ⟨trivial, runSchedule_calls_start ops _ _, runSchedule_dropLast_ok ops _ _,
    runSchedule_result ops _ _, runSchedule_none_iff ops _ _, runSchedule_complete ops _ _⟩

end Smirror.Job
