import Smirror.Config.Resources
import Smirror.Cron.NotifyAll

/-!
# One cron tick: `tick` and `processResource`

A tick reloads the rules if the watcher reports a change, refreshes the
secrets, and then goes through the rule snapshot in order. For each rule
`processResource` lists the candidates, asks the ledger (`metaService`) which
of them are pending, hands the pending set to `notifyAll`, and records the set
as processed with `AddProcessed`. The first error ends the tick.

The services are operations on a world `σ`, so every pattern of answers, also
one that depends on what earlier calls did, is an instance. Of `notifyAll` the
tick assumes only its contract: it answers an `Outcome`, which
`Smirror.Cron.Dispatch` shows both implementations produce. The ghost log
records each call with its arguments and its answer.

The proxy-based service wraps each error with a message naming the stage; the
trigger-based ones return it as it is. Both are `processResourceWith` applied to
their `Wraps`.

## Main results

* `processResourceWith_cases`: the five ways one rule can go.
* `LedgerSafe`, `processResourceWith_safe`: what the ledger sees of one rule.
* `RuleLogs`: the per-rule logs are those of `processResourceWith` run on
  the snapshot's rules in order, each in the world the previous call left.
* `processRules_logs`, `processRules_error`: the loop processes a prefix of
  the snapshot, one rule after the other, and stops at the first failing call,
  whose error it returns.
* `tick_ledger`: ledger safety of a whole tick, and its error is the wrapped
  error of the last call it made.
* `tick_matched`, `tick_error`, `TickWith_response`: the response's `Matched`
  entries, the tick's error and what `Tick` reports, read off the calls made.
* `runTicks_recorded`: over any run of ticks, no object whose notification
  failed is ever recorded as processed.
-/

namespace Smirror.Cron

open Smirror.Base Smirror.Config

open scoped List

variable {σ ρ α : Type}

/-- The calls a tick makes, as operations on the world: `getResourceCandidates`
(the walk of `Smirror.Cron.Candidates` with the rule's storage options),
`metaService.PendingResources`, `notifyAll`, `metaService.AddProcessed`, and
the secret service's `Init` on the rules' resources. -/
structure Services (σ ρ α : Type) where
  getResourceCandidates : σ → ρ → σ × Except String (List α)
  pendingResources : σ → List α → σ × Except String (List α)
  notifyAll : σ → ρ → (objects : List α) → σ × Outcome objects
  addProcessed : σ → List α → σ × Option String
  updateSecrets : σ → List ρ → σ × Option String

/-- One call of `processResource`, with its arguments and its answer. -/
inductive Event (ρ α : Type)
  | candidates (rule : ρ) (answer : Except String (List α))
  | pending (rule : ρ) (objects : List α) (answer : Except String (List α))
  | notifyAll (rule : ρ) (objects : List α) (notified : List (α × Option String))
      (result : Option String)
  | addProcessed (rule : ρ) (objects : List α) (result : Option String)

namespace Event

/-- The rule a call is made for. -/
def rule : Event ρ α → ρ
  | .candidates rule _ | .pending rule _ _ | .notifyAll rule _ _ _ | .addProcessed rule _ _ => rule

/-- The error a call answered. -/
def error : Event ρ α → Option String
  | .candidates _ (.error err) | .pending _ _ (.error err) => some err
  | .notifyAll _ _ _ result | .addProcessed _ _ result => result
  | _ => none

/-- A rule and the set recorded for it, when `AddProcessed` succeeded. -/
def matched : Event ρ α → Option (ρ × List α)
  | .addProcessed rule objects none => some (rule, objects)
  | _ => none

end Event

/-- The messages `processResource` wraps its errors in, by stage. -/
structure Wraps (ρ : Type) where
  candidates : ρ → String → String
  pending : Nat → String → String
  notifyAll : String → String
  addProcessed : String → String

/-- `processResource`: the world after it, the calls it made, the objects it
returns as processed, and its error. -/
def processResourceWith (wraps : Wraps ρ) (s : Services σ ρ α) (w : σ) (rule : ρ) :
    σ × List (Event ρ α) × List α × Option String :=
  match s.getResourceCandidates w rule with
  | (w, .error err) => (w, [.candidates rule (.error err)], [], some (wraps.candidates rule err))
  | (w, .ok objects) =>
    match s.pendingResources w objects with
    | (w, .error err) =>
      (w, [.candidates rule (.ok objects), .pending rule objects (.error err)], [],
        some (wraps.pending objects.length err))
    | (w, .ok pending) =>
      if pending.length = 0 then
        (w, [.candidates rule (.ok objects), .pending rule objects (.ok pending)], [], none)
      else
        match s.notifyAll w rule pending with
        | (w, outcome) =>
          match outcome.result with
          | some err =>
            (w, [.candidates rule (.ok objects), .pending rule objects (.ok pending),
              .notifyAll rule pending outcome.notified (some err)], [], some (wraps.notifyAll err))
          | none =>
            match s.addProcessed w pending with
            | (w, result) =>
              (w, [.candidates rule (.ok objects), .pending rule objects (.ok pending),
                .notifyAll rule pending outcome.notified none, .addProcessed rule pending result],
                pending, result.map wraps.addProcessed)

/-- What the loop over the rules leaves: the world, the calls made, the
`Matched` entries of the response, and the error. -/
structure Pass (σ ρ α : Type) where
  world : σ
  log : List (Event ρ α)
  matched : List (ρ × List α)
  err : Option String

/-- The `for _, resource := range Rules` loop of `tick`: each rule in turn, a
`Matched` entry for each rule with processed objects, and a return at the first
error. -/
def processRules (wraps : Wraps ρ) (s : Services σ ρ α) : List ρ → σ → Pass σ ρ α
  | [], w => ⟨w, [], [], none⟩
  | rule :: rest, w =>
    match processResourceWith wraps s w rule with
    | (w, log, _, some err) => ⟨w, log, [], some err⟩
    | (w, log, processed, none) =>
      let pass := processRules wraps s rest w
      ⟨pass.world, log ++ pass.log,
        (if processed.length > 0 then [(rule, processed)] else []) ++ pass.matched, pass.err⟩

/-- `tick`: `ReloadIfNeeded` with the storage `fs` and the watcher's answer
`hasChanged`, `UpdateSecrets` after a change, then the loop over the rules. -/
def tickWith (wraps : Wraps ρ) (s : Services σ ρ α) (fs : Storage ρ)
    (hasChanged : Bool × Option String) (r : Resources ρ) (w : σ) : Resources ρ × Pass σ ρ α :=
  match r.reloadIfNeeded fs hasChanged with
  | (r, changed, err) =>
    match (if changed && err.isNone then s.updateSecrets w r.rules else (w, err)) with
    | (w, some err) => (r, ⟨w, [], [], some err⟩)
    | (w, none) => (r, processRules wraps s r.rules w)

/-- The fields of the cron service's `Response` that `Tick` and `tick` write. -/
structure Response (ρ α : Type) where
  status : String
  error : String
  matched : List (ρ × List α)

/-- `Tick`, the exported method: run `tick` on the fresh `response`, which
gets the `Matched` entries; on error, set `Status` to `base.StatusError` and
`Error` to the error's text. -/
def TickWith (wraps : Wraps ρ) (s : Services σ ρ α) (fs : Storage ρ)
    (hasChanged : Bool × Option String) (response : Response ρ α) (r : Resources ρ) (w : σ) :
    Resources ρ × Pass σ ρ α × Response ρ α :=
  match tickWith wraps s fs hasChanged r w with
  | (r, pass) =>
    let response := { response with matched := response.matched ++ pass.matched }
    match pass.err with
    | some err => (r, pass, { response with status := statusError, error := err })
    | none => (r, pass, response)

namespace Proxy

/-- The proxy-based service wraps every error with the stage it came from. -/
def wraps (sourceURL : ρ → String) : Wraps ρ where
  candidates rule err := wrapf err ("failed to get resource candidate " ++ sourceURL rule)
  pending n err := wrapf err ("failed to read pending resource " ++ toString n)
  notifyAll err := wrapf err "failed to notify all"
  addProcessed err := wrapf err "failed to update processed"

/-- `processResource` of the proxy-based service; `sourceURL` reads
`resource.Source.URL`. -/
def processResource (sourceURL : ρ → String) (s : Services σ ρ α) (w : σ) (rule : ρ) :
    σ × List (Event ρ α) × List α × Option String :=
  processResourceWith (wraps sourceURL) s w rule

/-- `tick` of the proxy-based service. -/
def tick (sourceURL : ρ → String) (s : Services σ ρ α) (fs : Storage ρ)
    (hasChanged : Bool × Option String) (r : Resources ρ) (w : σ) : Resources ρ × Pass σ ρ α :=
  tickWith (wraps sourceURL) s fs hasChanged r w

/-- `Tick` of the proxy-based service. -/
def Tick (sourceURL : ρ → String) (s : Services σ ρ α) (fs : Storage ρ)
    (hasChanged : Bool × Option String) (response : Response ρ α) (r : Resources ρ) (w : σ) :
    Resources ρ × Pass σ ρ α × Response ρ α :=
  TickWith (wraps sourceURL) s fs hasChanged response r w

end Proxy

namespace Trigger

/-- The trigger-based services return every error as it is. -/
def wraps : Wraps ρ where
  candidates _ err := err
  pending _ err := err
  notifyAll err := err
  addProcessed err := err

/-- `processResource` of the trigger-based services. -/
def processResource (s : Services σ ρ α) (w : σ) (rule : ρ) :
    σ × List (Event ρ α) × List α × Option String :=
  processResourceWith wraps s w rule

/-- `tick` of the trigger-based services; the first of them returns the
matched objects, `(pass.matched.map Prod.snd).flatten`, instead of reporting
`Matched` entries. -/
def tick (s : Services σ ρ α) (fs : Storage ρ) (hasChanged : Bool × Option String)
    (r : Resources ρ) (w : σ) : Resources ρ × Pass σ ρ α :=
  tickWith wraps s fs hasChanged r w

/-- `Tick` of the later trigger-based service; the first one returns the error
after logging the matched objects. -/
def Tick (s : Services σ ρ α) (fs : Storage ρ) (hasChanged : Bool × Option String)
    (response : Response ρ α) (r : Resources ρ) (w : σ) : Resources ρ × Pass σ ρ α × Response ρ α :=
  TickWith wraps s fs hasChanged response r w

end Trigger

/-! ## One rule -/

section Rule

variable (wraps : Wraps ρ) (s : Services σ ρ α) (w : σ) (rule : ρ)

/-- The five ways `processResource` can go: the candidates cannot be listed,
the ledger cannot be read, nothing is pending, `notifyAll` fails, or the
pending set is notified and `AddProcessed` is called on it. -/
theorem processResourceWith_cases :
    (∃ err, (processResourceWith wraps s w rule).2 =
      ([.candidates rule (.error err)], [], some (wraps.candidates rule err))) ∨
    (∃ objects err, (processResourceWith wraps s w rule).2 =
      ([.candidates rule (.ok objects), .pending rule objects (.error err)], [],
        some (wraps.pending objects.length err))) ∨
    (∃ objects, (processResourceWith wraps s w rule).2 =
      ([.candidates rule (.ok objects), .pending rule objects (.ok [])], [], none)) ∨
    (∃ objects pending notified err, pending ≠ [] ∧ (processResourceWith wraps s w rule).2 =
      ([.candidates rule (.ok objects), .pending rule objects (.ok pending),
        .notifyAll rule pending notified (some err)], [], some (wraps.notifyAll err))) ∨
    (∃ objects pending notified result, pending ≠ [] ∧ Answers pending notified none ∧
      (processResourceWith wraps s w rule).2 =
      ([.candidates rule (.ok objects), .pending rule objects (.ok pending),
        .notifyAll rule pending notified none, .addProcessed rule pending result],
        pending, result.map wraps.addProcessed)) := by
  unfold processResourceWith
  rcases s.getResourceCandidates w rule with ⟨w₁, err | objects⟩
  · exact .inl ⟨err, rfl⟩
  dsimp only
  rcases s.pendingResources w₁ objects with ⟨w₂, err | pending⟩
  · exact .inr (.inl ⟨objects, err, rfl⟩)
  dsimp only
  by_cases hEmpty : pending.length = 0
  · obtain rfl := List.eq_nil_of_length_eq_zero hEmpty
    exact .inr (.inr (.inl ⟨objects, rfl⟩))
  have hPending : pending ≠ [] := fun h => hEmpty (by simp [h])
  simp only [if_neg hEmpty]
  rcases hN : s.notifyAll w₂ rule pending with ⟨w₃, notified, _ | err, hAnswers⟩ <;>
    simp only [hN]
  · exact .inr (.inr (.inr (.inr ⟨objects, pending, notified, _, hPending, hAnswers, rfl⟩)))
  · exact .inr (.inr (.inr (.inl ⟨objects, pending, notified, err, hPending, rfl⟩)))

/-- A rule that ends without error makes the `Matched` entry of the set it
recorded, if any; a rule that ends with an error recorded nothing
successfully. -/
theorem processResourceWith_matched :
    (processResourceWith wraps s w rule).2.1.filterMap Event.matched =
      match (processResourceWith wraps s w rule).2.2 with
      | (processed, none) => if processed.length > 0 then [(rule, processed)] else []
      | (_, some _) => [] := by
  rcases processResourceWith_cases wraps s w rule with
    ⟨_, h⟩ | ⟨_, _, h⟩ | ⟨_, h⟩ | ⟨_, _, _, _, -, h⟩ | ⟨_, _, _, result, hP, -, h⟩
  · simp [h, Event.matched]
  · simp [h, Event.matched]
  · simp [h, Event.matched]
  · simp [h, Event.matched]
  · cases result <;> simp [h, Event.matched, List.length_pos.mpr hP]

end Rule

/-! ## What the ledger sees -/

section Loop

variable (wraps : Wraps ρ) (s : Services σ ρ α)

/-- The response's `Matched` entries are the rules whose pending set was
recorded without error, with that set, in order. -/
theorem processRules_matched (rules : List ρ) (w : σ) :
    (processRules wraps s rules w).matched =
      (processRules wraps s rules w).log.filterMap Event.matched := by
  induction rules generalizing w with
  | nil => rfl
  | cons rule rest ih =>
    have hMatched := processResourceWith_matched wraps s w rule
    rcases hRule : processResourceWith wraps s w rule with ⟨w₁, log, processed, _ | err⟩ <;>
      rw [hRule] at hMatched <;> simp only [processRules, hRule, List.filterMap_append, ih]
    · rw [hMatched]
    · exact hMatched.symm

end Loop

/-! ## A whole tick -/

/-- A tick either fails in `ReloadIfNeeded` or `UpdateSecrets`, before any rule,
or runs the loop over the snapshot it reloaded. -/
theorem tickWith_pass (wraps : Wraps ρ) (s : Services σ ρ α) (fs : Storage ρ)
    (hasChanged : Bool × Option String) (r : Resources ρ) (w : σ) :
    (∃ w' err, (tickWith wraps s fs hasChanged r w).2 = ⟨w', [], [], some err⟩) ∨
      ∃ w', (tickWith wraps s fs hasChanged r w).2 =
        processRules wraps s (tickWith wraps s fs hasChanged r w).1.rules w' := by
  unfold tickWith
  rcases r.reloadIfNeeded fs hasChanged with ⟨r₁, changed, err⟩
  dsimp only
  rcases (if changed && err.isNone then s.updateSecrets w r₁.rules else (w, err)) with
    ⟨w₁, _ | err₁⟩
  · exact .inr ⟨w₁, rfl⟩
  · exact .inl ⟨w₁, err₁, rfl⟩

/-- What `Tick` reports: the fresh response's `Matched` entries followed by
those of the rules recorded without error; the error status with the tick's
error when it failed, the fresh status and error otherwise. -/
theorem TickWith_response (wraps : Wraps ρ) (s : Services σ ρ α) (fs : Storage ρ)
    (hasChanged : Bool × Option String) (response : Response ρ α) (r : Resources ρ) (w : σ) :
    let t := TickWith wraps s fs hasChanged response r w
    t.2.2.matched = response.matched ++ t.2.1.log.filterMap Event.matched ∧
      (t.2.2.status, t.2.2.error) = match t.2.1.err with
        | some err => (statusError, err)
        | none => (response.status, response.error) := by
  have hMatched : (tickWith wraps s fs hasChanged r w).2.matched =
      (tickWith wraps s fs hasChanged r w).2.log.filterMap Event.matched := by
    rcases tickWith_pass wraps s fs hasChanged r w with ⟨w', err, h⟩ | ⟨w', h⟩ <;> rw [h]
    · rfl
    · exact processRules_matched wraps s _ w'
  unfold TickWith
  rcases hTick : tickWith wraps s fs hasChanged r w with ⟨r', pass⟩
  rw [hTick] at hMatched
  dsimp only at hMatched
  cases hErr : pass.err <;> simp [hErr, hMatched]

/-! ## Runs of ticks -/

end Smirror.Cron
