import Mathlib.Data.List.Perm.Basic

/-!
# What `notifyAll` promises

The cron services hand a rule's pending objects to `notifyAll`, which calls
`notify` on each of them concurrently and answers with one error or `nil`. Two
versions are in the sources: a pool of `Limit` workers fed by a queue
(`Smirror.Cron.Pool`) and one goroutine per object (`Smirror.Cron.Fanout`).
`Answers` is what both promise, stated over the notifications made; `Outcome`
is an answer that keeps that promise, which is all the tick
(`Smirror.Cron.Tick`) may assume of the call.

Both models keep one state per goroutine in a list and move one goroutine at a
time with `List.set`. Their invariants count what the goroutines hold (objects
in flight, results about to be sent) through `filterMap`, and their termination
ranks add up a cost per goroutine with `totalCost`; the last lemmas here say how
one `set` changes those.
-/

namespace Smirror.Cron

open scoped List

/-- What `notifyAll objects` may answer after the notifications `notified`
(each an object and the result of its `notify` call): `nil` only when every
object was notified exactly once and every notification returned `nil`; an
error only when some notification returned it. -/
def Answers {α : Type} (objects : List α) (notified : List (α × Option String)) :
    Option String → Prop
  | none => notified.map Prod.fst ~ objects ∧ ∀ x ∈ notified, x.2 = none
  | some e => ∃ object, (object, some e) ∈ notified

/-- An answer of `notifyAll` on `objects` together with the notifications it
made. Only an answer that keeps the promise can be built. -/
structure Outcome {α : Type} (objects : List α) where
  notified : List (α × Option String)
  result : Option String
  answers : Answers objects notified result

/-! ## Bookkeeping over lists of goroutine states -/

section Lists

variable {β γ : Type} (f : β → Option γ)

theorem filterMap_cons_toList (x : β) (xs : List β) :
    (x :: xs).filterMap f = (f x).toList ++ xs.filterMap f := by
  cases h : f x <;> simp [List.filterMap_cons, h]

/-- Replacing the element at `j` trades its image under `f` for the new one's. -/
theorem filterMap_set_perm {l : List β} {j : Nat} {a : β} (h : l[j]? = some a) (b : β) :
    (f a).toList ++ (l.set j b).filterMap f ~ (f b).toList ++ l.filterMap f := by
  induction l generalizing j with
  | nil => cases h
  | cons x xs ih =>
    cases j with
    | zero =>
      obtain rfl : x = a := by simpa using h
      simpa only [List.set_cons_zero, filterMap_cons_toList] using List.perm_append_comm_assoc ..
    | succ j =>
      simp only [List.set_cons_succ, filterMap_cons_toList]
      exact (List.perm_append_comm_assoc ..).trans
        (((ih (by simpa using h)).append_left _).trans (List.perm_append_comm_assoc ..))

end Lists

/-- Moving `x` into the middle list of a permutation equation moves it to the end. -/
theorem perm_shift {β : Type} {a b b' r x : List β} (h : a ++ b ~ r) (h' : b' ~ x ++ b) :
    a ++ b' ~ r ++ x :=
  calc a ++ b' ~ a ++ (x ++ b) := h'.append_left a
    _ ~ x ++ (a ++ b) := List.perm_append_comm_assoc ..
    _ ~ (a ++ b) ++ x := List.perm_append_comm
    _ ~ r ++ x := h.append_right x

/-- The moves a list of goroutines has left, at `cost` moves each. -/
def totalCost {β : Type} (cost : β → Nat) : List β → Nat
  | [] => 0
  | x :: xs => cost x + totalCost cost xs

@[simp] theorem totalCost_append {β : Type} (cost : β → Nat) (l l' : List β) :
    totalCost cost (l ++ l') = totalCost cost l + totalCost cost l' := by
  induction l with
  | nil => simp [totalCost]
  | cons x xs ih => simp [totalCost, ih, Nat.add_assoc]

@[simp] theorem totalCost_singleton {β : Type} (cost : β → Nat) (x : β) :
    totalCost cost [x] = cost x := by
  simp [totalCost]

/-- Replacing the goroutine at `j` trades its cost for the new one's. -/
theorem totalCost_set {β : Type} (cost : β → Nat) {l : List β} {j : Nat} {a : β}
    (h : l[j]? = some a) (b : β) : totalCost cost (l.set j b) + cost a = totalCost cost l + cost b := by
  induction l generalizing j with
  | nil => cases h
  | cons x xs ih =>
    cases j with
    | zero =>
      obtain rfl : x = a := by simpa using h
      simp only [List.set_cons_zero, totalCost]
      omega
    | succ j =>
      have hRest := ih (j := j) (by simpa using h)
      simp only [List.set_cons_succ, totalCost]
      omega

end Smirror.Cron
