import Smirror.Cron.NotifyAll

/-!
# `Response.AddURL` under concurrent callers

`AddURL` appends a destination URL to a response's `DestURLs` under the
response's mutex:

    r.mutex.Lock()
    defer r.mutex.Unlock()
    r.DestURLs = append(r.DestURLs, URL)

The assignment reads the slice and then writes a longer one, so two callers
that both read before either writes would lose one URL. This module runs any
number of goroutines calling `AddURL` on one response, in every interleaving
of their moves: take the mutex, read `DestURLs`, write the appended slice,
release the mutex. The state keeps only what `AddURL` touches, `DestURLs` and
the mutex, and a ghost list `added` of the URLs written, in the order of the
writes. The goroutines are kept as in `Smirror.Cron.Pool`, one state each in a
list, with the list bookkeeping of `Smirror.Cron.NotifyAll`.

## Main results

* `addURL_no_lost_update`: in every reachable state at most one goroutine
  holds the mutex, `DestURLs` is the initial slice followed by `added`, and
  `added` with the URLs not yet written is a permutation of the calls' URLs;
  once every call has returned, `DestURLs` is the initial slice followed by
  every call's URL exactly once; until then some goroutine can move; and
  every interleaving is finite.
-/

namespace Smirror.Contract.AddURL

open scoped List
open Smirror.Cron (filterMap_set_perm totalCost totalCost_set)

/-- Where a goroutine calling `AddURL(url)` is. -/
inductive Caller where
  /-- waiting in `r.mutex.Lock()` -/
  | locking (url : String)
  /-- holding the mutex, before reading `r.DestURLs` -/
  | reading (url : String)
  /-- holding the mutex, with `append(read, url)` computed from the slice `read` -/
  | writing (url : String) (read : List String)
  /-- after the write, in the deferred `r.mutex.Unlock()` -/
  | unlocking
  /-- `AddURL` has returned -/
  | done
  deriving DecidableEq, Repr

namespace Caller

/-- The goroutine holds the mutex. -/
def holds : Caller → Bool
  | .reading _ | .writing _ _ | .unlocking => true
  | .locking _ | .done => false

/-- The URL the goroutine has still to write. -/
def pending : Caller → Option String
  | .locking url | .reading url | .writing url _ => some url
  | .unlocking | .done => none

/-- Moves the goroutine has left. -/
def cost : Caller → Nat
  | .locking _ => 4
  | .reading _ => 3
  | .writing _ _ => 2
  | .unlocking => 1
  | .done => 0

end Caller

/-- The response's `DestURLs` and mutex, the goroutines calling `AddURL`, and
the ghost list of URLs written. -/
structure State where
  destURLs : List String
  locked : Bool
  callers : List Caller
  added : List String
  deriving Repr

/-- One goroutine per URL of `urls` calls `AddURL` on a response whose
`DestURLs` is `initial` (`NewResponse` makes it empty), the mutex free. -/
def start (initial urls : List String) : State :=
  ⟨initial, false, urls.map .locking, []⟩

/-- The next move of goroutine `j`; `none` when it is blocked on the mutex or
has returned. -/
def step (p : State) (j : Nat) : Option State :=
  match p.callers[j]? with
  | some (.locking url) =>
    if p.locked then none
    else some { p with locked := true, callers := p.callers.set j (.reading url) }
  | some (.reading url) => some { p with callers := p.callers.set j (.writing url p.destURLs) }
  | some (.writing url read) =>
    some { p with destURLs := read ++ [url], callers := p.callers.set j .unlocking,
                  added := p.added ++ [url] }
  | some .unlocking => some { p with locked := false, callers := p.callers.set j .done }
  | some .done => none
  | none => none

/-- The states some interleaving reaches. -/
inductive Reach (initial urls : List String) : State → Prop
  | start : Reach initial urls (start initial urls)
  | step {p q : State} (j : Nat) : Reach initial urls p → step p j = some q → Reach initial urls q

/-! ## One goroutine at a time -/

section Lists

variable {β : Type}

/-- After the element at `j` is replaced by `b`, the element at `i` is `b` or
the one that was there. -/
theorem getElem?_set_cases {l : List β} {i j : Nat} {b c : β} (h : (l.set j b)[i]? = some c) :
    (i = j ∧ c = b) ∨ (i ≠ j ∧ l[i]? = some c) := by
  rw [List.getElem?_set] at h
  split_ifs at h with hji
  · exact .inl ⟨hji.symm, (Option.some.inj h).symm⟩
  · exact .inr ⟨Ne.symm hji, h⟩

/-- Replacing the element at `j` trades its count for the new one's. -/
theorem countP_set_add (f : β → Bool) {l : List β} {j : Nat} {a : β} (h : l[j]? = some a)
    (b : β) :
    (l.set j b).countP f + (if f a then 1 else 0) = l.countP f + (if f b then 1 else 0) := by
  obtain ⟨hj, rfl⟩ := List.getElem?_eq_some_iff.mp h
  have hle : (if f l[j] then 1 else 0) ≤ l.countP f := by
    split
    · exact List.countP_pos_iff.2 ⟨_, List.getElem_mem hj, ‹_›⟩
    · exact Nat.zero_le _
  rw [List.countP_set f l j b hj]
  omega

end Lists

theorem step_cases {p q : State} {j : Nat} (h : step p j = some q) :
    (∃ url, p.callers[j]? = some (.locking url) ∧ p.locked = false ∧
      q = { p with locked := true, callers := p.callers.set j (.reading url) }) ∨
    (∃ url, p.callers[j]? = some (.reading url) ∧
      q = { p with callers := p.callers.set j (.writing url p.destURLs) }) ∨
    (∃ url read, p.callers[j]? = some (.writing url read) ∧
      q = { p with destURLs := read ++ [url], callers := p.callers.set j .unlocking,
                   added := p.added ++ [url] }) ∨
    (p.callers[j]? = some .unlocking ∧
      q = { p with locked := false, callers := p.callers.set j .done }) := by
  unfold step at h
  split at h
  · split at h <;> cases h
    exact .inl ⟨_, ‹_›, Bool.eq_false_iff.2 ‹_›, rfl⟩
  · cases h
    exact .inr (.inl ⟨_, ‹_›, rfl⟩)
  · cases h
    exact .inr (.inr (.inl ⟨_, _, ‹_›, rfl⟩))
  · cases h
    exact .inr (.inr (.inr ⟨‹_›, rfl⟩))
  · cases h
  · cases h

/-- A goroutine holding the mutex never blocks. -/
theorem step_isSome_of_holds {p : State} {j : Nat} {c : Caller} (hj : p.callers[j]? = some c)
    (hc : c.holds = true) : (step p j).isSome := by
  cases c <;> simp_all [step, Caller.holds]

/-! ## The invariant -/

/-- What holds in every reachable state: the mutex is held by exactly one
goroutine when locked and by none otherwise; a goroutine about to write read
the current `DestURLs`; `DestURLs` is the initial slice followed by the URLs
written; those and the URLs still to be written are the calls' URLs. -/
structure Inv (initial urls : List String) (p : State) : Prop where
  holders : p.callers.countP Caller.holds = if p.locked then 1 else 0
  read_eq : ∀ (j : Nat) url read, p.callers[j]? = some (.writing url read) → read = p.destURLs
  dest_eq : p.destURLs = initial ++ p.added
  urls_perm : p.added ++ p.callers.filterMap Caller.pending ~ urls

theorem inv_start (initial urls : List String) : Inv initial urls (start initial urls) where
  holders := by simp [start, List.countP_map, Function.comp_def, Caller.holds]
  read_eq := by simp [start]
  dest_eq := by simp [start]
  urls_perm := by simp [start, List.filterMap_map, Function.comp_def, Caller.pending]

section Inv

variable {initial urls : List String} {p q : State}

/-- Mutual exclusion: two goroutines holding the mutex are the same one. -/
theorem Inv.holder_unique (hI : Inv initial urls p) {i j : Nat} {a b : Caller}
    (hi : p.callers[i]? = some a) (hj : p.callers[j]? = some b) (ha : a.holds = true)
    (hb : b.holds = true) : i = j := by
  by_contra hij
  have hSet := countP_set_add Caller.holds hi .done
  have hPos : 0 < (p.callers.set i .done).countP Caller.holds :=
    List.countP_pos_iff.2 ⟨b, List.getElem?_mem (by rwa [List.getElem?_set_ne hij]), hb⟩
  have hLe : p.callers.countP Caller.holds ≤ 1 := by
    rw [hI.holders]
    split <;> omega
  simp only [ha, if_true] at hSet
  simp only [Caller.holds, Bool.false_eq_true, if_false] at hSet
  omega

/-- A move that starts no write and leaves `DestURLs` as it is keeps every
pending write's read current. -/
theorem Inv.read_eq_set (hI : Inv initial urls p) {j : Nat} {b : Caller}
    (hb : ∀ u r, b ≠ .writing u r) (i : Nat) (u : String) (r : List String)
    (hi : (p.callers.set j b)[i]? = some (.writing u r)) : r = p.destURLs := by
  rcases getElem?_set_cases hi with ⟨-, rfl⟩ | ⟨-, hi⟩
  · exact absurd rfl (hb u r)
  · exact hI.read_eq i u r hi

theorem Inv.step (hI : Inv initial urls p) {j : Nat} (h : step p j = some q) :
    Inv initial urls q := by
  rcases step_cases h with ⟨url, hj, hl, rfl⟩ | ⟨url, hj, rfl⟩ | ⟨url, read, hj, rfl⟩ | ⟨hj, rfl⟩
  · -- `Lock` takes the free mutex
    have hHold := countP_set_add Caller.holds hj (.reading url)
    have hPend := filterMap_set_perm Caller.pending hj (.reading url)
    have hHolders := hI.holders
    simp only [Caller.holds, Caller.pending, hl, eq_self_iff_true, if_true, Bool.false_eq_true,
      if_false] at hHold hPend hHolders
    exact {
      holders := by dsimp only; simp only [if_true]; omega
      read_eq := hI.read_eq_set fun _ _ h => nomatch h
      dest_eq := hI.dest_eq
      urls_perm := (((List.perm_append_left_iff _).1 hPend).append_left _).trans hI.urls_perm }
  · -- the holder reads `DestURLs`
    have hHold := countP_set_add Caller.holds hj (.writing url p.destURLs)
    have hPend := filterMap_set_perm Caller.pending hj (.writing url p.destURLs)
    simp only [Caller.holds, Caller.pending, eq_self_iff_true, if_true] at hHold hPend
    exact {
      holders := by dsimp only; rw [← hI.holders]; omega
      read_eq := fun i u r hi => by
        rcases getElem?_set_cases hi with ⟨-, hc⟩ | ⟨-, hi⟩
        · cases hc
          rfl
        · exact hI.read_eq i u r hi
      dest_eq := hI.dest_eq
      urls_perm := (((List.perm_append_left_iff _).1 hPend).append_left _).trans hI.urls_perm }
  · -- the holder writes `append(read, url)` over the slice it read
    have hHold := countP_set_add Caller.holds hj .unlocking
    have hPend := filterMap_set_perm Caller.pending hj .unlocking
    simp only [Caller.holds, Caller.pending, Option.toList, List.nil_append, eq_self_iff_true,
      if_true, Bool.false_eq_true, if_false] at hHold hPend
    exact {
      holders := by dsimp only; rw [← hI.holders]; omega
      read_eq := fun i u r hi => by
        rcases getElem?_set_cases hi with ⟨-, hc⟩ | ⟨hij, hi⟩
        · cases hc
        · exact absurd (hI.holder_unique hi hj rfl rfl) hij
      dest_eq := by rw [hI.read_eq j url read hj, hI.dest_eq, List.append_assoc]
      urls_perm := by
        rw [List.append_assoc]
        exact ((hPend.append_left _).trans hI.urls_perm) }
  · -- the deferred `Unlock` frees the mutex
    have hHold := countP_set_add Caller.holds hj .done
    have hPend := filterMap_set_perm Caller.pending hj .done
    have hPos : 0 < p.callers.countP Caller.holds :=
      List.countP_pos_iff.2 ⟨_, List.getElem?_mem hj, rfl⟩
    have hHolders := hI.holders
    simp only [Caller.holds, Caller.pending, Option.toList, List.nil_append, eq_self_iff_true,
      if_true, Bool.false_eq_true, if_false] at hHold hPend
    exact {
      holders := by
        simp only [Bool.false_eq_true, if_false]
        split at hHolders <;> omega
      read_eq := hI.read_eq_set fun _ _ h => nomatch h
      dest_eq := hI.dest_eq
      urls_perm := (hPend.append_left _).trans hI.urls_perm }

/-- Every state some interleaving reaches satisfies the invariant. -/
theorem reach_inv (h : Reach initial urls p) : Inv initial urls p := by
  induction h with
  | start => exact inv_start initial urls
  | step j _ hs ih => exact ih.step hs

/-- No deadlock: while some call has not returned, some goroutine can move. -/
theorem progress (h : Reach initial urls p) (hRun : ∃ c ∈ p.callers, c ≠ .done) :
    ∃ j q, step p j = some q := by
  suffices ∃ j, (step p j).isSome by
    obtain ⟨j, hj⟩ := this
    exact ⟨j, Option.isSome_iff_exists.mp hj⟩
  have hI := reach_inv h
  obtain ⟨c, hc, hne⟩ := hRun
  obtain ⟨j, hj⟩ := List.mem_iff_getElem?.mp hc
  cases hHolds : c.holds
  · cases hLocked : p.locked
    · cases c with
      | locking url => exact ⟨j, by simp [step, hj, hLocked]⟩
      | done => exact absurd rfl hne
      | _ => simp [Caller.holds] at hHolds
    · -- a locked mutex has a holder, and the holder can move
      have hPos : 0 < p.callers.countP Caller.holds := by simp [hI.holders, hLocked]
      obtain ⟨d, hd, hdh⟩ := List.countP_pos_iff.1 hPos
      obtain ⟨k, hk⟩ := List.mem_iff_getElem?.mp hd
      exact ⟨k, step_isSome_of_holds hk hdh⟩
  · exact ⟨j, step_isSome_of_holds hj hHolds⟩

end Inv

/-! ## Termination -/

/-- Replacing a goroutine by one with fewer moves left lowers the total. -/
theorem totalCost_set_lt {l : List Caller} {j : Nat} {a b : Caller} (h : l[j]? = some a)
    (hb : b.cost < a.cost) : totalCost Caller.cost (l.set j b) < totalCost Caller.cost l := by
  have hCost := totalCost_set Caller.cost h b
  omega

/-- Every move lowers the moves the goroutines have left. -/
theorem step_cost_lt {p q : State} {j : Nat} (h : step p j = some q) :
    totalCost Caller.cost q.callers < totalCost Caller.cost p.callers := by
  rcases step_cases h with ⟨url, hj, -, rfl⟩ | ⟨url, hj, rfl⟩ | ⟨url, read, hj, rfl⟩ | ⟨hj, rfl⟩ <;>
    exact totalCost_set_lt hj (by simp only [Caller.cost]; omega)

/-! ## Concurrent callers -/

/-- `AddURL` under any number of concurrent callers, in every interleaving:
at most one goroutine holds the mutex; `DestURLs` is the initial slice
followed by the URLs written, which with the URLs still to be written are
exactly the calls' URLs, so no update is lost or made twice; once every call
has returned, `DestURLs` is the initial slice followed by every call's URL
exactly once; until then some goroutine can move; and every interleaving is
finite. -/
theorem addURL_no_lost_update (initial urls : List String) :
    (∀ p, Reach initial urls p →
      (∀ (i j : Nat) (a b : Caller), p.callers[i]? = some a → p.callers[j]? = some b →
        a.holds = true → b.holds = true → i = j) ∧
      p.destURLs = initial ++ p.added ∧
      p.added ++ p.callers.filterMap Caller.pending ~ urls ∧
      ((∀ c ∈ p.callers, c = .done) → ∃ order, order ~ urls ∧ p.destURLs = initial ++ order) ∧
      ((∃ c ∈ p.callers, c ≠ .done) → ∃ j q, step p j = some q)) ∧
    WellFounded fun q p => Reach initial urls p ∧ ∃ j, step p j = some q := by
  refine ⟨fun p h => ?_, ?_⟩
  · have hI := reach_inv h
    refine ⟨fun _ _ _ _ hi hj ha hb => hI.holder_unique hi hj ha hb, hI.dest_eq, hI.urls_perm,
      fun hDone => ⟨p.added, ?_, hI.dest_eq⟩, progress h⟩
    have hNone : p.callers.filterMap Caller.pending = [] :=
      List.filterMap_eq_nil_iff.2 fun c hc => by simp [hDone c hc, Caller.pending]
    simpa [hNone] using hI.urls_perm
  · exact Subrelation.wf (fun ⟨_, _, hs⟩ => step_cost_lt hs)
      (measure fun p : State => totalCost Caller.cost p.callers).wf

end Smirror.Contract.AddURL
