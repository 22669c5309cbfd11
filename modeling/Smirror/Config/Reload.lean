import Smirror.Config.Resources

/-!
# Runs of the rule loader

A `Resources` value sees any sequence of `Init` and `ReloadIfNeeded` calls,
each with its own storage contents and watcher answer. `Reach` collects the
states such a sequence reaches, together with the seed: `Rules` as the first
`Init` found it, which `initRules`' compare-and-swap fixes for good.

`Seeded` is the invariant every state after the first `Init` keeps: the seed
stays in `initialRules`, and a blank `BaseURL` leaves `Rules` at the seed.
From it, a load that succeeds installs exactly the seed followed by the decoded
rule files, so nothing of an earlier load survives (`load_rules_eq_seed_append`).

A load that fails does not restore the previous snapshot: `Rules` is left at the
seed followed by the files decoded before the failure
(`reload_error_rules`, `reload_error_replaces_rules`).
-/

namespace Smirror.Config

open Smirror.Base

variable {ρ : Type}

/-! ## Frame lemmas: a load touches `Rules` and `initCalls` only -/

namespace Resources

theorem loadAllResources_frame (fs : Storage ρ) (r : Resources ρ) :
    (loadAllResources fs r).1 = { r with rules := (loadAllResources fs r).1.rules } := by
  by_cases h : r.baseURL = ""
  · simp [loadAllResources_blank fs h]
  · simp [loadAllResources_eq fs h]

theorem loadAndInit_frame (fs : Storage ρ) (r : Resources ρ) :
    (loadAndInit fs r).1 =
      { r with rules := (loadAndInit fs r).1.rules,
               initCalls := (loadAndInit fs r).1.initCalls } := by
  have hFrame := loadAllResources_frame fs r
  unfold loadAndInit
  rcases hLoad : loadAllResources fs r with ⟨r₁, _ | err⟩ <;> rw [hLoad] at hFrame <;>
    simp only at hFrame <;> rw [hFrame]

@[simp] theorem loadAndInit_baseURL (fs : Storage ρ) (r : Resources ρ) :
    (loadAndInit fs r).1.baseURL = r.baseURL := by
  rw [loadAndInit_frame]

@[simp] theorem loadAndInit_initialRules (fs : Storage ρ) (r : Resources ρ) :
    (loadAndInit fs r).1.initialRules = r.initialRules := by
  rw [loadAndInit_frame]

@[simp] theorem loadAndInit_inited (fs : Storage ρ) (r : Resources ρ) :
    (loadAndInit fs r).1.inited = r.inited := by
  rw [loadAndInit_frame]

/-- Under a blank `BaseURL` a load leaves `Rules` alone. -/
theorem loadAndInit_rules_blank (fs : Storage ρ) {r : Resources ρ} (h : r.baseURL = "") :
    (loadAndInit fs r).1.rules = r.rules := by
  simp [loadAndInit, loadAllResources_blank fs h]

/-- A reload that reports `(true, nil)` ran a successful `loadAndInit`. -/
theorem reloadIfNeeded_ok {fs : Storage ρ} {h : Bool × Option String} {r : Resources ρ}
    (hok : ((r.reloadIfNeeded fs h).2.1 && (r.reloadIfNeeded fs h).2.2.isNone) = true) :
    loadAndInit fs r = ((r.reloadIfNeeded fs h).1, none) := by
  by_cases hSkip : (h.2.isSome || !h.1) = true
  · simp only [reloadIfNeeded, hSkip, if_true, Bool.and_eq_true, Option.isNone_iff_eq_none] at hok
    simp [hok.1, hok.2] at hSkip
  · unfold reloadIfNeeded at hok ⊢
    rw [if_neg hSkip] at hok ⊢
    simp only [Bool.true_and, Option.isNone_iff_eq_none] at hok
    exact Prod.ext rfl hok

@[simp] theorem reloadIfNeeded_inited (fs : Storage ρ) (h : Bool × Option String)
    (r : Resources ρ) : (r.reloadIfNeeded fs h).1.inited = r.inited := by
  unfold reloadIfNeeded; split <;> simp

end Resources

open Resources

/-! ## Calls and runs -/

/-- A call on a `Resources` value, with the answers its collaborators give. -/
inductive Call (ρ : Type)
  | init (projectID : String) (fs : Storage ρ)
  | reloadIfNeeded (hasChanged : Bool × Option String) (fs : Storage ρ)

/-- The storage contents a call loads from. -/
def Call.storage : Call ρ → Storage ρ
  | .init _ fs => fs
  | .reloadIfNeeded _ fs => fs

def Call.isInit : Call ρ → Bool
  | .init _ _ => true
  | .reloadIfNeeded _ _ => false

/-- The state after a call, and whether the call completed a load without
error: `Init` returned `nil`, or `ReloadIfNeeded` returned `(true, nil)`. -/
def Call.apply : Call ρ → Resources ρ → Resources ρ × Bool
  | .init projectID fs, r => ((r.init fs projectID).1, (r.init fs projectID).2.isNone)
  | .reloadIfNeeded h fs, r =>
    ((r.reloadIfNeeded fs h).1, (r.reloadIfNeeded fs h).2.1 && (r.reloadIfNeeded fs h).2.2.isNone)

/-- The seed after a call: unset until the first `Init`, which fixes it to the
`Rules` it finds. -/
def nextSeed (seed : Option (List ρ)) (r : Resources ρ) (c : Call ρ) : Option (List ρ) :=
  match seed with
  | some s => some s
  | none => if c.isInit then some r.rules else none

/-- `Reach r₀ seed r`: some sequence of calls leads from `r₀` to `r`, and `seed`
is the seed it fixed, if it made an `Init` call. -/
inductive Reach (r₀ : Resources ρ) : Option (List ρ) → Resources ρ → Prop
  | start : Reach r₀ none r₀
  | call {seed : Option (List ρ)} {r : Resources ρ} (c : Call ρ) :
      Reach r₀ seed r → Reach r₀ (nextSeed seed r c) (c.apply r).1

/-! ## The seed invariant -/

/-- The invariant after the first `Init` with seed `s`. -/
structure Seeded (s : List ρ) (r : Resources ρ) : Prop where
  inited : r.inited = true
  initialRules : r.initialRules = s
  blank : r.baseURL = "" → r.rules = s

theorem Seeded.load {s : List ρ} {r : Resources ρ} (h : Seeded s r) (fs : Storage ρ) :
    Seeded s (loadAndInit fs r).1 where
  inited := by simp [h.inited]
  initialRules := by simp [h.initialRules]
  blank hb := by
    simp only [loadAndInit_baseURL] at hb
    rw [loadAndInit_rules_blank fs hb, h.blank hb]

theorem Seeded.withProjectID {s : List ρ} {r : Resources ρ} (h : Seeded s r) (pid : String) :
    Seeded s { r with projectID := pid } :=
  ⟨h.inited, h.initialRules, h.blank⟩

/-- The first `initRules` seeds the value with its current `Rules`. -/
theorem seeded_initRules {r : Resources ρ} (h : r.inited = false) :
    Seeded r.rules (initRules r) :=
  ⟨initRules_inited r, initRules_initialRules h, fun _ => initRules_rules r⟩

theorem Seeded.apply {s : List ρ} {r : Resources ρ} (h : Seeded s r) (c : Call ρ) :
    Seeded s (c.apply r).1 := by
  cases c with
  | init pid fs =>
    simpa [Call.apply, Resources.init, initRules_of_inited h.inited] using
      (h.withProjectID pid).load fs
  | reloadIfNeeded hc fs =>
    simp only [Call.apply, Resources.reloadIfNeeded]
    split
    · exact h
    · exact h.load fs

/-- Before the first `Init` the flag stays clear; from it on, `Seeded` holds. -/
theorem reach_inv {r₀ r : Resources ρ} {seed : Option (List ρ)} (h₀ : r₀.inited = false)
    (hr : Reach r₀ seed r) :
    match seed with
    | none => r.inited = false
    | some s => Seeded s r := by
  induction hr with
  | start => exact h₀
  | @call seed r c _ ih =>
    cases seed with
    | some s => exact ih.apply c
    | none =>
      cases c with
      | init pid fs =>
        simpa [nextSeed, Call.isInit, Call.apply, Resources.init] using
          ((seeded_initRules ih).withProjectID pid).load fs
      | reloadIfNeeded hc fs =>
        simpa [nextSeed, Call.isInit, Call.apply] using ih

/-! ## What a successful load installs -/

/-- The rule arrays decoded from the non-directory `*.json` objects listed
directly under `baseURL`, in listing order; none when `baseURL` is blank or
does not exist. -/
def Storage.Decoded (fs : Storage ρ) (baseURL : String) (ds : List (List ρ)) : Prop :=
  baseURL = "" ∧ ds = [] ∨
  baseURL ≠ "" ∧
    (fs.existsAt baseURL = .ok false ∧ ds = [] ∨
     fs.existsAt baseURL = .ok true ∧ ∃ objects, fs.list baseURL = .ok objects ∧
       List.Forall₂ (fun o d => fs.fetch o = .ok d) (objects.filter (fun o => !o.isDir)) ds)

theorem Storage.fetchAll_ok {fs : Storage ρ} {objects : List Object} {ds : List (List ρ)}
    (h : fs.fetchAll objects = (ds, none)) :
    List.Forall₂ (fun o d => fs.fetch o = .ok d) (objects.filter (fun o => !o.isDir)) ds := by
  induction objects generalizing ds with
  | nil => cases h; exact .nil
  | cons object rest ih =>
    cases hDir : object.isDir
    · rcases hFetch : fs.fetch object with err | d <;> simp [Storage.fetchAll, hDir, hFetch] at h
      obtain ⟨rfl, hRest⟩ := h
      rw [List.filter_cons_of_pos (by simp [hDir])]
      exact .cons hFetch (ih (Prod.ext rfl hRest))
    · simp only [Storage.fetchAll, hDir, if_true] at h
      simpa [hDir] using ih h

theorem Storage.read_ok {fs : Storage ρ} {baseURL : String} {ds : List (List ρ)}
    (hb : baseURL ≠ "") (h : fs.read baseURL = (ds, none)) : fs.Decoded baseURL ds := by
  unfold Storage.read at h
  refine .inr ⟨hb, ?_⟩
  rcases hEx : fs.existsAt baseURL with err | _ | _ <;> rw [hEx] at h
  · cases h
  · cases h; exact .inl ⟨rfl, rfl⟩
  · rcases hList : fs.list baseURL with err | objects <;> rw [hList] at h
    · cases h
    · exact .inr ⟨rfl, objects, rfl, Storage.fetchAll_ok h⟩

/-- A successful load from a seeded state installs the seed and the decoded
files, nothing else. -/
theorem Seeded.load_ok {s : List ρ} {r r' : Resources ρ} {fs : Storage ρ}
    (hs : Seeded s r) (h : loadAndInit fs r = (r', none)) :
    ∃ ds, fs.Decoded r.baseURL ds ∧ r'.rules = s ++ ds.flatten := by
  have hLoad := (loadAndInit_ok h).1
  by_cases hb : r.baseURL = ""
  · rw [loadAllResources_blank fs hb] at hLoad
    simp only [Prod.mk.injEq] at hLoad
    refine ⟨[], .inl ⟨hb, rfl⟩, ?_⟩
    rw [List.flatten_nil, List.append_nil, ← hs.blank hb, hLoad.1]
  · rw [loadAllResources_eq fs hb] at hLoad
    simp only [Prod.mk.injEq] at hLoad
    refine ⟨_, Storage.read_ok hb (Prod.ext rfl hLoad.2), ?_⟩
    have hRules := congrArg Resources.rules hLoad.1
    simp only at hRules
    rw [← hRules, hs.initialRules]

/-- Snapshot composition. From a value not yet initialised, after any calls,
every call that completes a load once the seed is fixed leaves `Rules` equal
to the seed followed by the arrays decoded from the listed rule files: earlier
loads are never carried over. -/
theorem load_rules_eq_seed_append {r₀ r : Resources ρ} {seed : Option (List ρ)} {s : List ρ}
    (c : Call ρ) (h₀ : r₀.inited = false) (hr : Reach r₀ seed r)
    (hs : nextSeed seed r c = some s) (hok : (c.apply r).2 = true) :
    ∃ ds, c.storage.Decoded r.baseURL ds ∧ (c.apply r).1.rules = s ++ ds.flatten := by
  have hInv := reach_inv h₀ hr
  cases c with
  | init pid fs =>
    have hSeeded : Seeded s { initRules r with projectID := pid } := by
      cases seed with
      | none =>
        simp only [nextSeed, Call.isInit, if_true, Option.some.injEq] at hs
        exact hs ▸ (seeded_initRules hInv).withProjectID pid
      | some s' =>
        cases hs
        rw [initRules_of_inited hInv.inited]
        exact hInv.withProjectID pid
    simp only [Call.apply, Option.isNone_iff_eq_none] at hok
    obtain ⟨ds, hDecoded, hRules⟩ := hSeeded.load_ok (Prod.ext rfl hok)
    exact ⟨ds, by simpa using hDecoded, hRules⟩
  | reloadIfNeeded hc fs =>
    cases seed with
    | none => simp [nextSeed, Call.isInit] at hs
    | some s' =>
      cases hs
      exact hInv.load_ok (reloadIfNeeded_ok hok)

/-- A value as the configuration decoder leaves it: one seed rule, rule files
under `mem://rules`. -/
def sampleResources : Resources Nat :=
  { baseURL := "mem://rules", rules := [0], initialRules := [], inited := false,
    projectID := "", initCalls := [] }

/-- A store whose listing holds the folder itself and one rule file. -/
def sampleStore : Storage Nat where
  existsAt _ := .ok true
  list _ := .ok [⟨"mem://rules", true⟩, ⟨"mem://rules/a.json", false⟩]
  download object := .ok object.url
  decode _ := .ok [1, 2]

/-- After an `Init` that installed `[0, 1, 2]`, a reload of the same store
installs the seed and the file again, `[0, 1, 2]`: the earlier load is not
carried over. -/
theorem load_rules_eq_seed_append_sample :
    sampleResources.inited = false ∧
      Reach sampleResources (some [0]) (sampleResources.init sampleStore "p").1 ∧
      (sampleResources.init sampleStore "p").1.rules = [0, 1, 2] ∧
      nextSeed (some [0]) (sampleResources.init sampleStore "p").1
        (.reloadIfNeeded (true, none) sampleStore) = some [0] ∧
      ((Call.reloadIfNeeded (true, none) sampleStore).apply
        (sampleResources.init sampleStore "p").1).2 = true ∧
      ∃ ds, (Call.reloadIfNeeded (true, none) sampleStore).storage.Decoded
          (sampleResources.init sampleStore "p").1.baseURL ds ∧
        ((Call.reloadIfNeeded (true, none) sampleStore).apply
          (sampleResources.init sampleStore "p").1).1.rules = [0] ++ ds.flatten :=
  have hReach : Reach sampleResources (some [0]) (sampleResources.init sampleStore "p").1 :=
    .call (.init "p" sampleStore) .start
  ⟨rfl, hReach, by decide, rfl, by decide,
    load_rules_eq_seed_append (.reloadIfNeeded (true, none) sampleStore) rfl hReach rfl
      (by decide)⟩

/-! ## What a failed load leaves behind -/

/-- The rule arrays decoded before a load under `baseURL` failed with `err`:
none when `Exists` or `List` failed, otherwise those of the non-directory
objects listed before the file whose download or decoding failed. -/
def Storage.FailedAfter (fs : Storage ρ) (baseURL : String) (ds : List (List ρ))
    (err : String) : Prop :=
  fs.existsAt baseURL = .error err ∧ ds = [] ∨
  fs.existsAt baseURL = .ok true ∧
    (fs.list baseURL = .error err ∧ ds = [] ∨
     ∃ objects before object after, fs.list baseURL = .ok objects ∧
       objects.filter (fun o => !o.isDir) = before ++ object :: after ∧
       List.Forall₂ (fun o d => fs.fetch o = .ok d) before ds ∧ fs.fetch object = .error err)

theorem Storage.fetchAll_error {fs : Storage ρ} {objects : List Object} {ds : List (List ρ)}
    {err : String} (h : fs.fetchAll objects = (ds, some err)) :
    ∃ before object after, objects.filter (fun o => !o.isDir) = before ++ object :: after ∧
      List.Forall₂ (fun o d => fs.fetch o = .ok d) before ds ∧ fs.fetch object = .error err := by
  induction objects generalizing ds with
  | nil => cases h
  | cons head rest ih =>
    cases hDir : head.isDir
    · rcases hFetch : fs.fetch head with e | d <;> simp [Storage.fetchAll, hDir, hFetch] at h
      · obtain ⟨rfl, rfl⟩ := h
        exact ⟨[], head, rest.filter (fun o => !o.isDir), by simp [hDir], .nil, hFetch⟩
      · obtain ⟨rfl, hRest⟩ := h
        obtain ⟨before, object, after, hSplit, hBefore, hObject⟩ := ih (Prod.ext rfl hRest)
        exact ⟨head :: before, object, after, by simp [hDir, hSplit], .cons hFetch hBefore, hObject⟩
    · simp only [Storage.fetchAll, hDir, if_true] at h
      simpa [hDir] using ih h

theorem Storage.read_error {fs : Storage ρ} {baseURL : String} {ds : List (List ρ)}
    {err : String} (h : fs.read baseURL = (ds, some err)) : fs.FailedAfter baseURL ds err := by
  unfold Storage.read at h
  rcases hEx : fs.existsAt baseURL with e | _ | _ <;> rw [hEx] at h
  · cases h; exact .inl ⟨hEx, rfl⟩
  · cases h
  · rcases hList : fs.list baseURL with e | objects <;> rw [hList] at h
    · cases h; exact .inr ⟨hEx, .inl ⟨hList, rfl⟩⟩
    · obtain ⟨before, object, after, hSplit, hBefore, hObject⟩ := Storage.fetchAll_error h
      exact .inr ⟨hEx, .inr ⟨objects, before, object, after, hList, hSplit, hBefore, hObject⟩⟩

/-- A failed load from a seeded state leaves the seed and the files decoded
before the failure, and initialises none of them. -/
theorem Seeded.load_error {s : List ρ} {r r' : Resources ρ} {fs : Storage ρ} {err : String}
    (hs : Seeded s r) (h : loadAndInit fs r = (r', some err)) :
    r.baseURL ≠ "" ∧ r'.initCalls = r.initCalls ∧
      ∃ ds, fs.FailedAfter r.baseURL ds err ∧ r'.rules = s ++ ds.flatten := by
  have hLoad := loadAndInit_error h
  by_cases hb : r.baseURL = ""
  · rw [loadAllResources_blank fs hb] at hLoad
    cases hLoad
  · rw [loadAllResources_eq fs hb] at hLoad
    simp only [Prod.mk.injEq] at hLoad
    obtain ⟨rfl, hErr⟩ := hLoad
    exact ⟨hb, rfl, _, Storage.read_error (Prod.ext rfl hErr), by rw [hs.initialRules]⟩

/-- A reload that returns an error either failed in the watcher, changing
nothing, or ran a load that failed. -/
theorem reloadIfNeeded_error {fs : Storage ρ} {h : Bool × Option String} {r : Resources ρ}
    {err : String} (herr : (r.reloadIfNeeded fs h).2.2 = some err) :
    h.2 = some err ∧ (r.reloadIfNeeded fs h).1 = r ∨
      loadAndInit fs r = ((r.reloadIfNeeded fs h).1, some err) := by
  unfold reloadIfNeeded at herr ⊢
  split at herr
  · rename_i hSkip
    rw [if_pos hSkip]
    exact .inl ⟨herr, rfl⟩
  · rename_i hSkip
    rw [if_neg hSkip]
    exact .inr (Prod.ext rfl herr)

/-- A two-file store whose second file no longer decodes. -/
def brokenStore : Storage Nat where
  existsAt _ := .ok true
  list _ := .ok [⟨"mem://rules/a.json", false⟩, ⟨"mem://rules/b.json", false⟩]
  download object := .ok object.url
  decode reader := if reader = "mem://rules/a.json" then .ok [3] else .error "invalid character"

/-- After a successful `Init` installed `[0, 1, 2]`, a reload whose second
rule file fails to decode surfaces the error and leaves `[0, 3]` active: neither
the previous snapshot nor a complete new one. -/
theorem reload_error_replaces_rules :
    (sampleResources.init sampleStore "p").2 = none ∧
      ((sampleResources.init sampleStore "p").1.reloadIfNeeded brokenStore (true, none)).2.2 =
        some "failed to decode: mem://rules/b.json: invalid character" ∧
      ((sampleResources.init sampleStore "p").1.reloadIfNeeded brokenStore (true, none)).1.rules =
        [0, 3] ∧
      (sampleResources.init sampleStore "p").1.rules = [0, 1, 2] := by
  decide

/-- Reload on error, as the code behaves. After the first `Init`, a reload
that returns an error either failed in the change check, leaving the value as
it was, or ran a load that failed, leaving `Rules` at the seed followed by the
rule arrays decoded before the failing call. -/
theorem reload_error_rules {r₀ r : Resources ρ} {s : List ρ} (fs : Storage ρ)
    (h : Bool × Option String) {err : String} (h₀ : r₀.inited = false)
    (hr : Reach r₀ (some s) r) (herr : (r.reloadIfNeeded fs h).2.2 = some err) :
    h.2 = some err ∧ (r.reloadIfNeeded fs h).1 = r ∨
      r.baseURL ≠ "" ∧ ∃ ds, fs.FailedAfter r.baseURL ds err ∧
        (r.reloadIfNeeded fs h).1.rules = s ++ ds.flatten := by
  rcases reloadIfNeeded_error herr with hSkip | hLoad
  · exact .inl hSkip
  · obtain ⟨hb, -, hRest⟩ := (reach_inv h₀ hr).load_error hLoad
    exact .inr ⟨hb, hRest⟩

theorem reload_error_rules_sample :
    sampleResources.inited = false ∧
      Reach sampleResources (some [0]) (sampleResources.init sampleStore "p").1 ∧
      ((sampleResources.init sampleStore "p").1.reloadIfNeeded brokenStore (true, none)).2.2 =
        some "failed to decode: mem://rules/b.json: invalid character" ∧
      ((true, none).2 = some "failed to decode: mem://rules/b.json: invalid character" ∧
          ((sampleResources.init sampleStore "p").1.reloadIfNeeded brokenStore (true, none)).1 =
            (sampleResources.init sampleStore "p").1 ∨
        (sampleResources.init sampleStore "p").1.baseURL ≠ "" ∧ ∃ ds,
          brokenStore.FailedAfter (sampleResources.init sampleStore "p").1.baseURL ds
            "failed to decode: mem://rules/b.json: invalid character" ∧
          ((sampleResources.init sampleStore "p").1.reloadIfNeeded brokenStore (true, none)).1.rules =
            [0] ++ ds.flatten) :=
  have hReach : Reach sampleResources (some [0]) (sampleResources.init sampleStore "p").1 :=
    .call (.init "p" sampleStore) .start
  ⟨rfl, hReach, by decide, reload_error_rules brokenStore (true, none) rfl hReach (by decide)⟩

end Smirror.Config
