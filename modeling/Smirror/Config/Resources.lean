import Smirror.Base

/-!
# The rule loader: `config.Resources`

`Resources` holds the active rule snapshot `Rules`, the seed `initialRules`
fixed by the first `Init`, and the `inited` flag whose compare-and-swap fixes
it. `Init` and `ReloadIfNeeded` both end in `loadAndInit`, which rebuilds
`Rules` from the seed and the `*.json` rule files listed under `BaseURL`, and
then calls `Init(projectID)` on every rule.

The loader writes `Rules` in place: `loadAllResources` assigns the seed before
it asks the store anything, and `loadResources` appends each decoded file as it
goes. A failing load therefore leaves behind whatever it had built.

The storage facade and the JSON decoder are libraries; their answers for one
load are the fields of `Storage`. `Rule.Init` mutates the rule it is called on;
the calls are recorded, in order, in the ghost field `initCalls`. The change
watcher `meta` is a library object too: its `HasChanged` answer is an argument
of `reloadIfNeeded`.

## Main results

* `loadAllResources_eq`, `loadAllResources_blank`: one load sets `Rules` to the
  seed followed by the arrays `Storage.read` decodes, and reports its error.
* `loadAndInit_ok`: a load that succeeds initialises every rule it installed.
-/

namespace Smirror.Config

open Smirror.Base

variable {ρ : Type}

/-- The state of one `config.Resources` value. `ρ` is the rule pointer type;
`inited` is the `int32` flag, which only `initRules` writes and only ever from
`0` to `1`. `initCalls` records the `Rule.Init(projectID)` calls made so far. -/
structure Resources (ρ : Type) where
  baseURL : String
  rules : List ρ
  initialRules : List ρ
  inited : Bool
  projectID : String
  initCalls : List (ρ × String)

/-- The answers of the storage facade and of the JSON decoder during one load:
`fs.Exists(BaseURL)`, `fs.List(BaseURL, suffixMatcher)` with the `.json`
suffix matcher, `storage.Download(object)`, and `Decode(&resources)` of the
downloaded bytes. -/
structure Storage (ρ : Type) where
  existsAt : String → Except String Bool
  list : String → Except String (List Object)
  download : Object → Except String String
  decode : String → Except String (List ρ)

/-! ## The Go methods -/

namespace Resources

/-- `initRules`: the first call wins the compare-and-swap and takes the current
`Rules` (or an empty slice) as the seed; later calls change nothing. -/
def initRules (r : Resources ρ) : Resources ρ :=
  if r.inited then r
  else { r with inited := true, initialRules := if 0 < r.rules.length then r.rules else [] }

/-- `loadResources`: download one rule file, decode it, append its rules. -/
def loadResources (fs : Storage ρ) (object : Object) (r : Resources ρ) :
    Resources ρ × Option String :=
  match fs.download object with
  | .error err => (r, some err)
  | .ok reader =>
    match fs.decode reader with
    | .error err => (r, some (wrapf err ("failed to decode: " ++ object.url)))
    | .ok resources => ({ r with rules := r.rules ++ resources }, none)

/-- The `for _, object := range routesObject` loop of `loadAllResources`:
directories are skipped, the first failing file ends the loop. -/
def loadRoutes (fs : Storage ρ) : List Object → Resources ρ → Resources ρ × Option String
  | [], r => (r, none)
  | object :: rest, r =>
    if object.isDir then loadRoutes fs rest r
    else
      match loadResources fs object r with
      | (r', some err) => (r', some err)
      | (r', none) => loadRoutes fs rest r'

/-- `loadAllResources`: nothing happens for a blank `BaseURL`; otherwise `Rules`
is reset to the seed and the listed rule files are appended. -/
def loadAllResources (fs : Storage ρ) (r : Resources ρ) : Resources ρ × Option String :=
  if r.baseURL = "" then (r, none)
  else
    let r := { r with rules := r.initialRules }
    match fs.existsAt r.baseURL with
    | .error err => (r, some err)
    | .ok false => (r, none)
    | .ok true =>
      match fs.list r.baseURL with
      | .error err => (r, some err)
      | .ok routesObject => loadRoutes fs routesObject r

/-- `loadAndInit`: load, then call `Init(projectID)` on every rule in order. -/
def loadAndInit (fs : Storage ρ) (r : Resources ρ) : Resources ρ × Option String :=
  match loadAllResources fs r with
  | (r', some err) => (r', some err)
  | (r', none) => ({ r' with initCalls := r'.initCalls ++ r'.rules.map (·, r'.projectID) }, none)

/-- `Init`: fix the seed, record the project, load. -/
def init (fs : Storage ρ) (projectID : String) (r : Resources ρ) : Resources ρ × Option String :=
  loadAndInit fs { initRules r with projectID := projectID }

/-- `ReloadIfNeeded`: `hasChanged` is the `(changed, err)` pair the watcher
returned; a load runs only when it reports a change and no error. -/
def reloadIfNeeded (fs : Storage ρ) (hasChanged : Bool × Option String) (r : Resources ρ) :
    Resources ρ × Bool × Option String :=
  if hasChanged.2.isSome || !hasChanged.1 then (r, hasChanged.1, hasChanged.2)
  else ((loadAndInit fs r).1, true, (loadAndInit fs r).2)

end Resources

/-! ## What one load reads -/

/-- The rules one listed file contributes, or the error `loadResources`
reports for it. -/
def Storage.fetch (fs : Storage ρ) (object : Object) : Except String (List ρ) :=
  match fs.download object with
  | .error err => .error err
  | .ok reader =>
    match fs.decode reader with
    | .error err => .error (wrapf err ("failed to decode: " ++ object.url))
    | .ok resources => .ok resources

/-- The arrays decoded from the non-directory objects of a listing, in order,
up to the first file that fails, and that file's error. -/
def Storage.fetchAll (fs : Storage ρ) : List Object → List (List ρ) × Option String
  | [] => ([], none)
  | object :: rest =>
    if object.isDir then fs.fetchAll rest
    else
      match fs.fetch object with
      | .error err => ([], some err)
      | .ok resources => (resources :: (fs.fetchAll rest).1, (fs.fetchAll rest).2)

/-- What a load under a non-blank `baseURL` reads: the decoded arrays and the
error, if any, that ends it. -/
def Storage.read (fs : Storage ρ) (baseURL : String) : List (List ρ) × Option String :=
  match fs.existsAt baseURL with
  | .error err => ([], some err)
  | .ok false => ([], none)
  | .ok true =>
    match fs.list baseURL with
    | .error err => ([], some err)
    | .ok routesObject => fs.fetchAll routesObject

/-! ## One spec lemma per method -/

namespace Resources

@[simp] theorem initRules_rules (r : Resources ρ) : (initRules r).rules = r.rules := by
  unfold initRules; split <;> rfl

@[simp] theorem initRules_baseURL (r : Resources ρ) : (initRules r).baseURL = r.baseURL := by
  unfold initRules; split <;> rfl

@[simp] theorem initRules_initCalls (r : Resources ρ) : (initRules r).initCalls = r.initCalls := by
  unfold initRules; split <;> rfl

@[simp] theorem initRules_inited (r : Resources ρ) : (initRules r).inited = true := by
  unfold initRules; split <;> simp_all

/-- An initialised value keeps its seed. -/
theorem initRules_of_inited {r : Resources ρ} (h : r.inited = true) : initRules r = r := by
  simp [initRules, h]

/-- The first `initRules` takes the current rules as the seed. -/
theorem initRules_initialRules {r : Resources ρ} (h : r.inited = false) :
    (initRules r).initialRules = r.rules := by
  cases hr : r.rules <;> simp [initRules, h, hr]

theorem loadResources_eq (fs : Storage ρ) (object : Object) (r : Resources ρ) :
    loadResources fs object r =
      match fs.fetch object with
      | .error err => (r, some err)
      | .ok resources => ({ r with rules := r.rules ++ resources }, none) := by
  unfold loadResources Storage.fetch
  split <;> [rfl; split <;> rfl]

/-- The loop appends exactly what `fetchAll` decodes and stops with its error. -/
theorem loadRoutes_eq (fs : Storage ρ) (objects : List Object) (r : Resources ρ) :
    loadRoutes fs objects r =
      ({ r with rules := r.rules ++ (fs.fetchAll objects).1.flatten },
        (fs.fetchAll objects).2) := by
  induction objects generalizing r with
  | nil => simp [loadRoutes, Storage.fetchAll]
  | cons object rest ih =>
    by_cases hDir : object.isDir
    · simp [loadRoutes, Storage.fetchAll, hDir, ih]
    · cases hFetch : fs.fetch object <;>
        simp [loadRoutes, Storage.fetchAll, hDir, hFetch, loadResources_eq, ih]

theorem loadAllResources_blank (fs : Storage ρ) {r : Resources ρ} (h : r.baseURL = "") :
    loadAllResources fs r = (r, none) := by
  simp [loadAllResources, h]

/-- A load under a non-blank `BaseURL` installs the seed followed by what
`Storage.read` decodes, whatever the store answers. -/
theorem loadAllResources_eq (fs : Storage ρ) {r : Resources ρ} (h : r.baseURL ≠ "") :
    loadAllResources fs r =
      ({ r with rules := r.initialRules ++ (fs.read r.baseURL).1.flatten },
        (fs.read r.baseURL).2) := by
  unfold loadAllResources Storage.read
  rw [if_neg h]
  rcases hEx : fs.existsAt r.baseURL with err | _ | _
  · simp [hEx]
  · simp [hEx]
  · rcases hList : fs.list r.baseURL with err | objects
    · simp [hEx, hList]
    · simp [hEx, hList, loadRoutes_eq]

/-- A successful `loadAndInit` installs what the load installed and records one
`Init(projectID)` call for each of its rules, in order. -/
theorem loadAndInit_ok {fs : Storage ρ} {r r' : Resources ρ}
    (h : loadAndInit fs r = (r', none)) :
    loadAllResources fs r = ({ r' with initCalls := (loadAllResources fs r).1.initCalls }, none) ∧
      r'.initCalls = (loadAllResources fs r).1.initCalls ++ r'.rules.map (·, r'.projectID) := by
  unfold loadAndInit at h
  rcases hLoad : loadAllResources fs r with ⟨r₁, _ | err⟩ <;> rw [hLoad] at h
  · cases h; exact ⟨rfl, rfl⟩
  · cases h

/-- A failed `loadAndInit` is the failed load: no rule is initialised. -/
theorem loadAndInit_error {fs : Storage ρ} {r r' : Resources ρ} {err : String}
    (h : loadAndInit fs r = (r', some err)) : loadAllResources fs r = (r', some err) := by
  unfold loadAndInit at h
  rcases hLoad : loadAllResources fs r with ⟨r₁, _ | err₁⟩ <;> rw [hLoad] at h <;> cases h
  rfl

end Resources

end Smirror.Config
