import Smirror.Base

/-!
# The candidate walk: `service.appendResources`

`getResourceCandidates` lists a rule's source URL recursively. `appendResources`
lists one URL, skips the entry at index 0 when it is a directory, descends into
every other directory, and appends each file (in the proxy-based service, each
file whose parent path the rule's filter matches).

The recursion follows the storage's answers, not a structure Lean can see, so
the model carries fuel: `none` is a walk that did not finish within it. The
storage is a finite `Tree` whose `List` answers `Tree.Lists` describes: every
directory lists itself first and then its entries, or fails. Over such a
store the walk finishes once the fuel exceeds the tree's depth, returns the
first failing listing's error in pre-order, and without a failure appends the
tree's files exactly, in pre-order (`appendResources_collects`).

The skip at index 0 assumes that a listing shows the listed directory first.
`Tree.ListsWith` drops that assumption per directory: over such a store the
walk covers `Tree.prune`, the tree less every first entry that is a directory
below a directory that does not list itself, with all it holds
(`appendResources_walks_pruned`).

Over any storage at all, `Visits` is the set of URLs the walk lists from its
start: a walk that returns has swallowed no failing listing among them
(`appendResources_appends_files`).

`url.Base` belongs to the storage library; its path part is the parameter
`urlPath`. The filter's `Match` is the parameter `filterMatch`.
-/

namespace Smirror.Cron

open Smirror.Base

/-! ## Storage trees -/

/-- A storage tree: a file, or a directory and its entries. -/
inductive Tree
  | file (url : String)
  | dir (url : String) (entries : List Tree)

/-- The object a listing shows for a node. -/
def Tree.object : Tree → Object
  | .file url => ⟨url, false⟩
  | .dir url _ => ⟨url, true⟩

mutual
/-- The files of a tree, in pre-order. -/
def Tree.files : Tree → List Object
  | .file url => [⟨url, false⟩]
  | .dir _ entries => Tree.filesAll entries

def Tree.filesAll : List Tree → List Object
  | [] => []
  | t :: ts => t.files ++ Tree.filesAll ts
end

mutual
/-- The directories of a tree, in pre-order. -/
def Tree.dirs : Tree → List String
  | .file _ => []
  | .dir url entries => url :: Tree.dirsAll entries

def Tree.dirsAll : List Tree → List String
  | [] => []
  | t :: ts => t.dirs ++ Tree.dirsAll ts
end

mutual
/-- Nesting depth: a file has depth 0. -/
def Tree.depth : Tree → Nat
  | .file _ => 0
  | .dir _ entries => Tree.depthAll entries + 1

def Tree.depthAll : List Tree → Nat
  | [] => 0
  | t :: ts => max t.depth (Tree.depthAll ts)
end

mutual
/-- `list` answers as a store holding `t` does: each directory lists itself
first and then its entries, unless its listing fails. -/
def Tree.Lists (list : String → Except String (List Object)) : Tree → Prop
  | .file _ => True
  | .dir url entries =>
    (list url = .ok (⟨url, true⟩ :: entries.map Tree.object) ∨ ∃ err, list url = .error err) ∧
      Tree.ListsAll list entries

def Tree.ListsAll (list : String → Except String (List Object)) : List Tree → Prop
  | [] => True
  | t :: ts => t.Lists list ∧ Tree.ListsAll list ts
end

/-- The error of the first of `urls` whose listing fails. -/
def firstFailure (list : String → Except String (List Object)) : List String → Option String
  | [] => none
  | url :: rest =>
    match list url with
    | .error err => some err
    | .ok _ => firstFailure list rest

theorem firstFailure_append (list : String → Except String (List Object)) (a b : List String) :
    firstFailure list (a ++ b) =
      match firstFailure list a with
      | some err => some err
      | none => firstFailure list b := by
  induction a with
  | nil => rfl
  | cons url rest ih => cases h : list url <;> simp [firstFailure, h, ih]

/-! ## The Go code -/

/-- `path.Split`: everything up to and including the last `/`, and the rest. -/
def pathSplit (path : String) : String × String :=
  let name := (path.toList.reverse.takeWhile (· ≠ '/')).length
  (String.mk (path.toList.take (path.length - name)),
    String.mk (path.toList.drop (path.length - name)))

example : pathSplit "/data/in/a.csv" = ("/data/in/", "a.csv") := by decide

/-- The `for i := range objects` loop of `appendResources`: `recur` is the call
on a sub-directory, `keep` decides whether a file is appended. -/
def appendEntries (recur : String → List Object → Option (List Object × Option String))
    (keep : Object → Bool) :
    Nat → List Object → List Object → Option (List Object × Option String)
  | _, [], result => some (result, none)
  | i, object :: rest, result =>
    if i = 0 ∧ object.isDir then appendEntries recur keep (i + 1) rest result
    else if object.isDir then
      match recur object.url result with
      | none => none
      | some (result', some err) => some (result', some err)
      | some (result', none) => appendEntries recur keep (i + 1) rest result'
    else appendEntries recur keep (i + 1) rest (if keep object then result ++ [object] else result)

/-- `appendResources` with `fuel` levels of recursion and the file test `keep`. -/
def appendResourcesWith (list : String → Except String (List Object)) (keep : Object → Bool) :
    Nat → String → List Object → Option (List Object × Option String)
  | 0, _, _ => none
  | fuel + 1, url, result =>
    match list url with
    | .error err => some (result, some err)
    | .ok objects => appendEntries (appendResourcesWith list keep fuel) keep 0 objects result

namespace Proxy

/-- `appendResources` of the proxy-based service: a file is appended when the
filter matches it under its parent path. -/
def appendResources (list : String → Except String (List Object)) (urlPath : String → String)
    (filterMatch : String → Object → Bool) (fuel : Nat) (url : String) (result : List Object) :
    Option (List Object × Option String) :=
  appendResourcesWith list (fun object => filterMatch (pathSplit (urlPath object.url)).1 object)
    fuel url result

end Proxy

namespace Trigger

/-- `appendResources` of the trigger-based service: every file is appended. -/
def appendResources (list : String → Except String (List Object)) (fuel : Nat) (url : String)
    (result : List Object) : Option (List Object × Option String) :=
  appendResourcesWith list (fun _ => true) fuel url result

end Trigger

/-! ## The walk over a tree -/

section Walk

variable (list : String → Except String (List Object)) (keep : Object → Bool)

/-- What a finished walk over a tree reports: the error of its first failing
listing and, when there is none, the files appended after `result`. -/
def Walked (dirs : List String) (files : List Object) (result : List Object)
    (r : List Object × Option String) : Prop :=
  r.2 = firstFailure list dirs ∧ (r.2 = none → r.1 = result ++ files.filter keep)

mutual
theorem appendResourcesWith_dir (url : String) (entries : List Tree)
    (hLists : (Tree.dir url entries).Lists list) (fuel : Nat)
    (hFuel : (Tree.dir url entries).depth < fuel) (result : List Object) :
    ∃ r, appendResourcesWith list keep fuel url result = some r ∧
      Walked list keep (Tree.dir url entries).dirs (Tree.dir url entries).files result r := by
  obtain ⟨fuel, rfl⟩ : ∃ f, fuel = f + 1 := ⟨fuel - 1, by simp [Tree.depth] at hFuel; omega⟩
  obtain ⟨hList, hAll⟩ := hLists
  rcases hList with hOk | ⟨err, hErr⟩
  · obtain ⟨r, hr, hFirst, hFiles⟩ := appendEntries_all entries hAll fuel
      (by simp [Tree.depth] at hFuel; omega) 1 (by omega) result
    refine ⟨r, by simp [appendResourcesWith, hOk, appendEntries, Tree.object, hr], ?_, hFiles⟩
    simp [Tree.dirs, firstFailure, hOk, hFirst]
  · exact ⟨(result, some err), by simp [appendResourcesWith, hErr],
      by simp [Tree.dirs, firstFailure, hErr], by simp⟩

theorem appendEntries_all (entries : List Tree) (hAll : Tree.ListsAll list entries) (fuel : Nat)
    (hFuel : Tree.depthAll entries < fuel) (i : Nat) (hi : 0 < i) (result : List Object) :
    ∃ r, appendEntries (appendResourcesWith list keep fuel) keep i (entries.map Tree.object)
        result = some r ∧
      Walked list keep (Tree.dirsAll entries) (Tree.filesAll entries) result r := by
  match entries, hAll with
  | [], _ => exact ⟨_, rfl, rfl, by simp [Tree.filesAll]⟩
  | .file url :: rest, ⟨_, hRest⟩ =>
    obtain ⟨r, hr, hFirst, hFiles⟩ := appendEntries_all rest hRest fuel
      (by simp [Tree.depthAll] at hFuel; omega) (i + 1) (by omega)
      (if keep ⟨url, false⟩ then result ++ [⟨url, false⟩] else result)
    refine ⟨r, by simpa [appendEntries, Tree.object, Nat.pos_iff_ne_zero.mp hi] using hr,
      by simpa [Tree.dirsAll, Tree.dirs] using hFirst, fun hNone => ?_⟩
    rw [hFiles hNone]
    split <;> simp_all [Tree.filesAll, Tree.files]
  | .dir url es :: rest, ⟨hDir, hRest⟩ =>
    have hDepth : (Tree.dir url es).depth < fuel ∧ Tree.depthAll rest < fuel := by
      simp only [Tree.depthAll] at hFuel; omega
    obtain ⟨⟨res₁, _ | err⟩, hr₁, hFirst₁, hFiles₁⟩ :=
      appendResourcesWith_dir url es hDir fuel hDepth.1 result <;> simp only at hFirst₁
    · obtain ⟨r, hr, hFirst, hFiles⟩ := appendEntries_all rest hRest fuel hDepth.2 (i + 1)
        (by omega) res₁
      refine ⟨r, ?_, ?_, fun hNone => ?_⟩
      · simp [appendEntries, Tree.object, Nat.pos_iff_ne_zero.mp hi, hr₁, hr]
      · rw [Tree.dirsAll, firstFailure_append, ← hFirst₁, hFirst]
      · have hRes : res₁ = result ++ (Tree.dir url es).files.filter keep := hFiles₁ rfl
        rw [hFiles hNone, hRes]
        simp [Tree.filesAll]
    · refine ⟨(res₁, some err), ?_, ?_, by simp⟩
      · simp [appendEntries, Tree.object, Nat.pos_iff_ne_zero.mp hi, hr₁]
      · rw [Tree.dirsAll, firstFailure_append, ← hFirst₁]
end

end Walk

/-- The candidate walk. Over a store holding a finite tree whose directories
list themselves first and then their entries, `appendResources` of the tree's
root finishes once the fuel exceeds the tree's depth. It returns the error of
the first failing listing in pre-order, and when no listing fails it appends
every file of the tree exactly once, in pre-order, skipping no directory: in
the proxy-based service, each file whose parent path the filter matches. -/
theorem appendResources_collects (list : String → Except String (List Object))
    (urlPath : String → String) (filterMatch : String → Object → Bool) (url : String)
    (entries : List Tree) (hLists : (Tree.dir url entries).Lists list) (fuel : Nat)
    (hFuel : (Tree.dir url entries).depth < fuel) (result : List Object) :
    (∃ r, Proxy.appendResources list urlPath filterMatch fuel url result = some r ∧
      r.2 = firstFailure list (Tree.dir url entries).dirs ∧
      (r.2 = none → r.1 = result ++ (Tree.dir url entries).files.filter
        fun object => filterMatch (pathSplit (urlPath object.url)).1 object)) ∧
    (∃ r, Trigger.appendResources list fuel url result = some r ∧
      r.2 = firstFailure list (Tree.dir url entries).dirs ∧
      (r.2 = none → r.1 = result ++ (Tree.dir url entries).files)) :=
  ⟨appendResourcesWith_dir list _ url entries hLists fuel hFuel result,
    by simpa [Walked] using
      (appendResourcesWith_dir list (fun _ => true) url entries hLists fuel hFuel result)⟩

/-- A source folder with one file and one sub-folder holding another file. -/
def sampleTree : Tree :=
  .dir "mem://src" [.file "mem://src/a.csv", .dir "mem://src/in" [.file "mem://src/in/b.csv"]]

/-- The listings of `sampleTree`: each folder first, then its entries. -/
def sampleListing : String → Except String (List Object)
  | "mem://src" => .ok [⟨"mem://src", true⟩, ⟨"mem://src/a.csv", false⟩, ⟨"mem://src/in", true⟩]
  | "mem://src/in" => .ok [⟨"mem://src/in", true⟩, ⟨"mem://src/in/b.csv", false⟩]
  | _ => .error "not found"

theorem appendResources_collects_sample :
    (Tree.dir "mem://src" [.file "mem://src/a.csv",
        .dir "mem://src/in" [.file "mem://src/in/b.csv"]]).Lists sampleListing ∧
      (Tree.dir "mem://src" [.file "mem://src/a.csv",
        .dir "mem://src/in" [.file "mem://src/in/b.csv"]]).depth < 3 ∧
      ((∃ r, Proxy.appendResources sampleListing id (fun _ _ => true) 3 "mem://src" [] = some r ∧
        r.2 = firstFailure sampleListing sampleTree.dirs ∧
        (r.2 = none → r.1 = [] ++ sampleTree.files.filter fun _ => true)) ∧
      (∃ r, Trigger.appendResources sampleListing 3 "mem://src" [] = some r ∧
        r.2 = firstFailure sampleListing sampleTree.dirs ∧
        (r.2 = none → r.1 = [] ++ sampleTree.files))) :=
  have hLists : sampleTree.Lists sampleListing := by
    simp [sampleTree, Tree.Lists, Tree.ListsAll, Tree.object, sampleListing]
  ⟨hLists, by decide,
    appendResources_collects sampleListing id (fun _ _ => true) _ _ hLists 3 (by decide) []⟩

/-! ## The walk over any storage -/

section AnyStorage

variable (list : String → Except String (List Object)) (keep : Object → Bool)

/-- `result'` is `result` followed by files that `keep` accepts, each of them
in the answer of some listing. -/
def AppendsFiles (result result' : List Object) : Prop :=
  ∃ added, result' = result ++ added ∧
    ∀ object ∈ added, object.isDir = false ∧ keep object = true ∧
      ∃ url objects, list url = .ok objects ∧ object ∈ objects

variable {list keep}

theorem AppendsFiles.refl (result : List Object) : AppendsFiles list keep result result :=
  ⟨[], by simp, by simp⟩

theorem AppendsFiles.trans {a b c : List Object} (hab : AppendsFiles list keep a b)
    (hbc : AppendsFiles list keep b c) : AppendsFiles list keep a c := by
  obtain ⟨x, rfl, hx⟩ := hab
  obtain ⟨y, rfl, hy⟩ := hbc
  exact ⟨x ++ y, by simp, fun o ho => (List.mem_append.mp ho).elim (hx o) (hy o)⟩

/-- The loop over the listing of `url` appends only files of that listing that
`keep` accepts, and what its calls on sub-directories append. -/
theorem appendEntries_appendsFiles
    {recur : String → List Object → Option (List Object × Option String)}
    (hRecur : ∀ url result r, recur url result = some r → AppendsFiles list keep result r.1)
    {url : String} {listed : List Object} (hListed : list url = .ok listed) :
    ∀ objects : List Object, objects ⊆ listed → ∀ (i : Nat) (result : List Object) r,
      appendEntries recur keep i objects result = some r → AppendsFiles list keep result r.1
  | [], _, _, result, r, h => by
    simp only [appendEntries, Option.some.injEq] at h
    subst h
    exact .refl result
  | object :: rest, hSub, i, result, r, h => by
    have hRest := appendEntries_appendsFiles hRecur hListed rest (List.subset_of_cons_subset hSub)
    unfold appendEntries at h
    split_ifs at h with hSkip hDir hKeep
    · exact hRest _ _ _ h
    · rcases hR : recur object.url result with _ | ⟨result', _ | err⟩ <;> simp only [hR] at h
      · cases h
      · exact (hRecur _ _ _ hR).trans (hRest _ _ _ h)
      · cases h
        exact hRecur _ _ _ hR
    · -- a file `keep` accepts
      refine AppendsFiles.trans ⟨[object], rfl, fun o ho => ?_⟩ (hRest _ _ _ h)
      obtain rfl := List.mem_singleton.mp ho
      exact ⟨by simpa using hDir, hKeep, url, listed, hListed, hSub (List.mem_cons_self _ _)⟩
    · exact hRest _ _ _ h

/-- Whatever the storage answers, the walk extends the result it is given with
files that `keep` accepts and that some listing answered. -/
theorem appendResourcesWith_appendsFiles :
    ∀ (fuel : Nat) (url : String) (result : List Object) r,
      appendResourcesWith list keep fuel url result = some r → AppendsFiles list keep result r.1
  | 0, _, _, _, h => by simp [appendResourcesWith] at h
  | fuel + 1, url, result, r, h => by
    cases hList : list url with
    | error err =>
      simp only [appendResourcesWith, hList, Option.some.injEq] at h
      subst h
      exact .refl result
    | ok objects =>
      simp only [appendResourcesWith, hList] at h
      exact appendEntries_appendsFiles (appendResourcesWith_appendsFiles fuel) hList objects
        (List.Subset.refl _) 0 result r h

/-- `Visits list url u`: the walk from `url` lists `u`. It lists `url` itself,
and what it lists from each directory that `url`'s listing shows at an index
other than 0 (at index 0 a directory is skipped). -/
inductive Visits (list : String → Except String (List Object)) : String → String → Prop
  | root (url : String) : Visits list url url
  | sub {url u : String} {objects : List Object} {i : Nat} {object : Object} :
      list url = .ok objects → objects[i]? = some object → i ≠ 0 → object.isDir = true →
      Visits list object.url u → Visits list url u

/-- One turn of the loop: it fails with the error its call on a directory it
did not skip answered, or it goes on with the rest of the listing, having got
`nil` from its call on the first entry when that is such a directory. -/
theorem appendEntries_cons_cases
    {recur : String → List Object → Option (List Object × Option String)}
    {i : Nat} {head : Object} {rest result : List Object} {r : List Object × Option String}
    (h : appendEntries recur keep i (head :: rest) result = some r) :
    (i ≠ 0 ∧ head.isDir = true ∧ ∃ err, r.2 = some err ∧ recur head.url result = some (r.1, some err)) ∨
    ∃ res, appendEntries recur keep (i + 1) rest res = some r ∧
      (i ≠ 0 → head.isDir = true → ∃ res', recur head.url result = some (res', none)) := by
  unfold appendEntries at h
  split_ifs at h with hSkip hDir
  · exact .inr ⟨result, h, fun hi => absurd hSkip.1 hi⟩
  · rcases hR : recur head.url result with _ | ⟨result', _ | err⟩ <;> simp only [hR] at h
    · cases h
    · exact .inr ⟨result', h, fun _ _ => ⟨result', rfl⟩⟩
    · cases h
      exact .inl ⟨fun hi => hSkip ⟨hi, hDir⟩, hDir, err, rfl, rfl⟩
  all_goals exact .inr ⟨_, h, fun _ hD => absurd hD hDir⟩

/-- A loop that answers `nil` got `nil` from its call on every directory it did
not skip. -/
theorem appendEntries_none_descends
    {recur : String → List Object → Option (List Object × Option String)} :
    ∀ (objects : List Object) (i : Nat) (result r : List Object),
      appendEntries recur keep i objects result = some (r, none) →
      ∀ (k : Nat) (object : Object), objects[k]? = some object → i + k ≠ 0 →
        object.isDir = true → ∃ res res', recur object.url res = some (res', none)
  | [], _, _, _, _, k, _, hk, _, _ => by simp at hk
  | head :: rest, i, result, r, h, k, object, hk, hik, hDir => by
    rcases appendEntries_cons_cases h with ⟨-, -, _, hErr, -⟩ | ⟨res, hRest, hHead⟩
    · cases hErr
    · cases k with
      | zero =>
        obtain rfl : head = object := by simpa using hk
        exact ⟨result, hHead (by simpa using hik) hDir⟩
      | succ k =>
        exact appendEntries_none_descends rest (i + 1) res r hRest k object (by simpa using hk)
          (by omega) hDir

/-- A loop that answers an error got it from its call on a directory it did not
skip. -/
theorem appendEntries_error_descends
    {recur : String → List Object → Option (List Object × Option String)} :
    ∀ (objects : List Object) (i : Nat) (result r : List Object) (err : String),
      appendEntries recur keep i objects result = some (r, some err) →
      ∃ (k : Nat) (object : Object) (res res' : List Object), objects[k]? = some object ∧
        i + k ≠ 0 ∧ object.isDir = true ∧ recur object.url res = some (res', some err)
  | [], _, _, _, _, h => by simp [appendEntries] at h
  | head :: rest, i, result, r, err, h => by
    rcases appendEntries_cons_cases h with ⟨hi, hDir, _, hErr, hR⟩ | ⟨res, hRest, -⟩
    · cases hErr
      exact ⟨0, head, result, r, by simp, by omega, hDir, hR⟩
    · obtain ⟨k, object, res, res', hk, -, hDir, hR⟩ :=
        appendEntries_error_descends rest (i + 1) res r err hRest
      exact ⟨k + 1, object, res, res', by simpa using hk, by omega, hDir, hR⟩

/-- The walk swallows no failing listing: when it answers `nil`, every URL it
lists answered a listing; when it answers an error, a URL it lists answered
that error. -/
theorem appendResourcesWith_visits :
    ∀ (fuel : Nat) (url : String) (result : List Object) r,
      appendResourcesWith list keep fuel url result = some r →
      (r.2 = none → ∀ u, Visits list url u → ∃ objects, list u = .ok objects) ∧
      (∀ err, r.2 = some err → ∃ u, Visits list url u ∧ list u = .error err)
  | 0, _, _, _, h => by simp [appendResourcesWith] at h
  | fuel + 1, url, result, r, h => by
    cases hList : list url with
    | error e =>
      simp only [appendResourcesWith, hList, Option.some.injEq] at h
      subst h
      exact ⟨(fun h => nomatch h), fun err hErr => ⟨url, .root url, by cases hErr; exact hList⟩⟩
    | ok objects =>
      simp only [appendResourcesWith, hList] at h
      obtain ⟨r, e⟩ := r
      refine ⟨fun hNone u hu => ?_, fun err hErr => ?_⟩
      · cases hu with
        | root => exact ⟨objects, hList⟩
        | sub hList' hk hi hDir hu =>
          -- the walk descended into that directory, and that walk answered `nil`
          obtain rfl : _ = objects := Except.ok.inj (hList'.symm.trans hList)
          cases hNone
          obtain ⟨res, res', hR⟩ :=
            appendEntries_none_descends _ 0 result r h _ _ hk (by omega) hDir
          exact (appendResourcesWith_visits fuel _ res _ hR).1 rfl u hu
      · cases hErr
        obtain ⟨k, object, res, res', hk, hk0, hDir, hR⟩ :=
          appendEntries_error_descends _ 0 result r err h
        obtain ⟨u, hu, hu'⟩ := (appendResourcesWith_visits fuel _ res _ hR).2 err rfl
        exact ⟨u, .sub hList hk (by omega) hDir hu, hu'⟩

end AnyStorage

/-- Whatever the storage answers, listings that fail, repeat or form cycles
included, `appendResources` only appends to the result it is given, and only
objects that are not directories and that some listing answered: in the
proxy-based service, only those whose parent path the filter matches. It
swallows no failing listing: it answers `nil` only when every URL it lists
answered a listing, and an error it answers is the answer of a URL it lists. -/
theorem appendResources_appends_files (list : String → Except String (List Object))
    (urlPath : String → String) (filterMatch : String → Object → Bool) (fuel : Nat)
    (url : String) (result : List Object) :
    (∀ r, Proxy.appendResources list urlPath filterMatch fuel url result = some r →
      (∃ added, r.1 = result ++ added ∧ ∀ object ∈ added, object.isDir = false ∧
        filterMatch (pathSplit (urlPath object.url)).1 object = true ∧
        ∃ listedURL objects, list listedURL = .ok objects ∧ object ∈ objects) ∧
      (r.2 = none → ∀ u, Visits list url u → ∃ objects, list u = .ok objects) ∧
      (∀ err, r.2 = some err → ∃ u, Visits list url u ∧ list u = .error err)) ∧
    (∀ r, Trigger.appendResources list fuel url result = some r →
      (∃ added, r.1 = result ++ added ∧ ∀ object ∈ added, object.isDir = false ∧
        ∃ listedURL objects, list listedURL = .ok objects ∧ object ∈ objects) ∧
      (r.2 = none → ∀ u, Visits list url u → ∃ objects, list u = .ok objects) ∧
      (∀ err, r.2 = some err → ∃ u, Visits list url u ∧ list u = .error err)) :=
  ⟨fun r h => ⟨appendResourcesWith_appendsFiles fuel url result r h,
      appendResourcesWith_visits fuel url result r h⟩,
    fun r h => ⟨by simpa [AppendsFiles] using appendResourcesWith_appendsFiles fuel url result r h,
      appendResourcesWith_visits fuel url result r h⟩⟩

/-! ## Stores whose listings may omit the directory -/

open scoped List

/-- Whether a node is a directory. -/
def Tree.isDir : Tree → Bool
  | .file _ => false
  | .dir _ _ => true

mutual
/-- `list` answers as a store holding `t` does, where a directory that
`selfFirst` marks lists itself first and then its entries, and any other lists
its entries alone; any listing may also fail. -/
def Tree.ListsWith (list : String → Except String (List Object)) (selfFirst : String → Bool) :
    Tree → Prop
  | .file _ => True
  | .dir url entries =>
    (list url = .ok ((if selfFirst url then [⟨url, true⟩] else []) ++ entries.map Tree.object) ∨
      ∃ err, list url = .error err) ∧ Tree.ListsWithAll list selfFirst entries

def Tree.ListsWithAll (list : String → Except String (List Object)) (selfFirst : String → Bool) :
    List Tree → Prop
  | [] => True
  | t :: ts => t.ListsWith list selfFirst ∧ Tree.ListsWithAll list selfFirst ts
end

mutual
/-- The tree the walk covers: in a directory that does not list itself first,
a first entry that is a directory is skipped with everything under it. -/
def Tree.prune (selfFirst : String → Bool) : Tree → Tree
  | .file url => .file url
  | .dir url entries => .dir url (Tree.pruneAll selfFirst (!selfFirst url) entries)

/-- The entries kept, pruned; when `skip`, a first entry that is a directory is
dropped. -/
def Tree.pruneAll (selfFirst : String → Bool) (skip : Bool) : List Tree → List Tree
  | [] => []
  | t :: ts =>
    if skip && t.isDir then Tree.pruneAll selfFirst false ts
    else t.prune selfFirst :: Tree.pruneAll selfFirst false ts
end

mutual
/-- Pruning only drops files: what is left is a sublist, in the same order. -/
theorem Tree.files_prune_sublist (selfFirst : String → Bool) :
    ∀ t : Tree, (t.prune selfFirst).files <+ t.files
  | .file _ => by simp [Tree.prune]
  | .dir _ entries => by
    simpa [Tree.prune, Tree.files] using Tree.filesAll_pruneAll_sublist selfFirst _ entries

theorem Tree.filesAll_pruneAll_sublist (selfFirst : String → Bool) (skip : Bool) :
    ∀ ts : List Tree, Tree.filesAll (Tree.pruneAll selfFirst skip ts) <+ Tree.filesAll ts
  | [] => by simp [Tree.pruneAll]
  | t :: ts => by
    simp only [Tree.pruneAll, Tree.filesAll]
    split
    · exact (Tree.filesAll_pruneAll_sublist selfFirst false ts).trans (List.sublist_append_right _ _)
    · exact (Tree.files_prune_sublist selfFirst t).append
        (Tree.filesAll_pruneAll_sublist selfFirst false ts)
end

section Pruned

variable (list : String → Except String (List Object)) (keep : Object → Bool)
  (selfFirst : String → Bool)

/-- One turn of the loop on a directory at index 0: skipped. -/
theorem appendEntries_zero_dir {recur : String → List Object → Option (List Object × Option String)}
    (url : String) (rest result : List Object) :
    appendEntries recur keep 0 (⟨url, true⟩ :: rest) result = appendEntries recur keep 1 rest result := by
  rw [appendEntries]
  rfl

/-- One turn of the loop on a directory at a later index: the walk descends. -/
theorem appendEntries_succ_dir {recur : String → List Object → Option (List Object × Option String)}
    {i : Nat} (hi : i ≠ 0) (url : String) (rest result : List Object) :
    appendEntries recur keep i (⟨url, true⟩ :: rest) result =
      match recur url result with
      | none => none
      | some (result', some err) => some (result', some err)
      | some (result', none) => appendEntries recur keep (i + 1) rest result' := by
  rw [appendEntries]
  simp only [hi, and_true, if_false, if_true]

/-- One turn of the loop on a file: appended when `keep` accepts it. -/
theorem appendEntries_file {recur : String → List Object → Option (List Object × Option String)}
    (i : Nat) (url : String) (rest result : List Object) :
    appendEntries recur keep i (⟨url, false⟩ :: rest) result =
      appendEntries recur keep (i + 1) rest
        (if keep ⟨url, false⟩ then result ++ [⟨url, false⟩] else result) := by
  rw [appendEntries]
  simp only [Bool.false_eq_true, and_false, if_false]

theorem Tree.pruneAll_file (skip : Bool) (url : String) (ts : List Tree) :
    Tree.pruneAll selfFirst skip (.file url :: ts) = .file url :: Tree.pruneAll selfFirst false ts := by
  simp only [Tree.pruneAll, Tree.isDir, Bool.and_false, Bool.false_eq_true, if_false, Tree.prune]

theorem Tree.pruneAll_skip_dir (url : String) (es ts : List Tree) :
    Tree.pruneAll selfFirst true (.dir url es :: ts) = Tree.pruneAll selfFirst false ts := by
  simp only [Tree.pruneAll, Tree.isDir, Bool.and_self, if_true]

theorem Tree.pruneAll_keep (t : Tree) (ts : List Tree) :
    Tree.pruneAll selfFirst false (t :: ts) = t.prune selfFirst :: Tree.pruneAll selfFirst false ts := by
  simp only [Tree.pruneAll, Bool.false_and, Bool.false_eq_true, if_false]

/-- The loop over a listing of `entries`, given that each call on one of their
sub-directories walks its pruned subtree. -/
theorem appendEntries_pruned {recur : String → List Object → Option (List Object × Option String)}
    {fuel : Nat}
    (hRecur : ∀ url es, (Tree.dir url es).ListsWith list selfFirst → (Tree.dir url es).depth < fuel →
      ∀ result, ∃ r, recur url result = some r ∧
        Walked list keep ((Tree.dir url es).prune selfFirst).dirs
          ((Tree.dir url es).prune selfFirst).files result r) :
    ∀ entries : List Tree, Tree.ListsWithAll list selfFirst entries → Tree.depthAll entries < fuel →
      ∀ (skip : Bool) (i : Nat), skip = decide (i = 0) → ∀ result, ∃ r,
        appendEntries recur keep i (entries.map Tree.object) result = some r ∧
        Walked list keep (Tree.dirsAll (Tree.pruneAll selfFirst skip entries))
          (Tree.filesAll (Tree.pruneAll selfFirst skip entries)) result r
  | [], _, _, _, _, _, _ => ⟨_, rfl, rfl, by simp [Tree.pruneAll, Tree.filesAll]⟩
  | .file url :: rest, ⟨_, hRest⟩, hFuel, skip, i, _, result => by
    simp only [Tree.depthAll, Tree.depth] at hFuel
    obtain ⟨r, hr, hFirst, hFiles⟩ := appendEntries_pruned hRecur rest hRest (by omega) false (i + 1)
      (decide_eq_false (Nat.succ_ne_zero i)).symm
      (if keep ⟨url, false⟩ then result ++ [⟨url, false⟩] else result)
    simp only [List.map_cons, Tree.object, appendEntries_file, Tree.pruneAll_file, Tree.dirsAll,
      Tree.dirs, List.nil_append, Tree.filesAll, Tree.files]
    refine ⟨r, hr, hFirst, fun hNone => ?_⟩
    rw [hFiles hNone]
    split <;> simp_all
  | .dir url es :: rest, ⟨hDir, hRest⟩, hFuel, skip, i, hSkip, result => by
    have hDepth : (Tree.dir url es).depth < fuel ∧ Tree.depthAll rest < fuel := by
      simp only [Tree.depthAll] at hFuel; omega
    cases skip with
    | true =>
      -- `i == 0 && objects[i].IsDir()`: the loop skips the directory
      obtain rfl : i = 0 := of_decide_eq_true hSkip.symm
      simpa only [List.map_cons, Tree.object, appendEntries_zero_dir, Tree.pruneAll_skip_dir] using
        appendEntries_pruned hRecur rest hRest hDepth.2 false 1 rfl result
    | false =>
      have hi : i ≠ 0 := of_decide_eq_false hSkip.symm
      simp only [List.map_cons, Tree.object, appendEntries_succ_dir keep hi, Tree.pruneAll_keep,
        Tree.dirsAll, Tree.filesAll]
      obtain ⟨⟨res₁, _ | err⟩, hr₁, hFirst₁, hFiles₁⟩ := hRecur url es hDir hDepth.1 result <;>
        simp only at hFirst₁
      · obtain ⟨r, hr, hFirst, hFiles⟩ := appendEntries_pruned hRecur rest hRest hDepth.2 false
          (i + 1) (decide_eq_false (Nat.succ_ne_zero i)).symm res₁
        refine ⟨r, by simp only [hr₁, hr], by rw [firstFailure_append, ← hFirst₁, hFirst],
          fun hNone => ?_⟩
        have hRes : res₁ = result ++ ((Tree.dir url es).prune selfFirst).files.filter keep :=
          hFiles₁ rfl
        rw [hFiles hNone, hRes, List.filter_append, List.append_assoc]
      · exact ⟨(res₁, some err), by simp only [hr₁], by rw [firstFailure_append, ← hFirst₁],
          fun h => nomatch h⟩

/-- With fuel above the depth, the walk of a directory covers its pruned tree. -/
theorem appendResourcesWith_pruned :
    ∀ (fuel : Nat) (url : String) (entries : List Tree),
      (Tree.dir url entries).ListsWith list selfFirst → (Tree.dir url entries).depth < fuel →
      ∀ result, ∃ r, appendResourcesWith list keep fuel url result = some r ∧
        Walked list keep ((Tree.dir url entries).prune selfFirst).dirs
          ((Tree.dir url entries).prune selfFirst).files result r
  | 0, _, _, _, hFuel, _ => absurd hFuel (Nat.not_lt_zero _)
  | fuel + 1, url, entries, ⟨hList, hAll⟩, hFuel, result => by
    simp only [Tree.depth] at hFuel
    have hEntries := appendEntries_pruned list keep selfFirst (appendResourcesWith_pruned fuel)
      entries hAll (by omega)
    simp only [Tree.prune, Tree.dirs, Tree.files, Walked]
    rcases hList with hOk | ⟨err, hErr⟩
    · cases hSelf : selfFirst url
      · -- only the entries are listed: index 0 is the first entry
        obtain ⟨r, hr, hFirst, hFiles⟩ := hEntries true 0 rfl result
        refine ⟨r, ?_, ?_, hFiles⟩
        · simpa only [appendResourcesWith, hOk, hSelf, Bool.false_eq_true, if_false,
            List.nil_append] using hr
        · simpa only [firstFailure, hOk, Bool.not_false] using hFirst
      · -- the directory itself is index 0, and skipped
        obtain ⟨r, hr, hFirst, hFiles⟩ := hEntries false 1 rfl result
        refine ⟨r, ?_, ?_, hFiles⟩
        · simpa only [appendResourcesWith, hOk, hSelf, if_true, List.singleton_append,
            appendEntries_zero_dir] using hr
        · simpa only [firstFailure, hOk, Bool.not_true] using hFirst
    · refine ⟨(result, some err), ?_, ?_, fun h => nomatch h⟩
      · simp only [appendResourcesWith, hErr]
      · simp only [firstFailure, hErr]

end Pruned

/-- The candidate walk over a store whose directories may list their entries
without themselves (`selfFirst` marks those that list themselves first). The
loop skips index 0 whenever it is a directory, so below a directory that does
not list itself, a first entry that is a directory is never walked: the walk
covers the pruned tree. It returns the error of the first failing listing of
the pruned tree, and when none fails it appends exactly the pruned tree's
files (in the proxy-based service, those the filter matches), which are the
tree's files less those of the skipped subtrees. -/
theorem appendResources_walks_pruned (list : String → Except String (List Object))
    (urlPath : String → String) (filterMatch : String → Object → Bool)
    (selfFirst : String → Bool) (url : String) (entries : List Tree)
    (hLists : (Tree.dir url entries).ListsWith list selfFirst) (fuel : Nat)
    (hFuel : (Tree.dir url entries).depth < fuel) (result : List Object) :
    (∃ r, Proxy.appendResources list urlPath filterMatch fuel url result = some r ∧
      r.2 = firstFailure list ((Tree.dir url entries).prune selfFirst).dirs ∧
      (r.2 = none → r.1 = result ++ ((Tree.dir url entries).prune selfFirst).files.filter
        fun object => filterMatch (pathSplit (urlPath object.url)).1 object)) ∧
    (∃ r, Trigger.appendResources list fuel url result = some r ∧
      r.2 = firstFailure list ((Tree.dir url entries).prune selfFirst).dirs ∧
      (r.2 = none → r.1 = result ++ ((Tree.dir url entries).prune selfFirst).files)) ∧
    ((Tree.dir url entries).prune selfFirst).files <+ (Tree.dir url entries).files :=
  ⟨appendResourcesWith_pruned list _ selfFirst fuel url entries hLists hFuel result,
    by simpa [Walked] using
      appendResourcesWith_pruned list (fun _ => true) selfFirst fuel url entries hLists hFuel result,
    Tree.files_prune_sublist selfFirst _⟩

/-- A source folder whose first entry is a sub-folder, in a store whose
listings never show the folder listed. -/
def bareTree : Tree :=
  .dir "mem://src" [.dir "mem://src/in" [.file "mem://src/in/b.csv"], .file "mem://src/a.csv"]

/-- The listings of `bareTree`: the entries of each folder alone. -/
def bareListing : String → Except String (List Object)
  | "mem://src" => .ok [⟨"mem://src/in", true⟩, ⟨"mem://src/a.csv", false⟩]
  | "mem://src/in" => .ok [⟨"mem://src/in/b.csv", false⟩]
  | _ => .error "not found"

theorem appendResources_walks_pruned_bare :
    bareTree.ListsWith bareListing (fun _ => false) ∧ bareTree.depth < 3 ∧
      ((∃ r, Proxy.appendResources bareListing id (fun _ _ => true) 3 "mem://src" [] = some r ∧
        r.2 = firstFailure bareListing (bareTree.prune fun _ => false).dirs ∧
        (r.2 = none → r.1 = [] ++ (bareTree.prune fun _ => false).files.filter fun _ => true)) ∧
      (∃ r, Trigger.appendResources bareListing 3 "mem://src" [] = some r ∧
        r.2 = firstFailure bareListing (bareTree.prune fun _ => false).dirs ∧
        (r.2 = none → r.1 = [] ++ (bareTree.prune fun _ => false).files)) ∧
      (bareTree.prune fun _ => false).files <+ bareTree.files) ∧
      (bareTree.prune fun _ => false).files = [⟨"mem://src/a.csv", false⟩] :=
  have hLists : bareTree.ListsWith bareListing (fun _ => false) := by
    simp [bareTree, Tree.ListsWith, Tree.ListsWithAll, Tree.object, bareListing]
  ⟨hLists, by decide,
    appendResources_walks_pruned bareListing id (fun _ _ => true) _ _ _ hLists 3 (by decide) [],
    rfl⟩

end Smirror.Cron
