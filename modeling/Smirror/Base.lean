import Mathlib.Data.List.Basic

/-!
# Shared vocabulary: storage objects, wrapped errors, the error status

The Go code returns `error` values and reads `storage.Object`s listed by the
`afs` storage facade. Both come from libraries outside the repository, so this
module fixes how the development sees them.

* A Go `error` is the text its `Error()` returns. Functions that return an
  `error` return `Option String` here, `none` standing for `nil`.
* `errors.Wrapf` of `github.com/pkg/errors` prefixes the cause with a message
  and a colon; it is only ever applied to a non-nil error in the code below.
* A listed object is its URL and its directory bit: nothing else of
  `storage.Object` is read by the modelled functions.
-/

namespace Smirror.Base

/-- `errors.Wrapf(err, msg)`: the message, then `": "`, then the cause. -/
def wrapf (err msg : String) : String := msg ++ ": " ++ err

/-- A `storage.Object` as the modelled code reads it: `URL()` and `IsDir()`. -/
structure Object where
  url : String
  isDir : Bool
deriving DecidableEq, Repr

/-- `base.StatusError`, the status of a failed response. The `base` package is
not among the sources; the value is the one the specification gives. -/
def statusError : String := "error"

end Smirror.Base
