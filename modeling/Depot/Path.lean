import Depot.Text

/-!
# Paths

Paths as texts. They are joined and cut without looking at any file: dots are kept, and a
slash at the end counts for nothing when a path is cut.
-/

namespace Depot.Path

open Text

def isAbsolute (p : String) : Bool := startsWith p "/"

/-- An absolute path replaces the base. An empty one leaves a slash at its end. -/
def join (base p : String) : String :=
  if isAbsolute p || base = "" then p
  else if endsWith base "/" then base ++ p
  else base ++ "/" ++ p

/-- The segments up to the last one that names something; the first is always kept. -/
def significant : List String → List String
  | [] => []
  | s :: rest => s :: (rest.reverse.dropWhile fun t => t = "" ∨ t = ".").reverse

/-- The path without its last segment. An empty path and the root have none to lose. -/
def parent? (p : String) : Option String :=
  match significant (split '/' p) with
  | [""] => none
  | segments =>
    match significant segments.dropLast with
    | [""] => some "/"
    | rest => some (Text.join "/" rest)

end Depot.Path
