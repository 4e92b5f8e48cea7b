import Depot.Text
import Depot.OrderedSet

/-!
# Scopes

When a dependency is needed, and the set of scopes that a resolution follows.
-/

namespace Depot

open Text

inductive Scope where
  | compile
  | runtime
  | provided
  | system
  | test
  deriving DecidableEq, Repr

namespace Scope

def all : List Scope := [compile, runtime, provided, system, test]

def name : Scope → String
  | compile => "compile"
  | runtime => "runtime"
  | provided => "provided"
  | system => "system"
  | test => "test"

/-- The name as a constructor is written, with a capital. -/
def label : Scope → String
  | compile => "Compile"
  | runtime => "Runtime"
  | provided => "Provided"
  | system => "System"
  | test => "Test"

/-- The scope of exactly this name. -/
def ofName? (s : String) : Option Scope := all.find? (fun x => x.name = s)

/-- Blanks around the name and the case of its letters do not matter. -/
def parse? (s : String) : Option Scope := ofName? (lower (trim s))

/-- A dependency that names no known scope is needed at compile time. -/
def parseOrDefault (s : Option String) : Scope := (s.bind parse?).getD compile

def rank : Scope → Nat
  | compile => 0
  | runtime => 1
  | provided => 2
  | system => 3
  | test => 4

theorem rank_injective {a b : Scope} (h : a.rank = b.rank) : a = b := by
  cases a <;> cases b <;> simp_all [rank]

instance : Ord Scope := ⟨compareOn rank⟩

instance : Std.TransOrd Scope := inferInstanceAs (Std.TransCmp (compareOn rank))

instance : Std.LawfulEqOrd Scope :=
  ⟨fun {a b} h => rank_injective (Std.compare_eq_iff_eq.mp (show compare a.rank b.rank = .eq from h))⟩

end Scope

abbrev ScopeSet := OrderedSet Scope

namespace ScopeSet

/-- What a program needs when it runs. -/
def runtimeSet : ScopeSet := .ofList [.compile, .runtime]

/-- Names of no scope are dropped. -/
def ofNames (names : List String) : ScopeSet := .ofList (names.filterMap Scope.parse?)

/-- The members by label, in braces. -/
def braced (s : ScopeSet) : String :=
  "\x7b" ++ join ", " (s.toList.map Scope.label) ++ "\x7d"

end ScopeSet

end Depot
