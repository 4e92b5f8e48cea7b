import Depot.Config.Load

/-!
# Failures

How the program tells that it failed: what it could not do, and below that the causes, each
the cause of the one before it.
-/

namespace Depot.CommandLine

open Text

structure Failure where
  message : String
  causes : List String
  deriving DecidableEq, Repr

/-- A single cause is indented; several are numbered. -/
def causeLines : List String → List String
  | [] => []
  | [c] => ["", "Caused by:", repeated ' ' 4 ++ hang 4 c]
  | cs => "" :: "Caused by:" :: cs.zipIdx.map fun (c, i) =>
      padLeft 5 (ofNat i) ++ ": " ++ hang 7 c

def Failure.text (f : Failure) : String :=
  join "\n" (("Error: " ++ f.message) :: causeLines f.causes) ++ "\n"

/-- A message with the causes below it. -/
def chain (messages : List String) : Failure := ⟨messages.headD "", messages.drop 1⟩

def storeChain : StoreError → List String
  | .io e => [(StoreError.io e).message, e.message]
  | e => [e.message]

def resolveChain : ResolveError → List String
  | .storeUnavailable c r =>
    [(ResolveError.storeUnavailable c r).message, (StoreError.unavailable r).message]
  | e => [e.message]

def packageChain : PackageError → List String
  | .store e => storeChain e
  | .resolve e => resolveChain e
  | e => [e.message]

def configChain : ConfigError → List String
  | .io e => [(ConfigError.io e).message, e.message]
  | e => [e.message]

end Depot.CommandLine
