import Depot.Text
import Depot.FileError

/-!
# Locators

A locator names one file or directory of a store. The scheme tells which sort of store can
open it.
-/

namespace Depot

open Text

structure Locator where
  scheme : String
  path : String
  writable : Bool
  deriving DecidableEq, Repr

def Locator.text (l : Locator) : String := l.scheme ++ ":/" ++ l.path

/-- A path that ends in a slash names a directory. -/
def Locator.directory (l : Locator) : Bool := endsWith l.path "/"

inductive StoreError where
  | notFound (locator : Locator)
  | invalidCoordinate (reason : String)
  | readOnlyLocator (locator : Locator)
  | foreignLocator (locator : Locator)
  | unavailable (reason : String)
  | io (error : FileError)
  deriving DecidableEq, Repr

def StoreError.message : StoreError → String
  | .notFound l => "No content at " ++ l.text
  | .invalidCoordinate r => "Cannot map to a store location: " ++ r
  | .readOnlyLocator l => "Locator " ++ l.text ++ " was not opened for writing"
  | .foreignLocator l => "Locator " ++ l.text ++ " does not belong to this store"
  | .unavailable r => "Store unavailable: " ++ r
  | .io e => "I/O error: " ++ e.message

end Depot
