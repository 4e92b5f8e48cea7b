import Depot.CommandLine.Arguments
import Depot.CommandLine.Plain
import Depot.CommandLine.Styled

/-!
# Help

The pages that the program prints about itself. A page has a short form, with one line for each
argument and option, and may have a long one, with more text and the descriptions below the
names. A page without more text looks the same in both. A page is made for a terminal; where it
is shown without colours, all that a terminal would act on is taken out, also from the values of
variables in it.
-/

namespace Depot.CommandLine

open Text

def programName : String := "strata"

def jsonVariable : String := "STRATA_JSON"

def forceVariable : String := "CLICOLOR_FORCE"

def noColourVariable : String := "NO_COLOR"

def line (s : String) : String := s ++ "\n"

/-- Whether pages go out with their codes: they do not unless that is asked for, and not if it
is forbidden. A variable that is empty says nothing. -/
def showsCodes (env : List (String × String)) : Bool :=
  let isSet (name : String) : Bool := (env.lookup name).any (· ≠ "")
  isSet forceVariable && !isSet noColourVariable

/-- A name, what it stands for, and a remark behind that. -/
structure Row where
  name : Styled
  about : String
  remark : Option String

/-- A list of rows below a heading. Only the rows of some lists have a long form. -/
structure Listing where
  heading : String
  rows : List Row
  foldable : Bool

/-- The usage of a command is its name and what follows it. -/
structure Page where
  summary : String
  more : List String
  command : String
  usage : String
  listings : List Listing

namespace Row

/-- The name in a column of a given width, and the descriptions in the next column. -/
def short (width : Nat) (r : Row) : String :=
  "  " ++ (r.name.padRight width).coded ++ "  " ++
    hang (width + 4) (r.about ++ (r.remark.map (" " ++ ·)).getD "")

/-- The descriptions are indented, and so is the empty line between them. -/
def long (r : Row) : String :=
  "  " ++ r.name.coded ++ hang 10 ("\n" ++ r.about ++ (r.remark.map ("\n\n" ++ ·)).getD "")

end Row

def headingText (s : String) : String := Styled.coded [.heading (s ++ ":")]

def Listing.coded (full : Bool) (l : Listing) : String :=
  let width := (l.rows.map fun r => r.name.text.length).foldl max 0
  line (headingText l.heading) ++
    if full && l.foldable then join "\n\n" (l.rows.map Row.long)
    else join "\n" (l.rows.map (Row.short width))

/-- The text of a page with the codes for a terminal. -/
def Page.coded (full : Bool) (p : Page) : String :=
  let full := full && !p.more.isEmpty
  let top := if full then join "\n\n" p.more else p.summary
  let usage := headingText "Usage" ++ " " ++ Styled.coded [.name p.command] ++ " " ++ p.usage
  line (join "\n\n" ([top, usage] ++ p.listings.map (Listing.coded full)))

def Page.text (codes full : Bool) (p : Page) : String :=
  if codes then p.coded full else plain (p.coded full)

/-- Printed when the arguments make no sense. -/
def usageText : String :=
  line ("Usage: " ++ programName ++ " [OPTIONS] <COMMAND>") ++
    "\nFor more information, try '--help'.\n"

namespace CommandName

def summary : CommandName → String
  | resolve => "Resolve coordinates and print their classpath"
  | deps => "List the direct dependencies declared by a coordinate's manifest"
  | «exists» => "Check which coordinates have an artifact in the store"
  | locate => "Print the store locator of an artifact"
  | put => "Store a file as an artifact"

/-- The paragraphs below the summary. -/
def details : CommandName → List String
  | resolve => [
      "Each line shows the entry's depth, coordinate and store locator, in classpath order. Version conflicts are reported on stderr.",
      "EXAMPLES: strata resolve org.example:app:1.0 strata resolve org.example:app:1.0 --scope compile --scope test strata resolve org.example:app:1.0 --json"]
  | deps => []
  | «exists» => ["Exits with status 1 when any coordinate is missing."]
  | locate => [
      "EXAMPLES: strata locate org.example:app:1.0 --kind source strata locate org.example:app:1.0 --signature pgp"]
  | put => ["Writing a manifest invalidates cached resolutions that include it."]

/-- The words of a command, and what is said about them. -/
def words : CommandName → List (String × String)
  | resolve => [("<COORDINATES>...", "Root coordinates")]
  | deps => [("<COORDINATE>", "")]
  | «exists» => [("<COORDINATES>...", "")]
  | locate => [("<COORDINATE>", "")]
  | put => [("<COORDINATE>", ""), ("<FILE>", "")]

def remark : CommandName → Option String
  | resolve => some "[alias: r]"
  | _ => none

/-- The options in the order in which a page shows them. -/
def shown : CommandName → List Flag
  | resolve => [.root, .scope, .config, .json]
  | deps => [.json, .root, .config]
  | «exists» => [.root, .config]
  | locate => [.kind, .root, .config, .signature]
  | put => [.kind, .root, .config]

end CommandName

def helpSummary : String := "Print this message or the help of the given subcommand(s)"

/-- An option as a page shows it, with four columns for the short name, and its value. -/
def optionRow (short : Option Char) (name value about : String) (remark : Option String) : Row :=
  ⟨(match short with
    | some c => [.name ("-" ++ String.singleton c), .body ", "]
    | none => [.body "    "]) ++ [.name name, .body value], about, remark⟩

def kindAbout : Option CommandName → String
  | some .put => "Artifact kind (default: jar)"
  | _ => "Artifact kind (jar, source, manifest, metadata, or an extension)"

/-- The row of an option that a page can show. The value of the variable stands behind the
option that it replaces. -/
def flagRow (json : Option String) (level : Option CommandName) : Flag → Option Row
  | .root => some (optionRow none "--root" " <ROOT>" "Store root directory (overrides configuration)" none)
  | .config => some (optionRow (some 'c') "--config" " <CONFIG>"
      "Configuration file to use instead of searching for strata.toml" none)
  | .scope => some (optionRow (some 's') "--scope" " <SCOPE>"
      "Scopes followed past the roots (can be repeated)" none)
  | .json => some (optionRow none "--json" "" "Output in JSON format"
      (some ("[env: " ++ jsonVariable ++ "=" ++ json.getD "" ++ "]")))
  | .kind => some (optionRow (some 'k') "--kind" " <KIND>" (kindAbout level) none)
  | .signature => some (optionRow none "--signature" " <SIGNATURE>" "Signature kind (md5, sha1, pgp)" none)
  | _ => none

/-- The two options that end every list. The first says which other form there is. -/
def closingRows (folded full : Bool) : List Row :=
  [optionRow (some 'h') "--help" "" ("Print help" ++
    if !folded then "" else if full then " (see a summary with '-h')" else " (see more with '--help')") none,
   optionRow (some 'V') "--version" "" "Print version" none]

namespace Page

def programDetails : List String := [
  "Resolves transitive dependencies of artifact coordinates (`group:artifact:version[:classifier]`) against a directory store and prints the resulting classpath.",
  "EXAMPLES: strata resolve org.example:app:1.0          Print the classpath strata deps org.example:app:1.0             Direct dependencies strata exists org.example:app:1.0 g:a:2     Check presence strata put org.example:app:1.0 app.jar      Store an artifact",
  "ENVIRONMENT VARIABLES: STRATA_STORE_ROOT   Store root directory STRATA_SCOPES       Comma-separated scopes followed during resolution STRATA_MAX_FETCHES  Concurrent manifest fetches per level STRATA_LOG          Log filter (RUST_LOG takes precedence) STRATA_JSON         Set to '1' for JSON output by default"]

def programSummary : String := "Strata artifact repository and dependency resolver"

def commandRows : List Row :=
  CommandName.all.map (fun c => ⟨[.name c.text], c.summary, c.remark⟩) ++
    [⟨[.name "help"], helpSummary, none⟩]

/-- The page about the program lists the commands. -/
def ofProgram (json : Option String) (full : Bool) : Page where
  summary := programSummary
  more := (programSummary ++ ".") :: programDetails
  command := programName
  usage := "[OPTIONS] <COMMAND>"
  listings := [
    ⟨"Commands", commandRows, false⟩,
    ⟨"Options", [Flag.root, .config].filterMap (flagRow json none) ++ closingRows true full, true⟩]

def ofCommand (json : Option String) (full : Bool) (c : CommandName) : Page :=
  let details := c.details
  { summary := c.summary
    more := if details.isEmpty then [] else c.summary :: details
    command := programName ++ " " ++ c.text
    usage := "[OPTIONS] " ++ join " " (c.words.map (·.1))
    listings := [
      ⟨"Arguments", c.words.map (fun w => ⟨[.body w.1], w.2, none⟩), true⟩,
      ⟨"Options", c.shown.filterMap (flagRow json (some c)) ++ closingRows (!details.isEmpty) full, true⟩] }

def ofHelp : Page where
  summary := helpSummary
  more := []
  command := programName ++ " help"
  usage := "[COMMAND]..."
  listings := [⟨"Arguments", [⟨[.body "[COMMAND]..."], "Print help for the subcommand(s)", none⟩], true⟩]

/-- The page about a topic, to be shown in its long form or not. -/
def ofTopic (json : Option String) (full : Bool) : Topic → Page
  | .program => ofProgram json full
  | .command c => ofCommand json full c
  | .help => ofHelp

end Page

end Depot.CommandLine
