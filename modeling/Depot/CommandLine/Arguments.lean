import Depot.Text

/-!
# Arguments

The command line as a value. Options have a long name and some a short one; a value follows
its option as the next argument, after an equals sign, or right after the short name. The
options for the store root and the configuration file may stand before or after the name of
the command, and the later place wins. Two dashes end the options.

The first thing that stops the reading is the answer. A value that is an argument of its own
is not checked when it comes in, but when the next option of the same level does, or at the
end of the level. The level of the program ends after that of the command, so a request for
help below the command comes before a fault in the last value above it.
-/

namespace Depot.CommandLine

open Text

inductive Flag where
  | root
  | config
  | scope
  | json
  | kind
  | signature
  | version
  | help
  | summary
  deriving DecidableEq, Repr

namespace Flag

/-- The long name. The short form of the help has none: the long name asks for the long form. -/
def long? : Flag → Option String
  | root => some "root"
  | config => some "config"
  | scope => some "scope"
  | json => some "json"
  | kind => some "kind"
  | signature => some "signature"
  | version => some "version"
  | help => some "help"
  | summary => none

def short? : Flag → Option Char
  | config => some 'c'
  | scope => some 's'
  | kind => some 'k'
  | version => some 'V'
  | summary => some 'h'
  | _ => none

def hasValue : Flag → Bool
  | root | config | scope | kind | signature => true
  | json | version | help | summary => false

def repeatable : Flag → Bool
  | scope => true
  | _ => false

/-- A path must not be empty. -/
def isPath : Flag → Bool
  | root | config => true
  | _ => false

end Flag

/-- The flags that every level knows. -/
def commonFlags : List Flag := [.root, .config, .version, .help, .summary]

inductive CommandName where
  | resolve
  | deps
  | exists
  | locate
  | put
  deriving DecidableEq, Repr

namespace CommandName

def all : List CommandName := [resolve, deps, «exists», locate, put]

def text : CommandName → String
  | resolve => "resolve"
  | deps => "deps"
  | «exists» => "exists"
  | locate => "locate"
  | put => "put"

def parse? (s : String) : Option CommandName :=
  if s = "r" then some resolve else all.find? (fun c => c.text = s)

def flags : CommandName → List Flag
  | resolve => .scope :: .json :: commonFlags
  | deps => .json :: commonFlags
  | «exists» => commonFlags
  | locate => .kind :: .signature :: commonFlags
  | put => .kind :: commonFlags

/-- The most words that a command takes, unless it takes any number. -/
def maxWords? : CommandName → Option Nat
  | deps | locate => some 1
  | put => some 2
  | resolve | «exists» => none

end CommandName

/-- What a command is to do. -/
inductive Command where
  | resolve (coordinates scopes : List String) (json : Bool)
  | deps (coordinate : String) (json : Bool)
  | exists (coordinates : List String)
  | locate (coordinate : String) (kind signature : Option String)
  | put (coordinate file : String) (kind : Option String)
  deriving DecidableEq, Repr

structure Invocation where
  root : Option String
  config : Option String
  command : Command
  deriving DecidableEq, Repr

/-- What a page of the help is about. -/
inductive Topic where
  | program
  | command (name : CommandName)
  | help
  deriving DecidableEq, Repr

def Topic.ofLevel : Option CommandName → Topic
  | none => program
  | some c => command c

/-- Why nothing is to be run. -/
inductive Stop where
  | usage
  | version (command : Option CommandName)
  | help (topic : Topic) (full : Bool)
  deriving DecidableEq, Repr

/-- The flags that were given, with their values, the last value if it is still unchecked, and
the other arguments. -/
structure Given where
  flags : List (Flag × String)
  pending : Option (Flag × String)
  words : List String
  deriving DecidableEq, Repr

namespace Given

def empty : Given := ⟨[], none, []⟩

def has (g : Given) (f : Flag) : Bool := g.flags.any (·.1 = f)

def value? (g : Given) (f : Flag) : Option String := g.flags.lookup f

def values (g : Given) (f : Flag) : List String :=
  g.flags.filterMap fun p => if p.1 = f then some p.2 else none

/-- A flag with its value is taken. Only some flags may be given twice. -/
def take (f : Flag) (value : String) (g : Given) : Except Stop Given :=
  if g.has f && !f.repeatable then .error .usage
  else if f.isPath && value = "" then .error .usage
  else .ok { g with flags := g.flags ++ [(f, value)] }

/-- Check the value that is still unchecked. -/
def settle (g : Given) : Except Stop Given :=
  match g.pending with
  | none => .ok g
  | some (f, value) => { g with pending := none }.take f value

/-- A flag comes in together with its value, or without one. -/
def add (level : Option CommandName) (f : Flag) (value : String) (g : Given) :
    Except Stop Given := do
  let g ← g.settle
  match f with
  | .version => .error (.version level)
  | .help => .error (.help (.ofLevel level) true)
  | .summary => .error (.help (.ofLevel level) false)
  | f => g.take f value

/-- The value of a flag comes in as an argument of its own. -/
def addLater (f : Flag) (value : String) (g : Given) : Given := { g with pending := some (f, value) }

/-- A word comes in. The second word of `put` is a path and must not be empty. -/
def addWord (name : CommandName) (g : Given) (w : String) : Except Stop Given :=
  if name.maxWords?.any (· ≤ g.words.length) then .error .usage
  else if name = .put && g.words.length = 1 && w = "" then .error .usage
  else .ok { g with words := g.words ++ [w] }

end Given

/-- An argument that can be the value of the option before it. -/
def isValue (s : String) : Bool := !startsWith s "-" || s = "-"

/-- The name of a long option, and the value after an equals sign. -/
def splitLong (s : String) : String × Option String :=
  let cs := s.toList.drop 2
  let name := cs.takeWhile (· ≠ '=')
  (String.ofList name, if name.length < cs.length then some (String.ofList (cs.drop (name.length + 1)))
    else none)

/-- What an argument with dashes gives: the flags in it, and the last of them if its value has
to come from the next argument. -/
structure Dashed where
  given : Given
  open? : Option Flag

def long (level : Option CommandName) (flags : List Flag) (g : Given) (s : String) :
    Except Stop Dashed :=
  let (name, value) := splitLong s
  match flags.find? (fun f => f.long? = some name), value with
  | none, _ => .error .usage
  | some f, some v =>
    if f.hasValue then (g.add level f v).map (⟨·, none⟩) else .error .usage
  | some f, none =>
    if f.hasValue then g.settle.map (⟨·, some f⟩) else (g.add level f "").map (⟨·, none⟩)

/-- Short names one after the other. The first that has a value takes the rest as its value. -/
def shorts (level : Option CommandName) (flags : List Flag) (g : Given) :
    List Char → Except Stop Dashed
  | [] => .ok ⟨g, none⟩
  | c :: rest =>
    match flags.find? (fun f => f.short? = some c) with
    | none => .error .usage
    | some f =>
      if f.hasValue then
        match rest with
        | [] => g.settle.map (⟨·, some f⟩)
        | '=' :: v => (g.add level f (String.ofList v)).map (⟨·, none⟩)
        | v => (g.add level f (String.ofList v)).map (⟨·, none⟩)
      else
        match g.add level f "" with
        | .error e => .error e
        | .ok g => shorts level flags g rest

def dashed (level : Option CommandName) (flags : List Flag) (g : Given) (s : String) :
    Except Stop Dashed :=
  if startsWith s "--" then long level flags g s else shorts level flags g (s.toList.drop 1)

/-- The arguments of a command, in any order. -/
def commandLevel (name : CommandName) (waiting : Option Flag) (g : Given) :
    List String → Except Stop Given
  | [] => if waiting.isSome then .error .usage else g.settle
  | a :: rest =>
    match waiting with
    | some f =>
      if isValue a then commandLevel name none (g.addLater f a) rest else .error .usage
    | none =>
      if a = "--" then do (← rest.foldlM (Given.addWord name) g).settle
      else if isValue a then
        match g.addWord name a with
        | .error e => .error e
        | .ok g => commandLevel name none g rest
      else
        match dashed (some name) name.flags g a with
        | .error e => .error e
        | .ok d => commandLevel name d.open? d.given rest

/-- What the words after the name of the help ask for: nothing else, or one command. -/
def helpTopic? : List String → Option Topic
  | [] => some .program
  | [a] => if a = "help" then some .help else (CommandName.parse? a).map .command
  | _ => none

def stopForHelp (words : List String) : Stop :=
  match helpTopic? words with
  | some t => .help t true
  | none => .usage

/-- The options before the name of the command, the name, and what comes after it. -/
def topLevel (waiting : Option Flag) (g : Given) :
    List String → Except Stop (Given × CommandName × List String)
  | [] => .error .usage
  | a :: rest =>
    match waiting with
    | some f => if isValue a then topLevel none (g.addLater f a) rest else .error .usage
    | none =>
      if isValue a then
        match CommandName.parse? a with
        | some name => .ok (g, name, rest)
        | none => .error (if a = "help" then stopForHelp rest else .usage)
      else
        match dashed none commonFlags g a with
        | .error e => .error e
        | .ok d => topLevel d.open? d.given rest

/-- The variable that stands in for the JSON option when it is not given: true or false. -/
def jsonChosen (value : Option String) (g : Given) : Except Stop Bool :=
  if g.has .json then .ok true
  else match value with
    | none => .ok false
    | some "true" => .ok true
    | some "false" => .ok false
    | some _ => .error .usage

/-- Match the words of a command with what it needs. -/
def commandOf (json : Option String) (name : CommandName) (g : Given) : Except Stop Command :=
  match name, g.words with
  | .resolve, c :: cs => do return .resolve (c :: cs) (g.values .scope) (← jsonChosen json g)
  | .deps, [c] => do return .deps c (← jsonChosen json g)
  | .exists, c :: cs => .ok (.exists (c :: cs))
  | .locate, [c] => .ok (.locate c (g.value? .kind) (g.value? .signature))
  | .put, [c, f] => .ok (.put c f (g.value? .kind))
  | _, _ => .error .usage

/-- Read the arguments, given the value of the JSON variable. -/
def parse (json : Option String) (args : List String) : Except Stop Invocation := do
  let (top, name, rest) ← topLevel none .empty args
  let g ← commandLevel name none .empty rest
  let command ← commandOf json name g
  let top ← top.settle
  return ⟨g.value? .root <|> top.value? .root, g.value? .config <|> top.value? .config, command⟩

end Depot.CommandLine
