import ImportIndex.Path.Basic

/-!
# Command lines

A command line is a verb with options and operands. The options of all verbs, `-C DIR` and `-v`,
may stand before the verb or after it; where both places give a directory, the one after the verb
counts. `-V` may stand before the verb and asks for the version instead; nothing after it is read.
Every other option belongs to verbs. An option is given once at most in each place.

Options have long forms, `--root DIR` or `--root=DIR`, and most have a letter. Letters may be put
together, and the rest of the word after a letter that takes a value is that value. After `--`,
every word is an operand.
-/

namespace ImportIndex.Command

/-- The forms of output. -/
inductive Format where
  /-- For people. -/
  | text
  /-- For programs. -/
  | json
deriving DecidableEq, Repr

/-- What is to be done. -/
inductive Verb where
  /-- Brings the artifacts of sources up to date, or those of all sources if none are given. -/
  | build (files : List Path)
  /-- Prints the imports of a source. -/
  | deps (file : Path) (transitive : Bool)
  /-- Sweeps, or rehearses a sweep. -/
  | gc (rehearsal : Bool)
  /-- Tells how the project stands. -/
  | status
deriving DecidableEq, Repr

/-- A verb with all that it needs to be carried out. -/
structure Invocation where
  /-- The root of the project. -/
  root : Path
  /-- Whether the steps of the work are to be told. -/
  verbose : Bool
  /-- What is to be done. -/
  verb : Verb
  /-- The form of the output. -/
  format : Format
deriving DecidableEq, Repr

/-- What a command line asks for. -/
inductive Request where
  /-- The version of the program. -/
  | version
  /-- To carry out a verb. -/
  | perform (invocation : Invocation)
deriving DecidableEq, Repr

/-- The options. -/
inductive Flag where
  /-- Gives the root of the project. -/
  | root
  /-- Tells the steps of the work. -/
  | verbose
  /-- Gives the form of the output. -/
  | output
  /-- Asks for transitive imports. -/
  | transitive
  /-- Rehearses a sweep. -/
  | dryRun
  /-- Asks for the version. -/
  | version
deriving DecidableEq, Repr

namespace Flag

/-- The letter of an option, if it has one. -/
def letter? : Flag → Option Char
  | root => some 'C'
  | verbose => some 'v'
  | output => some 'o'
  | transitive => some 't'
  | dryRun => none
  | version => some 'V'

/-- The long form of an option. -/
def word : Flag → String
  | root => "root"
  | verbose => "verbose"
  | output => "output"
  | transitive => "transitive"
  | dryRun => "dry-run"
  | version => "version"

/-- Whether an option takes a value. -/
def takesValue : Flag → Bool
  | root => true
  | output => true
  | _ => false

end Flag

/-- What one place of a command line gives. -/
structure Given where
  /-- The options, each with its value. -/
  flags : List (Flag × String) := []
  /-- The operands, in order. -/
  operands : List String := []

namespace Given

/-- The value of an option. -/
def value? (given : Given) (flag : Flag) : Option String :=
  (given.flags.find? (·.1 == flag)).map (·.2)

/-- Whether an option is given. -/
def has (given : Given) (flag : Flag) : Bool := (given.value? flag).isSome

/-- Whether what was read decides the command line, so that the rest of it does not count. -/
def isDecided (given : Given) : Bool := given.has .version

/-- Adds an option, unless it was given before. -/
def addFlag (given : Given) (flag : Flag) (value : String) : Option Given :=
  if given.has flag then none else some { given with flags := (flag, value) :: given.flags }

/-- Adds an operand. -/
def addOperand (given : Given) (operand : String) : Given :=
  { given with operands := given.operands ++ [operand] }

end Given

/-! ### Reading words -/

/-- Whether a word stands for options. A lone dash does not. -/
def isOption (word : String) : Bool :=
  match word.toList with
  | '-' :: _ :: _ => true
  | _ => false

/-- The value after an equals sign, if there is one in front. -/
def dropEquals (value : List Char) : String :=
  match value with
  | '=' :: rest => String.ofList rest
  | _ => String.ofList value

/-- Reads letters that were put together, up to one that decides the command line. The result has
    the option that still waits for its value, if there is one. -/
def readLetters (allowed : List Flag) : List Char → Given → Option (Given × Option Flag)
  | [], given => some (given, none)
  | letter :: rest, given => do
    if given.isDecided then return (given, none)
    let flag ← allowed.find? (·.letter? == some letter)
    if flag.takesValue then
      if rest.isEmpty then return (given, some flag)
      return (← given.addFlag flag (dropEquals rest), none)
    else readLetters allowed rest (← given.addFlag flag "")

/-- Reads a long form, given without its dashes. The result has the option that still waits for
    its value, if it does. -/
def readLong (allowed : List Flag) (word : List Char) (given : Given) :
    Option (Given × Option Flag) := do
  let name := String.ofList (word.takeWhile (· != '='))
  let flag ← allowed.find? (·.word == name)
  match word.dropWhile (· != '='), flag.takesValue with
  | [], true => return (given, some flag)
  | [], false => return (← given.addFlag flag "", none)
  | _ :: value, true => return (← given.addFlag flag (String.ofList value), none)
  | _ :: _, false => none

/-- Reads a word that stands for options. -/
def readOption (allowed : List Flag) (word : String) (given : Given) :
    Option (Given × Option Flag) :=
  match word.toList with
  | '-' :: '-' :: rest => readLong allowed rest given
  | '-' :: rest => readLetters allowed rest given
  | _ => none

/-- Reads words up to one that `isEnd` accepts where an operand may stand, and gives the words
    from there on. What decides the command line has no words after it. There is no result if the
    words make no sense. -/
def readPlace (allowed : List Flag) (isEnd : String → Bool) :
    List String → Given → Option (Given × List String)
  | [], given => some (given, [])
  | word :: rest, given =>
    if given.isDecided then some (given, [])
    else if word = "--" then some (rest.foldl Given.addOperand given, [])
    else if isOption word then
      match readOption allowed word given, rest with
      | none, _ => none
      | some (given, none), rest => readPlace allowed isEnd rest given
      | some (_, some _), [] => none
      | some (given, some flag), value :: rest =>
        if isOption value then none
        else (given.addFlag flag value).bind (readPlace allowed isEnd rest)
    else if isEnd word then some (given, word :: rest)
    else readPlace allowed isEnd rest (given.addOperand word)

/-! ### Making sense of what is given -/

/-- The options that may stand in both places. -/
def globalFlags : List Flag := [.root, .verbose]

/-- The options that may stand before the verb. -/
def firstFlags : List Flag := .version :: globalFlags

/-- The options of a verb, by its name. -/
def verbFlags? : String → Option (List Flag)
  | "build" => some [.output]
  | "deps" => some [.transitive, .output]
  | "gc" => some [.dryRun, .output]
  | "status" => some [.output]
  | _ => none

/-- A path that is given. It is not empty. -/
def path? (text : String) : Option Path :=
  if text.isEmpty then none else some (.ofText text)

/-- The form of output, by name. -/
def format? : String → Option Format
  | "text" => some .text
  | "json" => some .json
  | _ => none

/-- The verb with this name and what is given after it. -/
def verb? (name : String) (given : Given) : Option Verb := do
  let files ← given.operands.mapM path?
  match name, files with
  | "build", files => return .build files
  | "deps", [file] => return .deps file (given.has .transitive)
  | "gc", [] => return .gc (given.has .dryRun)
  | "status", [] => return .status
  | _, _ => none

/-- The value of an option that is read by `read`, or the usual one if the option is not given. -/
def valueOr {α : Type} (given : Given) (flag : Flag) (read : String → Option α) (usual : α) :
    Option α :=
  match given.value? flag with
  | some value => read value
  | none => some usual

/-- What a verb with this name is to do, given the root that stands before it and what else is given
    in the two places. -/
def invocation? (outer : Path) (before : Given) (name : String) (after : Given) :
    Option Invocation := do
  return {
    root := ← valueOr after .root path? outer
    verbose := before.has .verbose || after.has .verbose
    verb := ← verb? name after
    format := ← valueOr after .output format? .text }

/-- Reads a command line. There is no result if it makes no sense. -/
def parse (words : List String) : Option Request := do
  let (before, rest) ← readPlace firstFlags (fun word => (verbFlags? word).isSome) words {}
  guard before.operands.isEmpty
  let outer ← valueOr before .root path? (.ofText ".")
  if before.has .version then return .version
  match rest with
  | [] => none
  | name :: rest =>
    let flags ← verbFlags? name
    let (after, _) ← readPlace (flags ++ globalFlags) (fun _ => false) rest {}
    return .perform (← invocation? outer before name after)

example : parse ["-vVx", "status"] = some .version := by decide +kernel

example : parse ["status", "-V"] = none := by decide +kernel

end ImportIndex.Command
