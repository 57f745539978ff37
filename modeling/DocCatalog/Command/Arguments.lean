/-
**The words of a command line.**

A command line names a command and gives it options and positional words, in any order; a pair of
dashes ends the options.  A long option may have its value behind an equals sign, short ones may be
run together, and an option that takes a value takes the next word, whatever it looks like.

Main definitions:

* `Command.Switch`, `Command.Name`: the options and the commands;
* `Command.scan`: the options and the positional words among the words of a command;
* `Command.Request`, `Command.Misuse`, `Command.parse`: what a whole command line asks for, or why
  it asks for nothing.
-/

import DocCatalog.FileName

set_option autoImplicit false

namespace DocCatalog.Command

/-- The options. -/
inductive Switch where
  | kind
  | json
  | config
  | verbose
  | help
  deriving DecidableEq, Repr

/-- The commands. -/
inductive Name where
  | inspect
  | lookup
  | version
  deriving DecidableEq, Repr

namespace Name

/-- The word for a command. -/
def word : Name → String
  | inspect => "inspect"
  | lookup => "lookup"
  | version => "version"

/-- All commands. -/
def all : List Name := [inspect, lookup, version]

/-- The options that a command has. -/
def switches : Name → List Switch
  | inspect => [.kind, .json, .config, .verbose, .help]
  | lookup => [.config, .verbose, .help]
  | version => [.help]

end Name

namespace Switch

/-- The long name of an option, behind its dashes. -/
def long : Switch → String
  | kind => "type"
  | json => "json"
  | config => "config"
  | verbose => "verbose"
  | help => "help"

/-- The letter of an option, if it has one. -/
def letter? : Switch → Option Char
  | kind => some 't'
  | config => some 'c'
  | verbose => some 'v'
  | json => none
  | help => none

/-- Whether an option takes a value. -/
def takesValue : Switch → Bool
  | kind => true
  | config => true
  | _ => false

end Switch

/-! ### Options among words -/

/-- An option as given, with its value if it takes one. -/
abbrev Given := Switch × String

/-- What a run of letters behind a dash gives: options, and the option that is still to take its
value from the next word. -/
def letters? (known : List Switch) : List Char → Option (List Given × Option Switch)
  | [] => some ([], none)
  | c :: rest => do
      let s ← known.find? fun s => s.letter? = some c
      if s.takesValue then
        if rest = [] then return ([], some s) else return ([(s, String.ofList rest)], none)
      else
        let (given, pending) ← letters? known rest
        return ((s, "") :: given, pending)

/-- A word behind two dashes: the name of an option, and the value behind an equals sign. -/
def longName (cs : List Char) : String × Option String :=
  match cs.dropWhile (· ≠ '=') with
  | [] => (String.ofList cs, none)
  | _ :: value => (String.ofList (cs.takeWhile (· ≠ '=')), some (String.ofList value))

/-- What a word behind two dashes gives. -/
def long? (known : List Switch) (cs : List Char) : Option (List Given × Option Switch) := do
  let (name, value?) := longName cs
  let s ← known.find? fun s => s.long = name
  match s.takesValue, value? with
  | true, some value => return ([(s, value)], none)
  | true, none => return ([], some s)
  | false, none => return ([(s, "")], none)
  | false, some _ => none

/-- What a word gives, if it is one of options: it begins with a dash and is longer than that. -/
def options? (known : List Switch) (word : String) :
    Option (Option (List Given × Option Switch)) :=
  match word.toList with
  | '-' :: '-' :: rest => some (long? known rest)
  | '-' :: c :: rest => some (letters? known (c :: rest))
  | _ => none

/-- Options and positional words. -/
structure Scanned where
  given : List Given := []
  words : List String := []

/-- The options and the positional words among words; none if an option is unknown, lacks its value
or has one that it does not take. -/
def scan (known : List Switch) : Option Switch → List String → Option Scanned
  | some _, [] => none
  | none, [] => some {}
  | some s, word :: rest => do
      let more ← scan known none rest
      return { more with given := (s, word) :: more.given }
  | none, word :: rest =>
      if word = "--" then some { words := rest }
      else
        match options? known word with
        | some found => do
            let (given, pending) ← found
            let more ← scan known pending rest
            return { more with given := given ++ more.given }
        | none => do
            let more ← scan known none rest
            return { more with words := word :: more.words }

/-! ### Requests -/

/-- What a command line asks for. -/
inductive Request where
  | help
  | version
  | inspect (manifest : String) (tags : List String) (json : Bool) (config? : Option String)
      (verbose : Bool)
  | lookup (manifest path : String) (config? : Option String) (verbose : Bool)
  deriving DecidableEq

/-- The values of an option, in the order in which they were given. -/
def values (given : List Given) (s : Switch) : List String :=
  (given.filter fun g => g.1 = s).map Prod.snd

/-- Why a command line asks for nothing. -/
inductive Misuse where
  | usage
  /-- A word names a file, and there can be none of the name. -/
  | impossibleName
  deriving DecidableEq, Repr

/-- Refuses a name of which there can be no file. -/
def checkFileName (name : String) : Except Misuse Unit :=
  if FileName.isPossible name then .ok () else .error .impossibleName

/-- What options and positional words ask of a command.  Of two values for the settings the later
counts.  Files are checked in the order settings, manifest, each before the next word is missed, and
all before a word is found to be too many. -/
def requestOf (name : Name) (scanned : Scanned) : Except Misuse Request := do
  let has (s : Switch) : Bool := scanned.given.any fun g => g.1 = s
  let config? := (values scanned.given .config).getLast?
  if has .help then return .help
  config?.forM checkFileName
  match name, scanned.words with
  | .inspect, manifest :: more =>
      checkFileName manifest
      if more = [] then
        return .inspect manifest (values scanned.given .kind) (has .json) config? (has .verbose)
      else throw .usage
  | .lookup, manifest :: more =>
      checkFileName manifest
      match more with
      | [path] => return .lookup manifest path config? (has .verbose)
      | _ => throw .usage
  | .version, [] => return .version
  | _, _ => throw .usage

/-- What the words of a command ask for. -/
def ofWords (name : Name) (words : List String) : Except Misuse Request :=
  match scan name.switches none words with
  | some scanned => requestOf name scanned
  | none => .error .usage

/-- The words before the command: whether they call for help, and the words from the command on;
none if one of them is another option.  They end at the first word that is no option, or at a pair
of dashes before it. -/
def beforeCommand : List String → Option (Bool × List String)
  | [] => some (false, [])
  | word :: rest =>
      if word = "--" then some (false, rest)
      else
        match options? [.help] word with
        | some none => none
        | some (some _) => (beforeCommand rest).map fun p => (true, p.2)
        | none => some (false, word :: rest)

/-- What a command line asks for.  A call for help before the command leaves the words from there on
unread. -/
def parse (words : List String) : Except Misuse Request :=
  match beforeCommand words with
  | some (true, _) => .ok .help
  | some (false, word :: rest) =>
      match Name.all.find? fun n => n.word = word with
      | some name => ofWords name rest
      | none => .error .usage
  | some (false, []) => .error .usage
  | none => .error .usage

end DocCatalog.Command
