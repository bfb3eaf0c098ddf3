/-
  The command line.

  `run FILE` executes a script, `check FILE` only reads it.  What is asked for is an `Invocation`;
  what comes of it is an exit code and two texts.  A signal that escaped from a script belongs to
  its output; diagnostics and faults go to the error output.
-/
import SmallScript.Diagnostic.Record
import SmallScript.Diagnostic.Report
import SmallScript.Interpreter
import SmallScript.Tree.Parse

namespace SmallScript

/-- What the command line asks for. -/
inductive Invocation where
  | version
  | help
  | run (file : String) (strict : Bool)
  | check (file : String) (json : Bool)
deriving DecidableEq, Repr

namespace Invocation

/-- What the words behind a subcommand say: the file, and whether the flag is set. -/
structure Target where
  file : Option String := none
  flag : Bool := false
deriving DecidableEq, Repr

/-- The words behind a subcommand cannot be understood, or they ask for help. -/
inductive Refusal where
  | usage
  | help
deriving DecidableEq, Repr

/-- Whether a word has the form of a flag; a single dash is a file. -/
def looksLikeFlag (word : String) : Bool :=
  match word.toList with
  | '-' :: _ :: _ => true
  | _ => false

/-- The words behind two dashes: nothing but a file, if there is none yet. -/
def targetFile (t : Target) : List String → Except Refusal Target
  | [] => .ok t
  | word :: rest =>
    if t.file.isSome || word.isEmpty then .error .usage
    else targetFile { t with file := some word } rest

/-- The words behind a subcommand with a flag. -/
def target (flag : String) (t : Target) : List String → Except Refusal Target
  | [] => .ok t
  | word :: rest =>
    if word = "--" then targetFile t rest
    else if word = "--help" || word.startsWith "-h" then .error .help
    else if looksLikeFlag word then
      if word = flag && !t.flag then target flag { t with flag := true } rest else .error .usage
    else if t.file.isSome || word.isEmpty then .error .usage
    else target flag { t with file := some word } rest

/-- A subcommand with the words behind it; there has to be a file. -/
def ofWords? (make : String → Bool → Invocation) (flag : String) (words : List String) :
    Option Invocation :=
  match target flag {} words with
  | .ok ⟨some file, set⟩ => some (make file set)
  | .ok ⟨none, _⟩ => none
  | .error .help => some help
  | .error .usage => none

/-- What the arguments of the program ask for, if they can be understood. -/
def ofArgs? : List String → Option Invocation
  | [] => none
  | word :: rest =>
    if word = "run" then ofWords? run "--strict" rest
    else if word = "check" then ofWords? check "--json" rest
    else if word = "--version" || word.startsWith "-V" then some version
    else if word = "--help" || word.startsWith "-h" then some help
    else if word = "help" then
      if rest ∈ [[], ["run"], ["check"], ["help"]] then some help else none
    else none

/-- The file that is asked for. -/
def file? : Invocation → Option String
  | version | help => none
  | run file _ | check file _ => some file

end Invocation

/-- Why a file could not be read. -/
inductive Unreadable where
  | missing
  | directory
  /-- A file stands where the path needs a directory. -/
  | notDirectory
  | encoding
  | other (reason : String)
deriving DecidableEq, Repr

def Unreadable.reason : Unreadable → String
  | missing => "No such file or directory (os error 2)"
  | directory => "Is a directory (os error 21)"
  | notDirectory => "Not a directory (os error 20)"
  | encoding => "stream did not contain valid UTF-8"
  | other reason => reason

/-- What the program leaves behind. -/
structure Ending where
  code : Nat
  out : String := ""
  err : String := ""
deriving DecidableEq, Repr

/-- What the program finds around it. -/
structure Surroundings where
  /-- Whether texts for the terminal are coloured. -/
  colour : Bool := false
  /-- Whether scripts are strict without being told. -/
  strict : Bool := false
  input : String := ""
  clock : Clock := {}

namespace Command

def versionText : String := "smpl 0.1.1\n"

def helpText : String :=
  writtenLines
    ["SMPL: a small dynamically typed scripting language",
     "",
     "Usage: smpl <COMMAND>",
     "",
     "Commands:",
     "  run    Run a program: run <FILE> [--strict]",
     "  check  Parse a program and report syntax errors: check <FILE> [--json]",
     "  help   Print this message",
     "",
     "Options:",
     "  -h, --help     Print help",
     "  -V, --version  Print version"]

/-- What comes of arguments that could not be understood. -/
def usage : Ending :=
  { code := 2, err := "error: the arguments could not be understood\n\n" ++ helpText }

/-- Whether a script can ask for input at all: it has to use the name. -/
def mentionsInput (text : String) : Bool :=
  (Document.scan { name := "", text }).tokens.any fun t =>
    t.kind == .identifier GlobalFunction.input.name

/-- Whether a setting asks for strict scripts. -/
def isStrictSetting (setting : String) : Bool :=
  setting = "1" || setting.toList.map Char.toLower = "true".toList

/-- A word that announces a failure. -/
def alarm (colour : Bool) : String := Ink.alarm.paint colour "error"

/-- The complaint about a file that could not be read. -/
def unreadable (colour : Bool) (file : String) (why : Unreadable) : Ending :=
  { code := 1
    err := alarm colour ++ ": cannot read " ++ file ++ ": " ++ why.reason ++ "\n" }

/-- Report what was found in a script. -/
def check (colour : Bool) (json : Bool) (doc : Document) (parse : Parse) : Ending :=
  let log := parse.log
  let code := if log.hasErrors then 1 else 0
  if json then { code, out := log.record.text ++ "\n" }
  else if log.hasErrors then { code, err := Report.ofLog colour log }
  else { code, out := doc.name ++ ": " ++ Ink.success.paint colour "ok" ++ "\n" }

/-- What was written to a console. -/
def written (c : Console) : String × String :=
  (writtenLines c.out.toList, writtenLines c.err.toList)

/-- What a run leaves behind. -/
def endingOf (colour : Bool) : Outcome Unit → Ending
  | .done _ s =>
    let (out, err) := written s.world.console
    { code := 0, out, err }
  | .unwound u s =>
    let (out, err) := written s.world.console
    let fault := RunFault.ofUnwind u
    let line := fault.report (Ink.alarm.paint colour) ++ "\n"
    if fault.isStraySignal then { code := 1, out := out ++ line, err }
    else { code := 1, out, err := err ++ line }
  | .exhausted => { code := 1 }

/-- Run a script, unless there is something wrong with its text. -/
def run (around : Surroundings) (strict : Bool) (parse : Parse) : Ending :=
  if parse.log.hasErrors then { code := 1, err := Report.ofLog around.colour parse.log }
  else
    let console : Console := { input := Input.ofLines around.input }
    let state := State.start [Library.standard] console around.clock
    let config : Config := { strict := strict || around.strict }
    endingOf around.colour (Interpreter.run config parse.program state)

/-- What comes of a file that has been read, unless its places cannot be counted. -/
def onDocument? (around : Surroundings) (content : Except Unreadable String) (file : String)
    (act : Document → Parse → Ending) : Option Ending :=
  match content with
  | .error why => some (unreadable around.colour file why)
  | .ok text =>
    let doc : Document := { name := file, text }
    (Parse.ofDocument? doc).map (act doc)

/-- Do what is asked for, `content` being that of the file.  There is no ending where the places of
the file cannot be counted: the program breaks off. -/
def perform? (around : Surroundings) (content : Except Unreadable String) :
    Invocation → Option Ending
  | .version => some { code := 0, out := versionText }
  | .help => some { code := 0, out := helpText }
  | .run file strict => onDocument? around content file fun _ parse => run around strict parse
  | .check file json => onDocument? around content file (check around.colour json)

end Command

end SmallScript
