import Xref.Reference.Serial
import Xref.Session

/-!
# The command line

`analyze` lists the references of one file, `index` reports what an environment holds. Arguments are
read from the left; the first thing that is wrong decides.
-/
namespace Xref

open Environment Files Reference Text

namespace CommandLine

inductive Stop where
  | usage
  | help (text : String)
  deriving Repr, DecidableEq

structure Options where
  libraries : List String := []
  sources : List String := []
  config : Option String := none
  json : Bool := false
  verbose : Bool := false
  file : Option String := none
  deriving Repr, DecidableEq

inductive CommandKind where
  | analyze | index
  deriving Repr, DecidableEq

def helpTop : String :=
  joinWith "\n"
    ["Java reference resolver", "", "Usage: javarefs [OPTIONS] <COMMAND>", "", "Commands:",
     "  analyze  List the references of one compilation unit",
     "  index    Build the symbol environment and report what was indexed",
     "  help     Print this message or the help of the given subcommand(s)", "", "Options:",
     "  -v, --verbose  Log indexing and analysis details to stderr",
     "  -h, --help     Print help", ""]

def helpOptions : List String :=
  ["Options:",
   "  -l, --lib <LIBS>       Library path (jar, zip or class directory); repeatable",
   "  -v, --verbose          Log indexing and analysis details to stderr",
   "  -s, --src <SRCS>       Source root or Java file; repeatable",
   "      --config <CONFIG>  Configuration file (default: ./javarefs.json if present)",
   "      --json             Output as JSON",
   "  -h, --help             Print help", ""]

def CommandKind.help : CommandKind → String
  | analyze =>
    joinWith "\n"
      (["List the references of one compilation unit", "",
        "Usage: javarefs analyze [OPTIONS] <FILE>", "", "Arguments:",
        "  <FILE>  Java file to analyse", ""] ++ helpOptions)
  | index =>
    joinWith "\n"
      (["Build the symbol environment and report what was indexed", "",
        "Usage: javarefs index [OPTIONS]", ""] ++ helpOptions)

def helpHelp : String :=
  joinWith "\n"
    ["Print this message or the help of the given subcommand(s)", "",
     "Usage: javarefs help [COMMAND]...", "", "Arguments:",
     "  [COMMAND]...  Print help for the subcommand(s)", ""]

inductive Valued where
  | library | source | config
  deriving Repr, DecidableEq

/-- Adds the value of an option. It must not be empty. -/
def Options.add (o : Options) (option : Valued) (value : String) : Except Stop Options :=
  if value.isEmpty then .error .usage
  else match option with
    | .library => .ok { o with libraries := o.libraries ++ [value] }
    | .source => .ok { o with sources := o.sources ++ [value] }
    | .config => if o.config.isSome then .error .usage else .ok { o with config := some value }

def Options.setVerbose (o : Options) : Except Stop Options :=
  if o.verbose then .error .usage else .ok { o with verbose := true }

def Options.setJson (o : Options) : Except Stop Options :=
  if o.json then .error .usage else .ok { o with json := true }

/-- Adds an argument that is no option. Only `analyze` has one. -/
def Options.addFile (o : Options) (kind : CommandKind) (file : String) : Except Stop Options :=
  if kind == .index || o.file.isSome || file.isEmpty then .error .usage
  else .ok { o with file := some file }

/-- Options, and the option that still waits for its value. -/
abbrev Pending := Options × Option Valued

/-- An option with a long name, and its value if that follows an equals sign. -/
def readLong (kind : CommandKind) (o : Options) (name : String) (value : Option String) :
    Except Stop Pending := do
  let valued (option : Valued) : Except Stop Pending :=
    match value with
    | some v => do return (← o.add option v, none)
    | none => .ok (o, some option)
  match name, value with
  | "lib", _ => valued .library
  | "src", _ => valued .source
  | "config", _ => valued .config
  | "json", none => return (← o.setJson, none)
  | "verbose", none => return (← o.setVerbose, none)
  | "help", none => .error (.help kind.help)
  | _, _ => .error .usage

/-- Options with short names, written together. The value of one may follow it directly. -/
def readShort (kind : CommandKind) : Options → List Char → Except Stop Pending
  | o, [] => .ok (o, none)
  | o, c :: rest =>
    let valued (option : Valued) : Except Stop Pending :=
      match rest with
      | [] => .ok (o, some option)
      | '=' :: value => do return (← o.add option (String.ofList value), none)
      | value => do return (← o.add option (String.ofList value), none)
    match c with
    | 'v' => do readShort kind (← o.setVerbose) rest
    | 'h' => .error (.help kind.help)
    | 'l' => valued .library
    | 's' => valued .source
    | _ => .error .usage

def looksLikeOption (arg : String) : Bool :=
  match arg.toList with
  | '-' :: _ :: _ => true
  | _ => false

/-- Reads the arguments of a command, after an option that waits for its value. -/
def readArguments (kind : CommandKind) : Pending → List String → Except Stop Options
  | (o, none), [] => .ok o
  | (_, some _), [] => .error .usage
  | (o, some option), arg :: rest => do
    if looksLikeOption arg then .error .usage
    readArguments kind (← o.add option arg, none) rest
  | (o, none), arg :: rest => do
    if arg == "--" then rest.foldlM (fun o file => o.addFile kind file) o
    else match arg.toList with
      | '-' :: '-' :: long =>
        let name := (cutChars '=' long).map Prod.fst |>.getD long
        let value := (cutChars '=' long).map fun c => String.ofList c.2
        readArguments kind (← readLong kind o (String.ofList name) value) rest
      | '-' :: c :: short => readArguments kind (← readShort kind o (c :: short)) rest
      | _ => readArguments kind (← o.addFile kind arg, none) rest

def commandOf? : String → Option CommandKind
  | "analyze" => some .analyze
  | "index" => some .index
  | _ => none

def readCommand (kind : CommandKind) (args : List String) :
    Except Stop (CommandKind × Options) := do
  let o ← readArguments kind ({}, none) args
  if kind == .analyze && o.file.isNone then .error .usage else return (kind, o)

def readHelp : List String → Stop
  | [] => .help helpTop
  | ["help"] => .help helpHelp
  | [command] => ((commandOf? command).map fun kind => Stop.help kind.help).getD .usage
  | _ => .usage

/-- Short options in front of the command: only `v`, and only once. -/
def readTopShort : Bool → List Char → Except Stop Bool
  | verbose, [] => .ok verbose
  | verbose, c :: rest =>
    match c with
    | 'v' => if verbose then .error .usage else readTopShort true rest
    | 'h' => .error (.help helpTop)
    | _ => .error .usage

/-- Reads a whole command line, after the option to be verbose or not. -/
def readTop : Bool → List String → Except Stop (CommandKind × Options)
  | _, [] => .error .usage
  | verbose, arg :: rest => do
    match commandOf? arg with
    | some kind => readCommand kind rest
    | none =>
      if arg == "help" then .error (readHelp rest)
      else if arg == "--help" then .error (.help helpTop)
      else if arg == "--verbose" then
        if verbose then .error .usage else readTop true rest
      else match arg.toList with
        | '-' :: '-' :: _ => .error .usage
        | '-' :: c :: short => readTop (← readTopShort verbose (c :: short)) rest
        | _ => .error .usage

def read (args : List String) : Except Stop (CommandKind × Options) := readTop false args

def recordLine (r : Record) : String :=
  toString r.span.line ++ ":" ++ toString r.span.column ++ " " ++ r.location.label ++ " " ++
    r.status.label ++ " " ++ r.name

def lines (ls : List String) : String := String.join (ls.map fun l => l ++ "\n")

def statsJson (s : Stats) : Json :=
  .object
    [("diagnostics", .ofNat s.diagnostics), ("library_types", .ofNat s.libraryTypes),
     ("packages", .ofNat s.packages), ("source_files", .ofNat s.sourceFiles),
     ("source_types", .ofNat s.sourceTypes)]

def diagnosticJson (d : Diagnostic) : Json :=
  .object [("message", .string d.message), ("path", .string d.path)]

def reportJson (env : Environment) : Json :=
  .object
    [("diagnostics", .array (env.diagnostics.map diagnosticJson)),
     ("stats", statsJson env.stats)]

def reportLines (env : Environment) : List String :=
  let s := env.stats
  ["Symbol environment", "  Source files:  " ++ toString s.sourceFiles,
   "  Source types:  " ++ toString s.sourceTypes,
   "  Library types: " ++ toString s.libraryTypes,
   "  Packages:      " ++ toString s.packages] ++
  if env.diagnostics.isEmpty then []
  else
    ["", "  Diagnostics:"] ++
      env.diagnostics.map fun d => "    " ++ d.path ++ ": " ++ d.message

structure Outcome where
  code : Nat
  out : String
  err : String
  deriving Repr, DecidableEq

def succeed (out : String) : Outcome := ⟨0, out, ""⟩

def fail (message : String) : Outcome := ⟨1, "", "Error: " ++ message ++ "\n"⟩

def runCommand (files : FileTree) (kind : CommandKind) (o : Options) : Outcome :=
  match Config.load files (o.config.getD Config.fileName) with
  | .error e => fail ("config error: " ++ e.message)
  | .ok config =>
    let session : Session := { config := config }
    match kind with
    | .analyze =>
      match (session.analyze files o.libraries o.sources (o.file.getD "")).1 with
      | .error e => fail e.message
      | .ok records =>
        succeed
          (if o.json then Json.pretty (.array (records.map Record.toJson)) ++ "\n"
           else lines (records.map recordLine))
    | .index =>
      let env := session.environment files o.libraries o.sources
      succeed
        (if o.json then Json.pretty (reportJson env) ++ "\n" else lines (reportLines env))

/-- The paths that a command line names. Only what is there can matter to it. -/
def paths (args : List String) : List String :=
  match read args with
  | .ok (_, o) =>
    o.config.getD Config.fileName :: (o.libraries ++ o.sources ++ o.file.toList)
  | .error _ => []

def run (files : FileTree) (args : List String) : Outcome :=
  match read args with
  | .error .usage => ⟨2, "", helpTop⟩
  | .error (.help text) => succeed text
  | .ok (kind, o) => runCommand files kind o

end CommandLine

end Xref
