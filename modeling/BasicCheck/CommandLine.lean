import BasicCheck.Parse.Procedure
import BasicCheck.Report
import BasicCheck.Text.Quoted

/-!
# The command line

What the command `bpc` does: it checks a file, or lists the symbols or the tokens of one. A run is a
function of its arguments and of the files that it may read (`CommandLine.run`). It exits with zero
if nothing is wrong, with one if the file has errors, and with two if it could not be read or the
arguments are not understood.
-/

namespace BasicCheck.CommandLine

/-! ## 1. Outcomes -/

/-- What a run leaves behind. -/
structure Outcome where
  exit : UInt8
  /-- What is written for further use. -/
  output : String
  /-- What is written about errors. -/
  errors : String
  deriving DecidableEq, Repr, Inhabited

/-- Lines of text, each with its end. -/
def lines (ls : List String) : String := String.join (ls.map (· ++ "\n"))

/-- The outcome of looking at a file, which is right or has errors. -/
def Outcome.verdict (right : Bool) (output errors : List String) : Outcome :=
  ⟨if right then 0 else 1, lines output, lines errors⟩

/-- The outcome of a run that could not begin. -/
def Outcome.failure (message : String) : Outcome := ⟨2, "", lines ["Error: " ++ message]⟩

/-! ## 2. Files -/

/-- Why a file could not be read. -/
inductive ReadFault where
  | missing
  | forbidden
  | directory
  /-- The file holds no text. -/
  | notText
  | other (message : String)
  deriving DecidableEq, Repr, Inhabited

def ReadFault.message : ReadFault → String
  | missing => "No such file or directory (os error 2)"
  | forbidden => "Permission denied (os error 13)"
  | directory => "Is a directory (os error 21)"
  | notText => "stream did not contain valid UTF-8"
  | other message => message

/-- The text that some bytes are in UTF-8. -/
def textOfBytes (bytes : ByteArray) : Except ReadFault String :=
  match String.fromUTF8? bytes with
  | some text => .ok text
  | none => .error .notText

/-- What is read under a name. -/
abbrev Files := String → Except ReadFault String

/-! ## 3. Commands -/

inductive Command where
  | check (file : String) (json : Bool) (options : CheckOptions)
  | symbols (file : String)
  | tokens (file : String)
  | version
  deriving DecidableEq, Repr

/-- The options of a check, which may stand before and behind the name of the file. -/
structure CheckArgs where
  file : Option String
  json : Bool
  noUnreachable : Bool
  noUnassigned : Bool
  deriving DecidableEq, Repr

namespace CheckArgs

/-- No arguments. -/
def none : CheckArgs := ⟨.none, false, false, false⟩

/-- A further file, which has to be the first one. -/
def setFile? (a : CheckArgs) (file : String) : Option CheckArgs :=
  if a.file.isSome || file.isEmpty then .none else some { a with file }

/-- Some arguments after those that are already known. An option may be given once; behind `--`
    there are no options. -/
def read? (a : CheckArgs) : List String → Option CheckArgs
  | [] => some a
  | "--" :: rest => rest.foldlM setFile? a
  | "--json" :: rest => if a.json then .none else { a with json := true }.read? rest
  | "--no-unreachable" :: rest =>
    if a.noUnreachable then .none else { a with noUnreachable := true }.read? rest
  | "--no-unassigned" :: rest =>
    if a.noUnassigned then .none else { a with noUnassigned := true }.read? rest
  | arg :: rest =>
    if arg.startsWith "-" && arg != "-" then .none
    else (a.setFile? arg).bind (·.read? rest)

end CheckArgs

namespace Command

/-- The file among some arguments of which none is an option. -/
def onlyFile? (args : List String) : Option String := do
  let found ← CheckArgs.none.read? args
  if found.json || found.noUnreachable || found.noUnassigned then none else found.file

/-- The command that some arguments give. -/
def ofArgs? : List String → Option Command
  | "check" :: args => do
    let found ← CheckArgs.none.read? args
    let file ← found.file
    return .check file found.json ⟨!found.noUnreachable, !found.noUnassigned⟩
  | "symbols" :: args => (onlyFile? args).map symbols
  | "tokens" :: args => (onlyFile? args).map tokens
  | ["version"] => some version
  | _ => none

/-- The file that a command looks at. -/
def file? : Command → Option String
  | check file _ _ | symbols file | tokens file => some file
  | version => none

end Command

/-! ## 4. Checking -/

/-- A place as messages give it: columns are counted from one there. -/
def placeText (p : Place) : String := toString p.line ++ ":" ++ toString (p.column + 1)

/-- What messages call a severity. -/
def severityWord : Severity → String
  | .error => "error"
  | .warning => "warning"
  | .info => "info"

def diagnosticLine (file : String) (d : Diagnostic) : String :=
  file ++ ":" ++ placeText d.span.start ++ ": " ++ severityWord d.severity ++ ": " ++ d.message

def findingLine (file : String) (f : Finding) : String :=
  file ++ ":" ++ placeText f.span.start ++ ": " ++ severityWord f.severity ++
    "[" ++ f.code ++ "]: " ++ f.message

/-- The last line about a file. -/
def summaryLine (r : Report) : String :=
  if r.success then "✅ No errors found (" ++ toString (r.count .warning) ++ " warnings)"
  else "❌ " ++ toString (r.count .error) ++ " errors"

/-- A report, line by line. -/
def reportLines (r : Report) : List String :=
  r.diagnostics.map (diagnosticLine r.file) ++ r.findings.map (findingLine r.file) ++
    [summaryLine r]

def check (file : String) (json : Bool) (options : CheckOptions) (source : String) : Outcome :=
  let report := Report.ofProcedure file (.ofText source 0) options
  .verdict report.success (if json then [report.render] else reportLines report) []

/-! ## 5. Listings -/

/-- A text with blanks behind it up to a given width. -/
def pad (width : Nat) (text : String) : String := String.ofList (text.toList.rightpad width ' ')

def symbolLine (s : Symbol) : String :=
  pad 12 s.kind.describe ++ " " ++ pad 24 s.name ++ " " ++ placeText s.token.span.start ++
    (match s.scope? with
      | some scope => " " ++ scope.title
      | none => "") ++
    (if s.isDeclared then "" else " (undefined)") ++
    "  refs=" ++ toString s.references.size

def symbols (source : String) : Outcome :=
  .verdict true ((Procedure.ofText source 0).symbols.symbols.toList.map symbolLine) []

def tokenLine (t : Token) : String :=
  placeText t.span.start ++ "\t" ++ t.kind.title ++ "\t" ++ Text.quote t.text

def faultLine (f : Fault) : String := placeText f.span.start ++ ": " ++ f.cause.message

def tokens (source : String) : Outcome :=
  let lexed := Lexed.ofText source 0
  .verdict lexed.faults.isEmpty (lexed.tokens.map tokenLine) (lexed.faults.map faultLine)

/-! ## 6. Runs -/

/-- The outcome of a command that looks at a file. -/
def withFile (files : Files) (file : String) (look : String → Outcome) : Outcome :=
  match files file with
  | .ok source => look source
  | .error fault => .failure ("could not read " ++ file ++ ": " ++ fault.message)

def version : Outcome := .verdict true ["bpc 0.1.0", "Basic+ checker", "License: Apache-2.0"] []

/-- What to write if the arguments are not understood. -/
def usage : Outcome :=
  ⟨2, "", lines ["Usage: bpc check FILE [--json] [--no-unreachable] [--no-unassigned]",
    "       bpc symbols FILE", "       bpc tokens FILE", "       bpc version"]⟩

def Command.run (files : Files) : Command → Outcome
  | .check file json options => withFile files file (CommandLine.check file json options)
  | .symbols file => withFile files file CommandLine.symbols
  | .tokens file => withFile files file CommandLine.tokens
  | .version => CommandLine.version

/-- The outcome of a run with some arguments. -/
def run (files : Files) (args : List String) : Outcome :=
  match Command.ofArgs? args with
  | some command => command.run files
  | none => usage

end BasicCheck.CommandLine
