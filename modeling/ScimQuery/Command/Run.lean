import ScimQuery.Command.Arguments
import ScimQuery.Command.Style
import ScimQuery.Settings

/-!
# Command — Run

What the command does, as a function of what it is given: its arguments, the environment, the
files it may read and the standard input.  The outcome is what it writes and its exit status.
-/

namespace ScimQuery.Command

/-- What the command is given. -/
structure World where
  /-- The arguments after the name of the command. -/
  args : List String
  /-- The variables of the environment. -/
  env : String → Option String
  /-- The home directory that the system keeps for the account. -/
  accountHome : Option String
  /-- The bytes of a file. -/
  contents : String → Except ReadFault ByteArray
  /-- The bytes of the standard input. -/
  stdin : ByteArray

/-- What the command does. -/
structure Outcome where
  status : Nat
  stdout : String := ""
  stderr : String := ""
  deriving Repr, DecidableEq

/-! ### The configuration -/

/-- The text of some bytes. -/
def textOf (bytes : ByteArray) : Except ReadFault String :=
  match String.fromUTF8? bytes with
  | some text => .ok text
  | none => .error .notText

/-- A path in a directory; the empty directory is the current one. -/
def inDirectory (directory name : String) : String :=
  if directory.isEmpty then name
  else if directory.toList.getLast? = some '/' then directory ++ name
  else directory ++ "/" ++ name

/-- The home directory of an account in a list of accounts, which has a line for each: fields
with colons between them, of which the first is the name and the sixth the home directory. -/
def homeIn? (accounts name : String) : Option String :=
  (accounts.splitOn "\n").findSome? fun line =>
    let fields := line.splitOn ":"
    if fields.head? = some name then fields[5]? else none

/-- The home directory: the one that the environment tells, unless it is empty, or else the one
of the account. -/
def World.home (world : World) : Option String :=
  ((world.env "HOME").filter (fun home => !home.isEmpty)).or world.accountHome

/-- The file that is read when none is named, if it is known where it is. -/
def World.defaultFile? (world : World) : Option String :=
  let file := "scimf/config.toml"
  match world.env "XDG_CONFIG_HOME" with
  | some directory => some (inDirectory directory file)
  | none => world.home.map (fun home => inDirectory home (".config/" ++ file))

/-- The settings in the bytes read from a file. -/
def settingsOf (file : String) (bytes : Except ReadFault ByteArray) : Except Failure Settings :=
  match bytes.bind textOf with
  | .error fault => .error (.config ("Failed to read config " ++ file ++ ": " ++ fault.message))
  | .ok text =>
    match Settings.ofText text with
    | .error fault => .error (.config fault.message)
    | .ok settings => .ok settings

/-- The settings in force.  A file that is named must be there; the default one may be
missing. -/
def loadSettings (world : World) (named : Option String) : Except Failure Settings :=
  match named, world.defaultFile? with
  | some file, _ => settingsOf file (world.contents file)
  | none, none => .error (.config "Could not determine config directory")
  | none, some file =>
    match world.contents file with
    | .error fault => if fault.isAbsence then .ok {} else settingsOf file (.error fault)
    | .ok bytes => settingsOf file (.ok bytes)

/-- Are colours wanted?  They are, unless a flag, the environment or the settings say no. -/
def wantsColours (world : World) (i : Invocation) (s : Settings) : Bool :=
  !i.noColour && (world.env "NO_COLOR").isNone && s.colour.getD true

/-! ### Carrying out -/

/-- The operand, or the standard input without the line breaks at its end. -/
def inputText (world : World) : List String → Except Failure String
  | text :: _ => .ok text
  | [] =>
    match textOf world.stdin with
    | .error fault => .error (.input fault)
    | .ok text => .ok (String.ofList (Text.dropEnd (fun c => c == '\n' || c == '\r') text.toList))

/-- The filter that a text spells, or the failure to read it. -/
def filterOf (limits : Limits) (text : String) : Except Failure Filter :=
  (parseFilter limits text).mapError (.parse text)

/-- The path that a text spells, or the failure to read it. -/
def pathOf (limits : Limits) (text : String) : Except Failure Path :=
  (parsePath limits text).mapError (.parse text)

/-- Carries out a command line: the line to write and the exit status. -/
def execute (world : World) (limits : Limits) (style : Style) (i : Invocation) :
    Except Failure (String × Nat) :=
  match i.subcommand with
  | .filter => do
    let f ← filterOf limits (← inputText world i.operands)
    return (style.filter f, 0)
  | .path => do
    let p ← pathOf limits (← inputText world i.operands)
    return (style.path p, 0)
  | .compare => do
    let left ← filterOf limits (i.operands[0]?.getD "")
    let right ← filterOf limits (i.operands[1]?.getD "")
    return (style.comparison left right, if left.same right then 0 else 1)
  | .completions => return (" ".intercalate (Subcommand.all.map Subcommand.name), 0)

/-- The outcome of a command line under some settings. -/
def outcome (world : World) (i : Invocation) (s : Settings) : Outcome :=
  let style : Style := ⟨i.json, i.tree, wantsColours world i s⟩
  match execute world s.limits style i with
  | .error failure => ⟨failure.status, "", failure.report style⟩
  | .ok (line, status) => ⟨status, if i.quiet then "" else line ++ "\n", ""⟩

/-- How the command is called. -/
def usage : String :=
  "Usage: scimf [-v | -q] [--json] [--no-color] [--config FILE] COMMAND\n\n" ++
    "  filter [-t] [FILTER]      parse a filter and print its canonical form\n" ++
    "  path [-t] [PATH]          parse an attribute path and print its canonical form\n" ++
    "  compare LEFT RIGHT        check whether two filters are equivalent\n" ++
    "  completions SHELL         list the commands for a shell to complete\n"

/-- The outcome of a command line that is not carried out. -/
def Halt.outcome : Halt → Outcome
  | .refused => ⟨2, "", usage⟩
  | .help => ⟨0, usage, ""⟩
  | .version none => ⟨0, "scimf 0.1.0\n", ""⟩
  | .version (some s) => ⟨0, "scimf-" ++ s.name ++ " 0.1.0\n", ""⟩

/-- The command line given, if it is to be carried out. -/
def World.invocation (world : World) : Except Halt Invocation :=
  Invocation.ofArguments (world.env "SCIMF_CONFIG") world.args

/-- What the command does.  Completions do not look at the configuration. -/
def run (world : World) : Outcome :=
  match world.invocation with
  | .error halt => halt.outcome
  | .ok i =>
    if i.subcommand = .completions then outcome world i {}
    else
      match loadSettings world i.config with
      | .error failure =>
        ⟨failure.status, "", failure.report ⟨i.json, i.tree, wantsColours world i {}⟩⟩
      | .ok settings => outcome world i settings

/-- The file that the command reads as its configuration, if it reads one. -/
def World.settingsFile? (world : World) : Option String :=
  match world.invocation with
  | .error _ => none
  | .ok i => if i.subcommand = .completions then none else i.config.or world.defaultFile?

/-- Does the command read the standard input? -/
def World.readsInput (world : World) : Bool :=
  match world.invocation with
  | .error _ => false
  | .ok i => i.subcommand.hasTree && i.operands.isEmpty

end ScimQuery.Command
