/-!
# Command — Arguments

Command lines of `scimf`.  Flags may stand before the subcommand and after it, and each is
accepted once in either place; what stands after the subcommand wins.  Help and the version are
given as soon as they are asked for, and a refusal is final at the argument that causes it;
only operands that are missing, flags that exclude each other and the file named by the
environment are looked at where the command line ends.

A configuration file that is named by an argument of its own is held back: it is settled when
the next flag or operand on its side of the subcommand is taken in, or else when that side is
closed.  The side before the subcommand is closed after the side that follows it, so that help
and the version are given even if the file held back there is one that is refused.
-/

namespace ScimQuery.Command

/-- A subcommand. -/
inductive Subcommand where
  | filter
  | path
  | compare
  | completions
  deriving Repr, DecidableEq

namespace Subcommand

/-- The subcommands. -/
def all : List Subcommand :=
  [.filter, .path, .compare, .completions]

/-- The full name of a subcommand. -/
def name : Subcommand → String
  | .filter => "filter"
  | .path => "path"
  | .compare => "compare"
  | .completions => "completions"

/-- The names by which a subcommand is called. -/
def names : Subcommand → List String
  | .filter => ["filter", "f"]
  | .path => ["path", "p"]
  | .compare => ["compare"]
  | .completions => ["completions"]

/-- The subcommand of a name. -/
def ofName? (word : String) : Option Subcommand :=
  all.find? (fun s => s.names.contains word)

/-- Does the subcommand show trees? -/
def hasTree : Subcommand → Bool
  | .filter => true
  | .path => true
  | _ => false

/-- The least and the largest number of operands. -/
def arity : Subcommand → Nat × Nat
  | .filter => (0, 1)
  | .path => (0, 1)
  | .compare => (2, 2)
  | .completions => (1, 1)

/-- The shells for which there are completions. -/
def shells : List String :=
  ["bash", "zsh", "fish", "powershell"]

/-- May `operand` be an operand of the subcommand? -/
def accepts : Subcommand → String → Bool
  | .completions, operand => shells.contains operand
  | _, _ => true

end Subcommand

/-- What has been given on one side of the subcommand. -/
structure Given where
  verbose : Bool := false
  quiet : Bool := false
  json : Bool := false
  noColour : Bool := false
  tree : Bool := false
  /-- The configuration file. -/
  config : Option String := none
  /-- The configuration file that is held back. -/
  pending : Option String := none
  /-- The operands, the latest first. -/
  operands : List String := []
  deriving Repr, DecidableEq

/-- A command line that is to be carried out. -/
structure Invocation where
  subcommand : Subcommand
  verbose : Bool := false
  quiet : Bool := false
  json : Bool := false
  noColour : Bool := false
  tree : Bool := false
  /-- The configuration file named on the command line or in the environment. -/
  config : Option String := none
  operands : List String := []
  deriving Repr, DecidableEq

/-- Why a command line is not carried out. -/
inductive Halt where
  /-- It is refused. -/
  | refused
  /-- It asks for help. -/
  | help
  /-- It asks for the version, of the subcommand if one is named. -/
  | version (subcommand : Option Subcommand)
  deriving Repr, DecidableEq

/-- Sets a flag that has not been set. -/
def Given.flag (seen : Bool) (given : Given) : Except Halt Given :=
  if seen then .error .refused else .ok given

/-- Takes in a flag by its long name; `side` is the subcommand it follows. -/
def Given.longFlag (side : Option Subcommand) (given : Given) (name : String) :
    Except Halt Given :=
  match name with
  | "verbose" => Given.flag given.verbose { given with verbose := true }
  | "quiet" => Given.flag given.quiet { given with quiet := true }
  | "json" => Given.flag given.json { given with json := true }
  | "no-color" => Given.flag given.noColour { given with noColour := true }
  | "help" => .error .help
  | "version" => .error (.version side)
  | "tree" =>
    if side.any Subcommand.hasTree then Given.flag given.tree { given with tree := true }
    else .error .refused
  | _ => .error .refused

/-- The long name of a flag with a letter. -/
def shortName? : Char → Option String
  | 'v' => some "verbose"
  | 'q' => some "quiet"
  | 't' => some "tree"
  | 'h' => some "help"
  | 'V' => some "version"
  | _ => none

/-- Takes in the letters of a group of flags. -/
def Given.shortFlags (side : Option Subcommand) : Given → List Char → Except Halt Given
  | given, [] => .ok given
  | given, c :: cs => do
    match shortName? c with
    | none => .error .refused
    | some name => shortFlags side (← given.longFlag side name) cs

/-- Takes in the name of the configuration file, which is not empty and is given once. -/
def Given.setConfig (given : Given) (file : String) : Except Halt Given :=
  if file.isEmpty ∨ given.config.isSome then .error .refused
  else .ok { given with config := some file }

/-- Takes in the configuration file that is held back, if there is one. -/
def Given.settle (given : Given) : Except Halt Given :=
  match given.pending with
  | none => .ok given
  | some file => { given with pending := none }.setConfig file

/-- Takes in an operand of a subcommand. -/
def Given.operand (s : Subcommand) (given : Given) (word : String) : Except Halt Given := do
  let given ← given.settle
  if given.operands.length < s.arity.2 ∧ s.accepts word then
    return { given with operands := word :: given.operands }
  else .error .refused

/-- Is the argument a flag, rather than an operand or the value of one? -/
def isFlag (arg : String) : Bool :=
  match arg.toList with
  | '-' :: _ :: _ => true
  | _ => false

/-- Takes in one flag; `next` is the argument after it.  Gives whether that was its value. -/
def Given.readFlag (side : Option Subcommand) (given : Given) (arg : String)
    (next : Option String) : Except Halt (Given × Bool) := do
  let given ← given.settle
  match arg.toList with
  | '-' :: '-' :: body =>
    let name := String.ofList (body.takeWhile (· != '='))
    let attached := body.dropWhile (· != '=')
    if name = "config" then
      match attached, next with
      | _ :: value, _ => return (← given.setConfig (String.ofList value), false)
      | [], some value =>
        if isFlag value then .error .refused else return ({ given with pending := value }, true)
      | [], none => .error .refused
    else if attached.isEmpty then return (← given.longFlag side name, false)
    else .error .refused
  | _ :: letters => return (← given.shortFlags side letters, false)
  | [] => .error .refused

/-- Takes in the arguments after a subcommand. -/
def Given.readOperands (s : Subcommand) (given : Given) (args : List String) :
    Except Halt Given :=
  match args with
  | [] => .ok given
  | arg :: rest =>
    if arg = "--" then rest.foldlM (Given.operand s) given
    else if isFlag arg then
      match given.readFlag (some s) arg rest.head? with
      | .error halt => .error halt
      | .ok (given', true) => given'.readOperands s rest.tail
      | .ok (given', false) => given'.readOperands s rest
    else
      match given.operand s arg with
      | .error halt => .error halt
      | .ok given' => given'.readOperands s rest
termination_by args.length

/-- Checks what is left to the end of the command line on one side of the subcommand: the file
held back, flags that exclude each other, and a file that only the environment names. -/
def Given.close (fromEnv : Option String) (given : Given) : Except Halt Given := do
  let given ← given.settle
  if given.quiet ∧ given.verbose then .error .refused
  else if given.config.isNone ∧ fromEnv = some "" then .error .refused
  else return given

/-- The help for the subcommands named. -/
def helpFor : List String → Halt
  | [] => .help
  | [name] => if name = "help" ∨ (Subcommand.ofName? name).isSome then .help else .refused
  | _ => .refused

/-- The command line of two sides.  The side after the subcommand wins, and a file named on
either side wins over one named in the environment. -/
def Invocation.ofSides (s : Subcommand) (fromEnv : Option String) (before after : Given) :
    Invocation where
  subcommand := s
  verbose := before.verbose || after.verbose
  quiet := before.quiet || after.quiet
  json := before.json || after.json
  noColour := before.noColour || after.noColour
  tree := after.tree
  config := after.config.or (before.config.or fromEnv)
  operands := after.operands.reverse

/-- Takes in the arguments from the start or after a flag. -/
def readArguments (fromEnv : Option String) (given : Given) (args : List String) :
    Except Halt Invocation :=
  match args with
  | [] => .error .refused
  | arg :: rest =>
    if arg = "--" then .error .refused
    else if isFlag arg then
      match given.readFlag none arg rest.head? with
      | .error halt => .error halt
      | .ok (given', true) => readArguments fromEnv given' rest.tail
      | .ok (given', false) => readArguments fromEnv given' rest
    else if arg = "help" then .error (helpFor rest)
    else
      match Subcommand.ofName? arg with
      | none => .error .refused
      | some s => do
        let after ← (← Given.readOperands s {} rest).close fromEnv
        let before ← given.close fromEnv
        if after.operands.length < s.arity.1 then .error .refused
        else return Invocation.ofSides s fromEnv before after
termination_by args.length

/-- The command line of some arguments; `fromEnv` is the configuration file that the
environment names. -/
def Invocation.ofArguments (fromEnv : Option String) (args : List String) :
    Except Halt Invocation :=
  readArguments fromEnv {} args

end ScimQuery.Command
