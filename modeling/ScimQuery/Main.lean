import ScimQuery.Command.Run

/-!
# Main

The command `scimf`: it collects what `Command.run` is to be given and writes its outcome.
-/

open ScimQuery Command

/-- The number of an error of the system, whose negative may stand for it in 32 bits. -/
def systemNumber (code : UInt32) : Nat :=
  min code.toNat (0x100000000 - code.toNat)

/-- The fault behind an error with a number. -/
def readFaultOfNumber (number : Nat) (wording : String) : ReadFault :=
  match number with
  | 2 => .notFound
  | 20 => .notDirectory
  | 21 => .isDirectory
  | 36 => .nameTooLong
  | _ => .other (wording.capitalize ++ " (os error " ++ toString number ++ ")")

/-- The fault behind an error of the system. -/
def readFaultOf : IO.Error → ReadFault
  | .noFileOrDirectory _ code wording => readFaultOfNumber (systemNumber code) wording
  | .inappropriateType _ code wording => readFaultOfNumber (systemNumber code) wording
  | .invalidArgument _ code wording => readFaultOfNumber (systemNumber code) wording
  | .permissionDenied _ code wording => readFaultOfNumber (systemNumber code) wording
  | e => .other (toString e)

/-- The bytes of a file. -/
def readBytes (file : String) : IO (Except ReadFault ByteArray) := do
  try
    return .ok (← IO.FS.readBinFile file)
  catch e =>
    return .error (readFaultOf e)

/-- The bytes of a stream up to its end, after those in `bytes`. -/
partial def readAll (stream : IO.FS.Stream) (bytes : ByteArray) : IO ByteArray := do
  let more ← stream.read 65536
  if more.isEmpty then return bytes else readAll stream (bytes ++ more)

/-- The variables of the environment that the command looks at. -/
def watched : List String :=
  ["SCIMF_CONFIG", "XDG_CONFIG_HOME", "HOME", "NO_COLOR", "USER"]

/-- The home directory that the system keeps for an account. -/
def readAccountHome (name : String) : IO (Option String) := do
  match (← readBytes "/etc/passwd").bind textOf with
  | .ok accounts => return homeIn? accounts name
  | .error _ => return none

def main (args : List String) : IO UInt32 := do
  let values ← watched.mapM (fun name => do return (name, ← IO.getEnv name))
  let env (name : String) : Option String := (values.lookup name).join
  let accountHome ← readAccountHome ((env "USER").getD "root")
  let world : World := ⟨args, env, accountHome, fun _ => .error .notFound, .empty⟩
  let file ← match world.settingsFile? with
    | some name => readBytes name
    | none => pure (.error .notFound)
  let stdin ← if world.readsInput then readAll (← IO.getStdin) .empty else pure .empty
  let done := run { world with contents := fun _ => file, stdin }
  IO.print done.stdout
  IO.eprint done.stderr
  return done.status.toUInt32
