import ScimQuery.Error
import ScimQuery.Toml.Reader

/-!
# Settings

What a configuration file says: the version of its layout, the limits of the reader and whether
output is coloured.  Every key may be missing, and keys that are not known do not count.  A
table may also be written as a list of its values in order; a date in its place is a table of
unknown keys.
-/

namespace ScimQuery

/-- The settings of the command. -/
structure Settings where
  /-- The version of the layout of the file. -/
  version : Nat := 1
  /-- The limits of the reader. -/
  limits : Limits := {}
  /-- Whether output is coloured, if the file says so. -/
  colour : Option Bool := none
  deriving Repr, DecidableEq

/-- Why a configuration is refused. -/
inductive SettingsFault where
  /-- The text is no TOML document, or a key has a value that it may not have. -/
  | malformed
  /-- The layout is newer than any that is known. -/
  | newer (version : Nat)
  deriving Repr, DecidableEq

/-- The newest layout that is known. -/
def Settings.currentVersion : Nat := 1

/-- The wording of a refusal. -/
def SettingsFault.message : SettingsFault → String
  | .malformed => "Failed to parse config: malformed settings"
  | .newer version =>
    s!"Config version {version} is newer than supported version {Settings.currentVersion}"

namespace Settings

/-- A number that is not negative. -/
def ofNat? : Toml → Option Nat
  | .integer n => if 0 ≤ n then some n.toNat else none
  | _ => none

/-- A truth value. -/
def ofBool? : Toml → Option Bool
  | .boolean b => some b
  | _ => none

/-- The value of a key, or `default` if it is missing. -/
def field {α : Type} (decode : Toml → Option α) (default : α) (value : Option Toml) : Option α :=
  match value with
  | none => some default
  | some v => decode v

/-- The version of the layout. -/
def ofVersion? (v : Toml) : Option Nat := do
  let n ← ofNat? v
  if n < 0x100000000 then some n else none

/-- The limits, from the values of their keys. -/
def limitsOf? (maxLength maxDepth : Option Toml) : Option Limits := do
  let default : Limits := {}
  return ⟨← field (fun v => (ofNat? v).map some) default.maxLength maxLength,
    ← field ofNat? default.maxDepth maxDepth⟩

/-- The limits. -/
def ofLimits? : Toml → Option Limits
  | .table _ entries => limitsOf? (entries.lookup "max_length") (entries.lookup "max_depth")
  | .array items => limitsOf? items[0]? items[1]?
  | .date => some {}
  | _ => none

/-- Whether output is coloured. -/
def ofOutput? : Toml → Option (Option Bool)
  | .table _ entries => field (fun v => (ofBool? v).map some) none (entries.lookup "color")
  | .array (v :: _) => (ofBool? v).map some
  | .date => some none
  | _ => none

/-- The settings of a document. -/
def ofEntries? (entries : Toml.Entries) : Option Settings := do
  let default : Settings := {}
  return ⟨← field ofVersion? default.version (entries.lookup "version"),
    ← field ofLimits? default.limits (entries.lookup "parser"),
    ← field ofOutput? default.colour (entries.lookup "output")⟩

/-- The settings that a text spells, brought to the newest layout. -/
def ofText (text : String) : Except SettingsFault Settings :=
  match (Toml.read text.toList).bind ofEntries? with
  | none => .error .malformed
  | some settings =>
    if currentVersion < settings.version then .error (.newer settings.version)
    else .ok { settings with version := currentVersion }

/-- The settings as a configuration file. -/
def text (s : Settings) : String :=
  let maxLength := match s.limits.maxLength with
    | some n => s!"max_length = {n}\n"
    | none => ""
  let colour := match s.colour with
    | some b => s!"color = {b}\n"
    | none => ""
  s!"version = {s.version}\n\n[parser]\n" ++ maxLength ++
    s!"max_depth = {s.limits.maxDepth}\n\n[output]\n" ++ colour

end Settings

end ScimQuery
