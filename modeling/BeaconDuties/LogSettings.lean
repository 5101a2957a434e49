/-!
# LogSettings — how a process wants its log

The name it goes by, the level or the directives that choose what is logged, and where the log goes.

* `LogSettings.ofEnvironment` — the settings that environment variables ask for;
* `LogSettings.validate` — whether the level is one;
* `LogSettings.install` — installing them where a log is already being written.

Names of levels and flags are compared without regard to case. They are made of ASCII letters that
no character outside ASCII has as its lower-case form, so lowering ASCII letters is enough.
-/

namespace BeaconDuties

structure LogSettings where
  serviceName : String
  logLevel : String
  consoleOutput : Bool
  jsonLogs : Bool
  deriving DecidableEq, Repr

inductive LogSettingsError where
  | emptyLevel
  | unknownLevel (level : String)
  | alreadyInstalled
  deriving DecidableEq, Repr

def LogSettingsError.message : LogSettingsError → String
  | emptyLevel => "Invalid configuration: log level is empty"
  | unknownLevel level => "Invalid configuration: unknown log level: " ++ level
  | alreadyInstalled =>
    "Failed to initialize tracing subscriber: " ++
      "a global default trace dispatcher has already been set"

namespace LogSettings

/-! ## Levels -/

def levels : List String :=
  ["trace", "debug", "info", "warn", "error", "off"]

def isBlank (c : Char) : Bool :=
  (0x9 ≤ c.toNat && c.toNat ≤ 0xd) || c.toNat == 0x20 || c.toNat == 0x85 || c.toNat == 0xa0 ||
    c.toNat == 0x1680 || (0x2000 ≤ c.toNat && c.toNat ≤ 0x200a) || c.toNat == 0x2028 ||
    c.toNat == 0x2029 || c.toNat == 0x202f || c.toNat == 0x205f || c.toNat == 0x3000

def trimmed (chars : List Char) : List Char :=
  ((chars.dropWhile isBlank).reverse.dropWhile isBlank).reverse

/-- Characters with ASCII letters lowered. -/
def lowered (chars : List Char) : String :=
  String.ofList (chars.map Char.toLower)

/-- Whether a level is given and is either one of the known ones or a list of directives. -/
def validate (settings : LogSettings) : Except LogSettingsError Unit :=
  let level := trimmed settings.logLevel.toList
  -- What looks like a list of directives is taken as it is.
  if level.isEmpty then .error .emptyLevel
  else if level.contains '=' || level.contains ',' || levels.contains (lowered level) then .ok ()
  else .error (.unknownLevel (String.ofList level))

/-- Installs validated settings, which fails where a log is already being written. -/
def install (settings : LogSettings) : Except LogSettingsError Unit :=
  settings.validate.bind fun _ => .error .alreadyInstalled

/-! ## Environment -/

/-- Whether the variables of a container runtime are set. -/
def inContainer (env : String → Option String) : Bool :=
  (env "KUBERNETES_SERVICE_HOST").isSome || (env "DOCKER_CONTAINER").isSome

/-- The settings that environment variables ask for; a variable that is unset or is not text leaves
the default. -/
def ofEnvironment (env : String → Option String) : LogSettings where
  serviceName := (env "HELPERS_SERVICE_NAME").getD "consensus-helpers"
  logLevel := ((env "HELPERS_LOG_LEVEL").or (env "RUST_LOG")).getD "info"
  consoleOutput :=
    match env "HELPERS_CONSOLE_OUTPUT" with
    | some value => lowered value.toList ≠ "false" && value ≠ "0"
    | none => true
  jsonLogs :=
    match env "HELPERS_JSON_LOGS" with
    | some value => lowered value.toList = "true" || value = "1"
    | none => inContainer env

end LogSettings

end BeaconDuties
