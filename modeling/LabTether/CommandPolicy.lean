import LabTether.CommandLine

/-!
The runtime policy for structured commands (`internal/securityruntime/command.go`). The
block lists are searched in the raw text of a command, the allowlist is matched against its
argument vector, and the two see different things when an argument is quoted.
-/
namespace LabTether.Commands

open GoStrings

inductive ShellKey
  | allowlistMode
  | allowlistPrefixes
  | blockedSubstrings
deriving DecidableEq

/-- What `lookupEnv` finds: a runtime override, or the environment. -/
abbrev Settings := ShellKey → Option Text

def NoShellOverride (env : Settings) : Prop := ∀ key, env key = none

def parseBool (raw : Text) : Option Bool :=
  if raw ∈ ["1", "t", "T", "TRUE", "true", "True"].map String.toList then some true
  else if raw ∈ ["0", "f", "F", "FALSE", "false", "False"].map String.toList then some false
  else none

def parseBoolEnv (env : Settings) (key : ShellKey) (fallback : Bool) : Bool :=
  (parseBool (trimSpaceList ((env key).getD []))).getD fallback

def parseCSVEnv (env : Settings) (key : ShellKey) (fallback : List Text) : List Text :=
  let raw := trimSpaceList ((env key).getD [])
  let out := ((raw.splitOn ',').map trimSpaceList).filter fun part => part ≠ []
  if raw = [] ∨ out = [] then fallback else out

def defaultShellAllowlistPrefixes : List Text :=
  ["uptime", "uname", "df", "du", "free", "ps", "top", "journalctl", "systemctl status",
    "docker ps", "docker images", "ls", "cat", "grep", "tail", "head"].map String.toList

def defaultShellBlockedSubstrings : List Text :=
  ["rm -rf /", ":()\x7b :|:& \x7d;:", "mkfs", "systemctl poweroff", "systemctl reboot",
    "systemctl halt"].map String.toList

def defaultShellBlockedTokens : List Text :=
  ["shutdown", "reboot", "halt", "poweroff", "init"].map String.toList

section

variable (U : CaseTables)

/-- `strings.Fields`; the second argument is the word being read. -/
def fieldsFrom : Text → Text → List Text
  | word, [] => if word = [] then [] else [word]
  | word, c :: cs =>
    if isSpace c then (if word = [] then fieldsFrom [] cs else word :: fieldsFrom [] cs)
    else fieldsFrom (word ++ [c]) cs

def fields (t : Text) : List Text := fieldsFrom [] t

def normalizeShellCommand (raw : Text) : Text :=
  [' '].intercalate (fields (lower U (trimSpaceList raw)))

inductive CommandError
  | required
  | parse (e : ParseError)
  | blocked
  | notAllowlisted
  | interpreter
deriving DecidableEq

def CommandError.message : CommandError → String
  | .required => "command is required"
  | .parse e => e.message
  | .blocked => "command blocked by safety policy"
  | .notAllowlisted => "command not in allowlist"
  | .interpreter => "shell interpreters are not allowed in structured commands"

variable (env : Settings)

/-- A blocked pattern that is blank blocks nothing. -/
def blockedBySubstring (normalized : Text) : Bool :=
  (parseCSVEnv env .blockedSubstrings defaultShellBlockedSubstrings).any fun blocked =>
    normalizeShellCommand U blocked ≠ [] && normalizeShellCommand U blocked <:+: normalized

def blockedByToken (normalized : Text) : Bool :=
  defaultShellBlockedTokens.any fun token =>
    lower U (trimSpaceList token) ≠ [] && lower U (trimSpaceList token) ∈ fields normalized

def allowlisted (argv : List Text) : Bool :=
  !parseBoolEnv env .allowlistMode true ||
    (parseCSVEnv env .allowlistPrefixes defaultShellAllowlistPrefixes).any (matchesRule U argv)

def validateShellCommand (command : Text) : Except CommandError Unit :=
  let normalized := normalizeShellCommand U command
  if normalized = [] then .error .required
  else
    match parseArgv command with
    | .error e => .error (.parse e)
    | .ok argv =>
      if blockedBySubstring U env normalized then .error .blocked
      else if blockedByToken U normalized then .error .blocked
      else if allowlisted U env argv then .ok ()
      else .error .notAllowlisted

/-- `filepath.Base` on Unix. -/
def filepathBase (path : Text) : Text :=
  if path = [] then ['.']
  else
    let name := afterLast (fun c => c = '/') (path.rdropWhile fun c => c = '/')
    if name = [] then ['/'] else name

def normalizeExecutableName (name : Text) : Text :=
  let trimmed := trimSpaceList name
  if trimmed = [] then []
  else lower U (trimSpaceList
    (filepathBase (trimmed.map fun c => if c = backslash then '/' else c)))

def parseValidatedShellCommand (command : Text) :
    Except CommandError (List Text) :=
  match validateShellCommand U env command with
  | .error e => .error e
  | .ok () =>
    match parseArgv command with
    | .error e => .error (.parse e)
    | .ok argv =>
      if normalizeExecutableName U (argv.headD []) ∈ interpreters then .error .interpreter
      else .ok argv

end

end LabTether.Commands
