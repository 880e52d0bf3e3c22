import LabTether.GoStrings
import LabTether.Transaction

/-!
The small command language of structured operations (`internal/commandpolicy/command.go`):
splitting a command into its argument vector, matching allowlist rules, and quoting an
argument vector for a remote shell. A text is the list of its characters. The tables of the
Unicode standard are a parameter; only what they say about ASCII is fixed.
-/
namespace LabTether.Commands

open GoStrings

abbrev Text := List Char

instance : LawfulBEq Text := inferInstance

/-- The long s folds to an ASCII letter but is lower case itself. -/
def longS : Char := Char.ofNat 0x17F

def backslash : Char := Char.ofNat 0x5C

variable (c : Char)

def isSlash : Bool := c = '/' || c = backslash

/-- `unicode.ToLower` and the comparison of `strings.EqualFold`, with what the Unicode tables
say about white space, slashes and the characters that fold to ASCII. -/
structure CaseTables where
  toLower : Char → Char
  foldEq : Char → Char → Bool
  space_toLower : ∀ c, isSpace (toLower c) = isSpace c
  slash_toLower : ∀ c, isSlash (toLower c) = isSlash c
  toLower_ascii : ∀ c, c.toNat < 128 → toLower c = c.toLower
  toLower_longS : toLower longS = longS
  fold_ascii : ∀ c a, a.toNat < 128 → foldEq c a = true → toLower c = a.toLower ∨ c = longS

theorem isSlash_iff : isSlash c = true ↔ c.toNat = 47 ∨ c.toNat = 92 := by
  unfold isSlash backslash
  simp only [Bool.or_eq_true, decide_eq_true_eq]
  constructor
  · rintro (rfl | rfl) <;> decide
  · rintro (h | h)
    · exact .inl (Char.ext (UInt32.toNat_inj.1 h))
    · exact .inr (Char.ext (UInt32.toNat_inj.1 h))

theorem isSlash_toLowerChar : isSlash (toLowerChar c) = isSlash c := by
  rw [Bool.eq_iff_iff, isSlash_iff, isSlash_iff, toNat_toLowerChar]
  split
  · omega
  split
  · omega
  · split <;> omega

/-- The representative of a character's fold orbit, where the orbit meets ASCII. -/
def foldKey : Char :=
  if c = longS then 's' else if c.toNat = 0x212A then 'k' else c.toLower

theorem foldKey_ascii {a : Char} (ha : a.toNat < 128) : foldKey a = a.toLower := by
  have hlong : a ≠ longS := by
    rintro rfl
    revert ha
    decide
  have hkelvin : a.toNat ≠ 0x212A := by omega
  simp [foldKey, hlong, hkelvin]

theorem toLowerChar_of_foldKey {c a : Char} (ha : a.toNat < 128) (h : foldKey c = foldKey a) :
    toLowerChar c = a.toLower ∨ c = longS := by
  rw [foldKey_ascii ha] at h
  unfold foldKey at h
  split at h
  next hlong => exact .inr hlong
  next =>
    apply Or.inl
    unfold toLowerChar
    split at h
    next hkelvin => simpa [hkelvin] using h
    next hkelvin =>
      have hdotted : c.toNat ≠ 0x130 := by
        intro hc
        have hnat := congrArg Char.toNat h
        rw [toNat_toLower, toNat_toLower] at hnat
        split at hnat <;> split at hnat <;> omega
      simpa [hkelvin, hdotted] using h

/-- The part of the tables that concerns ASCII; other characters have no case. -/
def basicTables : CaseTables where
  toLower := toLowerChar
  foldEq c d := foldKey c = foldKey d
  space_toLower := isSpace_toLowerChar
  slash_toLower := isSlash_toLowerChar
  toLower_ascii := by
    intro c hc
    have hdotted : c.toNat ≠ 0x130 := by omega
    have hkelvin : c.toNat ≠ 0x212A := by omega
    simp [toLowerChar, hdotted, hkelvin]
  toLower_longS := by decide
  fold_ascii := by
    intro c a ha h
    exact toLowerChar_of_foldKey ha (by simpa using h)

def apostrophe : Char := Char.ofNat 0x27
def quotation : Char := Char.ofNat 0x22
def isControl (c : Char) : Bool := c.toNat < 0x20 || (0x7F ≤ c.toNat && c.toNat ≤ 0x9F)

/-- The characters refused inside quotes and behind a backslash. -/
def isLineBreak : Bool := c.toNat = 0x0A || c.toNat = 0x0D || c.toNat = 0

def isOperator : Bool := c ∈ ";&|<>$\x60()\x7b\x7d".toList

inductive ParseError
  | controlCharacter
  | operator
  | incompleteEscape
  | unterminatedQuote
  | required
deriving DecidableEq

def ParseError.message : ParseError → String
  | .controlCharacter => "control characters are not allowed in commands"
  | .operator => "shell operators and substitutions are not allowed"
  | .incompleteEscape => "command ends with an incomplete escape"
  | .unterminatedQuote => "command contains an unterminated quote"
  | .required => "command is required"

inductive Quote
  | none
  | single
  | double
deriving DecidableEq

structure Lexer where
  argv : List Text
  current : Text
  quote : Quote
  (escaped tokenStarted : Bool)

def Lexer.start : Lexer := ⟨[], [], .none, false, false⟩

def Lexer.flush (s : Lexer) : Lexer :=
  if s.tokenStarted then
    { s with argv := s.argv ++ [s.current], current := [], tokenStarted := false }
  else s

def Lexer.write (s : Lexer) (c : Char) : Lexer :=
  { s with current := s.current ++ [c], tokenStarted := true }

def Lexer.step (s : Lexer) (c : Char) : Except ParseError Lexer :=
  if s.escaped then
    if isLineBreak c then .error .controlCharacter
    else .ok { s.write c with escaped := false }
  else
    match s.quote with
    | .single =>
      if c = apostrophe then .ok { s with quote := .none, tokenStarted := true }
      else if isLineBreak c then .error .controlCharacter
      else .ok (s.write c)
    | .double =>
      if c = quotation then .ok { s with quote := .none, tokenStarted := true }
      else if c = backslash then .ok { s with escaped := true }
      else if isLineBreak c then .error .controlCharacter
      else .ok (s.write c)
    | .none =>
      if c = backslash then .ok { s with escaped := true, tokenStarted := true }
      else if c = apostrophe then .ok { s with quote := .single, tokenStarted := true }
      else if c = quotation then .ok { s with quote := .double, tokenStarted := true }
      else if isControl c ∧ c ≠ '\t' then .error .controlCharacter
      else if isSpace c then .ok s.flush
      else if isOperator c then .error .operator
      else .ok (s.write c)

def Lexer.finish (s : Lexer) : Except ParseError (List Text) :=
  if s.escaped then .error .incompleteEscape
  else if s.quote ≠ .none then .error .unterminatedQuote
  else
    match s.flush.argv with
    | [] => .error .required
    | first :: rest => if trimSpaceList first = [] then .error .required else .ok (first :: rest)

def parseArgv (raw : Text) : Except ParseError (List Text) := do
  let s ← raw.foldlM Lexer.step Lexer.start
  s.finish

section

variable (U : CaseTables)

def lower (t : Text) : Text := t.map U.toLower

def equalFold : Text → Text → Bool
  | [], [] => true
  | c :: cs, d :: ds => U.foldEq c d && equalFold cs ds
  | _, _ => false

def interpreters : List Text :=
  ["sh".toList, "bash".toList, "zsh".toList, "dash".toList, "ash".toList, "cmd".toList,
    "powershell".toList, "pwsh".toList, "osascript".toList]

def afterLast (p : Char → Bool) (t : Text) : Text := (t.reverse.takeWhile fun c => !p c).reverse

def trimSuffix (suffix t : Text) : Text :=
  if suffix <:+ t then t.take (t.length - suffix.length) else t

def isCommandInterpreter (program : Text) : Bool :=
  trimSuffix ".exe".toList (afterLast isSlash (lower U (trimSpaceList program))) ∈ interpreters

def matchesWords : List Text → List Text → Bool
  | _, [] => true
  | [], _ :: _ => false
  | arg :: argv, word :: rule => equalFold U arg word && matchesWords argv rule

/-- A rule with a leading `=` and one that starts with an interpreter have to match the
whole command. -/
def matchesRule (argv : List Text) (rule : Text) : Bool :=
  let trimmed := trimSpaceList rule
  let exact := trimmed.head? = some '='
  match parseArgv (if exact then trimmed.tail else trimmed) with
  | .error _ => false
  | .ok ruleArgv =>
    if argv.length < ruleArgv.length then false
    else if (exact || isCommandInterpreter U (ruleArgv.headD [])) &&
        argv.length ≠ ruleArgv.length then false
    else matchesWords U argv ruleArgv

end

/-- An embedded quote closes the quotation, stands in double quotes, and opens it again. -/
def quoteChar : Text :=
  if c = apostrophe then [apostrophe, quotation, apostrophe, quotation, apostrophe] else [c]

def quoteArg (arg : Text) : Text := apostrophe :: arg.flatMap quoteChar ++ [apostrophe]

def quoteArgv (argv : List Text) : Text := [' '].intercalate (argv.map quoteArg)

end LabTether.Commands
