import LabTether.CommandLine

/-!
Quoting an argument vector for a remote shell. The quoted text is read back by the parser of
the command language as the same vector, and by a POSIX shell as the same words, with every
character of every argument protected: in single quotes, or, for an apostrophe, in double
quotes. The shell's reader below follows the token recognition and quoting rules of POSIX as
far as word splitting, quoting and comments go; expansions are not carried out, the reader
tells for each character how it is protected from them.
-/
namespace LabTether.Commands

open GoStrings Transaction List

/-- How a character of a word stands in the shell text. -/
inductive Protection
  | bare
  | backslashed
  | single
  | double
deriving DecidableEq

abbrev Word := List (Char × Protection)

inductive Token
  | word (w : Word)
  | operator (c : Char)
deriving DecidableEq

inductive Mode
  | plain
  | escape
  | single
  | double
  | doubleEscape
  | comment
deriving DecidableEq

/-- The reader; `word` is the word being read, if one has begun. -/
structure Reader where
  tokens : List Token
  word : Option Word
  mode : Mode

open Reader

def Reader.start : Reader := ⟨[], none, .plain⟩

def Reader.delimit (r : Reader) : Reader :=
  { r with tokens := r.tokens ++ (r.word.map Token.word).toList, word := none }

def Reader.add (r : Reader) (c : Char) (p : Protection) : Reader :=
  { r with word := some (r.word.getD [] ++ [(c, p)]) }

/-- A quotation begins or ends; an empty one makes a word too. -/
def Reader.enter (r : Reader) (mode : Mode) : Reader :=
  { r with word := some (r.word.getD []), mode := mode }

variable (c : Char)

def isBlank : Bool := c = ' ' || c = '\t'

def isNewline : Bool := c.toNat = 0x0A

def isShellOperator : Bool := c ∈ "|&;<>()".toList || isNewline c

/-- The characters that a backslash protects inside double quotes. -/
def isDoubleSpecial : Bool := c ∈ "$\x60\"\\".toList

def Reader.step (r : Reader) (c : Char) : Reader :=
  match r.mode with
  | .plain =>
    if c = backslash then { r with mode := .escape }
    else if c = apostrophe then r.enter .single
    else if c = quotation then r.enter .double
    else if isBlank c then r.delimit
    else if isShellOperator c then
      { r.delimit with tokens := r.delimit.tokens ++ [.operator c] }
    else if c = '#' ∧ r.word = none then { r with mode := .comment }
    else r.add c .bare
  | .escape =>
    -- a backslash before a newline joins two lines
    if isNewline c then { r with mode := .plain }
    else { r.add c .backslashed with mode := .plain }
  | .single => if c = apostrophe then r.enter .plain else r.add c .single
  | .double =>
    if c = quotation then r.enter .plain
    else if c = backslash then { r with mode := .doubleEscape }
    else r.add c .double
  | .doubleEscape =>
    if isNewline c then { r with mode := .double }
    else if isDoubleSpecial c then { r.add c .backslashed with mode := .double }
    else { (r.add backslash .double).add c .double with mode := .double }
  | .comment =>
    if isNewline c then { r with tokens := r.tokens ++ [.operator c], mode := .plain } else r

/-- The tokens of a shell text; `none` when a quotation is left open. -/
def posixTokens (t : Text) : Option (List Token) :=
  let r := t.foldl step start
  if r.mode = .plain ∨ r.mode = .comment then some r.delimit.tokens else none

/-- No operator, expansion or word break is made of the character. -/
def Inert : Protection → Prop
  | .bare => False
  | .backslashed => True
  | .single => True
  | .double => isDoubleSpecial c = false

def protection : Protection := if c = apostrophe then .double else .single

def protectedWord (arg : Text) : Word := arg.map fun c => (c, protection c)

theorem read_quoteChar (tokens : List Token) (w : Word) :
    (quoteChar c).foldl step ⟨tokens, some w, .single⟩ =
      ⟨tokens, some (w ++ [(c, protection c)]), .single⟩ := by
  by_cases hc : c = apostrophe
  · subst hc
    rfl
  · simp [quoteChar, hc, step, add, protection]

theorem read_quoteChars (arg : Text) (tokens : List Token) (w : Word) :
    (arg.flatMap quoteChar).foldl step ⟨tokens, some w, .single⟩ =
      ⟨tokens, some (w ++ protectedWord arg), .single⟩ := by
  induction arg generalizing w with
  | nil => simp [protectedWord]
  | cons c arg ih =>
    rw [flatMap_cons, foldl_append, read_quoteChar, ih]
    simp [protectedWord]

theorem read_quoteArg (arg : Text) (tokens : List Token) :
    (quoteArg arg).foldl step ⟨tokens, none, .plain⟩ =
      ⟨tokens, some (protectedWord arg), .plain⟩ := by
  unfold quoteArg
  rw [cons_append, foldl_cons, foldl_append]
  have hopen : step ⟨tokens, none, .plain⟩ apostrophe = ⟨tokens, some [], .single⟩ := rfl
  rw [hopen, read_quoteChars]
  rfl

theorem read_quoteArgv (argv : List Text) (tokens : List Token) :
    ((quoteArgv argv).foldl step ⟨tokens, none, .plain⟩).mode = .plain ∧
      ((quoteArgv argv).foldl step ⟨tokens, none, .plain⟩).delimit.tokens =
        tokens ++ argv.map fun arg => .word (protectedWord arg) := by
  induction argv generalizing tokens with
  | nil => exact ⟨rfl, by simp [quoteArgv, delimit]⟩
  | cons arg argv ih =>
    match argv with
    | [] =>
      have hone : quoteArgv [arg] = quoteArg arg := by simp [quoteArgv]
      rw [hone, read_quoteArg]
      exact ⟨rfl, rfl⟩
    | next :: argv =>
      have hcons : quoteArgv (arg :: next :: argv) =
          quoteArg arg ++ ' ' :: quoteArgv (next :: argv) := by
        simp [quoteArgv, intercalate_cons_cons]
      have hblank : step ⟨tokens, some (protectedWord arg), .plain⟩ ' ' =
          ⟨tokens ++ [.word (protectedWord arg)], none, .plain⟩ := rfl
      rw [hcons, foldl_append, foldl_cons, read_quoteArg, hblank]
      obtain ⟨hmode, htokens⟩ := ih (tokens ++ [.word (protectedWord arg)])
      refine ⟨hmode, ?_⟩
      rw [htokens]
      simp

theorem posixTokens_quoteArgv (argv : List Text) :
    posixTokens (quoteArgv argv) = some (argv.map fun arg => .word (protectedWord arg)) := by
  obtain ⟨hmode, htokens⟩ := read_quoteArgv argv []
  have hclosed : ((quoteArgv argv).foldl step start).mode = .plain := hmode
  unfold posixTokens
  simp only [hclosed, true_or, if_true]
  exact congrArg some htokens

theorem protection_inert : Inert c (protection c) := by
  unfold protection
  split
  next hc =>
    rw [hc]
    show isDoubleSpecial apostrophe = false
    decide
  next => trivial

theorem lex_quoteChar {c : Char} (hc : isLineBreak c = false) (argv : List Text) (current : Text) :
    (quoteChar c).foldlM Lexer.step ⟨argv, current, .single, false, true⟩ =
      .ok ⟨argv, current ++ [c], .single, false, true⟩ := by
  by_cases happ : c = apostrophe
  · subst happ
    rfl
  · simp [quoteChar, happ, Lexer.step, hc, Lexer.write]

theorem lex_quoteChars {arg : Text} (harg : ∀ c ∈ arg, isLineBreak c = false) (argv : List Text)
    (current : Text) :
    (arg.flatMap quoteChar).foldlM Lexer.step ⟨argv, current, .single, false, true⟩ =
      .ok ⟨argv, current ++ arg, .single, false, true⟩ := by
  induction arg generalizing current with
  | nil =>
    rw [append_nil]
    rfl
  | cons c arg ih =>
    rw [flatMap_cons, foldlM_append, lex_quoteChar (harg c (.head _)),
      ok_bind, ih fun d hd => harg d (.tail _ hd)]
    simp

theorem lex_quoteArg {arg : Text} (harg : ∀ c ∈ arg, isLineBreak c = false) (argv : List Text) :
    (quoteArg arg).foldlM Lexer.step ⟨argv, [], .none, false, false⟩ =
      .ok ⟨argv, arg, .none, false, true⟩ := by
  have hopen : Lexer.step ⟨argv, [], .none, false, false⟩ apostrophe =
      .ok ⟨argv, [], .single, false, true⟩ := rfl
  have hclose : Lexer.step ⟨argv, [] ++ arg, .single, false, true⟩ apostrophe =
      .ok ⟨argv, arg, .none, false, true⟩ := rfl
  unfold quoteArg
  rw [cons_append, foldlM_cons, hopen, ok_bind, foldlM_append,
    lex_quoteChars harg, ok_bind, foldlM_cons, hclose, ok_bind, foldlM_nil]
  rfl

theorem lex_quoteArgv {args : List Text} (hargs : ∀ arg ∈ args, ∀ c ∈ arg, isLineBreak c = false)
    (argv : List Text) :
    ∃ s, (quoteArgv args).foldlM Lexer.step ⟨argv, [], .none, false, false⟩ = .ok s ∧
      s.escaped = false ∧ s.quote = .none ∧ s.flush.argv = argv ++ args := by
  induction args generalizing argv with
  | nil => exact ⟨_, rfl, rfl, rfl, by simp [Lexer.flush]⟩
  | cons arg args ih =>
    have harg := hargs arg (.head _)
    match args with
    | [] =>
      have hone : quoteArgv [arg] = quoteArg arg := by simp [quoteArgv]
      rw [hone, lex_quoteArg harg]
      exact ⟨_, rfl, rfl, rfl, rfl⟩
    | next :: args =>
      have hcons : quoteArgv (arg :: next :: args) =
          quoteArg arg ++ ' ' :: quoteArgv (next :: args) := by
        simp [quoteArgv, intercalate_cons_cons]
      have hblank : Lexer.step ⟨argv, arg, .none, false, true⟩ ' ' =
          .ok ⟨argv ++ [arg], [], .none, false, false⟩ := rfl
      obtain ⟨s, hs, hescaped, hquote, hflush⟩ :=
        ih (fun a ha => hargs a (.tail _ ha)) (argv ++ [arg])
      refine ⟨s, ?_, hescaped, hquote, ?_⟩
      · rw [hcons, foldlM_append, lex_quoteArg harg, ok_bind, foldlM_cons, hblank, ok_bind, hs]
      · rw [hflush]
        simp

theorem parseArgv_quoteArgv {argv : List Text}
    (hchars : ∀ arg ∈ argv, ∀ c ∈ arg, isLineBreak c = false)
    (hfirst : trimSpaceList (argv.headD []) ≠ []) : parseArgv (quoteArgv argv) = .ok argv := by
  obtain ⟨s, hs, hescaped, hquote, hflush⟩ := lex_quoteArgv hchars []
  have hs : (quoteArgv argv).foldlM Lexer.step Lexer.start = .ok s := hs
  unfold parseArgv
  rw [hs, ok_bind]
  unfold Lexer.finish
  simp only [hescaped, hquote, hflush, nil_append, ne_eq, not_true_eq_false, if_false,
    Bool.false_eq_true]
  match argv with
  | [] => exact absurd rfl hfirst
  | first :: rest =>
    have hfirst : trimSpaceList first ≠ [] := hfirst
    simp [hfirst]

/-- Quoting is a right inverse of parsing, and a POSIX shell reads the quoted text as the
words of the vector, with every character inert: in single quotes, or, an apostrophe, in
double quotes. -/
theorem quoting_round_trip {argv : List Text}
    (hchars : ∀ arg ∈ argv, ∀ c ∈ arg, isLineBreak c = false)
    (hfirst : trimSpaceList (argv.headD []) ≠ []) : parseArgv (quoteArgv argv) = .ok argv ∧
      ∃ words : List Word, posixTokens (quoteArgv argv) = some (words.map .word) ∧
        words.map (fun w => w.map Prod.fst) = argv ∧
        ∀ w ∈ words, ∀ x ∈ w, Inert x.1 x.2 ∧
          (x.2 = .single ∨ x.1 = apostrophe ∧ x.2 = .double) := by
  refine ⟨parseArgv_quoteArgv hchars hfirst, argv.map protectedWord, ?_, ?_, ?_⟩
  · rw [posixTokens_quoteArgv, map_map]
    rfl
  · rw [map_map]
    apply (map_congr_left ?_).trans (map_id argv)
    intro arg _
    simp [protectedWord, Function.comp_def]
  · intro w hw x hx
    obtain ⟨arg, -, rfl⟩ := mem_map.1 hw
    obtain ⟨c, -, rfl⟩ := mem_map.1 hx
    refine ⟨protection_inert c, ?_⟩
    unfold protection
    split
    next hc => exact .inr ⟨hc, rfl⟩
    next => exact .inl rfl

def apostropheArgv : List Text := ["echo".toList, "it's".toList]

theorem quoting_round_trip_apostrophe : parseArgv (quoteArgv apostropheArgv) = .ok apostropheArgv ∧
      ∃ words : List Word, posixTokens (quoteArgv apostropheArgv) = some (words.map .word) ∧
        words.map (fun w => w.map Prod.fst) = apostropheArgv ∧
        ∀ w ∈ words, ∀ x ∈ w, Inert x.1 x.2 ∧
          (x.2 = .single ∨ x.1 = apostrophe ∧ x.2 = .double) := by
  have hall : (apostropheArgv.all fun arg => arg.all fun c => !isLineBreak c) = true := by decide
  refine quoting_round_trip (fun arg harg c hc => ?_) (by decide)
  simpa using all_eq_true.1 (all_eq_true.1 hall arg harg) c hc

/-- Its apostrophe stands in double quotes: neither in single quotes nor behind a
backslash. -/
theorem apostrophe_in_double_quotes : posixTokens (quoteArgv apostropheArgv) = some [
        .word [('e', .single), ('c', .single), ('h', .single), ('o', .single)],
        .word [('i', .single), ('t', .single), (apostrophe, .double), ('s', .single)]] ∧
      ¬ ((apostrophe, Protection.double).2 = .single ∨
        (apostrophe, Protection.double).2 = .backslashed) := by
  decide

end LabTether.Commands
