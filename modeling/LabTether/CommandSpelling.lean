import LabTether.CommandPolicy

/-!
The policy and the spelling of a command. Two texts with one argument vector can differ in
quotes and backslashes. The block lists are searched in the raw text, so they answer for the
spelling; on texts without quotes and backslashes they answer for the argument vector.
-/
namespace LabTether.Commands

open GoStrings Transaction List Lexer

variable {t : Text}

theorem fieldsFrom_eq_nil {word : Text} :
    fieldsFrom word t = [] ↔ word = [] ∧ ∀ c ∈ t, isSpace c = true := by
  induction t generalizing word with
  | nil => by_cases hword : word = [] <;> simp [fieldsFrom, hword]
  | cons c t ih =>
    by_cases hc : isSpace c = true
    · by_cases hword : word = [] <;> simp [fieldsFrom, hc, hword, ih]
    · simp [fieldsFrom, hc, ih]

theorem mem_fieldsFrom {word w : Text} (h : w ∈ fieldsFrom word t) : w ≠ [] := by
  fun_induction fieldsFrom word t
  case case1 => exact absurd h not_mem_nil
  case case2 hword => rwa [mem_singleton.1 h]
  case case4 hword ih =>
    rcases mem_cons.1 h with rfl | h
    · exact hword
    · exact ih h
  all_goals exact ‹_ → _› h

theorem dropWhile_spaces (h : ∀ c ∈ t.dropWhile isSpace, isSpace c = true) :
    ∀ c ∈ t, isSpace c = true := by
  rw [← takeWhile_append_dropWhile (p := isSpace) (l := t)]
  exact forall_mem_append.2 ⟨fun _ => mem_takeWhile_imp, h⟩

theorem trimSpaceList_spaces (h : ∀ c ∈ trimSpaceList t, isSpace c = true) :
    ∀ c ∈ t, isSpace c = true := by
  apply dropWhile_spaces
  intro c hc
  apply dropWhile_spaces (t := (t.dropWhile isSpace).reverse) ?_ c (mem_reverse.2 hc)
  intro d hd
  exact h d (mem_reverse.2 hd)

theorem intercalate_eq_nil {ws : List Text} (h : [' '].intercalate ws = []) : ∀ w ∈ ws, w = [] := by
  match ws with
  | [] => simp
  | [w] => simpa using h
  | w :: v :: ws => simp [intercalate_cons_cons] at h

section

variable {U : CaseTables} {env : Settings} {command : Text} {argv : List Text}

theorem step_start_space {c : Char} {s : Lexer} (hc : isSpace c = true)
    (h : start.step c = .ok s) : s = start := by
  have hne : c ≠ backslash ∧ c ≠ apostrophe ∧ c ≠ quotation := by
    refine ⟨?_, ?_, ?_⟩ <;> rintro rfl <;> revert hc <;> decide
  simp only [step, start, hne.1, hne.2.1, hne.2.2, hc, if_true, if_false,
    Bool.false_eq_true] at h
  split at h
  · cases h
  · cases h
    rfl

theorem parseArgv_spaces (h : ∀ c ∈ command, isSpace c = true) : parseArgv command ≠ .ok argv := by
  intro hok
  obtain ⟨s, hs, hfinish⟩ := bind_eq_ok.1 hok
  have hstart : s = start := by
    apply foldlM_invariant (fun s => s = start) ?_ rfl hs
    rintro _ c s' hc rfl hstep
    exact step_start_space (h c hc) hstep
  rw [hstart] at hfinish
  cases hfinish

theorem normalizeShellCommand_ne_nil (h : parseArgv command = .ok argv) :
    normalizeShellCommand U command ≠ [] := by
  intro hnil
  refine absurd h (parseArgv_spaces ?_)
  have hwords : fields (lower U (trimSpaceList command)) = [] := by
    apply eq_nil_iff_forall_not_mem.2
    intro w hw
    exact mem_fieldsFrom hw (intercalate_eq_nil hnil w hw)
  apply trimSpaceList_spaces
  intro c hc
  rw [← U.space_toLower]
  exact (fieldsFrom_eq_nil.1 hwords).2 _ (mem_map_of_mem hc)

/-- The block lists find something in the text of the command. -/
def Blocked (U : CaseTables) (env : Settings) (command : Text) : Prop :=
  blockedBySubstring U env (normalizeShellCommand U command) = true ∨
    blockedByToken U (normalizeShellCommand U command) = true

def Accepted (U : CaseTables) (env : Settings) (command : Text) : Prop :=
  validateShellCommand U env command = .ok ()

theorem accepted_iff (h : parseArgv command = .ok argv) :
    Accepted U env command ↔ ¬ Blocked U env command ∧ allowlisted U env argv = true := by
  unfold Accepted Blocked validateShellCommand
  simp only [normalizeShellCommand_ne_nil h, if_false, h]
  by_cases hsub : blockedBySubstring U env (normalizeShellCommand U command) = true
  · simp [hsub]
  · by_cases htoken : blockedByToken U (normalizeShellCommand U command) = true
    · simp [hsub, htoken]
    · by_cases hallow : allowlisted U env argv = true <;> simp [hsub, htoken, hallow]

end

variable {U : CaseTables} {env : Settings} {c d : Text} {argv : List Text}

def defaultSettings : Settings := fun _ => none

def bareShutdown : Text := "cat shutdown".toList

def quotedShutdown : Text := "cat \"shutdown\"".toList

theorem shutdown_parsed : parseArgv bareShutdown = .ok ["cat".toList, "shutdown".toList] ∧
    parseArgv quotedShutdown = .ok ["cat".toList, "shutdown".toList] := by
  decide +kernel

end LabTether.Commands
