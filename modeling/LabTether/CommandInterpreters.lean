import LabTether.CommandPolicy

/-!
Interpreters on the validated-command path. The runtime policy compares a program's base
name with a list of interpreters; the rule matcher has the same list but also drops a
Windows `.exe`. With the default allowlist no interpreter gets through. With other settings
those spelled with `.exe` can.
-/
namespace LabTether.Commands

open GoStrings List

variable {U : CaseTables} {env : Settings} {command : Text} {argv : List Text}

theorem parseValidatedShellCommand_ok (h : parseValidatedShellCommand U env command = .ok argv) :
    allowlisted U env argv = true := by
  revert h
  fun_cases parseValidatedShellCommand U env command
  all_goals rintro ⟨⟩
  case case4 hvalid hparse _ =>
    revert hvalid
    fun_cases validateShellCommand U env command
    all_goals rintro ⟨⟩
    case case5 hparsed _ _ hallow =>
      cases hparse.symm.trans hparsed
      exact hallow

def defaultPrograms : List Text :=
  ["uptime", "uname", "df", "du", "free", "ps", "top", "journalctl", "systemctl", "docker", "ls",
    "cat", "grep", "tail", "head"].map String.toList

theorem defaultShellAllowlistPrefixes_program :
    ∀ rule ∈ defaultShellAllowlistPrefixes, (trimSpaceList rule).head? ≠ some '=' ∧
      ∃ w ∈ defaultPrograms, ∃ rest ∈ [[], ["status".toList], ["ps".toList], ["images".toList]],
        parseArgv (trimSpaceList rule) = .ok (w :: rest) := by
  decide +kernel

theorem matchesRule_words {argv ruleArgv : List Text} {rule : Text}
    (hexact : (trimSpaceList rule).head? ≠ some '=')
    (hparse : parseArgv (trimSpaceList rule) = .ok ruleArgv) (h : matchesRule U argv rule = true) :
    matchesWords U argv ruleArgv = true := by
  unfold matchesRule at h
  simp only [hexact, decide_false, if_false, hparse] at h
  split at h
  · cases h
  split at h
  · cases h
  · exact h

theorem NoShellOverride.allowlistMode (h : NoShellOverride env) :
    parseBoolEnv env .allowlistMode true = true := by
  simp only [parseBoolEnv, h .allowlistMode]
  decide

theorem NoShellOverride.allowlistPrefixes (h : NoShellOverride env) (fallback : List Text) :
    parseCSVEnv env .allowlistPrefixes fallback = fallback := by
  simp only [parseCSVEnv, h .allowlistPrefixes]
  rfl

theorem allowlisted_default {argv : List Text} (h : NoShellOverride env)
    (hallow : allowlisted U env argv = true) :
    ∃ w ∈ defaultPrograms, equalFold U (argv.headD []) w = true := by
  unfold allowlisted at hallow
  rw [h.allowlistMode, h.allowlistPrefixes, Bool.not_true, Bool.false_or] at hallow
  obtain ⟨rule, hrule, hmatch⟩ := any_eq_true.1 hallow
  obtain ⟨hexact, w, hw, rest, -, hparse⟩ := defaultShellAllowlistPrefixes_program rule hrule
  have hwords := matchesRule_words hexact hparse hmatch
  match argv with
  | [] => cases hwords
  | arg :: argv =>
    simp only [matchesWords, Bool.and_eq_true] at hwords
    exact ⟨w, hw, hwords.1⟩

variable {a w : Text}

/-- Every character of a text that folds to an ASCII word is, in lower case, one of the word,
or the long s. -/
theorem equalFold_mem (h : equalFold U a w = true) (hw : ∀ d ∈ w, d.toNat < 128) {c : Char}
    (hc : c ∈ a) : (∃ d ∈ w, U.toLower c = d.toLower) ∨ c = longS := by
  fun_induction equalFold U a w
  case case1 => cases hc
  case case2 b a d w ih =>
    rw [Bool.and_eq_true] at h
    rcases mem_cons.1 hc with rfl | hc
    · rcases U.fold_ascii c d (hw d (.head _)) h.1 with hlow | hlong
      · exact .inl ⟨d, .head _, hlow⟩
      · exact .inr hlong
    · rcases ih h.2 (fun e he => hw e (.tail _ he)) hc with ⟨e, he, hlow⟩ | hlong
      · exact .inl ⟨e, .tail _ he, hlow⟩
      · exact .inr hlong
  case case3 => cases h

theorem lower_of_equalFold (h : equalFold U a w = true) (hw : ∀ d ∈ w, d.toNat < 128)
    (hlong : longS ∉ lower U a) : lower U a = w.map Char.toLower := by
  fun_induction equalFold U a w
  case case1 => rfl
  case case2 b a d w ih =>
    rw [Bool.and_eq_true] at h
    have hrest := ih h.2 (fun e he => hw e (.tail _ he)) (fun hmem => hlong (.tail _ hmem))
    have hb : U.toLower b = d.toLower := by
      rcases U.fold_ascii b d (hw d (.head _)) h.1 with hlow | rfl
      · exact hlow
      · exact absurd (show longS ∈ lower U (longS :: a) by simp [lower, U.toLower_longS]) hlong
    show U.toLower b :: lower U a = d.toLower :: w.map Char.toLower
    rw [hb, hrest]
  case case3 => cases h

theorem trimSpaceList_of_no_space {t : Text} (h : ∀ c ∈ t, isSpace c = false) :
    trimSpaceList t = t := by
  have hdrop : ∀ u : Text, (∀ c ∈ u, isSpace c = false) → u.dropWhile isSpace = u := by
    intro u hu
    match u with
    | [] => rfl
    | c :: u => exact dropWhile_cons_of_neg (by simp [hu c])
  unfold trimSpaceList
  rw [hdrop t h, hdrop t.reverse (fun c hc => h c (mem_reverse.1 hc)), reverse_reverse]

theorem afterLast_of_none {p : Char → Bool} {t : Text} (h : ∀ c ∈ t, p c = false) :
    afterLast p t = t := by
  unfold afterLast
  rw [takeWhile_eq_self_iff.2 (by simpa using h), reverse_reverse]

theorem trimSuffix_of_not {suffix t : Text} (h : ¬ suffix <:+ t) : trimSuffix suffix t = t := by
  unfold trimSuffix
  rw [if_neg h]

theorem defaultPrograms_plain : ∀ w ∈ defaultPrograms, w ∉ interpreters ∧ ∀ d ∈ w,
    d.toNat < 128 ∧ d.toLower = d ∧ isSpace d = false ∧ isSlash d = false ∧ d ≠ '.' := by
  have hall : (defaultPrograms.all fun w => decide (w ∉ interpreters) && w.all fun d =>
      decide (d.toNat < 128 ∧ d.toLower = d ∧ isSpace d = false ∧ isSlash d = false ∧ d ≠ '.')) =
      true := by decide +kernel
  intro w hw
  obtain ⟨hnot, hchars⟩ := (Bool.and_eq_true _ _).mp (all_eq_true.1 hall w hw)
  exact ⟨of_decide_eq_true hnot, fun d hd => of_decide_eq_true (all_eq_true.1 hchars d hd)⟩

theorem not_interpreter_of_fold (hw : w ∈ defaultPrograms) (h : equalFold U a w = true) :
    isCommandInterpreter U a = false := by
  obtain ⟨hnot, hplain⟩ := defaultPrograms_plain w hw
  have hascii : ∀ d ∈ w, d.toNat < 128 := fun d hd => (hplain d hd).1
  have hchar : ∀ c ∈ a, (∃ d ∈ w, U.toLower c = d) ∨ c = longS := by
    intro c hc
    rcases equalFold_mem h hascii hc with ⟨d, hd, hlow⟩ | hlong
    · exact .inl ⟨d, hd, hlow.trans (hplain d hd).2.1⟩
    · exact .inr hlong
  have hspace : ∀ c ∈ a, isSpace c = false := by
    intro c hc
    rcases hchar c hc with ⟨d, hd, hlow⟩ | rfl
    · rw [← U.space_toLower, hlow]
      exact (hplain d hd).2.2.1
    · decide
  have hlower : ∀ c ∈ lower U a, c ∈ w ∨ c = longS := by
    intro c hc
    obtain ⟨b, hb, rfl⟩ := mem_map.1 hc
    rcases hchar b hb with ⟨d, hd, hlow⟩ | rfl
    · exact .inl (hlow ▸ hd)
    · exact .inr U.toLower_longS
  have hslash : ∀ c ∈ lower U a, isSlash c = false := by
    intro c hc
    rcases hlower c hc with hd | rfl
    · exact (hplain c hd).2.2.2.1
    · decide
  have hexe : ¬ ".exe".toList <:+ lower U a := by
    intro hsuffix
    have hdot : '.' ∈ lower U a := hsuffix.subset (by decide)
    rcases hlower '.' hdot with hd | hlong
    · exact (hplain '.' hd).2.2.2.2 rfl
    · revert hlong
      decide
  unfold isCommandInterpreter
  rw [trimSpaceList_of_no_space hspace, afterLast_of_none hslash, trimSuffix_of_not hexe]
  apply decide_eq_false
  intro hmem
  have hlong : longS ∉ lower U a := by
    have hall : ∀ i ∈ interpreters, longS ∉ i := by decide +kernel
    exact hall _ hmem
  have hw' : w.map Char.toLower = w := by
    apply (map_congr_left ?_).trans (map_id w)
    intro d hd
    exact (hplain d hd).2.1
  rw [lower_of_equalFold h hascii hlong, hw'] at hmem
  exact hnot hmem

end LabTether.Commands
