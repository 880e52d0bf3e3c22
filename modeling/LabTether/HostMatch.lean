import Mathlib

/-!
Which asset a collected asset runs on, by the addresses and host names the two have in common.
One pass over the candidates keeps the best so far and whether another one is as good; the
answer is the candidate that beats all others, in whatever order they come.
-/
namespace LabTether.HostMatch

open List

structure Asset where
  (id groupID : String)
  deriving DecidableEq

structure CollectorIdentity where
  (ips hostnames : Finset String)

def overlapIdentity (left right : Finset String) : ℕ := (left.filter (· ∈ right)).card

def identityMatchScore (source candidate : CollectorIdentity) : ℕ × String :=
  let ipMatches := overlapIdentity source.ips candidate.ips
  let hostMatches := overlapIdentity source.hostnames candidate.hostnames
  if ipMatches > 0 then (ipMatches * 100 + hostMatches * 10, "ip")
  else if hostMatches > 0 then (hostMatches * 10, "hostname")
  else (0, "")

/-- The variables of the loop. -/
structure Best where
  (targetID reason : String)
  score : ℕ
  priority : ℤ
  tied : Bool

/-- What one search is given. -/
structure Search where
  source : Asset
  identities : String → CollectorIdentity
  priority : Option (Asset → ℤ)

variable (q : Search)

def scoreOf (candidate : Asset) : ℕ × String :=
  identityMatchScore (q.identities q.source.id) (q.identities candidate.id)

def priorityOf (candidate : Asset) : ℤ := q.priority.elim 0 (· candidate)

def Eligible (candidate : Asset) : Prop :=
  candidate.id ≠ q.source.id ∧
    ¬ (q.source.groupID ≠ "" ∧ candidate.groupID ≠ "" ∧ q.source.groupID ≠ candidate.groupID) ∧
    0 < (scoreOf q candidate).1
  deriving Decidable

def took (candidate : Asset) : Best :=
  ⟨candidate.id, (scoreOf q candidate).2, (scoreOf q candidate).1, priorityOf q candidate, false⟩

def visit (best : Best) (candidate : Asset) : Best :=
  let score := (scoreOf q candidate).1
  let candidatePriority := priorityOf q candidate
  if ¬ Eligible q candidate then best
  else if score > best.score then took q candidate
  else if score = best.score then
    if candidatePriority < best.priority then took q candidate
    else if candidatePriority = best.priority then { best with tied := true }
    else best
  else best

def Best.start : Best := ⟨"", "", 0, 0, false⟩

def bestRunsOnIdentityTargetWithPriority (targets : List Asset) : String × String × Bool :=
  let best := targets.foldl (visit q) .start
  if best.targetID = "" ∨ best.tied = true then ("", "", false)
  else (best.targetID, best.reason, true)

/-- A higher score, or the same score and a lower priority number. -/
def Beats (c d : Asset) : Prop :=
  (scoreOf q d).1 < (scoreOf q c).1 ∨
    (scoreOf q d).1 = (scoreOf q c).1 ∧ priorityOf q c < priorityOf q d

/-- An eligible candidate that beats every other one. -/
structure StrictlyBest (targets : List Asset) (c : Asset) : Prop where
  listed : c ∈ targets
  eligible : Eligible q c
  beats : ∀ d ∈ targets.erase c, Eligible q d → Beats q c d

/-- The strictly best candidate, or nothing if there is none or it has no id. -/
def Answers (targets : List Asset) (answer : String × String × Bool) : Prop :=
  (∃ c, StrictlyBest q targets c ∧ c.id ≠ "" ∧ answer = (c.id, (scoreOf q c).2, true)) ∨
    (∀ c, StrictlyBest q targets c → c.id = "") ∧ answer = ("", "", false)

/-- What the loop knows after some candidates: `c` is the one it holds. -/
structure Holds (targets : List Asset) (best : Best) (c : Asset) : Prop where
  listed : c ∈ targets
  eligible : Eligible q c
  holds : best = { took q c with tied := best.tied }
  unbeaten : ∀ d ∈ targets, Eligible q d → ¬ Beats q d c
  tied : best.tied = true ↔ ∃ d ∈ targets.erase c, Eligible q d ∧ ¬ Beats q c d

variable {q} {targets : List Asset} {c d x : Asset} {best : Best}

theorem Beats.asymm (h : Beats q c d) : ¬ Beats q d c := by
  unfold Beats at *
  omega

/-- A candidate that beats all the eligible ones before it is held from now on. -/
theorem holds_took (hx : Eligible q x) (hall : ∀ d ∈ targets, Eligible q d → Beats q x d) :
    Holds q (targets ++ [x]) (took q x) x := by
  have hself : ¬ Beats q x x := fun h => h.asymm h
  have hnew : x ∉ targets := fun h => hself (hall x h hx)
  refine ⟨by simp, hx, rfl, fun d hd hdx => ?_, ?_⟩
  · rcases mem_append.1 hd with hd | hd
    · exact (hall d hd hdx).asymm
    · rwa [mem_singleton.1 hd]
  · rw [erase_append_right _ hnew]
    simpa [took] using hall

/-- The held candidate stays if the next one does not beat it. -/
theorem Holds.append (h : Holds q targets best c) {tied : Bool}
    (hx : Eligible q x → ¬ Beats q x c)
    (htied : tied = true ↔ best.tied = true ∨ Eligible q x ∧ ¬ Beats q c x) :
    Holds q (targets ++ [x]) { best with tied } c := by
  refine ⟨mem_append_left _ h.listed, h.eligible, by rw [h.holds], fun d hd hdx => ?_, ?_⟩
  · rcases mem_append.1 hd with hd | hd
    · exact h.unbeaten d hd hdx
    · obtain rfl := mem_singleton.1 hd
      exact hx hdx
  · rw [erase_append_left _ h.listed]
    simp [htied, h.tied, or_and_right, exists_or]

theorem Holds.visit (h : Holds q targets best c) (hx : Eligible q x) :
    ∃ c', Holds q (targets ++ [x]) (visit q best x) c' := by
  have hscore : best.score = (scoreOf q c).1 := by rw [h.holds]; rfl
  have hpriority : best.priority = priorityOf q c := by rw [h.holds]; rfl
  have hall : Beats q x c → ∀ d ∈ targets, Eligible q d → Beats q x d := by
    intro hxc d hd hdx
    have hdc := h.unbeaten d hd hdx
    unfold Beats at *
    omega
  fun_cases HostMatch.visit q best x
  · exact absurd hx ‹_›
  iterate 2 exact ⟨x, holds_took hx (hall (by unfold Beats; omega))⟩
  all_goals
    refine ⟨c, h.append (fun _ => by unfold Beats; omega) ?_⟩
    simp only [hx, true_and, Beats]
    grind

theorem foldl_visit (targets : List Asset) :
    (targets.foldl (visit q) .start = .start ∧ ∀ c ∈ targets, ¬ Eligible q c) ∨
      ∃ c, Holds q targets (targets.foldl (visit q) .start) c := by
  induction targets using reverseRecOn with
  | nil => exact .inl ⟨rfl, by simp⟩
  | append_singleton l x ih =>
    rw [foldl_append, foldl_cons, foldl_nil]
    by_cases hx : Eligible q x
    · rcases ih with ⟨hstart, hnone⟩ | ⟨c, h⟩
      · have htook : visit q .start x = took q x := by simp [visit, hx, hx.2.2, Best.start]
        rw [hstart, htook]
        exact .inr ⟨x, holds_took hx fun d hd hdx => absurd hdx (hnone d hd)⟩
      · exact .inr (h.visit hx)
    · have hsame : ∀ best, visit q best x = best := fun best => by simp [visit, hx]
      rw [hsame]
      rcases ih with ⟨hstart, hnone⟩ | ⟨c, h⟩
      · exact .inl ⟨hstart, forall_mem_append.2 ⟨hnone, by simpa using hx⟩⟩
      · exact .inr ⟨c, h.append (fun h => absurd h hx) (by simp [hx])⟩

theorem Holds.strictlyBest_iff (h : Holds q targets best c) :
    StrictlyBest q targets x ↔ x = c ∧ best.tied = false := by
  rw [← Bool.not_eq_true, h.tied]
  push Not
  constructor
  · intro hx
    have hsame : x = c := by
      by_contra hne
      have hmem : c ∈ targets.erase x := (mem_erase_of_ne (Ne.symm hne)).2 h.listed
      exact h.unbeaten x hx.listed hx.eligible (hx.beats c hmem h.eligible)
    exact ⟨hsame, hsame ▸ hx.beats⟩
  · rintro ⟨rfl, hbeats⟩
    exact ⟨h.listed, h.eligible, hbeats⟩

theorem answers_search (targets : List Asset) :
    Answers q targets (bestRunsOnIdentityTargetWithPriority q targets) := by
  unfold Answers
  unfold bestRunsOnIdentityTargetWithPriority
  rcases foldl_visit (q := q) targets with ⟨hstart, hnone⟩ | ⟨c, h⟩
  · exact .inr ⟨fun c hc => absurd hc.eligible (hnone c hc.listed), by rw [hstart]; rfl⟩
  generalize targets.foldl (visit q) .start = best at h
  have hid : best.targetID = c.id := by rw [h.holds]; rfl
  have hreason : best.reason = (scoreOf q c).2 := by rw [h.holds]; rfl
  simp only [h.strictlyBest_iff, hid, hreason]
  grind

theorem StrictlyBest.perm {targets' : List Asset} (hperm : targets'.Perm targets)
    (h : StrictlyBest q targets c) : StrictlyBest q targets' c :=
  ⟨hperm.mem_iff.2 h.listed, h.eligible, fun d hd => h.beats d ((hperm.erase c).mem_iff.1 hd)⟩

theorem StrictlyBest.unique (hc : StrictlyBest q targets c) (hd : StrictlyBest q targets d) :
    c = d := by
  by_contra hne
  have hcd := hc.beats d ((mem_erase_of_ne (Ne.symm hne)).2 hd.listed) hd.eligible
  have hdc := hd.beats c ((mem_erase_of_ne hne).2 hc.listed) hc.eligible
  exact hcd.asymm hdc

/-- The search answers with the strictly best candidate if that has an id, and with nothing
otherwise; so the order of the candidates does not matter. -/
theorem best_target_unique (q : Search) (targets : List Asset) :
    (∀ answer, bestRunsOnIdentityTargetWithPriority q targets = answer ↔
      Answers q targets answer) ∧
    ∀ targets', targets'.Perm targets → bestRunsOnIdentityTargetWithPriority q targets' =
      bestRunsOnIdentityTargetWithPriority q targets := by
  have hunique : ∀ targets' answer, targets'.Perm targets → Answers q targets answer →
      bestRunsOnIdentityTargetWithPriority q targets' = answer := by
    intro targets' answer hperm hanswer
    rcases answers_search (q := q) targets' with ⟨c, hc, hid, heq⟩ | ⟨hnone, heq⟩
    all_goals
      rcases hanswer with ⟨d, hd, hid', rfl⟩ | ⟨hnone', rfl⟩
    · rw [heq, hc.unique (hd.perm hperm)]
    · exact absurd (hnone' c (hc.perm hperm.symm)) hid
    · exact absurd (hnone d (hd.perm hperm)) hid'
    · exact heq
  exact ⟨fun answer => ⟨fun h => h ▸ answers_search targets, hunique targets answer (.refl _)⟩,
    fun targets' hperm => hunique targets' _ hperm (answers_search targets)⟩

theorem nameless_best_unanswered : let q : Search := ⟨⟨"a", ""⟩, fun _ => ⟨{"h"}, ∅⟩, none⟩
    StrictlyBest q [⟨"", ""⟩] ⟨"", ""⟩ ∧
      bestRunsOnIdentityTargetWithPriority q [⟨"", ""⟩] = ("", "", false) :=
  ⟨⟨by simp, by decide, by simp⟩, rfl⟩

end LabTether.HostMatch
