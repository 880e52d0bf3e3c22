import LabTether.GoStrings
import LabTether.Transition

/-!
The uptime history of a web service (`internal/connectors/webservice/coordinator_health.go`). A
report of a status is merged into the last sample, whose time it moves, or becomes a sample of
its own; after each report the history is pruned. Times are nanoseconds, `strings.ToLower` is any
function, and a history without samples is an empty list.
-/
namespace LabTether.ServiceHealth

open GoStrings Transition List

def serviceHealthWindow : ℤ := 86400000000000

def serviceHealthMaxSamples : ℕ := 2048

def serviceHealthCoalesce : ℤ := 60000000000

/-- The source has no field `first`: it is the time of the first report merged into the sample,
and nothing below decides by it. -/
structure Sample where
  time : ℤ
  status : String
  (responseMs first : ℤ)
deriving DecidableEq

structure Report where
  time : ℤ
  status : String
  responseMs : ℤ
deriving DecidableEq

variable (lower : String → String)

def normalizeServiceStatus (status : String) : String :=
  let trimmed := lower (trimSpace status)
  if trimmed = "" then "unknown" else trimmed

variable (samples : List Sample)

/-- At most `maxSamples` samples from the cutoff on, or all of them if that is 0. -/
def trimServiceHealthSamples (cutoff : ℤ) (maxSamples : ℕ) : List Sample :=
  let trimmed := samples.dropWhile (·.time < cutoff)
  if 0 < maxSamples ∧ maxSamples < trimmed.length then trimmed.drop (trimmed.length - maxSamples)
  else trimmed

def Merges (last : Sample) (r : Report) : Prop :=
  normalizeServiceStatus lower last.status = normalizeServiceStatus lower r.status ∧
    r.time - last.time ≤ serviceHealthCoalesce
  deriving Decidable

/-- `recordServiceHealthSampleLocked` on the samples of one key. -/
def recordServiceHealthSample (r : Report) : List Sample :=
  let sample := fun first => ⟨r.time, normalizeServiceStatus lower r.status, r.responseMs, first⟩
  match samples.getLast?.filter (Merges lower · r) with
  | some last => samples.dropLast ++ [sample last.first]
  | none => trimServiceHealthSamples (samples ++ [sample r.time]) (r.time - serviceHealthWindow)
      serviceHealthMaxSamples

/-- A report of the service; `HandleReport` prunes every history in the end. -/
def handleReport (r : Report) : List Sample :=
  trimServiceHealthSamples (recordServiceHealthSample lower samples r)
    (r.time - serviceHealthWindow) serviceHealthMaxSamples

def checks (now : ℤ) : ℕ :=
  (trimServiceHealthSamples samples (now - serviceHealthWindow) 0).length

section

variable {samples : List Sample} {x : Sample} {cutoff : ℤ} {n : ℕ}

theorem trim_suffix_dropWhile :
    trimServiceHealthSamples samples cutoff n <:+ samples.dropWhile (·.time < cutoff) := by
  rw [trimServiceHealthSamples]
  split_ifs
  · exact drop_suffix _ _
  · exact suffix_rfl

theorem trim_suffix : trimServiceHealthSamples samples cutoff n <:+ samples :=
  trim_suffix_dropWhile.trans (dropWhile_suffix _)

theorem getLast?_trim (hlast : samples.getLast? = some x) (hx : cutoff ≤ x.time) :
    (trimServiceHealthSamples samples cutoff n).getLast? = some x := by
  have hkept : samples.dropWhile (·.time < cutoff) ≠ [] := by
    rw [ne_eq, dropWhile_eq_nil_iff]
    intro h
    have := of_decide_eq_true (h x (mem_of_getLast? hlast))
    omega
  have hne : trimServiceHealthSamples samples cutoff n ≠ [] := by
    rw [trimServiceHealthSamples]
    split_ifs with hmany
    · rw [ne_eq, drop_eq_nil_iff]
      omega
    · exact hkept
  obtain ⟨front, hfront⟩ : trimServiceHealthSamples samples cutoff n <:+ samples := trim_suffix
  rw [← hfront, getLast?_append_of_ne_nil _ hne] at hlast
  exact hlast

theorem length_trim_le (hn : 0 < n) : (trimServiceHealthSamples samples cutoff n).length ≤ n := by
  rw [trimServiceHealthSamples]
  split_ifs
  · rw [length_drop]
    omega
  · omega

theorem le_of_mem_trim (hsorted : samples.Pairwise (·.time ≤ ·.time))
    (hx : x ∈ trimServiceHealthSamples samples cutoff n) : cutoff ≤ x.time := by
  replace hx := trim_suffix_dropWhile.subset hx
  induction samples with
  | nil => cases hx
  | cons y rest ih =>
    rw [dropWhile_cons] at hx
    split at hx
    · exact ih (pairwise_cons.1 hsorted).2 hx
    next hy =>
      have hy : cutoff ≤ y.time := by simpa using hy
      rcases mem_cons.1 hx with rfl | hx
      · exact hy
      · have := (pairwise_cons.1 hsorted).1 x hx
        omega

end

/-- All reports merged into a sample lie within one coalescing interval. -/
def WithinInterval : Prop :=
  ∀ x ∈ samples, x.time - x.first ≤ serviceHealthCoalesce

instance : DecidablePred WithinInterval := fun _ => List.decidableBAll _ _

/-- A report that is merged is close to the first report of its sample. -/
def NoDrift (r : Report) : Prop :=
  ∀ last ∈ samples.getLast?.filter (Merges lower · r), r.time - last.first ≤ serviceHealthCoalesce

/-- The samples are in order, in the window that ends `now`, and not too many. -/
structure Retained (samples : List Sample) (now : ℤ) : Prop where
  ordered : samples.Pairwise (·.time ≤ ·.time)
  window : ∀ x ∈ samples, now - serviceHealthWindow ≤ x.time ∧ x.time ≤ now
  few : samples.length ≤ serviceHealthMaxSamples

variable {lower} {samples : List Sample} {r : Report}

theorem cutoff_le (t : ℤ) : t - serviceHealthWindow ≤ t := by
  unfold serviceHealthWindow
  omega

theorem record_spec (lower : String → String) (samples : List Sample) (r : Report) :
    ∃ front x, recordServiceHealthSample lower samples r <:+ front ++ [x] ∧
      (recordServiceHealthSample lower samples r).getLast? = some x ∧ front <+: samples ∧
      x.time = r.time ∧
      x.first = ((samples.getLast?.filter (Merges lower · r)).map Sample.first).getD r.time := by
  rw [recordServiceHealthSample]
  cases samples.getLast?.filter (Merges lower · r) with
  | some last => exact ⟨_, _, suffix_rfl, getLast?_concat, dropLast_prefix _, rfl, rfl⟩
  | none =>
    exact ⟨samples, _, trim_suffix, getLast?_trim getLast?_concat (cutoff_le _), prefix_rfl,
      rfl, rfl⟩

theorem within_step (h : WithinInterval samples) :
    WithinInterval (handleReport lower samples r) ↔ NoDrift lower samples r := by
  obtain ⟨front, x, hsuffix, hlast, hfront, htime, hfirst⟩ := record_spec lower samples r
  constructor
  · intro hnext last hmerged
    have := hnext x (mem_of_getLast? (getLast?_trim hlast (htime ▸ cutoff_le _)))
    rw [htime, hfirst, Option.mem_def.1 hmerged] at this
    exact this
  · intro hdrift y hy
    rcases mem_append.1 (hsuffix.subset (trim_suffix.subset hy)) with hold | hnew
    · exact h y (hfront.subset hold)
    rw [mem_singleton.1 hnew, htime, hfirst]
    cases hmerged : samples.getLast?.filter (Merges lower · r) with
    | some last => exact hdrift last hmerged
    | none => simp [serviceHealthCoalesce]

theorem retained_step {now : ℤ} (h : Retained samples now) (hr : now ≤ r.time) :
    Retained (handleReport lower samples r) r.time := by
  obtain ⟨front, x, hsuffix, -, hfront, htime, -⟩ := record_spec lower samples r
  have hle : ∀ y ∈ front ++ [x], y.time ≤ r.time := by
    intro y hy
    rcases mem_append.1 hy with hold | hnew
    · have := (h.window y (hfront.subset hold)).2
      omega
    · rw [mem_singleton.1 hnew]
      exact Int.le_of_eq htime
  have hsorted : (front ++ [x]).Pairwise (·.time ≤ ·.time) := by
    refine pairwise_append.2 ⟨h.ordered.sublist hfront.sublist, pairwise_singleton _ _, ?_⟩
    intro y hy z hz
    rw [mem_singleton.1 hz, htime]
    exact hle y (mem_append_left _ hy)
  replace hsorted := hsorted.sublist hsuffix.sublist
  refine ⟨hsorted.sublist trim_suffix.sublist, fun y hy => ⟨le_of_mem_trim hsorted hy, ?_⟩,
    length_trim_le (by decide)⟩
  exact hle y (hsuffix.subset (trim_suffix.subset hy))

theorem retained_run (reports : List Report) (r : Report)
    (h : (reports ++ [r]).Pairwise (·.time ≤ ·.time)) :
    Retained (run (handleReport lower) [] (reports ++ [r])) r.time := by
  induction reports using reverseRecOn generalizing r with
  | nil => exact retained_step ⟨.nil, by simp, by simp⟩ (Int.le_refl r.time)
  | append_singleton init p ih =>
    obtain ⟨hinit, -, hr⟩ := pairwise_append.1 h
    rw [run_append]
    exact retained_step (ih p hinit) (hr p (by simp) r (.head _))

/-- Histories are ordered, in the window and short. The reports of each sample lie within a
minute exactly when no report is merged later than a minute after the first one of its sample. -/
theorem merged_within_interval_iff (lower : String → String) (reports : List Report) :
    (∀ before r, reports = before ++ [r] → reports.Pairwise (·.time ≤ ·.time) →
      Retained (run (handleReport lower) [] reports) r.time) ∧
    (AllStates (handleReport lower) WithinInterval [] reports ↔
      StepsMeet (handleReport lower) (NoDrift lower) [] reports) := by
  refine ⟨fun before r heq hordered => ?_, ?_⟩
  · subst heq
    exact retained_run before r hordered
  · exact allStates_iff_stepsMeet (fun _ _ => within_step) nofun

/-- A service that is up for two hours, reported once a minute, has one check. -/
theorem steady_service_one_check :
    let reports := (range 121).map fun k => ⟨serviceHealthCoalesce * k, "up", 5⟩
    let samples := run (handleReport id) [] reports
    checks samples (serviceHealthCoalesce * 120) = 1 ∧ ¬ WithinInterval samples := by
  decide +kernel

end LabTether.ServiceHealth
