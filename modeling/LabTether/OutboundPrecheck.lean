import LabTether.Outbound

/-!
The pre-check of a host against the check of its addresses. The pre-check looks for the
riskiest class among the addresses of an answer, and when the policy allows that class it
accepts the host without looking at the other addresses.
-/
namespace LabTether.Outbound

open Commands Transaction

section

variable {policy : Policy} {ip : IP}

def Passes (policy : Policy) (ip : IP) : Prop := validateResolvedOutboundIP policy ip = .ok ()
  deriving Decidable

/-- Neither nil, unspecified, multicast nor broadcast. -/
def Ordinary (ip : IP) : Prop :=
  ip ≠ [] ∧ isUnspecified ip = false ∧ isMulticast ip = false ∧ isBroadcast ip = false

theorem passes_iff : Passes policy ip ↔ Ordinary ip ∧
    (isLoopback ip = true → policy.allowLoopback = true) ∧
    (isLinkLocalUnicast ip = true → policy.allowLinkLocal = true) ∧
    (isPrivate ip = true → policy.allowPrivate = true) := by
  unfold Passes validateResolvedOutboundIP Ordinary
  by_cases hnil : ip = []
  · simp [hnil]
  cases isUnspecified ip <;> cases isMulticast ip <;> cases isBroadcast ip <;>
    cases isLoopback ip <;> cases isLinkLocalUnicast ip <;> cases isPrivate ip <;>
    cases policy.allowLoopback <;> cases policy.allowLinkLocal <;>
    cases policy.allowPrivate <;> simp [hnil]

end

/-- The classes of hosts, riskiest first. -/
inductive RiskClass
  | loopback
  | linkLocal
  | private_

def Policy.allows (policy : Policy) : RiskClass → Bool
  | .loopback => policy.allowLoopback
  | .linkLocal => policy.allowLinkLocal
  | .private_ => policy.allowPrivate

def RiskClass.refusal : RiskClass → OutboundError
  | .loopback => .loopbackHost
  | .linkLocal => .linkLocalHost
  | .private_ => .privateHost

variable (P : Parsers) (policy : Policy) (host normalized : Text) (answer : Answer)

/-- What a resolver gives for a host: a literal stands for itself. -/
def addresses : List IP :=
  match P.parseIP normalized, answer with
  | some ip, _ => [ip]
  | none, .ok addrs => addrs
  | none, .error _ => []

/-- The addresses the pre-check classifies: none where the name vanishes when it is
normalized again. -/
def classified : List IP :=
  if P.parseIP normalized = none ∧ normalizeHostname P normalized = [] then []
  else addresses P normalized answer

def isLocalhost : Bool :=
  (P.parseIP normalized).isNone && equalFold P.tables normalized "localhost".toList

def foundClass : Option RiskClass :=
  let found := classified P normalized answer
  if isLocalhost P normalized || found.any isLoopback then some .loopback
  else if found.any isLinkLocalUnicast then some .linkLocal
  else if found.any isPrivate || (found.isEmpty && isLikelyPrivateHostname normalized) then
    some .private_
  else none

def Risk.class? (risk : Risk) : Option RiskClass :=
  if risk.loopback then some .loopback
  else if risk.linkLocal then some .linkLocal
  else if risk.private_ then some .private_
  else none

open Risk

variable {P policy host normalized answer}

theorem class_foldl_note (addrs : List IP) (risk : Risk) : (addrs.foldl note risk).class? =
      if risk.loopback || addrs.any isLoopback then some .loopback
      else if risk.linkLocal || addrs.any isLinkLocalUnicast then some .linkLocal
      else if risk.private_ || addrs.any isPrivate then some .private_
      else none := by
  induction addrs generalizing risk with
  | nil =>
    obtain ⟨loopback, private_, linkLocal⟩ := risk
    cases loopback <;> cases linkLocal <;> cases private_ <;> rfl
  | cons ip addrs ih =>
    rw [List.foldl_cons, ih]
    by_cases hnil : ip = []
    · subst hnil
      have hloop : isLoopback [] = false := by decide
      have hlink : isLinkLocalUnicast [] = false := by decide
      have hpriv : isPrivate [] = false := by decide
      simp [note, hloop, hlink, hpriv]
    · cases hloop : isLoopback ip <;> cases hlink : isLinkLocalUnicast ip <;>
        cases hpriv : isPrivate ip <;> simp [note, hnil, hloop, hlink, hpriv]

theorem class_hostRiskProfile :
    (hostRiskProfile P normalized answer).class? = foundClass P normalized answer := by
  unfold hostRiskProfile foundClass classified isLocalhost addresses
  cases hip : P.parseIP normalized with
  | some ip =>
    cases hloop : isLoopback ip <;> cases hlink : isLinkLocalUnicast ip <;>
      simp [class?, hloop, hlink]
  | none =>
    cases hlocal : equalFold P.tables normalized "localhost".toList
    case true => simp [class?]
    unfold resolvedHostRisk
    by_cases hagain : normalizeHostname P normalized = []
    · simp [hagain, class?]
    match answer with
    | .error _ => simp [hagain, class?]
    | .ok [] => simp [hagain, class?]
    | .ok (ip :: addrs) =>
      have hfold := class_foldl_note (ip :: addrs) ⟨false, false, false⟩
      simpa [hagain] using hfold

/-- Past the name and the allowlist, the class found decides; only a host without one has
its addresses checked. -/
theorem validateOutboundHostWithPolicy_eq (hname : normalizeHostname P host ≠ [])
    (hlisted : listed P policy (normalizeHostname P host) = true) :
    validateOutboundHostWithPolicy P policy host answer =
      match foundClass P (normalizeHostname P host) answer with
      | some found => if policy.allows found then .ok () else .error found.refusal
      | none => validateResolvedOutboundHost P policy (normalizeHostname P host) answer := by
  rw [← class_hostRiskProfile]
  simp only [validateOutboundHostWithPolicy, hname, hlisted, if_false, Bool.not_true]
  generalize hostRiskProfile P (normalizeHostname P host) answer = risk
  obtain ⟨loopback, private_, linkLocal⟩ := risk
  cases loopback <;> cases linkLocal <;> cases private_ <;> rfl

theorem validateResolvedOutboundHost_passes
    (h : validateResolvedOutboundHost P policy normalized answer = .ok ()) :
    ∀ ip ∈ addresses P normalized answer, Passes policy ip := by
  unfold validateResolvedOutboundHost at h
  unfold addresses
  cases hip : P.parseIP normalized with
  | some ip =>
    rw [hip] at h
    simpa [Passes] using h
  | none =>
    rw [hip] at h
    match answer, h with
    | .ok (first :: addrs), h => exact forM_eq_ok.1 h

variable (P policy host answer) in
/-- Where the pre-check cannot accept what the dial refuses: the host is blank, or not on
the allowlist, or has no address the dial refuses, or the riskiest class found for it is
not allowed. -/
def Covered : Prop :=
  normalizeHostname P host = [] ∨ listed P policy (normalizeHostname P host) = false ∨
    (∀ ip ∈ addresses P (normalizeHostname P host) answer, Ordinary ip ∧
      (isLoopback ip = true → policy.allowLoopback = true) ∧
      (isLinkLocalUnicast ip = true → policy.allowLinkLocal = true) ∧
      (isPrivate ip = true → policy.allowPrivate = true)) ∨
    ∀ found, foundClass P (normalizeHostname P host) answer = some found →
      policy.allows found = false

/-- The pre-check is no weaker than the dial exactly on the covered hosts and answers. -/
theorem precheck_implies_dial_iff (P : Parsers) (policy : Policy) (host : Text) (answer : Answer) :
    (validateOutboundHostWithPolicy P policy host answer = .ok () →
      ∀ ip ∈ addresses P (normalizeHostname P host) answer,
        validateResolvedOutboundIP policy ip = .ok ()) ↔
      Covered P policy host answer := by
  constructor
  · intro hweaker
    by_cases hname : normalizeHostname P host = []
    · exact .inl hname
    by_cases hlisted : listed P policy (normalizeHostname P host) = true
    · right; right
      by_cases hrefused : ∀ found, foundClass P (normalizeHostname P host) answer = some found →
            policy.allows found = false
      · exact .inr hrefused
      left
      push Not at hrefused
      obtain ⟨found, hfound, hallowed⟩ := hrefused
      have haccept : validateOutboundHostWithPolicy P policy host answer = .ok () := by
        rw [validateOutboundHostWithPolicy_eq hname hlisted, hfound]
        simpa using hallowed
      intro ip hip
      exact passes_iff.1 (hweaker haccept ip hip)
    · exact .inr (.inl (by simpa using hlisted))
  · intro hcovered haccept ip hip
    have hname : normalizeHostname P host ≠ [] := by
      intro hblank
      simp [validateOutboundHostWithPolicy, hblank] at haccept
    have hlisted : listed P policy (normalizeHostname P host) = true := by
      by_contra hout
      rw [Bool.not_eq_true] at hout
      simp [validateOutboundHostWithPolicy, hname, hout] at haccept
    rcases hcovered with hblank | hout | hclean | hrefused
    · exact absurd hblank hname
    · rw [hlisted] at hout
      cases hout
    · exact passes_iff.2 (hclean ip hip)
    rw [validateOutboundHostWithPolicy_eq hname hlisted] at haccept
    cases hfound : foundClass P (normalizeHostname P host) answer with
    | some found =>
      rw [hfound] at haccept
      simp [hrefused found hfound] at haccept
    | none =>
      rw [hfound] at haccept
      exact validateResolvedOutboundHost_passes haccept ip hip

/-- Loopback allowed, private addresses not: a name with one address of each kind is
accepted, and its second address is one the dial refuses. -/
theorem mixed_answer_accepted :
    let P : Parsers := ⟨basicTables, fun _ => none, fun _ => none⟩
    let policy : Policy := ⟨none, false, true, false⟩
    let host := "relay.test".toList
    let answer : Answer := .ok [[127, 0, 0, 1], [10, 0, 0, 5]]
    validateOutboundHostWithPolicy P policy host answer = .ok () ∧
      [10, 0, 0, 5] ∈ addresses P (normalizeHostname P host) answer ∧
      validateResolvedOutboundIP policy [10, 0, 0, 5] = .error .privateAddress := by
  decide +kernel

end LabTether.Outbound
