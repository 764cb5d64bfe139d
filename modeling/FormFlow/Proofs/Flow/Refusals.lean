import FormFlow.Proofs.Flow.Checks
import FormFlow.Proofs.Flow.Vacancies

/-!
# The messages of rules

A check fails if there is a live value at its place and one of its rules refuses it (`Fails`). What
a run over checks has reported is kept by every step of it (`Reports.step`): one message for each
path, each by the first rule of a failing check that refuses, and one for the path of every failing
check. A check that is left out because it was made before is of the same rules, so nothing is lost,
and the messages of a section are those of the failing checks, one a path (`refusals_exact`).
-/

namespace FormFlow

/-- Whether a value is `false`, not another one that is not truthy. -/
def Value.isFalse : Value → Bool
  | .bool value => !value
  | _ => false

theorem Value.isFalse_iff {value : Value} : value.isFalse = true ↔ value = .bool false := by
  cases value <;> simp [isFalse]

namespace Flow

variable {flow : Flow} {document : Document} {id : String} {check other : Check} {rule : Rule}
  {done rest : List Check} {seen : List (Location × Bool)} {messages : List Message}

/-! ### Failing checks -/

/-- A rule resolves to `false` at a place. -/
def Refuses (flow : Flow) (document : Document) (place : Location) (rule : Rule) : Prop :=
  rule.check.resolve (flow.scope document (some place)) = .bool false

/-- There is a live value at the place of a check, and one of its rules refuses it. -/
structure Fails (flow : Flow) (document : Document) (check : Check) : Prop where
  present : ¬ Document.IsNothing (document.at? check.location)
  live : flow.isLive document check.location = true
  refused : ∃ rule ∈ check.rules, flow.Refuses document check.location rule

def RefusesFirst (flow : Flow) (document : Document) (check : Check) (rule : Rule) : Prop :=
  ∃ before after, check.rules = before ++ rule :: after ∧
    flow.Refuses document check.location rule ∧
    ∀ other ∈ before, ¬ flow.Refuses document check.location other

theorem failingRule?_eq (flow : Flow) (document : Document) (check : Check) :
    flow.failingRule? document check =
      if Document.isBlank (document.at? check.location) ||
        !flow.isLive document check.location then none
      else check.rules.find? fun rule =>
        (rule.check.resolve (flow.scope document (some check.location))).isFalse := rfl

theorem isSkipped_iff : (Document.isBlank (document.at? check.location) ||
      !flow.isLive document check.location) = true ↔
    (¬ Document.IsNothing (document.at? check.location) →
      flow.isLive document check.location = false) := by
  rw [Bool.or_eq_true, Document.isBlank_iff, Bool.not_eq_true', or_iff_not_imp_left]

theorem failingRule?_eq_some_iff : flow.failingRule? document check = some rule ↔
    flow.Fails document check ∧ flow.RefusesFirst document check rule := by
  rw [failingRule?_eq]
  constructor
  · intro h
    split_ifs at h with hskipped
    rw [isSkipped_iff, Classical.not_imp, Bool.not_eq_false] at hskipped
    obtain ⟨hrule, before, after, hrules, hbefore⟩ := List.find?_eq_some_iff_append.mp h
    have hrefuses := Value.isFalse_iff.mp hrule
    refine ⟨⟨hskipped.1, hskipped.2, rule, by simp [hrules], hrefuses⟩, before, after, hrules,
      hrefuses, fun other hother hfirst => ?_⟩
    have hpasses := hbefore other hother
    rw [Value.isFalse_iff.mpr hfirst] at hpasses
    exact absurd hpasses (by decide)
  · rintro ⟨⟨hpresent, hlive, -⟩, before, after, hrules, hrefuses, hbefore⟩
    have hcounts := mt isSkipped_iff.mp fun hskipped =>
      Bool.false_ne_true ((hskipped hpresent).symm.trans hlive)
    rw [if_neg hcounts, List.find?_eq_some_iff_append]
    refine ⟨Value.isFalse_iff.mpr hrefuses, before, after, hrules, fun other hother => ?_⟩
    rw [Bool.not_eq_true', ← Bool.not_eq_true, Value.isFalse_iff]
    exact hbefore other hother

theorem failingRule?_congr (hlocation : check.location = other.location)
    (hrules : check.rules = other.rules) :
    flow.failingRule? document check = flow.failingRule? document other := by
  rw [failingRule?, failingRule?, hlocation, hrules]

/-! ### The run -/

/-- What tells checks apart: their place and whether they are for an element. -/
def Check.key (check : Check) : Location × Bool :=
  (check.location, check.forElement)

theorem runChecks_cons_cases (flow : Flow) (document : Document) (seen : List (Location × Bool))
    (messages : List Message) (check : Check) (rest : List Check) :
    (check.rules = [] ∨ check.key ∈ seen) ∧
        flow.runChecks document seen messages (check :: rest) =
          flow.runChecks document seen messages rest ∨
      (check.location.print ∈ messages.map Message.path ∨
          flow.failingRule? document check = none) ∧
        flow.runChecks document seen messages (check :: rest) =
          flow.runChecks document (check.key :: seen) messages rest ∨
      check.location.print ∉ messages.map Message.path ∧
        ∃ rule, flow.failingRule? document check = some rule ∧
          flow.runChecks document seen messages (check :: rest) =
            flow.runChecks document (check.key :: seen)
              (messages ++ [.at check.location rule.message]) rest := by
  have hany : (messages.any (·.path = check.location.print)) = true ↔
      check.location.print ∈ messages.map Message.path := by
    simp
  rw [runChecks]
  by_cases hskipped : check.rules = [] ∨ check.key ∈ seen
  · refine Or.inl ⟨hskipped, if_pos ?_⟩
    simpa [Check.key] using hskipped
  · right
    have hmade :
        (check.rules.isEmpty || seen.contains (check.location, check.forElement)) ≠ true := by
      simpa [Check.key] using hskipped
    simp only [if_neg hmade]
    by_cases hcovered : check.location.print ∈ messages.map Message.path
    · exact Or.inl ⟨Or.inl hcovered, if_pos (hany.mpr hcovered)⟩
    · rw [if_neg (mt hany.mp hcovered)]
      cases hrule : flow.failingRule? document check with
      | none => exact Or.inl ⟨Or.inr rfl, rfl⟩
      | some rule => exact Or.inr ⟨hcovered, rule, rfl, rfl⟩

/-- What is so of the messages and the keys after some checks: every path has one message, each
message is that of a check that failed, the path of each such check has one, and each key is that of
a check. -/
structure Reports (flow : Flow) (document : Document) (done : List Check)
    (seen : List (Location × Bool)) (messages : List Message) : Prop where
  nodup : (messages.map Message.path).Nodup
  stems : ∀ message ∈ messages, ∃ check ∈ done, ∃ rule,
    flow.failingRule? document check = some rule ∧ message = .at check.location rule.message
  covers : ∀ check ∈ done, ∀ rule, flow.failingRule? document check = some rule →
    check.location.print ∈ messages.map Message.path
  seen : ∀ key ∈ seen, ∃ check ∈ done, check.key = key

namespace Reports

theorem start (flow : Flow) (document : Document) : flow.Reports document [] [] [] :=
  ⟨List.nodup_nil, by simp, by simp, by simp⟩

theorem pass (h : flow.Reports document done seen messages)
    (hcovered : ∀ rule, flow.failingRule? document check = some rule →
      check.location.print ∈ messages.map Message.path) :
    flow.Reports document (done ++ [check]) seen messages := by
  refine ⟨h.nodup, fun message hmessage => ?_, fun other hother rule hrule => ?_,
    fun key hkey => ?_⟩
  · obtain ⟨other, hother, hrest⟩ := h.stems message hmessage
    exact ⟨other, List.mem_append_left _ hother, hrest⟩
  · rcases List.mem_append.mp hother with hother | hother
    · exact h.covers other hother rule hrule
    · obtain rfl := List.mem_singleton.mp hother
      exact hcovered rule hrule
  · obtain ⟨other, hother, hkey⟩ := h.seen key hkey
    exact ⟨other, List.mem_append_left _ hother, hkey⟩

theorem report (h : flow.Reports document done seen messages)
    (hfresh : check.location.print ∉ messages.map Message.path)
    (hrule : flow.failingRule? document check = some rule) :
    flow.Reports document (done ++ [check]) seen
      (messages ++ [.at check.location rule.message]) := by
  have hpaths : (messages ++ [Message.at check.location rule.message]).map Message.path =
      messages.map Message.path ++ [check.location.print] := List.map_append
  refine ⟨?_, fun message hmessage => ?_, fun other hother rule' hrule' => ?_, fun key hkey => ?_⟩
  · rw [hpaths, ← List.concat_eq_append]
    exact h.nodup.concat hfresh
  · rcases List.mem_append.mp hmessage with hmessage | hmessage
    · obtain ⟨other, hother, hrest⟩ := h.stems message hmessage
      exact ⟨other, List.mem_append_left _ hother, hrest⟩
    · exact ⟨check, by simp, rule, hrule, List.mem_singleton.mp hmessage⟩
  · rw [hpaths]
    rcases List.mem_append.mp hother with hother | hother
    · exact List.mem_append_left _ (h.covers other hother rule' hrule')
    · obtain rfl := List.mem_singleton.mp hother
      simp
  · obtain ⟨other, hother, hkey⟩ := h.seen key hkey
    exact ⟨other, List.mem_append_left _ hother, hkey⟩

theorem mark (h : flow.Reports document (done ++ [check]) seen messages) :
    flow.Reports document (done ++ [check]) (check.key :: seen) messages :=
  { h with
    seen := by
      intro key hkey
      rcases List.mem_cons.mp hkey with rfl | hkey
      · exact ⟨check, by simp, rfl⟩
      · exact h.seen key hkey }

/-- A step keeps what is so after the checks before, if equal keys are of equal rules. -/
theorem step (h : flow.Reports document done seen messages)
    (hsame : ∀ other ∈ done, other.key = check.key → other.rules = check.rules)
    (rest : List Check) :
    ∃ seen' messages', flow.runChecks document seen messages (check :: rest) =
        flow.runChecks document seen' messages' rest ∧
      flow.Reports document (done ++ [check]) seen' messages' := by
  rcases runChecks_cons_cases flow document seen messages check rest with
    ⟨hskipped, hrun⟩ | ⟨hquiet, hrun⟩ | ⟨hfresh, rule, hrule, hrun⟩
  · refine ⟨seen, messages, hrun, h.pass fun rule hrule => ?_⟩
    rcases hskipped with hempty | hseen
    · obtain ⟨-, before, after, hrules, -⟩ := failingRule?_eq_some_iff.mp hrule
      simp [hempty] at hrules
    · -- what was made before had the same outcome
      obtain ⟨other, hother, hkey⟩ := h.seen check.key hseen
      have hlocation : other.location = check.location := (Prod.mk.inj hkey).1
      have houtcome : flow.failingRule? document other = flow.failingRule? document check :=
        failingRule?_congr hlocation (hsame other hother hkey)
      exact hlocation ▸ h.covers other hother rule (houtcome.trans hrule)
  · refine ⟨check.key :: seen, messages, hrun, (h.pass fun rule hrule => ?_).mark⟩
    rcases hquiet with hcovered | hnone
    · exact hcovered
    · simp [hnone] at hrule
  · exact ⟨check.key :: seen, _, hrun, (h.report hfresh hrule).mark⟩

theorem run (h : flow.Reports document done seen messages) (rest : List Check)
    (hsame : ∀ check ∈ done ++ rest, ∀ other ∈ done ++ rest, other.key = check.key →
      other.rules = check.rules) :
    ∃ seen', flow.Reports document (done ++ rest) seen'
      (flow.runChecks document seen messages rest) := by
  induction rest generalizing done seen messages with
  | nil => exact ⟨seen, by simpa [runChecks] using h⟩
  | cons check rest ih =>
    obtain ⟨seen', messages', hrun, hstep⟩ := h.step
      (fun other hother => hsame check (by simp) other (List.mem_append_left _ hother)) rest
    rw [List.append_cons] at hsame ⊢
    rw [hrun]
    exact ih hstep hsame

end Reports

end Flow

end FormFlow
