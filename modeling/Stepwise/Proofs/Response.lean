import Stepwise.Proofs.Run.Blame
import Stepwise.Proofs.Step.Refusal
import Stepwise.Repository

/-!
# Responses

What a response says of its end in one field it says in all of them (`Response.Consistent`). That
is so for a good end, and for an end with a fault if its status is that of the fault and if a
workflow that is not valid comes with the report of its check; so nothing else has to be looked at
where a response is made up.
-/

namespace Stepwise

/-- The fields of a response agree about its end. -/
structure Response.Consistent (response : Response) : Prop where
  terminal : response.status.isTerminal = true
  success : response.success = true ↔ response.status = .completed
  clean : response.status = .completed ↔
    response.error = none ∧ response.errorCode = none ∧ response.errorDetails = []
  /-- An error always comes with its code. -/
  failed : response.success = false → response.error.isSome = true ∧ response.errorCode.isSome = true
  timedOut : response.status = .timedOut ↔ response.errorCode = some "ORCA-030"
  cancelled : response.status = .cancelled ↔ response.errorCode = some "ORCA-032"
  /-- There is one entry for each issue that blocks the workflow, in the order of the report. -/
  invalid : response.errorCode = some "ORCA-010" → ∃ report, response.validation = some report ∧
    response.errorDetails = report.errors.map Issue.toJson
  single : response.success = false → response.errorCode ≠ some "ORCA-010" →
    ∃ detail, response.errorDetails = [detail]

/-- A record says of an end what its response says. -/
structure ExecutionRecord.Carries (record : ExecutionRecord) (response : Response) : Prop where
  executionId : record.executionId = response.executionId
  status : record.status = response.status
  success : record.success = response.success
  error : record.error = response.error
  errorCode : record.errorCode = response.errorCode
  retries : record.retries = response.retries
  result : record.result = response.result.getD .null

theorem ExecutionRecord.carries_ofResponse (workflowId : String) (response : Response)
    (recordedAt : Timestamp) : (ofResponse workflowId response recordedAt).Carries response :=
  ⟨rfl, rfl, rfl, rfl, rfl, rfl, rfl⟩

/-! ## Faults and their codes -/

namespace Fault

variable {fault : Fault}

theorem code_eq_timeout_iff : fault.code = "ORCA-030" ↔ Status.ofFault fault = .timedOut := by
  cases fault <;> simp [code, Status.ofFault]

theorem code_eq_cancelled_iff : fault.code = "ORCA-032" ↔ Status.ofFault fault = .cancelled := by
  cases fault <;> simp [code, Status.ofFault]

theorem code_eq_invalid_iff :
    fault.code = "ORCA-010" ↔ ∃ issues, fault = .invalidWorkflow issues := by
  cases fault <;> simp [code]

theorem isTerminal_ofFault (fault : Fault) : (Status.ofFault fault).isTerminal = true := by
  cases fault <;> rfl

theorem ofFault_ne_completed (fault : Fault) : Status.ofFault fault ≠ .completed := by
  cases fault <;> simp [Status.ofFault]

/-- A fault of a run is not that of a check. -/
theorem OfRun.ne_invalid (h : fault.OfRun) (issues : List Issue) :
    fault ≠ .invalidWorkflow issues := by
  rintro rfl
  cases h with
  | node own => cases own

end Fault

namespace Step.Blameworthy

variable {fault : Fault}

theorem status (h : Blameworthy fault) : Status.ofFault fault = .failed := by
  cases h <;> rfl

theorem ne_invalid (h : Blameworthy fault) (issues : List Issue) :
    fault ≠ .invalidWorkflow issues := by
  rintro rfl
  cases h

end Step.Blameworthy

namespace Response

variable {response : Response} {fault : Fault}

/-- Any fault but that of a check has one entry. -/
theorem detailsOf_eq (other : ∀ issues, fault ≠ .invalidWorkflow issues) :
    detailsOf fault = [fault.details] := by
  cases fault with
  | invalidWorkflow issues => exact absurd rfl (other issues)
  | _ => rfl

namespace Consistent

/-- A good end. -/
theorem of_success (status : response.status = .completed) (success : response.success = true)
    (error : response.error = none) (code : response.errorCode = none)
    (details : response.errorDetails = []) : response.Consistent where
  terminal := by rw [status]; rfl
  success := by simp [success, status]
  clean := by simp [status, error, code, details]
  failed := by simp [success]
  timedOut := by simp [status, code]
  cancelled := by simp [status, code]
  invalid := by simp [code]
  single := by simp [success]

/-- An end with a fault. -/
theorem of_fault (status : response.status = .ofFault fault) (success : response.success = false)
    (error : response.error = some fault.message) (code : response.errorCode = some fault.code)
    (details : response.errorDetails = detailsOf fault)
    (report : ∀ issues, fault = .invalidWorkflow issues →
      ∃ report, response.validation = some report ∧ report.issues = issues) :
    response.Consistent where
  terminal := by rw [status]; exact fault.isTerminal_ofFault
  success := by simp [success, status, fault.ofFault_ne_completed]
  clean := by simp [status, error, fault.ofFault_ne_completed]
  failed := by simp [error, code]
  timedOut := by rw [status, code, Option.some_inj, Fault.code_eq_timeout_iff]
  cancelled := by rw [status, code, Option.some_inj, Fault.code_eq_cancelled_iff]
  invalid := by
    intro coded
    rw [code, Option.some_inj, Fault.code_eq_invalid_iff] at coded
    obtain ⟨issues, rfl⟩ := coded
    obtain ⟨report, checked, rfl⟩ := report issues rfl
    exact ⟨_, checked, details⟩
  single := by
    intro _ coded
    refine ⟨fault.details, details.trans (detailsOf_eq fun issues same => coded ?_)⟩
    rw [code, same]
    rfl

/-- An end with a fault that no check finds. -/
theorem of_other (status : response.status = .ofFault fault) (success : response.success = false)
    (error : response.error = some fault.message) (code : response.errorCode = some fault.code)
    (details : response.errorDetails = detailsOf fault)
    (other : ∀ issues, fault ≠ .invalidWorkflow issues) : response.Consistent :=
  .of_fault status success error code details fun issues same => absurd same (other issues)

end Consistent

end Response

end Stepwise
