import Mathlib.Data.Nat.Notation

/-! Identifiers, instants and the exceptions of the application. A transaction
body that raises is rolled back, so its model is an `Except` computation. -/

namespace Prism

/-- Primary keys. Fresh ones are chosen by the environment and rejected by the
primary-key constraint when already used. -/
abbrev UUID := ℕ

/-- A point of the UTC time line, in microseconds. -/
abbrev Instant := ℕ

/-- `timedelta(seconds=n)`. -/
def seconds (n : ℕ) : ℕ := n * 1000000

inductive ErrorKind where
  | notFound | conflict | unauthorized | forbidden | invalidInput | unavailable
  deriving DecidableEq, Repr

/-- The error codes raised or stored by the modelled operations. -/
inductive Code where
  | accessRevoked | aiConsentRequired | aiContextOrOutputInvalid | aiDailyLimit | aiDisabled
  | aiProviderFailed | aiTimeout | alreadyMember | analysisCanceled | analysisFailed | analysisInProgress
  | analysisNotCompleted | analysisNotFound | analysisRunnerDisabled | analysisTimeout
  | analyzerVersionChanged | configUnsupported | connectionChanged | githubAccessUnavailable
  | githubAppConfigInvalid | githubAppNotConfigured | githubIncompleteFileList
  | githubInvalidPath | githubInvalidResponse | githubRateLimit | githubResponseTooLarge
  | githubSnapshotConflict | githubTimeout | githubUnavailable | githubUserMismatch
  | invalidCursor | invalidRerun
  | invalidReviewPurpose | invitationExists | invitationUnavailable | inviterUnavailable
  | jobNotFound | leaseExpired | leaseLost | noSafeContext | notFound
  | ownerTransferRequired | permissionDenied | prSnapshotRequired | repositoryExists | repositoryInactive
  | repositoryNotFound | reviewInProgress | reviewNotFound | reviewReplayBlocked
  | snapshotChanged | sourceUnavailable | standardConflict | standardLimit | standardNotFound
  | standardsNoMatch | standardsRequiredTooLarge
  | standardsUnavailable | syncInProgress | userCanceled | userUnavailable
  | webhookDeliveryMismatch | workspaceConflict | workspaceNotFound
  deriving DecidableEq, Repr

/-- `AppException`: a public code and message with the kind its HTTP status is
chosen by. -/
structure AppException where
  code : Code
  publicMessage : String
  kind : ErrorKind
  deriving DecidableEq, Repr

/-- `GitHubFailure`, the subclass of `AppException` raised by the GitHub client. -/
structure GitHubFailure where
  code : Code
  retryAfter : Option ℕ
  deriving DecidableEq, Repr

/-- What can end a transaction body early. Only the first two are instances of
`AppException` and are seen by `except AppException`. -/
inductive Failure where
  | app (e : AppException)
  | gitHub (e : GitHubFailure)
  | webhookRejected (code : Code)
  | integrityError
  | indexError
  | assertionError
  deriving DecidableEq, Repr

/-- The code carried by an exception caught as `AppException`. -/
def Failure.appCode? : Failure → Option Code
  | .app e => some e.code
  | .gitHub e => some e.code
  | _ => none

/-- A transaction body: its value, or the exception that rolls it back. -/
abbrev Tx := Except Failure

/-- `assert x` on an optional value, binding the value. -/
def assertSome {α : Type} : Option α → Tx α
  | some a => .ok a
  | none => .error .assertionError

@[simp] theorem assertSome_eq_ok {α : Type} (x : Option α) (a : α) :
    assertSome x = .ok a ↔ x = some a := by
  cases x <;> simp [assertSome]

/-- A sequence of two bodies succeeds exactly when both do. -/
theorem Tx.bind_eq_ok {α β : Type} (x : Tx α) (f : α → Tx β) (b : β) :
    (x >>= f) = .ok b ↔ ∃ a, x = .ok a ∧ f a = .ok b := by
  cases x <;> simp [bind, Except.bind]

theorem Tx.map_eq_ok {α β : Type} (x : Tx α) (f : α → β) (b : β) :
    x.map f = .ok b ↔ ∃ a, x = .ok a ∧ f a = b := by
  cases x <;> simp [Except.map]

end Prism
