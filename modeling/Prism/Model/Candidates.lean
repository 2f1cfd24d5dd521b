import Mathlib.Data.Int.Notation
import Prism.Model.Exception

/-! The repositories a user can connect, as `repository/github.py` collects them. An entry of a
listing is given by what it validates as, or as nothing. -/

namespace Prism.Candidates

/-- `RemoteRepository` -/
structure RemoteRepository where
  id : ℕ
  name : String
  ownerLogin : String
  isPrivate : Bool
  defaultBranch : Option String
  admin : Bool
  deriving DecidableEq, Repr

/-- `Installation` -/
structure Installation where
  id : ℕ
  appId : ℤ
  suspendedAt : Option String
  permissions : List (String × String)
  deriving DecidableEq, Repr

/-- `CandidateRepository` -/
structure CandidateRepository where
  githubRepositoryId : ℕ
  installationId : ℕ
  ownerLogin : String
  repositoryName : String
  isPrivate : Bool
  defaultBranch : Option String
  admin : Bool
  deriving DecidableEq, Repr

structure CandidateList where
  items : List CandidateRepository
  truncated : Bool
  skippedInstallations : ℕ
  deriving DecidableEq, Repr

def maxInstallations : ℕ := 20

def maxCandidates : ℕ := 300

def requiredPermissions : List String :=
  ["contents", "pull_requests", "issues"]

/-- What the requests of `collect` are answered with; no listing stands for a body of another
shape. -/
structure Replies where
  user : Tx (Option ℤ)
  installations : Tx (Option (List (Option Installation)))
  repositories : ℕ → ℕ → Tx (Option (List (Option RemoteRepository)))

def invalidResponse : Failure :=
  .gitHub ⟨.githubInvalidResponse, none⟩

def userMismatch : Failure :=
  .gitHub ⟨.githubUserMismatch, none⟩

def listed {α : Type} : Option (List α) → Tx (List α)
  | some entries => .ok entries
  | none => .error invalidResponse

/-- Whether the app may read an installation. -/
def usable (appId : ℤ) (i : Installation) : Bool :=
  i.appId = appId && !(i.suspendedAt.any fun at' => at' ≠ "") &&
    requiredPermissions.all fun p =>
      i.permissions.lookup p = some "read" || i.permissions.lookup p = some "write"

/-- `items` and `truncated` while the listings are read. -/
structure Collecting where
  items : List CandidateRepository
  truncated : Bool

def candidate (installation : ℕ) (r : RemoteRepository) : CandidateRepository where
  githubRepositoryId := r.id
  installationId := installation
  ownerLogin := r.ownerLogin
  repositoryName := r.name
  isPrivate := r.isPrivate
  defaultBranch := r.defaultBranch
  admin := r.admin

def Collecting.add (installation : ℕ) (s : Collecting) : Option RemoteRepository → Collecting
  | none => s
  | some r =>
    if s.items.any fun item => item.githubRepositoryId = r.id then s
    else if maxCandidates ≤ s.items.length then { s with truncated := true }
    else { s with items := s.items ++ [candidate installation r] }

/-- The pages of an installation. When none of them is short, there may be another one. -/
def readPages (replies : Replies) (installation : ℕ) : List ℕ → Collecting → Tx Collecting
  | [], s => .ok { s with truncated := true }
  | page :: pages, s => do
    let entries ← listed (← replies.repositories installation page)
    let s := entries.foldl (Collecting.add installation) s
    if entries.length < 100 then .ok s else readPages replies installation pages s

def readInstallations (replies : Replies) : List Installation → Collecting → Tx Collecting
  | [], s => .ok s
  | i :: rest, s => do
    let s ← readPages replies i.id [1, 2, 3] s
    readInstallations replies rest s

/-- `collect`, after the user's token was obtained. -/
def collect (replies : Replies) (appId expectedUser : ℤ) : Tx CandidateList := do
  let user ← replies.user
  if user ≠ some expectedUser then .error userMismatch
  else
    let entries ← listed (← replies.installations)
    let accepted := (entries.filterMap id).filter (usable appId)
    let s ← readInstallations replies (accepted.take maxInstallations)
      ⟨[], decide (maxInstallations < accepted.length)⟩
    .ok ⟨s.items, s.truncated, entries.length - accepted.length⟩

end Prism.Candidates
