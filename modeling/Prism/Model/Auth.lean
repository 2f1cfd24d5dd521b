import Prism.Foundation.Transition
import Prism.Model.Database

/-! Logins, refresh tokens and logouts. A call that needs the lock of a family first reads
the family without it, so other calls can come in between. -/

namespace Prism.Auth

inductive Purpose where
  | oauthLogin | githubInstall
  deriving DecidableEq, Repr

structure LoginAttempt where
  purpose : Purpose
  stateHash : String
  browserBindingHash : String
  createdAt : Instant
  expiresAt : Instant
  consumedAt : Option Instant
  deriving DecidableEq, Repr

inductive RevokeReason where
  | reuse | logout
  deriving DecidableEq, Repr

structure RefreshSession where
  userId : UUID
  tokenHash : String
  familyId : UUID
  createdAt : Instant
  expiresAt : Instant
  rotatedAt : Option Instant
  replacedById : Option UUID
  revokedAt : Option Instant
  revokeReason : Option RevokeReason
  deriving DecidableEq, Repr

/-- The two operations on a presented token. -/
inductive Operation where
  | refresh | logout
  deriving DecidableEq, Repr

/-- What a call waits for: the identity of a consumed login, or the lock of the family
of its token. -/
inductive Call where
  | identifying
  | locking (op : Operation) (hash : String) (family : UUID)
  deriving DecidableEq, Repr

structure State where
  users : Table UUID User
  attempts : Table UUID LoginAttempt
  sessions : Table UUID RefreshSession
  calls : Table ℕ Call

def State.empty : State :=
  ⟨∅, ∅, ∅, ∅⟩

inductive Refusal where
  | authUnavailable | loginRejected | sessionExpired | userUnavailable | providerUnavailable
  | integrityError
  deriving DecidableEq, Repr

/-- What a call gives back. An access token is encoded from the user alone. -/
inductive Reply where
  | done
  | waiting
  | tokens (user : UUID) (refresh : String) (expires : Instant)
  | refused (r : Refusal)
  deriving DecidableEq, Repr

/-- `auth_ready` with its engine and key, and the digest of tokens. -/
structure Settings where
  ready : Bool
  tokenHash : String → String

/-- The clocks of a transaction: Python's and the one of the database. -/
structure Clock where
  now : Instant
  created : Instant
  deriving DecidableEq, Repr

/-- Random values of a new session. -/
structure Fresh where
  id : UUID
  token : String
  deriving DecidableEq, Repr

section Sessions

variable (sessions : Table UUID RefreshSession)

/-- `lock_refresh`: the session of a token. -/
def sessionOf (hash : String) : Option (UUID × RefreshSession) :=
  sessions.find fun _ s => s.tokenHash = hash

/-- Insert a session past the constraints of the table. -/
def insertSession (id : UUID) (s : RefreshSession) : Option (Table UUID RefreshSession) :=
  if (sessions.get id).isSome || sessions.holds (fun _ t => t.tokenHash = s.tokenHash) ||
      s.expiresAt ≤ s.createdAt then none
  else some (sessions.put id s)

def revoked (now : Instant) (reason : RevokeReason) (s : RefreshSession) : RefreshSession :=
  if s.revokedAt.isNone then { s with revokedAt := some now, revokeReason := some reason } else s

def revokeFamily (family : UUID) (now : Instant) (reason : RevokeReason) :
    Table UUID RefreshSession :=
  sessions.mapRows fun _ s => if s.familyId = family then revoked now reason s else s

/-- A current session is replaced by a new one of its family. -/
def rotate (id : UUID) (current : RefreshSession) (hash : String) (fresh : Fresh) (clock : Clock) :
    Option (Table UUID RefreshSession) :=
  let replacement : RefreshSession :=
    { userId := current.userId
      tokenHash := hash
      familyId := current.familyId
      createdAt := clock.created
      expiresAt := current.expiresAt
      rotatedAt := none
      replacedById := none
      revokedAt := none
      revokeReason := none }
  (insertSession sessions fresh.id replacement).map fun sessions =>
    sessions.put id
      { current with rotatedAt := some clock.now, replacedById := some fresh.id }

end Sessions

section Calls

variable (cfg : Settings) (w : State)

/-- A call ends with a refusal and nothing is written. -/
def State.refuse (call : ℕ) (r : Refusal) : Reply × State :=
  (.refused r, { w with calls := w.calls.remove call })

/-- `start`. -/
def start (returnPath : String) (aid : UUID) (state binding : String) (clock : Clock) :
    Reply × State :=
  if ¬cfg.ready then (.refused .authUnavailable, w)
  else if returnPath ≠ "/" then (.refused .loginRejected, w)
  else
    let attempt : LoginAttempt :=
      { purpose := .oauthLogin
        stateHash := cfg.tokenHash state
        browserBindingHash := cfg.tokenHash binding
        createdAt := clock.created
        expiresAt := clock.now + seconds 600
        consumedAt := none }
    if (w.attempts.get aid).isSome || w.attempts.holds (fun _ a => a.stateHash = attempt.stateHash) ||
        attempt.expiresAt ≤ attempt.createdAt then (.refused .integrityError, w)
    else (.done, { w with attempts := w.attempts.put aid attempt })

/-- An attempt `consume_login` marks. -/
def consumable (state binding : String) (now : Instant) (a : LoginAttempt) : Bool :=
  a.stateHash = cfg.tokenHash state && a.browserBindingHash = cfg.tokenHash binding &&
    a.purpose = .oauthLogin && a.consumedAt.isNone && now < a.expiresAt

/-- The first part of `callback`, up to the request to GitHub. -/
def callback (call : ℕ) (code state binding : String) (now : Instant) : Reply × State :=
  if ¬cfg.ready then (.refused .authUnavailable, w)
  else if code = "" ∨ 1024 < code.length ∨ state.length ≠ 43 ∨ binding.length ≠ 43 then
    (.refused .loginRejected, w)
  else match w.attempts.find fun _ a => consumable cfg state binding now a with
    | none => (.refused .loginRejected, w)
    | some (aid, a) =>
      (.waiting, { w with
        attempts := w.attempts.put aid { a with consumedAt := some now }
        calls := w.calls.put call .identifying })

/-- `upsert_identity`: the user of a GitHub account, who has to be active. -/
def upsertIdentity (github : ℕ) (uid : UUID) : Except Refusal (UUID × Table UUID User) :=
  match w.users.find fun _ u => u.githubUserId = github with
  | some (uid, u) => if u.status = .active then .ok (uid, w.users) else .error .userUnavailable
  | none =>
    if (w.users.get uid).isSome then .error .integrityError
    else .ok (uid, w.users.put uid ⟨github, .active, .senior⟩)

/-- The second part of `callback`. `identity` is the account GitHub names, if it does. -/
def identified (call : ℕ) (identity : Option ℕ) (uid family : UUID) (fresh : Fresh)
    (clock : Clock) : Reply × State :=
  match w.calls.get call with
  | some .identifying =>
    match identity with
    | none => w.refuse call .providerUnavailable
    | some github =>
      match upsertIdentity w github uid with
      | .error r => w.refuse call r
      | .ok (uid, users) =>
        let session : RefreshSession :=
          { userId := uid
            tokenHash := cfg.tokenHash fresh.token
            familyId := family
            createdAt := clock.created
            expiresAt := clock.now + seconds 604800
            rotatedAt := none
            replacedById := none
            revokedAt := none
            revokeReason := none }
        match insertSession w.sessions fresh.id session with
        | none => w.refuse call .integrityError
        | some sessions =>
          (.tokens uid fresh.token session.expiresAt,
            { w with users, sessions, calls := w.calls.remove call })
  | _ => (.waiting, w)

/-- What a call answers when its token has no session, or none that is current. -/
def Operation.missing : Operation → Reply
  | refresh => .refused .sessionExpired
  | logout => .done

/-- The part of `refresh` and `logout` before the lock. -/
def present (call : ℕ) (op : Operation) (raw : String) : Reply × State :=
  if ¬cfg.ready then (.refused .authUnavailable, w)
  else if raw.length ≠ 43 then (op.missing, w)
  else match sessionOf w.sessions (cfg.tokenHash raw) with
    | none => (op.missing, w)
    | some (_, s) =>
      (.waiting, { w with
        calls := w.calls.put call (.locking op (cfg.tokenHash raw) s.familyId) })

/-- `refresh` under the lock of the family. -/
def refreshLocked (call : ℕ) (hash : String) (fresh : Fresh) (clock : Clock) : Reply × State :=
  match sessionOf w.sessions hash with
  | none => w.refuse call .sessionExpired
  | some (id, current) =>
    if current.rotatedAt.isSome ∨ current.revokedAt.isSome then
      -- The revocation commits before the error is raised.
      (.refused .sessionExpired, { w with
        sessions := revokeFamily w.sessions current.familyId clock.now .reuse
        calls := w.calls.remove call })
    else if clock.now < current.expiresAt then
      match w.users.get current.userId with
      | none => w.refuse call .userUnavailable
      | some user =>
        if user.status ≠ .active then w.refuse call .userUnavailable
        else match rotate w.sessions id current (cfg.tokenHash fresh.token) fresh clock with
          | none => w.refuse call .integrityError
          | some sessions =>
            (.tokens current.userId fresh.token current.expiresAt,
              { w with sessions, calls := w.calls.remove call })
    else w.refuse call .sessionExpired

/-- `logout` under the lock of the family. -/
def logoutLocked (call : ℕ) (hash : String) (clock : Clock) : Reply × State :=
  (.done, { w with
    sessions := match sessionOf w.sessions hash with
      | none => w.sessions
      | some (_, current) => revokeFamily w.sessions current.familyId clock.now .logout
    calls := w.calls.remove call })

/-- The part of a call that holds the lock, one transaction. -/
def settle (call : ℕ) (fresh : Fresh) (clock : Clock) : Reply × State :=
  match w.calls.get call with
  | some (.locking .refresh hash _) => refreshLocked cfg w call hash fresh clock
  | some (.locking .logout hash _) => logoutLocked w call hash clock
  | _ => (.waiting, w)

end Calls

/-- What the environment can do next. -/
inductive Action where
  | setUser (uid : UUID) (user : User)
  | start (returnPath : String) (aid : UUID) (state binding : String) (clock : Clock)
  | callback (call : ℕ) (code state binding : String) (now : Instant)
  | identified (call : ℕ) (identity : Option ℕ) (uid family : UUID) (fresh : Fresh) (clock : Clock)
  | present (call : ℕ) (op : Operation) (raw : String)
  | settle (call : ℕ) (fresh : Fresh) (clock : Clock)
  | abort (call : ℕ)
  deriving DecidableEq, Repr

/-- Calls have numbers of their own, and the family of a login is new. -/
def allowed (a : Action) (w : State) : Prop :=
  match a with
  | .callback call _ _ _ _ | .present call _ _ => w.calls.get call = none
  | .identified _ _ _ family _ _ => w.sessions.holds (fun _ s => s.familyId = family) = false
  | _ => True

instance (a : Action) (w : State) : Decidable (allowed a w) :=
  match a with
  | .callback _ _ _ _ _ | .present _ _ _ => inferInstanceAs (Decidable (_ = _))
  | .identified _ _ _ _ _ _ => inferInstanceAs (Decidable (_ = _))
  | .setUser _ _ | .start _ _ _ _ _ | .settle _ _ _ | .abort _ => inferInstanceAs (Decidable True)

def step (cfg : Settings) (a : Action) (w : State) : Reply × State :=
  match a with
  | .setUser uid user => (.done, { w with users := w.users.put uid user })
  | .start returnPath aid state binding clock => start cfg w returnPath aid state binding clock
  | .callback call code state binding now => callback cfg w call code state binding now
  | .identified call identity uid family fresh clock =>
    identified cfg w call identity uid family fresh clock
  | .present call op raw => present cfg w call op raw
  | .settle call fresh clock => settle cfg w call fresh clock
  -- A request that is cut off: its transaction is rolled back.
  | .abort call => (.done, { w with calls := w.calls.remove call })

/-- A run of the service. -/
abbrev Run (cfg : Settings) :=
  Transition.Exec (step cfg) allowed State.empty

end Prism.Auth
