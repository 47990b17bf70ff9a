import Privahub.Auth.Password
import Privahub.Lib.Calls
import Privahub.Lib.Table

/-!
# Accounts, sessions and logins

`AuthService` and `UserService` (auth_service.go, auth_session.go, auth_throttle.go, user_service.go), one step for each access to the
database or to the throttle; what a call has read before it carries along. Rows of accounts that are deleted are gone, since no query
finds them. A digest stands for what it is the digest of, and `fresh` numbers what is new: rows, sessions and token ids. The role rows
of a principal give its API resources by `resourcesOf`.
-/

namespace Auth

structure UserAccountsDO where
  id : Nat
  name : Bytes
  passwordHash : Stored
  ownerType : Bytes
  ownerID : Bytes
  passwdResetFailedAttempts : Option Nat
  gmtPasswdResetRelease : Option Nat
  failedAttempts : Option Nat
  lockedInvalidTime : Option Nat
  mustChangePassword : Bool
  passwordVersion : Nat
  authorizationVersion : Nat
  passwordHistory : List Stored
  deriving DecidableEq

/-- What of the identity in `session_data` the claims of a session rest on. -/
structure UserContext where
  userID : Nat
  name : Bytes
  ownerType : Bytes
  ownerID : Bytes
  apiResources : List Bytes
  deriving DecidableEq

/-- `none` stands for an empty text or a missing time. -/
structure UserTokensDO where
  id : Nat
  name : Bytes
  token : Nat
  gmtToken : Option Nat
  sessionData : Option UserContext
  sessionID : Option Nat
  refreshJTI : Option Nat
  pwdVer : Nat
  authorizationVersion : Nat
  gmtRefreshExpire : Option Nat
  deriving DecidableEq

structure Claims where
  jti : Nat
  username : Bytes
  sessionID : Option Nat
  pwdVer : Nat
  expiresAt : Nat
  deriving DecidableEq

structure SysUserPermissionRelDO where
  userType : Bytes
  userKey : Bytes
  targetCode : Bytes
  deriving DecidableEq

inductive ThrottleKey where
  | pair (name ip : Bytes)
  | account (name : Bytes)
  deriving DecidableEq

/-- `lockedUntil` is `none` for the zero time. -/
structure ThrottleEntry where
  count : Nat
  windowEnd : Option Nat
  lockedUntil : Option Nat
  deriving DecidableEq

structure Db where
  accounts : List UserAccountsDO
  sessions : List UserTokensDO
  permissions : List SysUserPermissionRelDO
  issued : List Claims
  throttle : List (ThrottleKey × ThrottleEntry)
  fresh : Nat

def Db.FindByName (db : Db) (name : Bytes) : Option UserAccountsDO := db.accounts.find? fun u => decide (u.name = name)

def Db.updateAccounts (db : Db) (p : UserAccountsDO → Bool) (f : UserAccountsDO → UserAccountsDO) : Db :=
  { db with accounts := Table.updateWhere p f db.accounts }

def Db.updateAccount (db : Db) (id : Nat) (f : UserAccountsDO → UserAccountsDO) : Db := db.updateAccounts (fun u => decide (u.id = id)) f

def Db.deleteSessions (db : Db) (p : UserTokensDO → Bool) : Db := { db with sessions := db.sessions.filter fun r => !p r }

def Db.updateSessions (db : Db) (p : UserTokensDO → Bool) (f : UserTokensDO → UserTokensDO) : Db :=
  { db with sessions := Table.updateWhere p f db.sessions }

def after (now : Nat) (t : Option Nat) : Bool := t.all (· < now)

def before (now : Nat) (t : Option Nat) : Bool := t.any (now < ·)

def maxThrottleEntries : Nat := 100000

namespace Throttle

variable (t : List (ThrottleKey × ThrottleEntry))

def entry (key : ThrottleKey) : Option ThrottleEntry := (t.find? fun e => decide (e.1 = key)).map Prod.snd

def put (key : ThrottleKey) (e : ThrottleEntry) : List (ThrottleKey × ThrottleEntry) := t.filter (fun e => decide (e.1 ≠ key)) ++ [(key, e)]

/-- `every` is the order of the map, whose every second entry goes. -/
def gcLocked (now : Nat) (every : List (ThrottleKey × ThrottleEntry) → List (ThrottleKey × ThrottleEntry)) : List (ThrottleKey × ThrottleEntry) :=
  let live := t.filter fun e => !(after now e.2.windowEnd && after now e.2.lockedUntil)
  if live.length < maxThrottleEntries then live else every live

def isFresh (e : Option ThrottleEntry) (now : Nat) : Bool := e.all fun e => after now e.windowEnd && after now e.lockedUntil

def failEntry (max lock : Nat) (e : Option ThrottleEntry) (now : Nat) : ThrottleEntry :=
  let e := if isFresh e now then ⟨0, none, none⟩ else e.getD ⟨0, none, none⟩
  if before now e.lockedUntil then e
  else if max ≤ e.count + 1 then ⟨0, some (now + lock), some (now + lock)⟩
  else ⟨e.count + 1, some (now + lock), e.lockedUntil⟩

def fail (key : ThrottleKey) (now max lock : Nat) (every : List (ThrottleKey × ThrottleEntry) → List (ThrottleKey × ThrottleEntry)) :
    List (ThrottleKey × ThrottleEntry) :=
  let t' := if isFresh (entry t key) now && decide (maxThrottleEntries ≤ t.length) then gcLocked t now every else t
  put t' key (failEntry max lock (entry t key) now)

def lockedUntil (key : ThrottleKey) (now : Nat) : Option Nat :=
  match entry t key with
  | none => none
  | some e => if before now e.lockedUntil then e.lockedUntil else none

def reset (key : ThrottleKey) : List (ThrottleKey × ThrottleEntry) := t.filter fun e => decide (e.1 ≠ key)

end Throttle

structure Attempt where
  ip : Bytes
  cand : PasswordCandidates
  now : Nat

structure UpdatePasswordRequest where
  name : Bytes
  oldPasswordHash : Bytes
  newPasswordHash : Bytes
  confirmPasswordHash : Bytes
  oldPasswordHashSm3 : Bytes

/-- `none` for a field that is not given. -/
structure UpdateUserRequest where
  name : Bytes
  ownerType : Option Bytes
  ownerID : Option Bytes
  roleCodes : Option (List Bytes)
  nodeIDs : Bool

structure CreateUserRequest where
  name : Bytes
  passwordHash : Bytes
  ownerType : Bytes
  ownerID : Bytes
  roleCodes : List Bytes

inductive Call where
  | login (name : Bytes) (a : Attempt)
  | failUnknown (name : Bytes) (a : Attempt)
  | failUnknownAccount (name : Bytes) (a : Attempt)
  | lockedUntil (u : UserAccountsDO) (a : Attempt)
  | releaseLock (u : UserAccountsDO) (a : Attempt) (locked : Bool)
  | fail (u : UserAccountsDO) (a : Attempt)
  | countFailure (u : UserAccountsDO) (a : Attempt)
  | reset (u : UserAccountsDO) (a : Attempt) (rehash : Bool)
  | resetCounters (u : UserAccountsDO) (a : Attempt) (rehash : Bool)
  | upgrade (u : UserAccountsDO) (a : Attempt)
  | grants (u : UserAccountsDO) (a : Attempt)
  | storeSession (u : UserAccountsDO) (a : Attempt) (apiResources : List Bytes)
  | refreshToken (t : Claims)
  | refreshAccount (t : Claims) (row : UserTokensDO) (now : Nat)
  | refreshSwap (t : Claims) (row : UserTokensDO) (now : Nat)
  | refreshRevoke (t : Claims) (row : UserTokensDO)
  | validateSession (token : Nat)
  | validateAccount (row : UserTokensDO) (now : Nat)
  | slide (row : UserTokensDO) (now : Nat)
  | revokeSession (row : UserTokensDO)
  | logout (name : Bytes) (token : Nat)
  | updatePassword (req : UpdatePasswordRequest)
  | releaseReset (u : UserAccountsDO) (req : UpdatePasswordRequest)
  | saveResetCounters (u : UserAccountsDO)
  | resetPassword (name newPasswordHash : Bytes)
  | applyPasswordChange (u : UserAccountsDO) (clientHash : Bytes) (mustChange : Bool)
  | clearUserSessions (name : Bytes)
  | updateUser (req : UpdateUserRequest)
  | updateUserCommit (u : UserAccountsDO) (req : UpdateUserRequest)
  | deleteUser (name : Bytes)
  | deleteUserCommit (u : UserAccountsDO) (name : Bytes)
  | createUser (req : CreateUserRequest)
  | createUserCommit (req : CreateUserRequest)

def Call.first : Call → Bool
  | .login .. | .refreshToken _ | .validateSession _ | .logout .. | .updatePassword _ | .resetPassword .. | .updateUser _
  | .deleteUser _ | .createUser _ => true
  | _ => false

/-- `compared` is a comparison with the stored hash, of an account that was locked or not. -/
inductive Event where
  | compared (u : UserAccountsDO) (ip : Bytes) (now : Nat) (ok locked : Bool)
  | opened (row : UserTokensDO) (cand : PasswordCandidates)
  | exchanged (jti : Nat)
  | refused (t : Claims)
  | validated (row : UserTokensDO) (uc : UserContext)
  | changed (id : Nat) (clientHash : Bytes)
  deriving DecidableEq

/-- What a step meets: the time, the salt of a new hash and the order of the throttle's map. -/
structure Ending where
  now : Nat
  salt : Bytes
  every : List (ThrottleKey × ThrottleEntry) → List (ThrottleKey × ThrottleEntry)

structure Service where
  kdf : Kdf
  isWeakPasswordHash : Bytes → Bool
  resourcesOf : List Bytes → List Bytes
  maxAttempts : Nat
  accountMaxAttempts : Nat
  lockDuration : Nat
  sessionIdleTimeout : Nat
  resetMaxAttempts : Nat
  resetLock : Nat
  refreshTokenExpiry : Nat

def ownerTypeEdge : Bytes := str "EDGE"

def accountPermissionType (ownerType : Bytes) : Bytes := if ownerType = ownerTypeEdge then str "EDGE_USER" else str "USER"

namespace Service

variable (s : Service)

abbrev Result := Calls.Effect Db Call Event

def judge (db : Db) (u : UserAccountsDO) (a : Attempt) (locked : Bool) : Result :=
  let res := s.kdf.VerifyStoredPassword u.passwordHash a.cand
  let next := if locked then none else if !res.ok then some (.fail u a) else some (.reset u a res.needsRehash)
  ⟨db, next, [.compared u a.ip a.now res.ok locked]⟩

def afterReset (u : UserAccountsDO) (a : Attempt) (rehash : Bool) : Call :=
  if rehash ∧ a.cand.sha256 ≠ [] then .upgrade u a else .grants u a

def QueryAPIResourceCodes (db : Db) (userType userKey : Bytes) : List Bytes :=
  s.resourcesOf ((db.permissions.filter fun p => decide (p.userKey = userKey ∧ p.userType = userType)).map (·.targetCode))

def apiResources (db : Db) (u : UserAccountsDO) : List Bytes :=
  if u.ownerType = ownerTypeEdge then s.QueryAPIResourceCodes db (str "EDGE_USER") u.name else []

def newSession (db : Db) (u : UserAccountsDO) (apiResources : List Bytes) (now : Nat) : UserTokensDO where
  id := db.fresh
  name := u.name
  token := db.fresh
  gmtToken := some now
  sessionData := some ⟨u.id, u.name, u.ownerType, u.ownerID, apiResources⟩
  sessionID := some db.fresh
  refreshJTI := some (db.fresh + 1)
  pwdVer := u.passwordVersion
  authorizationVersion := u.authorizationVersion
  gmtRefreshExpire := some (now + s.refreshTokenExpiry)

def second : Nat := 1000000000

/-- `jwt.NewNumericDate` keeps whole seconds. -/
def numericDate (t : Nat) : Nat := t / second * second

def sessionExpired (row : UserTokensDO) (now : Nat) : Bool :=
  row.gmtToken.all (fun t => decide (s.sessionIdleTimeout < now - t)) || row.gmtRefreshExpire.any (· < now)

def accountState (db : Db) (row : UserTokensDO) : Bool :=
  (db.FindByName row.name).any fun u => u.passwordVersion == row.pwdVer && u.authorizationVersion == row.authorizationVersion

def rotated (row : UserTokensDO) (fresh now : Nat) : UserTokensDO :=
  { row with token := fresh, refreshJTI := some (fresh + 1), gmtToken := some now }

def newClaims (t : Claims) (row : UserTokensDO) (fresh now : Nat) : Claims :=
  { t with jti := fresh + 1, expiresAt := numericDate (min (now + s.refreshTokenExpiry) (row.gmtRefreshExpire.getD t.expiresAt)) }

/-- `newPasswordUpdates` and the columns that `applyPasswordChange` clears. -/
def newPassword (u : UserAccountsDO) (clientHash salt : Bytes) (mustChange : Bool) (row : UserAccountsDO) : UserAccountsDO :=
  { row with
    passwordHash := s.kdf.HashClientPassword clientHash salt
    passwordHistory := (u.passwordHash :: u.passwordHistory).take 3
    passwordVersion := u.passwordVersion + 1
    mustChangePassword := mustChange
    passwdResetFailedAttempts := none
    gmtPasswdResetRelease := none }

def isPasswordReused (u : UserAccountsDO) (clientHash : Bytes) : Bool :=
  (u.passwordHash :: u.passwordHistory).any fun old => (s.kdf.VerifyStoredPassword old ⟨clientHash, []⟩).ok

def newHashAccepted (u : UserAccountsDO) (clientHash : Bytes) : Bool :=
  IsClientHash clientHash && !s.isWeakPasswordHash clientHash && !s.isPasswordReused u clientHash

/-- `UpdatePassword` from the check of the request on. -/
def updateChecked (u : UserAccountsDO) (req : UpdatePasswordRequest) (now : Nat) : Option Call :=
  if req.newPasswordHash ≠ req.confirmPasswordHash then none
  else if req.oldPasswordHash = req.newPasswordHash then none
  else if (s.kdf.VerifyStoredPassword u.passwordHash ⟨req.oldPasswordHash, req.oldPasswordHashSm3⟩).ok then
    if s.newHashAccepted u req.newPasswordHash then some (.applyPasswordChange u req.newPasswordHash false) else none
  else
    let attempts := (u.passwdResetFailedAttempts.getD 0) + 1
    let release := if s.resetMaxAttempts ≤ attempts then some (now + s.resetLock) else u.gmtPasswdResetRelease
    some (.saveResetCounters { u with passwdResetFailedAttempts := some attempts, gmtPasswdResetRelease := release })

/-- `db.Save`: the whole row, which is inserted where it is missing. -/
def saveAccount (db : Db) (u : UserAccountsDO) : Db :=
  if db.accounts.any fun v => decide (v.id = u.id) then db.updateAccount u.id fun _ => u
  else { db with accounts := Table.insertBy (fun v => (v.id : Int)) u db.accounts }

def isRoleOf (name : Bytes) (p : SysUserPermissionRelDO) : Bool :=
  decide (p.userKey = name ∧ (p.userType = str "USER" ∨ p.userType = str "EDGE_USER"))

def updatedAccount (req : UpdateUserRequest) (u : UserAccountsDO) : UserAccountsDO :=
  { u with
    ownerType := req.ownerType.getD u.ownerType
    ownerID := req.ownerID.getD u.ownerID
    authorizationVersion := u.authorizationVersion + 1 }

def updatedRoles (u : UserAccountsDO) (req : UpdateUserRequest) (ps : List SysUserPermissionRelDO) : List SysUserPermissionRelDO :=
  match req.roleCodes with
  | some codes => (ps.filter fun p => !isRoleOf req.name p) ++
      codes.dedup.map fun code => ⟨accountPermissionType (req.ownerType.getD u.ownerType), req.name, code⟩
  | none => match req.ownerType with
    | some ownerType => Table.updateWhere (isRoleOf req.name) (fun p => { p with userType := accountPermissionType ownerType }) ps
    | none => ps

/-- The transaction of `UpdateUser`. -/
def commitUpdate (db : Db) (u : UserAccountsDO) (req : UpdateUserRequest) : Db :=
  if req.ownerType.isSome ∨ req.ownerID.isSome ∨ req.roleCodes.isSome ∨ req.nodeIDs then
    let db := db.updateAccount u.id (updatedAccount req)
    let db := { db with permissions := updatedRoles u req db.permissions }
    db.deleteSessions fun r => decide (r.name = req.name)
  else db

/-- The transaction of `DeleteUser`. -/
def commitDelete (db : Db) (u : UserAccountsDO) (name : Bytes) : Db :=
  let db := { db with permissions := db.permissions.filter fun p => !isRoleOf name p }
  let db := db.deleteSessions fun r => decide (r.name = name)
  { db with accounts := db.accounts.filter fun v => decide (v.id ≠ u.id) }

def newAccount (db : Db) (req : CreateUserRequest) (salt : Bytes) : UserAccountsDO where
  id := db.fresh
  name := req.name
  passwordHash := s.kdf.HashClientPassword req.passwordHash salt
  ownerType := req.ownerType
  ownerID := req.ownerID
  passwdResetFailedAttempts := none
  gmtPasswdResetRelease := none
  failedAttempts := none
  lockedInvalidTime := none
  mustChangePassword := true
  passwordVersion := 0
  authorizationVersion := 0
  passwordHistory := []

/-- The transaction of `CreateUser`. -/
def commitCreate (db : Db) (req : CreateUserRequest) (salt : Bytes) : Db :=
  { db with
    accounts := db.accounts ++ [s.newAccount db req salt]
    permissions := db.permissions ++ req.roleCodes.map fun code => ⟨accountPermissionType req.ownerType, req.name, code⟩
    fresh := db.fresh + 1 }

def exec (db : Db) (c : Call) (x : Ending) : Result :=
  match c with
  | .login name a =>
    match db.FindByName name with
    | none => ⟨db, some (.failUnknown name a), []⟩
    | some u => ⟨db, some (.lockedUntil u a), []⟩
  | .failUnknown name a =>
    ⟨{ db with throttle := Throttle.fail db.throttle (.pair name a.ip) a.now s.maxAttempts s.lockDuration x.every },
      some (.failUnknownAccount name a), []⟩
  | .failUnknownAccount name a =>
    ⟨{ db with throttle := Throttle.fail db.throttle (.account name) a.now s.accountMaxAttempts s.lockDuration x.every }, none, []⟩
  | .lockedUntil u a =>
    let pair := (Throttle.lockedUntil db.throttle (.pair u.name a.ip) a.now).isSome
    match u.lockedInvalidTime with
    | none => s.judge db u a pair
    | some t => if a.now < t then s.judge db u a true else ⟨db, some (.releaseLock u a pair), []⟩
  | .releaseLock u a locked =>
    s.judge (db.updateAccount u.id fun v => { v with failedAttempts := none, lockedInvalidTime := none })
      { u with failedAttempts := none, lockedInvalidTime := none } a locked
  | .fail u a =>
    ⟨{ db with throttle := Throttle.fail db.throttle (.pair u.name a.ip) a.now s.maxAttempts s.lockDuration x.every },
      some (.countFailure u a), []⟩
  | .countFailure u a =>
    let attempts := (u.failedAttempts.getD 0) + 1
    ⟨db.updateAccount u.id fun v => { v with
        failedAttempts := some attempts
        lockedInvalidTime := if s.accountMaxAttempts ≤ attempts then some (a.now + s.lockDuration) else v.lockedInvalidTime }, none, []⟩
  | .reset u a rehash =>
    let next := if u.failedAttempts.isSome ∨ u.lockedInvalidTime.isSome then .resetCounters u a rehash else afterReset u a rehash
    ⟨{ db with throttle := Throttle.reset db.throttle (.pair u.name a.ip) }, some next, []⟩
  | .resetCounters u a rehash =>
    ⟨db.updateAccount u.id fun v => { v with failedAttempts := none, lockedInvalidTime := none }, some (afterReset u a rehash), []⟩
  | .upgrade u a =>
    ⟨db.updateAccounts (fun v => decide (v.name = u.name)) fun v => { v with passwordHash := s.kdf.HashClientPassword a.cand.sha256 x.salt },
      some (.grants u a), []⟩
  | .grants u a => ⟨db, some (.storeSession u a (s.apiResources db u)), []⟩
  | .storeSession u a apiResources =>
    let row := s.newSession db u apiResources x.now
    ⟨{ db with
        sessions := db.sessions ++ [row]
        issued := ⟨db.fresh + 1, u.name, some db.fresh, u.passwordVersion, numericDate (x.now + s.refreshTokenExpiry)⟩ :: db.issued
        fresh := db.fresh + 2 }, none, [.opened row a.cand]⟩
  | .refreshToken t =>
    if t ∉ db.issued ∨ t.expiresAt ≤ x.now then ⟨db, none, []⟩
    else if t.sessionID = none then ⟨db, none, [.refused t]⟩
    else match db.sessions.find? fun r => decide (r.name = t.username ∧ r.sessionID = t.sessionID) with
      | none => ⟨db, none, [.refused t]⟩
      | some row =>
        if row.refreshJTI.isSome ∧ row.refreshJTI ≠ some t.jti then ⟨db, some (.refreshRevoke t row), []⟩
        else if s.sessionExpired row x.now then ⟨db, some (.refreshRevoke t row), []⟩
        else ⟨db, some (.refreshAccount t row x.now), []⟩
  | .refreshAccount t row now =>
    if accountState db row ∧ row.pwdVer = t.pwdVer then ⟨db, some (.refreshSwap t row now), []⟩ else ⟨db, some (.refreshRevoke t row), []⟩
  | .refreshSwap t row now =>
    if db.sessions.any fun r => decide (r.id = row.id ∧ r.refreshJTI = row.refreshJTI) then
      let db' := db.updateSessions (fun r => decide (r.id = row.id ∧ r.refreshJTI = row.refreshJTI)) fun r => rotated r db.fresh now
      ⟨{ db' with issued := s.newClaims t row db.fresh x.now :: db.issued, fresh := db.fresh + 2 }, none, [.exchanged t.jti]⟩
    else ⟨db, some (.refreshRevoke t row), []⟩
  | .refreshRevoke t row => ⟨db.deleteSessions fun r => decide (r.id = row.id), none, [.refused t]⟩
  | .validateSession token =>
    match db.sessions.find? fun r => decide (r.token = token) with
    | none => ⟨db, none, []⟩
    | some row => if s.sessionExpired row x.now then ⟨db, some (.revokeSession row), []⟩ else ⟨db, some (.validateAccount row x.now), []⟩
  | .validateAccount row now =>
    if accountState db row then
      let slides := row.gmtToken.any fun t => decide (60 * second < now - t)
      ⟨db, if slides then some (.slide row now) else none, match row.sessionData with
        | some uc => [.validated row uc]
        | none => []⟩
    else ⟨db, some (.revokeSession row), []⟩
  | .slide row now => ⟨db.updateSessions (fun r => decide (r.id = row.id)) fun r => { r with gmtToken := some now }, none, []⟩
  | .revokeSession row => ⟨db.deleteSessions fun r => decide (r.id = row.id), none, []⟩
  | .logout name token => ⟨db.deleteSessions fun r => decide (r.name = name ∧ r.token = token), none, []⟩
  | .updatePassword req =>
    if req.oldPasswordHash = [] ∨ req.newPasswordHash = [] ∨ req.confirmPasswordHash = [] then ⟨db, none, []⟩
    else match db.FindByName req.name with
      | none => ⟨db, none, []⟩
      | some u =>
        match u.gmtPasswdResetRelease with
        | none => ⟨db, s.updateChecked u req x.now, []⟩
        | some t =>
          if x.now < t then
            if u.passwdResetFailedAttempts.any (s.resetMaxAttempts ≤ ·) then ⟨db, none, []⟩ else ⟨db, s.updateChecked u req x.now, []⟩
          else ⟨db, some (.releaseReset u req), []⟩
  | .releaseReset u req =>
    let u := { u with gmtPasswdResetRelease := none, passwdResetFailedAttempts := none }
    ⟨saveAccount db u, s.updateChecked u req x.now, []⟩
  | .saveResetCounters u =>
    ⟨db.updateAccount u.id fun v => { v with
      passwdResetFailedAttempts := u.passwdResetFailedAttempts, gmtPasswdResetRelease := u.gmtPasswdResetRelease }, none, []⟩
  | .resetPassword name newPasswordHash =>
    match db.FindByName name with
    | none => ⟨db, none, []⟩
    | some u =>
      ⟨db, if s.newHashAccepted u newPasswordHash then some (.applyPasswordChange u newPasswordHash true) else none, []⟩
  | .applyPasswordChange u clientHash mustChange =>
    ⟨db.updateAccount u.id (s.newPassword u clientHash x.salt mustChange), some (.clearUserSessions u.name), [.changed u.id clientHash]⟩
  | .clearUserSessions name => ⟨db.deleteSessions fun r => decide (r.name = name), none, []⟩
  | .updateUser req =>
    match db.FindByName req.name with
    | none => ⟨db, none, []⟩
    | some u => ⟨db, some (.updateUserCommit u req), []⟩
  | .updateUserCommit u req => ⟨commitUpdate db u req, none, []⟩
  | .deleteUser name =>
    match db.FindByName name with
    | none => ⟨db, none, []⟩
    | some u => ⟨db, some (.deleteUserCommit u name), []⟩
  | .deleteUserCommit u name => ⟨commitDelete db u name, none, []⟩
  | .createUser req =>
    match db.FindByName req.name with
    | some _ => ⟨db, none, []⟩
    | none => ⟨db, if IsClientHash req.passwordHash ∧ !s.isWeakPasswordHash req.passwordHash then some (.createUserCommit req) else none, []⟩
  | .createUserCommit req => ⟨s.commitCreate db req x.salt, none, []⟩

abbrev World := Calls.World Db Call Event

abbrev Action := Calls.Action Call Ending

def step : World → Action → Option World := Calls.step Call.first s.exec

end Service

def plainKdf : Kdf := ⟨fun _ p _ => p, 1, id⟩

def office (refreshTokenExpiry : Nat) : Service where
  kdf := plainKdf
  isWeakPasswordHash := fun _ => false
  resourcesOf := id
  maxAttempts := 5
  accountMaxAttempts := 20
  lockDuration := 1800 * Service.second
  sessionIdleTimeout := 1800 * Service.second
  resetMaxAttempts := 3
  resetLock := 3600 * Service.second
  refreshTokenExpiry := refreshTokenExpiry

def alice : UserAccountsDO where
  id := 1
  name := str "alice"
  passwordHash := .kdf [] 1 (str "first")
  ownerType := str "CENTER"
  ownerID := str "kuscia-system"
  passwdResetFailedAttempts := none
  gmtPasswdResetRelease := none
  failedAttempts := none
  lockedInvalidTime := none
  mustChangePassword := false
  passwordVersion := 0
  authorizationVersion := 0
  passwordHistory := []

def officeDb (u : UserAccountsDO) : Db := ⟨[u], [], [], [], [], 2⟩

def steps (i n now : Nat) : List Service.Action := List.replicate n (.exec i ⟨now, [], id⟩)

def logIn (i : Nat) (password : Bytes) (now : Nat) : Service.Action := .start i (.login (str "alice") ⟨str "10.0.0.9", ⟨password, []⟩, now⟩)

end Auth
