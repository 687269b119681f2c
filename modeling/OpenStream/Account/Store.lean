import OpenStream.Lib.Keyed
import OpenStream.Lib.Table
import Mathlib.Tactic.Ring

/-!
# The account store

Accounts, their devices and their tokens, as the control plane keeps them.

* `AccountStore`: accounts and devices are kept in ordered maps under their own identifiers, here
  lists of records that know their key.

Instants are milliseconds. `Draws` is what a call gets from the platform: identifiers, a key, and how
its saves end. A digest is that of an ideal hash: it is known by its only preimage. Key derivation
happens before a call; the store compares what was derived.
-/

namespace OpenStream.Account

def MAX_ACCOUNTS : ℕ := 10000

def MAX_DEVICES_PER_ACCOUNT : ℕ := 256

def MAX_REFRESH_TOKENS_PER_ACCOUNT : ℕ := 16

def MAX_RETIRED_REFRESH_TOKENS_PER_ACCOUNT : ℕ := 256

def USERNAME_MIN_BYTES : ℕ := 3

def USERNAME_MAX_BYTES : ℕ := 128

def DEVICE_ID_MAX_BYTES : ℕ := 128

def DEVICE_NAME_MAX_BYTES : ℕ := 128

def PLATFORM_MAX_BYTES : ℕ := 64

/-- How far a device's proof may be from the service's clock, in either direction. -/
def DEVICE_AUTH_WINDOW_MS : ℕ := 30000

def MAX_DEVICE_AUTH_NONCES : ℕ := 100000

def ACCESS_TOKEN_TTL_MS : ℕ := 15 * 60 * 1000

def REFRESH_TOKEN_TTL_MS : ℕ := 30 * 24 * 60 * 60 * 1000

def REFRESH_RETRY_GRACE_MS : ℕ := ACCESS_TOKEN_TTL_MS

def PBKDF2_ITERATIONS_CURRENT : ℕ := 600000

def U64_MAX : ℕ := 2 ^ 64 - 1

def saturatingAdd (a b : ℕ) : ℕ := min (a + b) U64_MAX

/-! ## Texts -/

abbrev Text := List Char

def byteLen (t : Text) : ℕ := (t.map Char.utf8Size).sum

def isControl (c : Char) : Bool := c.toNat < 0x20 || (0x7f ≤ c.toNat && c.toNat ≤ 0x9f)

def isWhitespace (c : Char) : Bool :=
  let n := c.toNat
  (0x09 ≤ n && n ≤ 0x0d) || n = 0x20 || n = 0x85 || n = 0xa0 || n = 0x1680 ||
    (0x2000 ≤ n && n ≤ 0x200a) || n = 0x2028 || n = 0x2029 || n = 0x202f || n = 0x205f || n = 0x3000

def isAsciiHexdigit (c : Char) : Bool :=
  let n := c.toNat
  (0x30 ≤ n && n ≤ 0x39) || (0x41 ≤ n && n ≤ 0x46) || (0x61 ≤ n && n ≤ 0x66)

structure Digest where
  preimage : Text
  deriving DecidableEq

def tokenDigest (t : Text) : Digest := ⟨t⟩

/-! ## Records -/

inductive DeviceTrust
  | pending
  | trusted
  | revoked
  deriving DecidableEq

structure DeviceRegistration where
  deviceId : Text
  name : Text
  platform : Text
  /-- Thirty-two bytes, as a number. -/
  publicKey : ℕ
  deriving DecidableEq

structure DeviceRecord where
  registration : DeviceRegistration
  trust : DeviceTrust
  enrolledAtMs : ℕ
  lastSeenMs : Option ℕ
  /-- `none`: enrolled before there were grant keys. -/
  grantKey : Option ℕ
  deriving DecidableEq

def DeviceRecord.id (d : DeviceRecord) : Text := d.registration.deviceId

structure RefreshTokenRecord where
  digest : Digest
  deviceId : Option Text
  /-- One sign-in starts a family; every rotation extends it. -/
  familyId : Text
  generation : ℕ
  issuedAtMs : ℕ
  expiresAtMs : ℕ
  deriving DecidableEq

structure RetiredRefreshToken where
  digest : Digest
  familyId : Text
  expiresAtMs : ℕ
  retryKey : Option Digest
  retiredAtMs : ℕ
  successor : Option Digest
  deriving DecidableEq

structure AccountRecord where
  accountId : Text
  username : Text
  passwordSalt : ℕ
  passwordHash : ℕ
  passwordScheme : ℕ
  createdAtMs : ℕ
  devices : List DeviceRecord
  refreshTokens : List RefreshTokenRecord
  retiredRefreshTokens : List RetiredRefreshToken
  deriving DecidableEq

structure AccountPrincipal where
  accountId : Text
  deviceId : Option Text
  deriving DecidableEq

structure AccessTokenRecord where
  principal : AccountPrincipal
  familyId : Text
  expiresAtMs : ℕ
  deriving DecidableEq

/-- Accounts, and the access tokens in use. -/
structure AccountStore where
  accounts : List AccountRecord
  accessTokens : Table Digest AccessTokenRecord
  /-- The nonces of device proofs accepted, with the time of each. -/
  deviceAuthNonces : Table ℕ ℕ
  /-- What was saved last. -/
  file : List AccountRecord

structure PublicUser where
  accountId : Text
  username : Text
  createdAtMs : ℕ
  deriving DecidableEq

structure PublicDevice where
  deviceId : Text
  name : Text
  platform : Text
  trust : DeviceTrust
  enrolledAtMs : ℕ
  lastSeenMs : Option ℕ
  deriving DecidableEq

structure IssuedTokens where
  accessToken : Text
  refreshToken : Text
  user : PublicUser
  device : Option PublicDevice
  deriving DecidableEq

structure DeviceCredential where
  accessToken : Text
  user : PublicUser
  device : PublicDevice
  deriving DecidableEq

inductive ControlPlaneError
  | invalidInput (reason : String)
  | alreadyExists
  | notFound
  | unauthorized
  | deviceIdentityRevoked (accountId deviceId : Text)
  | devicePending
  | deviceRevoked
  | invalidStore
  | internal (reason : String)
  | io
  | json
  deriving DecidableEq

/-- What a call gets from the platform. -/
structure Draws where
  accountId : Text
  familyId : Text
  accessToken : Text
  refreshToken : Text
  /-- `none`: there was no entropy. -/
  grantKey : Option ℕ
  /-- How the first save of the call ends, and the second. -/
  save : Option ControlPlaneError
  save' : Option ControlPlaneError

abbrev Outcome (α : Type) := AccountStore × Except ControlPlaneError α

def Outcome.andThen {α β : Type} (r : Outcome α) (f : AccountStore → α → Outcome β) : Outcome β :=
  match r with
  | (st, .ok a) => f st a
  | (st, .error e) => (st, .error e)

/-! ## Validation -/

def validUsername (t : Text) : Bool :=
  USERNAME_MIN_BYTES ≤ byteLen t && byteLen t ≤ USERNAME_MAX_BYTES && !t.any isControl &&
    !t.any isWhitespace

def validToken (t : Text) : Bool := !t.isEmpty && byteLen t ≤ 128 && t.all isAsciiHexdigit

def validDeviceRegistration (d : DeviceRegistration) : Bool :=
  !d.deviceId.isEmpty && byteLen d.deviceId ≤ DEVICE_ID_MAX_BYTES &&
    !d.name.isEmpty && byteLen d.name ≤ DEVICE_NAME_MAX_BYTES &&
    !d.platform.isEmpty && byteLen d.platform ≤ PLATFORM_MAX_BYTES &&
    !d.deviceId.any isControl && !d.name.any isControl && !d.platform.any isControl &&
    d.publicKey ≠ 0

def invalidUsername : ControlPlaneError := .invalidInput "username is invalid"

def invalidDevice : ControlPlaneError := .invalidInput "device registration is invalid"

def deviceLimit : ControlPlaneError := .invalidInput "device limit reached"

def noGrantKey : ControlPlaneError := .internal "could not draw a device grant key"

def publicUser (a : AccountRecord) : PublicUser := ⟨a.accountId, a.username, a.createdAtMs⟩

def publicDevice (d : DeviceRecord) : PublicDevice :=
  ⟨d.registration.deviceId, d.registration.name, d.registration.platform, d.trust, d.enrolledAtMs,
    d.lastSeenMs⟩

namespace AccountRecord

variable (a : AccountRecord)

def device (id : Text) : Option DeviceRecord := Keyed.get DeviceRecord.id a.devices id

def dropDeviceTokens (deviceId : Text) : AccountRecord :=
  { a with refreshTokens := a.refreshTokens.filter fun t => t.deviceId ≠ some deviceId }

def dropFamily (familyId : Text) : AccountRecord :=
  { a with
    refreshTokens := a.refreshTokens.filter fun t => t.familyId ≠ familyId
    retiredRefreshTokens := a.retiredRefreshTokens.filter fun t => t.familyId ≠ familyId }

/-- Forget what has expired, then the oldest beyond the bound. -/
def pruneRetired (now : ℕ) : AccountRecord :=
  let kept := a.retiredRefreshTokens.filter fun t => now < t.expiresAtMs
  { a with retiredRefreshTokens := kept.drop (kept.length - MAX_RETIRED_REFRESH_TOKENS_PER_ACCOUNT) }

def pruneRefresh (now : ℕ) : AccountRecord :=
  let kept := a.refreshTokens.filter fun t => now < t.expiresAtMs
  { a with refreshTokens := kept.drop (kept.length - MAX_REFRESH_TOKENS_PER_ACCOUNT) }

def consume (digest : Digest) : AccountRecord :=
  { a with refreshTokens := a.refreshTokens.eraseP fun t => t.digest = digest }

/-- A consumed token becomes a tombstone with the expiry of the token. -/
def entomb (record : RefreshTokenRecord) (retryKey : Option Digest) (now : ℕ) : AccountRecord :=
  { a with retiredRefreshTokens := a.retiredRefreshTokens ++
      [⟨record.digest, record.familyId, record.expiresAtMs, retryKey, now, none⟩] }

def addRefresh (record : RefreshTokenRecord) (successorOf : List Digest) : AccountRecord :=
  { a with
    retiredRefreshTokens := a.retiredRefreshTokens.map fun t =>
      if t.digest ∈ successorOf then { t with successor := some record.digest } else t
    refreshTokens := a.refreshTokens ++ [record] }

end AccountRecord

namespace AccountStore

variable (st : AccountStore)

def empty : AccountStore := ⟨[], ∅, ∅, []⟩

def account (id : Text) : Option AccountRecord := Keyed.get AccountRecord.accountId st.accounts id

def modifyAccount (id : Text) (f : AccountRecord → AccountRecord) : AccountStore :=
  { st with accounts := Keyed.modify AccountRecord.accountId st.accounts id f }

def trustOf (accountId deviceId : Text) : Option DeviceTrust :=
  ((st.account accountId).bind fun a => a.device deviceId).map DeviceRecord.trust

def save (outcome : Option ControlPlaneError) : Outcome Unit :=
  match outcome with
  | none => ({ st with file := st.accounts }, .ok ())
  | some e => (st, .error e)

/-! ## Tokens -/

def forgetExpiredAccessTokens (now : ℕ) : AccountStore :=
  { st with accessTokens := Table.retain (fun _ t => now < t.expiresAtMs) st.accessTokens }

def insertAccess (token : Text) (record : AccessTokenRecord) : AccountStore :=
  { st with accessTokens := st.accessTokens.insert (tokenDigest token) record }

def issueTokensInFamily (accountId : Text) (deviceId : Option Text) (familyId : Text)
    (generation : ℕ) (successorOf : List Digest) (now : ℕ) (draws : Draws)
    (save : Option ControlPlaneError) : Outcome IssuedTokens :=
  let st := (st.forgetExpiredAccessTokens now).insertAccess draws.accessToken
    ⟨⟨accountId, deviceId⟩, familyId, saturatingAdd now ACCESS_TOKEN_TTL_MS⟩
  match st.account accountId with
  | none => (st, .error .notFound)
  | some account =>
    let st := st.modifyAccount accountId fun a => (a.addRefresh ⟨tokenDigest draws.refreshToken,
      deviceId, familyId, generation, now, saturatingAdd now REFRESH_TOKEN_TTL_MS⟩
      successorOf).pruneRefresh now
    (st.save save).andThen fun st _ => (st, .ok ⟨draws.accessToken, draws.refreshToken,
      publicUser account, (deviceId.bind account.device).map publicDevice⟩)

/-- A fresh token pair at the head of a new family. -/
def issueTokens (accountId : Text) (deviceId : Option Text) (now : ℕ) (draws : Draws)
    (save : Option ControlPlaneError) : Outcome IssuedTokens :=
  st.issueTokensInFamily accountId deviceId draws.familyId 0 [] now draws save

def invalidateDeviceTokens (accountId deviceId : Text) : AccountStore :=
  { st with accessTokens := Table.retain (fun _ t =>
      t.principal.accountId ≠ accountId || t.principal.deviceId ≠ some deviceId) st.accessTokens
    }.modifyAccount accountId fun a => a.dropDeviceTokens deviceId

/-- Condemn every credential of one family. -/
def revokeRefreshFamily (accountId familyId : Text) : AccountStore :=
  { st with accessTokens := Table.retain (fun _ t =>
      t.principal.accountId ≠ accountId || t.familyId ≠ familyId) st.accessTokens
    }.modifyAccount accountId fun a => a.dropFamily familyId

def findRetiredFamily (digest : Digest) (now : ℕ) : Option (Text × Text) :=
  st.accounts.findSome? fun a =>
    (a.retiredRefreshTokens.find? fun t => t.digest = digest && now < t.expiresAtMs).map
      fun t => (a.accountId, t.familyId)

def unusedSuccessor (accountId : Text) (retired : Digest) (retryKey : Option Digest) (now : ℕ) :
    Option Digest :=
  retryKey.bind fun key => (st.account accountId).bind fun account =>
    (account.retiredRefreshTokens.find? fun t => t.digest = retired).bind fun tombstone =>
      if tombstone.retryKey ≠ some key || REFRESH_RETRY_GRACE_MS < now - tombstone.retiredAtMs then
        none
      else tombstone.successor.filter fun successor =>
        account.refreshTokens.any fun live => live.digest = successor && now < live.expiresAtMs

def completeRotation (accountId : Text) (record : RefreshTokenRecord) (relink : List Digest)
    (now : ℕ) (draws : Draws) : Outcome IssuedTokens :=
  let issue := ((st.modifyAccount accountId fun a => a.pruneRetired now).save draws.save).andThen
    fun st _ => st.issueTokensInFamily accountId record.deviceId record.familyId
      (saturatingAdd record.generation 1) relink now draws draws.save'
  match record.deviceId with
  | none => issue
  | some deviceId =>
    match st.trustOf accountId deviceId with
    | none => (st, .error .unauthorized)
    | some .trusted => issue
    | some .pending => ((st.invalidateDeviceTokens accountId deviceId).save draws.save).andThen
        fun st _ => (st, .error .devicePending)
    | some .revoked => ((st.invalidateDeviceTokens accountId deviceId).save draws.save).andThen
        fun st _ => (st, .error .deviceRevoked)

/-- Consume the live token with a digest and put a new pair in its place. -/
def rotate (digest : Digest) (relink : List Digest) (retryDigest : Option Digest) (now : ℕ)
    (draws : Draws) : Outcome IssuedTokens :=
  let found := st.accounts.findSome? fun a =>
    (a.refreshTokens.find? fun t => t.digest = digest).map fun t => (a.accountId, t)
  match found with
  | none => (st, .error .unauthorized)
  | some (accountId, record) =>
    if record.expiresAtMs ≤ now then
      ((st.modifyAccount accountId fun a => a.consume digest).save draws.save).andThen
        fun st _ => (st, .error .unauthorized)
    else
      (st.modifyAccount accountId fun a =>
        (a.consume digest).entomb record retryDigest now).completeRotation accountId record relink
          now draws

def refreshWithRetryKey (refreshToken : Text) (retryKey : Option Text) (now : ℕ) (draws : Draws) :
    Outcome IssuedTokens :=
  if !validToken refreshToken || !retryKey.all validToken then (st, .error .unauthorized)
  else
    let retryDigest := retryKey.map tokenDigest
    let digest := tokenDigest refreshToken
    match st.findRetiredFamily digest now with
    | none => st.rotate digest [digest] retryDigest now draws
    | some (accountId, familyId) =>
      match st.unusedSuccessor accountId digest retryDigest now with
      | some successor => st.rotate successor [digest, successor] retryDigest now draws
      | none => ((st.revokeRefreshFamily accountId familyId).save draws.save).andThen
          fun st _ => (st, .error .unauthorized)

def authorizeAccess (accessToken : Text) (now : ℕ) (save : Option ControlPlaneError) :
    AccountStore × Option AccountPrincipal :=
  match st.accessTokens.lookup (tokenDigest accessToken) with
  | none => (st, none)
  | some record =>
    let dropped := { st with accessTokens := st.accessTokens.erase (tokenDigest accessToken) }
    if record.expiresAtMs ≤ now then (dropped, none)
    else
      match record.principal.deviceId with
      | none => (st, some record.principal)
      | some deviceId =>
        match st.trustOf record.principal.accountId deviceId with
        | none => (dropped, none)
        | some .revoked =>
          (((dropped.invalidateDeviceTokens record.principal.accountId deviceId).save save).1, none)
        | some _ => (st, some record.principal)

/-! ## Accounts and devices -/

def registerDerived (username : Text) (salt derived : ℕ) (device : Option DeviceRegistration)
    (requireEmpty : Bool) (now : ℕ) (draws : Draws) : Outcome IssuedTokens :=
  if !validUsername username then (st, .error invalidUsername)
  else if requireEmpty && !st.accounts.isEmpty then (st, .error .unauthorized)
  else if st.accounts.any fun a => a.username = username then (st, .error .alreadyExists)
  else if MAX_ACCOUNTS ≤ st.accounts.length then
    (st, .error (.invalidInput "account limit reached"))
  else
    let add (devices : List DeviceRecord) (deviceId : Option Text) :=
      (({ st with accounts := st.accounts ++ [⟨draws.accountId, username, salt, derived,
        PBKDF2_ITERATIONS_CURRENT, now, devices, [], []⟩] } : AccountStore).save draws.save).andThen
          fun st _ => st.issueTokens draws.accountId deviceId now draws draws.save'
    match device with
    | none => add [] none
    | some d =>
      if !validDeviceRegistration d then (st, .error invalidDevice)
      else
        match draws.grantKey with
        | none => (st, .error noGrantKey)
        | some key => add [⟨d, .trusted, now, some now, some key⟩] (some d.deviceId)

/-- The device a sign-in names is enrolled, updated, or revoked for a changed key. -/
def loginDevice (account : AccountRecord) (d : DeviceRegistration) (now : ℕ) (draws : Draws) :
    Outcome Unit :=
  match account.device d.deviceId with
  | some existing =>
    if existing.trust = .revoked then (st, .error .deviceRevoked)
    else if existing.registration.publicKey ≠ d.publicKey then
      let st := st.modifyAccount account.accountId fun a =>
        { a with devices := Keyed.modify DeviceRecord.id a.devices d.deviceId fun x =>
            { x with trust := .revoked } }
      ((st.invalidateDeviceTokens account.accountId d.deviceId).save draws.save).andThen
        fun st _ => (st, .error (.deviceIdentityRevoked account.accountId d.deviceId))
    else
      (st.modifyAccount account.accountId fun a =>
        { a with devices := Keyed.modify DeviceRecord.id a.devices d.deviceId fun x =>
            { x with registration := { x.registration with name := d.name, platform := d.platform }
                     lastSeenMs := some now } }, .ok ())
  | none =>
    if MAX_DEVICES_PER_ACCOUNT ≤ account.devices.length then (st, .error deviceLimit)
    else
      match draws.grantKey with
      | none => (st, .error noGrantKey)
      | some key =>
        (st.modifyAccount account.accountId fun a => { a with devices := a.devices ++
          [⟨d, if account.devices.isEmpty then .trusted else .pending, now, some now, some key⟩] },
          .ok ())

def loginDerived (username : Text) (challengedSalt derived : ℕ) (device : Option DeviceRegistration)
    (now : ℕ) (draws : Draws) : Outcome IssuedTokens :=
  if !validUsername username then (st, .error invalidUsername)
  else
    match st.accounts.find? fun a => a.username = username with
    | none => (st, .error .unauthorized)
    | some account =>
      if account.passwordSalt ≠ challengedSalt then (st, .error .unauthorized)
      else if account.passwordHash ≠ derived then (st, .error .unauthorized)
      else
        let admitted : Outcome Unit := match device with
          | none => (st, .ok ())
          | some d => if !validDeviceRegistration d then (st, .error invalidDevice)
            else st.loginDevice account d now draws
        admitted.andThen fun st _ =>
          ((st.modifyAccount account.accountId fun a => a.pruneRefresh now).save draws.save).andThen
            fun st _ => st.issueTokens account.accountId (device.map DeviceRegistration.deviceId) now
              draws draws.save'

def rehashPassword (username : Text) (salt derived scheme : ℕ) (draws : Draws) : Outcome Unit :=
  match st.accounts.find? fun a => a.username = username with
  | none => (st, .error .notFound)
  | some account =>
    (st.modifyAccount account.accountId fun a =>
      { a with passwordSalt := salt, passwordHash := derived, passwordScheme := scheme }).save
        draws.save

def enrollDevice (accountId : Text) (d : DeviceRegistration) (now : ℕ) (draws : Draws) :
    Outcome PublicDevice :=
  if !validDeviceRegistration d then (st, .error invalidDevice)
  else
    match st.account accountId with
    | none => (st, .error .notFound)
    | some account =>
      if (account.device d.deviceId).isSome then (st, .error .alreadyExists)
      else if MAX_DEVICES_PER_ACCOUNT ≤ account.devices.length then (st, .error deviceLimit)
      else
        match draws.grantKey with
        | none => (st, .error noGrantKey)
        | some key =>
          let device : DeviceRecord := ⟨d, .pending, now, none, some key⟩
          ((st.modifyAccount accountId fun a =>
            { a with devices := a.devices ++ [device] }).save draws.save).andThen
              fun st _ => (st, .ok (publicDevice device))

def setDeviceTrust (accountId deviceId : Text) (trust : DeviceTrust) (now : ℕ) (draws : Draws) :
    Outcome PublicDevice :=
  match (st.account accountId).bind fun a => a.device deviceId with
  | none => (st, .error .notFound)
  | some device =>
    let set (d : DeviceRecord) : DeviceRecord := { d with trust, lastSeenMs := some now }
    let st := st.modifyAccount accountId fun a =>
      { a with devices := Keyed.modify DeviceRecord.id a.devices deviceId set }
    let st := if trust ≠ .trusted then st.invalidateDeviceTokens accountId deviceId else st
    (st.save draws.save).andThen fun st _ => (st, .ok (publicDevice (set device)))

def removeDevice (accountId deviceId : Text) (draws : Draws) : Outcome Unit :=
  match (st.account accountId).bind fun a => a.device deviceId with
  | none => (st, .error .notFound)
  | some _ =>
    let st := st.modifyAccount accountId fun a =>
      { a with devices := a.devices.filter fun d => d.id ≠ deviceId }
    (st.invalidateDeviceTokens accountId deviceId).save draws.save

/-! ## Device proofs -/

def deviceIdentityKey (accountId deviceId : Text) : Option ℕ :=
  ((st.account accountId).bind fun a => a.device deviceId).map fun d => d.registration.publicKey

def forgetStaleDeviceNonces (now : ℕ) : AccountStore :=
  { st with deviceAuthNonces :=
      Table.retain (fun _ seenAt => now - seenAt ≤ DEVICE_AUTH_WINDOW_MS) st.deviceAuthNonces }

def issueDeviceAccess (accountId deviceId : Text) (now : ℕ) (draws : Draws) :
    Outcome DeviceCredential :=
  match st.account accountId with
  | none => (st, .error .notFound)
  | some account =>
    match account.device deviceId with
    | none => (st, .error .notFound)
    | some device =>
      ((st.forgetExpiredAccessTokens now).insertAccess draws.accessToken ⟨⟨accountId, some deviceId⟩,
        draws.familyId, saturatingAdd now ACCESS_TOKEN_TTL_MS⟩,
        .ok ⟨draws.accessToken, publicUser account, publicDevice device⟩)

def absDiff (a b : ℕ) : ℕ := (a - b) + (b - a)

def commitDeviceAuth (accountId deviceId : Text) (verifiedAgainst issuedAtMs nonce now : ℕ)
    (draws : Draws) : Outcome DeviceCredential :=
  if DEVICE_AUTH_WINDOW_MS < absDiff now issuedAtMs then (st, .error .unauthorized)
  else if st.deviceIdentityKey accountId deviceId ≠ some verifiedAgainst then
    (st, .error .unauthorized)
  else if st.trustOf accountId deviceId = some .revoked then (st, .error .deviceRevoked)
  else
    let st := st.forgetStaleDeviceNonces now
    if (st.deviceAuthNonces.lookup nonce).isSome then (st, .error .unauthorized)
    else
      let st := if Table.size st.deviceAuthNonces < MAX_DEVICE_AUTH_NONCES then
          { st with deviceAuthNonces := st.deviceAuthNonces.insert nonce now }
        else st
      st.issueDeviceAccess accountId deviceId now draws

/-! ## Permissions -/

def canCreateSession (p : AccountPrincipal) : Except ControlPlaneError Unit :=
  match st.account p.accountId with
  | none => .error .unauthorized
  | some account =>
    match p.deviceId.bind account.device with
    | none => .error .unauthorized
    | some device =>
      match device.trust with
      | .trusted => .ok ()
      | .pending => .error .devicePending
      | .revoked => .error .deviceRevoked

def canManageDevices (p : AccountPrincipal) : Except ControlPlaneError Unit :=
  match st.account p.accountId with
  | none => .error .unauthorized
  | some account =>
    match p.deviceId with
    | none => .ok ()
    | some id =>
      match account.device id with
      | none => .error .unauthorized
      | some device =>
        match device.trust with
        | .trusted => .ok ()
        | .pending => .error .devicePending
        | .revoked => .error .deviceRevoked

end AccountStore

end OpenStream.Account
