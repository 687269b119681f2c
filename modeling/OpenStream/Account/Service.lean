import OpenStream.Account.Store
import OpenStream.Lib.Runs

/-!
# The account store as a service

* `Service`: the store with the time and a record of the calls answered so far; `service` is the
  machine that starts from a given store and takes calls in any order.
-/

namespace OpenStream.Account

structure DeviceProof where
  accountId : Text
  deviceId : Text
  verifiedAgainst : ℕ
  issuedAtMs : ℕ
  nonce : ℕ
  deriving DecidableEq

inductive Call
  | register (username : Text) (salt derived : ℕ) (device : Option DeviceRegistration)
      (requireEmpty : Bool)
  | login (username : Text) (challengedSalt derived : ℕ) (device : Option DeviceRegistration)
  | rehash (username : Text) (salt derived scheme : ℕ)
  | refresh (refreshToken : Text) (retryKey : Option Text)
  | authorize (accessToken : Text)
  | enroll (accountId : Text) (d : DeviceRegistration)
  | setTrust (accountId deviceId : Text) (trust : DeviceTrust)
  | remove (accountId deviceId : Text)
  | proof (p : DeviceProof)
  deriving DecidableEq

def Call.refreshes : Call → Bool
  | .refresh _ _ => true
  | _ => false

inductive Reply
  | issued (r : Except ControlPlaneError IssuedTokens)
  | principal (r : Option AccountPrincipal)
  | device (r : Except ControlPlaneError PublicDevice)
  | credential (r : Except ControlPlaneError DeviceCredential)
  | done (r : Except ControlPlaneError Unit)

/-- Whether a device proof was answered with a credential. -/
def Reply.grants : Reply → Bool
  | .credential (.ok _) => true
  | _ => false

/-- Whether a call was answered with tokens. -/
def Reply.issues : Reply → Bool
  | .issued (.ok _) => true
  | _ => false

namespace AccountStore

variable (st : AccountStore)

def call (now : ℕ) (draws : Draws) : Call → AccountStore × Reply
  | .register username salt derived device requireEmpty =>
    (st.registerDerived username salt derived device requireEmpty now draws).map id .issued
  | .login username salt derived device =>
    (st.loginDerived username salt derived device now draws).map id .issued
  | .rehash username salt derived scheme =>
    (st.rehashPassword username salt derived scheme draws).map id .done
  | .refresh token retryKey => (st.refreshWithRetryKey token retryKey now draws).map id .issued
  | .authorize token => (st.authorizeAccess token now draws.save).map id .principal
  | .enroll accountId d => (st.enrollDevice accountId d now draws).map id .device
  | .setTrust accountId deviceId trust =>
    (st.setDeviceTrust accountId deviceId trust now draws).map id .device
  | .remove accountId deviceId => (st.removeDevice accountId deviceId draws).map id .done
  | .proof p => (st.commitDeviceAuth p.accountId p.deviceId p.verifiedAgainst p.issuedAtMs p.nonce now
      draws).map id .credential

def consumed (token : Text) (retryKey : Option Text) (now : ℕ) :
    Option (Text × RefreshTokenRecord) :=
  let digest := match st.findRetiredFamily (tokenDigest token) now with
    | none => some (tokenDigest token)
    | some (accountId, _) =>
      st.unusedSuccessor accountId (tokenDigest token) (retryKey.map tokenDigest) now
  digest.bind fun digest => st.accounts.findSome? fun a =>
    (a.refreshTokens.find? fun t => t.digest = digest).map fun t => (a.accountId, t)

end AccountStore

/-- A call, when it comes and what the platform gives it. -/
structure Event where
  call : Call
  now : ℕ
  draws : Draws

structure Service where
  store : AccountStore
  now : ℕ
  drawn : List Text
  granted : List (DeviceProof × ℕ)
  rotated : List (Text × RefreshTokenRecord)

namespace Service

def draw (d : Draws) : List Text := [d.accountId, d.familyId, d.accessToken, d.refreshToken]

def grantsOf (e : Event) (r : Reply) : List (DeviceProof × ℕ) :=
  match e.call with
  | .proof p => if r.grants then [(p, e.now)] else []
  | _ => []

def rotatesOf (st : AccountStore) (e : Event) (r : Reply) : List (Text × RefreshTokenRecord) :=
  match e.call with
  | .refresh token retryKey => if r.issues then (st.consumed token retryKey e.now).toList else []
  | _ => []

def after (s : Service) (e : Event) : Service where
  store := (s.store.call e.now e.draws e.call).1
  now := e.now
  drawn := s.drawn ++ draw e.draws
  granted := s.granted ++ grantsOf e (s.store.call e.now e.draws e.call).2
  rotated := s.rotated ++ rotatesOf s.store e (s.store.call e.now e.draws e.call).2

end Service

def service (store : AccountStore) : Runs.Machine Service Event where
  start := ⟨store, 0, [], [], []⟩
  step := fun s e => some (s.after e)

def Ordered (s : Service) (e : Event) : Prop := s.now ≤ e.now

instance (s : Service) (e : Event) : Decidable (Ordered s e) := inferInstanceAs (Decidable (_ ≤ _))

end OpenStream.Account
