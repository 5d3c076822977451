import Mathlib.Data.List.Sort
import Stelyph.Accounts
import Stelyph.Lib.Table

/-!
# Device-approval sign-in on the Worker

The five endpoints of "Sign in with Stelyph" in an account's Durable
Object (`rust-worker/src/handlers.rs`, `store.rs`), the enrolment of a
device and the erasure of the account. The object runs one request at a
time and none of these handlers waits for anything outside it, so a
request is one function of the object's tables, the time and the random
values it draws.
-/

namespace Stelyph

/-- How long a sign-in request can be decided. -/
def signinTtlSecs : Nat := 300

inductive SigninStatus where
  | pending
  | approved
  | denied
  | expired
deriving DecidableEq, Repr

/-- A sign-in request. It holds the session once it is approved. -/
structure SigninRow where
  userCode : String
  clientName : String
  status : SigninStatus
  did : Option String
  handle : Option String
  accessJwt : Option String
  refreshJwt : Option String
  createdAt : Nat
  expiresAt : Nat
deriving DecidableEq, Repr

/-- The tables of the object that sign-in reads and writes. -/
structure DoStore where
  accounts : List Account
  /-- `device_id` to `did_key`. -/
  deviceKeys : Table String String
  signins : Table String SigninRow

/-- A request as it is listed for the devices. -/
structure PendingSignin where
  requestId : String
  userCode : String
  clientName : String
  createdAt : Nat
deriving DecidableEq, Repr

namespace DoStore

def getAccountByHandle (s : DoStore) (handle : String) : Option (String × String) :=
  (s.accounts.find? fun a =>
    a.handle == some handle && a.deactivatedAt.isNone && a.takedownRef.isNone).map
      fun a => (a.did, a.passwordPhc)

/-- The public key of a device under the id it was given. -/
def registerDevice (s : DoStore) (deviceId didKey : String) : DoStore :=
  { s with deviceKeys := s.deviceKeys.insert deviceId didKey }

/-- A new request under an id that is not in use. -/
def createSignin (s : DoStore) (requestId userCode clientName : String)
    (createdAt expiresAt : Nat) : Except StorageError DoStore :=
  if s.signins.contains requestId then .error (.backend "UNIQUE constraint failed")
  else .ok { s with signins := s.signins.insert requestId {
    userCode := userCode, clientName := clientName, status := .pending, did := none
    handle := none, accessJwt := none, refreshJwt := none, createdAt := createdAt
    expiresAt := expiresAt } }

/-- Pending and unexpired, newest first. -/
def listPendingSignins (s : DoStore) (now : Nat) : List PendingSignin :=
  ((s.signins.rows.filter fun r => r.2.status = .pending ∧ r.2.expiresAt > now).map fun r =>
    { requestId := r.1, userCode := r.2.userCode, clientName := r.2.clientName
      createdAt := r.2.createdAt }).insertionSort fun a b => b.createdAt ≤ a.createdAt

/-- The guarded update both decisions use. -/
def decideSignin (s : DoStore) (requestId : String) (f : SigninRow → SigninRow) : DoStore :=
  match s.signins.get requestId with
  | some row =>
      if row.status = .pending then
        { s with signins := s.signins.insert requestId (f row) }
      else s
  | none => s

/-- The session is stored with the decision, in one statement. -/
def approveSignin (s : DoStore) (requestId did handle accessJwt refreshJwt : String) :
    DoStore :=
  s.decideSignin requestId fun row =>
    { row with status := .approved, did := some did, handle := some handle
               accessJwt := some accessJwt, refreshJwt := some refreshJwt }

/-- The decision to deny. Nothing else of the row changes. -/
def denySignin (s : DoStore) (requestId : String) : DoStore :=
  s.decideSignin requestId fun row => { row with status := .denied }

/-- The account's row, every device and every sign-in. -/
def deleteAccountData (s : DoStore) (did : String) : DoStore where
  accounts := s.accounts.filter fun a => a.did ≠ did
  deviceKeys := .empty
  signins := .empty

end DoStore

/-! ## The signed challenge -/

/-- The bytes a device signs about a request. -/
def approvalChallenge (requestId userCode : String) : Bytes :=
  Text.bytes "stelyph-signin-approval:v1:" ++ Text.bytes requestId ++ Text.bytes ":"
    ++ Text.bytes userCode

/-- The crates the handlers call: signatures, passwords and tokens. -/
structure SigninLib where
  verifySignature : (didKey : String) → (message signature : Bytes) → Bool
  verifyPassword : (password phc : String) → Except CoreError Bool
  encodeAccessJwtAt : (did : String) → (now : Nat) → Except CoreError String
  encodeRefreshJwtAt : (did : String) → (now : Nat) → Except CoreError String

/-- The signature has to be the device's on the challenge of this request. -/
def verifyApproval (lib : SigninLib) (deviceDidKey requestId userCode : String)
    (signature : Bytes) : Bool :=
  lib.verifySignature deviceDidKey (approvalChallenge requestId userCode) signature

/-! ## Requests and answers -/

/-- A `signature` that is not base64 is `none`. -/
inductive SigninRequest where
  | deviceRegister (handle password deviceDidKey label : String)
  | signinStart (clientName : String)
  | signinPoll (requestId : String)
  | signinPending
  | deviceApprove (requestId deviceId : String) (signature : Option Bytes)
  | deviceDeny (requestId deviceId : String) (signature : Option Bytes)
  | deleteAccount
deriving DecidableEq

/-- What a poll of an approved request is given. -/
structure Session where
  did : Option String
  handle : Option String
  accessJwt : Option String
  refreshJwt : Option String
deriving DecidableEq, Repr

/-- The answers of the sign-in endpoints, with the status and text of each error. -/
inductive SigninAnswer where
  | error (status : Nat) (error message : String)
  | fault (message : String)
  | device (deviceId : String)
  | started (requestId userCode : String) (challenge : Bytes) (expiresAt : Nat)
  | pending (rows : List PendingSignin)
  | status (status : SigninStatus) (session : Option Session)
  | ok
  | deleted (did handle : String)
  | noAccount
deriving DecidableEq, Repr

/-- What a request draws: a token for a request or device id, and a code. -/
structure SigninDraw where
  token : String
  userCode : String
  now : Nat
deriving DecidableEq, Repr

section

variable (lib : SigninLib)

/-- A device is enrolled by whoever knows the password of the account. -/
def deviceRegister (s : DoStore) (rnd : SigninDraw)
    (handle password deviceDidKey : String) : SigninAnswer × DoStore :=
  if !Text.startsWith deviceDidKey "did:key:z" then
    (.error 400 "InvalidRequest" "deviceDidKey must be a did:key.", s)
  else
    match s.getAccountByHandle handle with
    | none => (.error 401 "Unauthorized" "Handle or password is incorrect.", s)
    | some (_, phc) =>
        match lib.verifyPassword password phc with
        | .ok true => (.device rnd.token, s.registerDevice rnd.token deviceDidKey)
        | _ => (.error 401 "Unauthorized" "Handle or password is incorrect.", s)

/-- Anybody may start a request: the id goes to the caller, and so does
the challenge that a device has to sign. -/
def signinStart (s : DoStore) (rnd : SigninDraw) (clientName : String) :
    SigninAnswer × DoStore :=
  match s.createSignin rnd.token rnd.userCode clientName rnd.now (rnd.now + signinTtlSecs) with
  | .error e => (.fault s!"create signin: {e.display}", s)
  | .ok s' =>
      (.started rnd.token rnd.userCode (approvalChallenge rnd.token rnd.userCode)
        (rnd.now + signinTtlSecs), s')

/-- Expiry is computed on read. -/
def signinPoll (s : DoStore) (now : Nat) (requestId : String) : SigninAnswer :=
  match s.signins.get requestId with
  | none => .error 404 "NotFound" "No such sign-in request."
  | some row =>
      let status := if row.status = .pending ∧ row.expiresAt < now then .expired else row.status
      .status status (if status = .approved then
        some ⟨row.did, row.handle, row.accessJwt, row.refreshJwt⟩ else none)

/-- All requests that can still be decided, to any caller. -/
def signinPending (s : DoStore) (now : Nat) : SigninAnswer :=
  .pending (s.listPendingSignins now)

/-- An approval: the request has to be pending and in time, the device
enrolled, and its signature one of the challenge. Only then are the tokens
made. -/
def deviceApprove (s : DoStore) (now : Nat) (requestId deviceId : String)
    (signature : Bytes) : SigninAnswer × DoStore :=
  match s.signins.get requestId with
  | none => (.error 404 "NotFound" "No such sign-in request.", s)
  | some row =>
      if row.status ≠ .pending then
        (.error 409 "AlreadyDecided" "This sign-in is no longer pending.", s)
      else if row.expiresAt < now then
        (.error 410 "Expired" "This sign-in has expired.", s)
      else
        match s.deviceKeys.get deviceId with
        | none => (.error 401 "Unauthorized" "Unknown device.", s)
        | some didKey =>
            if !verifyApproval lib didKey requestId row.userCode signature then
              (.error 401 "Unauthorized" "Approval signature did not verify.", s)
            else
              match s.accounts with
              | [] => (.error 409 "NoAccount" "This host has no account to sign in to.", s)
              | a :: _ =>
                  match lib.encodeAccessJwtAt a.did now with
                  | .error _ => (.fault "access jwt", s)
                  | .ok access =>
                      match lib.encodeRefreshJwtAt a.did now with
                      | .error _ => (.fault "refresh jwt", s)
                      | .ok refresh =>
                          (.ok, s.approveSignin requestId a.did (a.handle.getD "") access refresh)

/-- The same check of the same bytes as an approval, without the expiry. -/
def deviceDeny (s : DoStore) (requestId deviceId : String) (signature : Bytes) :
    SigninAnswer × DoStore :=
  match s.signins.get requestId with
  | none => (.error 404 "NotFound" "No such sign-in request.", s)
  | some row =>
      if row.status ≠ .pending then
        (.error 409 "AlreadyDecided" "This sign-in is no longer pending.", s)
      else
        match s.deviceKeys.get deviceId with
        | none => (.error 401 "Unauthorized" "Unknown device.", s)
        | some didKey =>
            if !verifyApproval lib didKey requestId row.userCode signature then
              (.error 401 "Unauthorized" "Signature did not verify.", s)
            else (.ok, s.denySignin requestId)

/-- The first account is erased, with what the sign-in tables hold. An
object without one answers so. -/
def deleteAccount (s : DoStore) : SigninAnswer × DoStore :=
  match s.accounts with
  | [] => (.noAccount, s)
  | a :: _ => (.deleted a.did (a.handle.getD ""), s.deleteAccountData a.did)

/-- `route`, for the endpoints of this module. -/
def signinHandle (s : DoStore) (rnd : SigninDraw) : SigninRequest → SigninAnswer × DoStore
  | .deviceRegister handle password deviceDidKey _ =>
      deviceRegister lib s rnd handle password deviceDidKey
  | .signinStart clientName => signinStart s rnd clientName
  | .signinPoll requestId => (signinPoll s rnd.now requestId, s)
  | .signinPending => (signinPending s rnd.now, s)
  | .deviceApprove requestId deviceId signature =>
      match signature with
      | none => (.fault "signature is not valid base64", s)
      | some sig => deviceApprove lib s rnd.now requestId deviceId sig
  | .deviceDeny requestId deviceId signature =>
      match signature with
      | none => (.fault "signature is not valid base64", s)
      | some sig => deviceDeny lib s requestId deviceId sig
  | .deleteAccount => deleteAccount s

end

end Stelyph
