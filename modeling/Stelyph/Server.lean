import Stelyph.Authorize

/-!
# The server

Sessions (`xrpc/server.rs`), the operator's commands (`cmd/admin.rs`,
which work on the database of the running server), and all requests that
concern an account's credentials as one pool over the account store and
the OAuth store.
-/

namespace Stelyph

/-- The two halves of the server's database that its handlers share. A
store call touches one of them. -/
structure ServerStore where
  accounts : AccountStore
  oauth : OauthStore

/-- What the environment decides about one operation. -/
inductive ServerOutcome where
  | done
  | fault (msg : String)
  | document (id : Option String)
  | response (r : FetchedDocument)

def ServerOutcome.store : ServerOutcome → Option StoreOutcome
  | .done => some .done
  | .fault msg => some (.fault msg)
  | _ => none

def ServerOutcome.account : ServerOutcome → Option Outcome
  | .done => some .done
  | .fault msg => some (.fault msg)
  | .document id => some (.document id)
  | .response _ => none

/-- A call of the account store that is one statement: it goes through,
or fails and changes nothing. -/
def AccountStore.call {α : Type} (s : ServerStore) (x : α × AccountStore) :
    ServerOutcome → Option (Except StorageError α × ServerStore)
  | .done => some (.ok x.1, { s with accounts := x.2 })
  | .fault msg => some (.error (.backend msg), s)
  | _ => none

/-- One operation of a handler: a store call that goes through or fails,
or an outside call with what it answers. -/
def ServerOp.exec (s : ServerStore) : (o : ServerOp) → ServerOutcome →
    Option (o.Ret × ServerStore)
  | .oauth o, c => c.store.map fun c => ((o.exec s.oauth c).1,
      { s with oauth := (o.exec s.oauth c).2 })
  | .account o, c => (c.account.bind fun c => o.exec s.accounts c).map fun x =>
      (x.1, { s with accounts := x.2 })
  | .getDidByHandle handle, c =>
      AccountStore.call s (s.accounts.getDidByHandle handle, s.accounts) c
  | .getHandleByDid did, c => AccountStore.call s (s.accounts.getHandleByDid did, s.accounts) c
  | .updatePassword did phc, c => AccountStore.call s (s.accounts.updatePassword did phc) c
  | .setTakedown did reference now, c =>
      AccountStore.call s (s.accounts.setTakedown did reference now) c
  | .clearTakedown did, c => AccountStore.call s (s.accounts.clearTakedown did) c
  | .joinBlocking, .done => some (.ok (), s)
  | .joinBlocking, .fault msg => some (.error msg, s)
  | .joinBlocking, _ => none
  | .fetch _, .response r => some (.ok r, s)
  | .fetch _, .fault msg => some (.error msg, s)
  | .fetch _, _ => none

/-- The server as one machine: whatever its handlers do, they do it here,
one operation after the other. -/
def serverMachine : Machine serverSig ServerStore ServerOutcome where
  exec _ s o c := o.exec s c

/-! ## Sessions -/

namespace AppState

variable {Keypair : Type} (state : AppState Keypair)

/-- As `createSession`, with the password verified on a blocking thread
while other requests run. -/
def createSession (identifier password : String) (now : Nat) :
    ServerProg XrpcError SessionResponse := do
  let found ← ServerOp.ask (.account (.getAccountByHandle identifier))
  let row ← Prog.ofExcept XrpcError.ofStorage found
  match row with
  | none => .fail (.invalidRequest "invalid identifier or password")
  | some (did, phc) =>
      let joined ← ServerOp.ask .joinBlocking
      Prog.ofExcept (fun e => .internal s!"password verify task panicked: {e}") joined
      let verified ← Prog.ofExcept XrpcError.ofCore (state.server.verifyPassword password phc)
      if ¬ verified then .fail (.invalidRequest "invalid identifier or password")
      else
        let access ← Prog.ofExcept XrpcError.ofCore (state.server.encodeAccessJwt did now)
        let refresh ← Prog.ofExcept XrpcError.ofCore (state.server.encodeRefreshJwt did now)
        return { accessJwt := access, refreshJwt := refresh, handle := identifier
                 did := did, active := true }

/-- `authenticate_refresh`: a Bearer token of the refresh scope. -/
def authenticateRefresh (parts : XrpcParts) : Except XrpcError String := do
  match ← authorization parts with
  | (.dpop, _) => .error .invalidToken
  | (.bearer, token) =>
      let claims ← (state.decodeJwt token).mapError XrpcError.ofCore
      if claims.scope ≠ "com.atproto.refresh" then .error .invalidToken else .ok claims.sub

/-- A new pair of tokens for the account of a refresh token, if it has an
active handle. -/
def refreshSession (parts : XrpcParts) (now : Nat) : ServerProg XrpcError SessionResponse := do
  let did ← Prog.ofExcept id (state.authenticateRefresh parts)
  let found ← ServerOp.ask (.getHandleByDid did)
  let row ← Prog.ofExcept XrpcError.ofStorage found
  match row with
  | none => .fail .accountTakedown
  | some handle =>
      let access ← Prog.ofExcept XrpcError.ofCore (state.server.encodeAccessJwt did now)
      let refresh ← Prog.ofExcept XrpcError.ofCore (state.server.encodeRefreshJwt did now)
      return { accessJwt := access, refreshJwt := refresh, handle := handle
               did := did, active := true }

/-! ## The operator's commands -/

/-- `admin takedown`. -/
def takedown (did reference now : String) : ServerProg String Unit := do
  let answer ← ServerOp.ask (.setTakedown did reference now)
  let n ← Prog.ofExcept (fun e => s!"Failed to take down account: {e.display}") answer
  if n = 0 then .fail s!"no account found with DID {did}" else return ()

/-- `admin untakedown`. -/
def untakedown (did : String) : ServerProg String Unit := do
  let answer ← ServerOp.ask (.clearTakedown did)
  let n ← Prog.ofExcept (fun e => s!"Failed to restore account: {e.display}") answer
  if n = 0 then .fail s!"no account found with DID {did} (or it was not taken down)" else return ()

/-- The argument of the command is a DID or the handle of an account. -/
def resetDid (identifier : String) : ServerProg String String :=
  if Text.startsWith identifier "did:" then return identifier
  else do
    let answer ← ServerOp.ask (.getDidByHandle identifier)
    let did ← Prog.ofExcept (fun e => s!"lookup failed: {e.display}") answer
    match did with
    | none => .fail s!"no account with handle '{identifier}'"
    | some did => return did

/-- `admin reset-password`, with what is typed at its two prompts. -/
def resetPassword (identifier pw confirm salt : String) : ServerProg String Unit := do
  let did ← resetDid identifier
  if pw.utf8ByteSize < 8 then .fail "password must be at least 8 characters"
  else if pw ≠ confirm then .fail "passwords do not match"
  else
    let phc ← Prog.ofExcept (fun e : CoreError => s!"hash failed: {e.display}")
      (state.server.hashPassword salt pw)
    let answer ← ServerOp.ask (.updatePassword did phc)
    let n ← Prog.ofExcept (fun e => s!"Failed to update password: {e.display}") answer
    if n = 0 then .fail s!"no account found for {did}" else return ()

end AppState

/-! ## Requests and answers -/

/-- Everything that reaches the store: the OAuth endpoints, the sessions,
the sign-up and the commands of the operator. Drawn values and clock
readings come with the request. -/
inductive ServerRequest (Keypair : Type) where
  | par (q : ParRequest)
  | authorizePage (q : AuthorizeQuery)
  | authorizeSubmit (q : AuthorizeForm)
  | token (q : TokenRequest)
  | revoke (token : String)
  | purgeExpired (now : Nat)
  | createSession (identifier password : String) (now : Nat)
  | refreshSession (parts : XrpcParts) (now : Nat)
  | createAccount (input : CreateAccountInput) (rnd : Entropy Keypair)
  | takedown (did reference now : String)
  | untakedown (did : String)
  | resetPassword (identifier pw confirm salt : String)

/-- What a request is answered with, by its kind. -/
inductive ServerAnswer where
  | par (r : ParResponse)
  | authorize (r : AuthorizeResponse)
  | tokens (r : TokenResponse)
  | session (r : SessionResponse)
  | account (r : CreateAccountResponse)
  | done

/-- How it fails, by its kind. -/
inductive ServerError where
  | oauth (e : OAuthError)
  | xrpc (e : XrpcError)
  | command (msg : String)

/-- A handler with its answer and its error brought to one type. -/
abbrev AnswerProg := Prog serverSig ServerError ServerAnswer

def answer {ε α : Type} (wrap : α → ServerAnswer) (f : ε → ServerError) (p : ServerProg ε α) :
    AnswerProg :=
  (p.mapError f).bind fun a => .ret (wrap a)

/-- A handler of the account store, run by the server. -/
def AccountProg.lift {α : Type} (p : AccountProg α) : ServerProg XrpcError α :=
  Prog.hoist (T := serverSig) ServerOp.account (fun _ r => r) id p

section

variable {Keypair : Type} (state : AppState Keypair)

/-- The handler of each request. They share nothing but the store. -/
def serverHandler : ServerRequest Keypair → AnswerProg
  | .par q => answer .par .oauth (state.pushedAuthorizationRequest q)
  | .authorizePage q => answer .authorize .oauth (state.authorizePage q)
  | .authorizeSubmit q => answer .authorize .oauth (state.authorizeSubmit q)
  | .token q => answer .tokens .oauth (tokenHandle state.oauth q).lift
  | .revoke token => answer (fun _ => .done) .oauth (revoke state.oauth token).lift
  | .purgeExpired now => answer (fun _ => .done) .oauth (OauthOp.call (.purgeExpired now)).lift
  | .createSession identifier password now =>
      answer .session .xrpc (state.createSession identifier password now)
  | .refreshSession parts now => answer .session .xrpc (state.refreshSession parts now)
  | .createAccount input rnd =>
      answer .account .xrpc (createAccountInner state.server input rnd).lift
  | .takedown did reference now =>
      answer (fun _ => .done) .command (AppState.takedown did reference now)
  | .untakedown did => answer (fun _ => .done) .command (AppState.untakedown did)
  | .resetPassword identifier pw confirm salt =>
      answer (fun _ => .done) .command (state.resetPassword identifier pw confirm salt)

/-- The server with the requests it has begun, of whatever kind. -/
abbrev ServerPool (Keypair : Type) :=
  Pool serverSig (ServerRequest Keypair) ServerError ServerAnswer ServerStore

abbrev ServerAct (Keypair : Type) := PoolAct (ServerRequest Keypair) ServerOutcome

/-- Either a request begins or one operation of a request is carried out,
so that runs have the handlers interleaved in all ways. -/
def serverStep (P : ServerPool Keypair) (a : ServerAct Keypair) : Option (ServerPool Keypair) :=
  Pool.next serverMachine (serverHandler state) P a

end

end Stelyph
