import Mathlib.Logic.Basic

/-!
# Errors

The three error types a request can end with, and how one turns into
another on the way out. Storage failures other than a violated
constraint carry the text of the backend, which no caller reads.
-/

namespace Stelyph

abbrev Bytes := List UInt8

inductive StorageError where
  | backend (msg : String)
  | crypto (msg : String)
  | blockNotFound
  | constraint (msg : String)
deriving DecidableEq, Repr

inductive CoreError where
  | expiredToken
  | invalidToken
  | internal (detail : String)
deriving DecidableEq, Repr

inductive XrpcError where
  | expiredToken
  | invalidToken
  | authRequired
  | accountTakedown
  | invalidHandle
  | handleNotAvailable
  | invalidInviteCode
  | unsupportedDomain
  | unresolvableDid
  | incompatibleDidDoc
  | invalidSwap
  | handleNotFound
  | methodNotImplemented
  | invalidRequest (msg : String)
  | upstreamFailure (detail : String)
  | internal (detail : String)
deriving DecidableEq, Repr

def StorageError.display : StorageError → String
  | .backend msg => msg
  | .crypto msg => s!"crypto error: {msg}"
  | .blockNotFound => "block not found"
  | .constraint msg => s!"constraint violation: {msg}"

def CoreError.display : CoreError → String
  | .expiredToken => "expired token"
  | .invalidToken => "invalid token"
  | .internal detail => s!"internal error: {detail}"

def XrpcError.ofStorage (e : StorageError) : XrpcError := .internal e.display

def XrpcError.ofCore : CoreError → XrpcError
  | .expiredToken => .expiredToken
  | .invalidToken => .invalidToken
  | .internal detail => .internal detail

end Stelyph
