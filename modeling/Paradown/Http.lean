import Paradown.Status

namespace Paradown
set_option autoImplicit true

/-- What the origin says about the resource it serves. -/
structure HttpResourceIdentity where
  resolvedUrl : Option String := none
  entityTag : Option String := none
  lastModified : Option String := none
  deriving DecidableEq, Repr, Inhabited

def HttpResourceIdentity.resumeValidator (i : HttpResourceIdentity) : Option String :=
  i.entityTag <|> i.lastModified

def HttpResourceIdentity.hasResumeValidator (i : HttpResourceIdentity) : Bool :=
  i.resumeValidator.isSome

/-- A stored validator that is gone counts as changed; one that is new does not. -/
def HttpResourceIdentity.validatorChanged (i fresh : HttpResourceIdentity) : Bool :=
  match i.entityTag, fresh.entityTag with
  | some current, some next => current != next
  | some _, none => true
  | _, _ =>
    match i.lastModified, fresh.lastModified with
    | some current, some next => current != next
    | some _, none => true
    | _, _ => false

structure HttpHeader where
  name : String
  value : String
  deriving DecidableEq, Repr

inductive HttpAuth where
  | basic (username : String) (password : Option String)
  | bearer (token : String)
  deriving DecidableEq, Repr

structure HttpRequestOptions where
  headers : List HttpHeader := []
  cookie : Option String := none
  auth : Option HttpAuth := none
  userAgent : Option String := none
  deriving DecidableEq, Repr, Inhabited

def HttpRequestOptions.merged (o overrides : HttpRequestOptions) : HttpRequestOptions where
  headers := o.headers ++ overrides.headers
  cookie := overrides.cookie <|> o.cookie
  auth := overrides.auth <|> o.auth
  userAgent := overrides.userAgent <|> o.userAgent

def HttpRequestOptions.isEmpty (o : HttpRequestOptions) : Bool :=
  o.headers.isEmpty && o.cookie.isNone && o.auth.isNone && o.userAgent.isNone

/-- The outcome of probing the origin before a download. -/
structure OriginMetadata where
  totalSize : Option Nat
  supportsRangeRequests : Bool
  resourceIdentity : HttpResourceIdentity
  suggestedFileName : Option String
  deriving DecidableEq, Repr

end Paradown
