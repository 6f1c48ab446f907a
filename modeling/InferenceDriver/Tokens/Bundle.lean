/-
# `Tokens.Bundle` — the trust bundle

`tokens.py`, its first half: what a key of the install may issue is listed
in a bundle, signed by the one authority key a verifier has pinned.
`buildBundle` signs one, `parseBundle` verifies and reads one, and
`acceptsReplacement` says which of two bundles is the later.

The signatures, the token format and the key encodings are PyJWT's and
`cryptography`'s; they are a parameter (`Jwt`), and its laws are what the
source relies on.  Keys are named by their public half, so `sign key` is a
signature by the holder of `key`.
-/
import Mathlib
import InferenceDriver.Lib.Checks
import InferenceDriver.Py.Dict
import InferenceDriver.Py.Json

namespace InferenceDriver.Tokens

open Checks

def typSession : Text := "ep-session+jwt".toList
def typAdministration : Text := "ep-administration+jwt".toList
def typService : Text := "ep-service+jwt".toList
def typClient : Text := "ep-client+jwt".toList
def typBundle : Text := "ep-trust-bundle+jwt".toList

def grantAuthority : Text := "authority".toList
def grantNode : Text := "node".toList
def grantGateway : Text := "gateway".toList
def grantFiles : Text := "files".toList
def grantStandby : Text := "standby".toList

def issuerControl : Text := "control".toList
def recipientControl : Text := "control".toList
def recipientGateway : Text := "gateway".toList

def subOperator : Text := "operator".toList
def subAgent : Text := "agent".toList
def subGateway : Text := "gateway".toList
def subStandby : Text := "standby".toList

/-- Clock skew tolerated between two hosts. -/
def leewaySeconds : Int := 300

/-- What `jwt.decode` is told to require of a token. -/
def requiredClaims : List String := ["iss", "sub", "aud", "iat", "exp", "jti"]

/-! ## The libraries -/

/-- What `jwt.decode` checks of the claims, with the leeway, at a time of this host. -/
def InTime (intOfText : Text → Option Int) (claims : Obj) (now : ℚ) : Prop :=
  (∀ name ∈ requiredClaims, claims.get name ≠ .null) ∧
    ∃ iat exp, (claims.get "iat").toInt intOfText = some iat ∧
      (claims.get "exp").toInt intOfText = some exp ∧
      (iat : ℚ) ≤ now + leewaySeconds ∧ now - leewaySeconds < exp

/-- PyJWT and `cryptography`, for public keys in `P` and tokens in `T`, and
two built-ins. -/
structure Jwt (P T : Type) where
  /-- `int` of a string. -/
  intOfText : Text → Option Int
  /-- `str` of a value that is no string. -/
  strOf : Json → Text
  /-- `jwt.get_unverified_header`, or what it complains of. -/
  header : T → Except Text Obj
  /-- The claims inside a token. -/
  payload : T → Option Obj
  /-- The EdDSA signature of a token verifies under a key. -/
  signed : T → P → Bool
  /-- `jwt.decode` of a token, with the leeway, at a time of this host. -/
  decode : T → P → ℚ → Except Text Obj
  /-- `jwt.decode` of a bundle, whose `exp`, `iat` and `aud` are not looked at. -/
  decodeBundle : T → P → ℚ → Except Text Obj
  /-- `jwt.encode` by the holder of a key, with these headers. -/
  sign : P → Obj → Obj → T
  publicB64 : P → Text
  loadPublic : Text → Option P
  thumbprint : P → Text
  decode_ok : ∀ token key now claims, decode token key now = .ok claims →
    signed token key = true ∧ payload token = some claims ∧ InTime intOfText claims now
  /-- The registered claims that some releases also look at are not there, or are strings. -/
  decode_of : ∀ token key now claims, signed token key = true → payload token = some claims →
    InTime intOfText claims now → claims.item? "nbf" = none → (∃ s, claims.get "sub" = .str s) →
    (∃ s, claims.get "jti" = .str s) → decode token key now = .ok claims
  decodeBundle_ok : ∀ jws key now claims, decodeBundle jws key now = .ok claims →
    signed jws key = true ∧ payload jws = some claims
  decodeBundle_of : ∀ jws key now claims, signed jws key = true → payload jws = some claims →
    (∀ name ∈ ["nbf", "iss", "sub", "jti"], claims.item? name = none) →
    decodeBundle jws key now = .ok claims
  header_sign : ∀ key headers claims, ∃ h, header (sign key headers claims) = .ok h ∧
    ∀ name, headers.item? name ≠ none → h.get name = headers.get name
  payload_sign : ∀ key headers claims, payload (sign key headers claims) = some claims
  signed_sign : ∀ key headers claims, signed (sign key headers claims) key = true
  loadPublic_b64 : ∀ key, loadPublic (publicB64 key) = some key

variable {P T : Type} (J : Jwt P T)

/-- `str(value)`. -/
def Jwt.str (v : Json) : Text :=
  match v with
  | .str s => s
  | v => J.strOf v

/-! ## Bundles -/

/-- `node_of`: `node:<name>` to `<name>`. -/
def nodeOf (recipient : Text) : Option Text :=
  if "node:".toList.isPrefixOf recipient ∧ 5 < recipient.length then some (recipient.drop 5)
  else none

/-- `TrustKey`; the grants are a set, and only asked for membership. -/
structure TrustKey (P : Type) where
  kid : Text
  issuer : Text
  publicKey : P
  grants : List Text

structure TrustBundle (P T : Type) where
  version : Int
  epoch : Int
  iat : Int
  authority : Text
  keys : Dict Text (TrustKey P)
  revokedSessions : List Text
  jws : T
  payload : Obj
  /-- `(since, epoch)`. -/
  tokenEpochs : Option (Int × Int)

/-- Every node name a key in this bundle is issued to. -/
def TrustBundle.members (b : TrustBundle P T) : List Text :=
  b.keys.items.filterMap fun e => nodeOf e.2.issuer

/-- What `parse_bundle` and `build_bundle` raise. -/
inductive Fault where
  /-- `BundleError`: not a JWS. -/
  | notJws (detail : Text)
  /-- `BundleError`: typ is …, not `ep-trust-bundle+jwt`. -/
  | wrongTyp (typ : Json)
  /-- `BundleError`: signature did not verify against the pinned authority. -/
  | signature (detail : Text)
  /-- `BundleError`: the bundle names a different authority from the one that signed it. -/
  | otherAuthority
  /-- `BundleError`: key … is not the thumbprint of its public key. -/
  | notThumbprint (kid : Text)
  /-- `BundleError`: key … is listed twice. -/
  | listedTwice (kid : Text)
  /-- `BundleError`: malformed bundle. -/
  | malformed
  /-- `ValueError`: a trust bundle cannot list one key twice. -/
  | twoKeys
  /-- `OverflowError`, of `int` of an infinity: no `BundleError`. -/
  | overflow

/-- `for x in value`; none is a `TypeError`. -/
def iter : Json → Option (List Json)
  | .arr items => some items
  | .obj fields => some (fields.map fun f => .str f.1)
  | .str s => some (s.map fun c => .str [c])
  | _ => none

/-- `value[key]`; none is a `KeyError` or a `TypeError`. -/
def subscript (v : Json) (key : String) : Option Json :=
  match v with
  | .obj fields => Obj.item? fields key
  | _ => none

/-- `int(claims[key])`. -/
def intItem (claims : Obj) (key : String) : Except Fault Int :=
  match claims.item? key with
  | some (.float (.inf _)) => .error .overflow
  | some v => require (v.toInt J.intOfText) .malformed
  | none => .error .malformed

/-- One turn of the loop over `claims["keys"]`. -/
def addKey (keys : Dict Text (TrustKey P)) (raw : Json) : Except Fault (Dict Text (TrustKey P)) := do
  let encoded ← require (subscript raw "publicKey") .malformed
  let publicKey ← require (J.loadPublic (J.str encoded)) .malformed
  let kid ← (J.str ·) <$> require (subscript raw "kid") .malformed
  ensure (J.thumbprint publicKey = kid) (.notThumbprint kid)
  ensure (kid ∉ keys.keys) (.listedTwice kid)
  let issuer ← (J.str ·) <$> require (subscript raw "issuer") .malformed
  let grants ← require ((subscript raw "grants").bind iter) .malformed
  return keys.set kid { kid, issuer, publicKey, grants := grants.map J.str }

/-- `tokenEpochs`, when the bundle has it. -/
def readTokenEpochs (claims : Obj) : Except Fault (Option (Int × Int)) :=
  match claims.get "tokenEpochs" with
  | .null => .ok none
  | marked =>
      match subscript marked "since", subscript marked "epoch" with
      | some (.int since), some (.int at_) => .ok (some (since, at_))
      | _, _ => .error .malformed

/-- `parse_bundle`, at a time of this host: verify a bundle against the
pinned authority and read it. -/
def parseBundle (clock : ℚ) (jws : T) (authority : Text) : Except Fault (TrustBundle P T) := do
  let header ← (J.header jws).mapError .notJws
  ensure ((header.get "typ").isStr typBundle) (.wrongTyp (header.get "typ"))
  let pinned ← require (J.loadPublic authority) (.signature [])
  let claims ← (J.decodeBundle jws pinned clock).mapError .signature
  ensure ((claims.get "authority").isStr authority) .otherAuthority
  let raws ← require ((claims.item? "keys").bind iter) .malformed
  let keys ← raws.foldlM (addKey J) .empty
  let signOuts ← require ((claims.item? "revokedSessions").bind iter) .malformed
  let revoked ← signOuts.mapM fun r => (J.str ·) <$> require (subscript r "jti") .malformed
  let tokenEpochs ← readTokenEpochs claims
  let version ← intItem J claims "version"
  let epoch ← intItem J claims "epoch"
  let iat ← intItem J claims "iat"
  return { version, epoch, iat, authority, keys, revokedSessions := revoked, jws, payload := claims,
           tokenEpochs }

/-- `TrustKey.to_dict`. -/
def TrustKey.toDict (k : TrustKey P) : Json :=
  .obj [("kid".toList, .str k.kid), ("issuer".toList, .str k.issuer),
    ("publicKey".toList, .str (J.publicB64 k.publicKey)),
    ("grants".toList, .arr ((k.grants.insertionSort (· ≤ ·)).map .str))]

/-- The sign-outs a bundle issued at `now` lists: the expired are pruned. -/
def keptSignOuts (revokedSessions : List (Text × Int)) (now : Int) : List (Text × Int) :=
  (revokedSessions.dedup.insertionSort fun a b => a.1 < b.1 ∨ a.1 = b.1 ∧ a.2 ≤ b.2).filter
    fun r => decide (now ≤ r.2 + leewaySeconds)

/-- The claims of a bundle. -/
def bundlePayload (authority : P) (version epoch : Int) (keys : List (TrustKey P))
    (revokedSessions : List (Text × Int)) (now : Int) (tokenEpochs : Option (Int × Int)) : Obj :=
  [("version".toList, .int version), ("epoch".toList, .int epoch), ("iat".toList, .int now),
    ("authority".toList, .str (J.publicB64 authority)),
    ("keys".toList, .arr ((keys.insertionSort fun a b => a.kid ≤ b.kid).map (TrustKey.toDict J))),
    ("revokedSessions".toList, .arr ((keptSignOuts revokedSessions now).map fun r =>
      .obj [("jti".toList, .str r.1), ("exp".toList, .int r.2)]))] ++
  (tokenEpochs.elim [] fun te =>
    [("tokenEpochs".toList, .obj [("since".toList, .int te.1), ("epoch".toList, .int te.2)])])

/-- `build_bundle`, at a time of this host. -/
def buildBundle (clock : ℚ) (authority : P) (version epoch : Int) (keys : List (TrustKey P))
    (revokedSessions : List (Text × Int)) (now : Int) (tokenEpochs : Option (Int × Int)) :
    Except Fault (TrustBundle P T) := do
  ensure (keys.map (·.kid)).Nodup .twoKeys
  let payload := bundlePayload J authority version epoch keys revokedSessions now tokenEpochs
  parseBundle J clock (J.sign authority [("typ".toList, .str typBundle)] payload)
    (J.publicB64 authority)

/-- `accepts_replacement`: none when `offered` may replace `held`. -/
def acceptsReplacement (held : Option (TrustBundle P T)) (offered : TrustBundle P T) :
    Option Text :=
  match held with
  | none => none
  | some held =>
      if offered.epoch < held.epoch then
        some (s!"epoch {offered.epoch} is below the {held.epoch} already held").toList
      else if held.epoch < offered.epoch then none
      else if offered.version < held.version then
        some (s!"version {offered.version} is below the {held.version} already held").toList
      else none

end InferenceDriver.Tokens
