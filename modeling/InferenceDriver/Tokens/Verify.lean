/-
# `Tokens.Verify` — every check a token passes

`verify` of `tokens.py` is a chain of checks that ends at the first one
that fails.  `verify_eq_ok` turns the chain into a list: a token is
accepted exactly when there is a key of the bundle and a set of claims for
which every entry of `Accepted` holds.  What is proved about accepted
tokens elsewhere starts from that list, and the checks that branch have a
lemma each that says what passing them means (`checkGrants_eq_ok`,
`checkEpoch_eq_ok`, `checkSession_eq_ok`).
-/
import InferenceDriver.Tokens.Bundle

namespace InferenceDriver.Tokens

open Checks

/-- `TokenError`, by what it has to say. -/
inductive TokenError where
  | notJwt (detail : Text)
  | notAccepted (typ : Json)
  | unknownKey
  | jwt (detail : Text)
  | noClaim (name : String)
  | badAud
  | otherIssuer (iss issuer : Text)
  | addressed (aud : List Text) (wanted : Text)
  | notIntegers
  | act
  | sid
  | mayNotIssue (issuer typ : Text)
  | jobSite (issuer : Text)
  | noGrant (issuer : Text)
  | standbyOnly (issuer : Text)
  | offMachine (issuer sub : Text)
  | tooLong (typ : Text) (aud : List Text) (limit lifetime : Int)
  | notFollowed (minted : Option Int) (follows : Int)
  | ep
  | browser
  | administration
  | signedOut
  | gone (names : List Text)
  /-- `AuthState.verify`, without auth or without a bundle. -/
  | noAuth
  | noBundle

/-- `str(exc)`, given `repr`. -/
def TokenError.message (repr : Json → Text) : TokenError → Text
  | notJwt detail => "not a JWT: ".toList ++ detail
  | notAccepted typ => "a ".toList ++ repr typ ++ " is not accepted here".toList
  | unknownKey => "the key that signed this token is not in the trust bundle".toList
  | jwt detail => detail
  | noClaim name => "the token has no ".toList ++ repr (.str name.toList) ++ " claim".toList
  | badAud => "the token's aud must be a non-empty list of recipients".toList
  | otherIssuer iss issuer => "the token says it is from ".toList ++ repr (.str iss) ++
      " but its key belongs to ".toList ++ repr (.str issuer)
  | addressed aud wanted => "the token is addressed to ".toList ++ repr (.arr (aud.map .str)) ++
      ", not to ".toList ++ repr (.str wanted)
  | notIntegers => "iat and exp must be integers".toList
  | act => "act is only meaningful on an exchanged session".toList
  | sid => "sid must be a string".toList
  | mayNotIssue issuer typ => issuer ++ " may not issue a ".toList ++ typ ++
      ": only the authority mints one".toList
  | jobSite issuer => issuer ++ (" is a job site: its tokens reach the control root's " ++
      "node routes and its own machine, nothing else").toList
  | noGrant issuer => issuer ++ " holds no grant that issues a service token".toList
  | standbyOnly issuer =>
      issuer ++ " is the standby: its standby token reaches control only".toList
  | offMachine issuer sub => issuer ++ " may not send a ".toList ++ repr (.str sub) ++
      " service token off its own machine".toList ++
      (if sub = subGateway then ": it holds no gateway grant".toList
       else if sub = subStandby then ": it holds no standby grant".toList else [])
  | tooLong typ aud limit lifetime => "a ".toList ++ typ ++ " to ".toList ++
      repr (.arr (aud.map .str)) ++ " may live ".toList ++ (toString limit).toList ++
      " s; this one claims ".toList ++ (toString lifetime).toList ++ " s".toList
  | notFollowed minted follows =>
      "This command came from a root this machine no longer follows (epoch ".toList ++
      (minted.elim "unknown" toString).toList ++ "; it follows epoch ".toList ++
      (toString follows).toList ++ ").".toList
  | ep => "ep must be a whole number".toList
  | browser => "invalid browser sign-in binding".toList
  | administration => "invalid administration session".toList
  | signedOut => "this session was signed out".toList
  | gone names => "this session names machines no longer in the install: ".toList ++
      repr (.arr (names.map .str))
  | noAuth => "this driver verifies nothing: it runs without auth".toList
  | noBundle => ("this driver holds no trust bundle it can read yet; its agent keeps one " ++
      "beside node.yaml").toList

/-- What a verified token says. -/
structure Claims where
  typ : Text
  iss : Text
  sub : Text
  aud : List Text
  iat : Int
  exp : Int
  jti : Text
  /-- On an exchanged session: the machine that asked. -/
  act : Option Text
  administrationVersion : Option Int
  browserSession : Option Text
  /-- On an exchanged session: the `jti` of the session it came from. -/
  sid : Option Text
  /-- `ep`: the epoch of the control root that signed it. -/
  epoch : Option Int

def Claims.isSession (c : Claims) : Prop := c.typ = typSession

def Claims.isService (c : Claims) : Prop := c.typ = typService

instance (c : Claims) : Decidable c.isSession := inferInstanceAs (Decidable (_ = _))

instance (c : Claims) : Decidable c.isService := inferInstanceAs (Decidable (_ = _))

/-- A service token its own machine minted for itself. -/
def Claims.isLocalService (c : Claims) (recipient : Text) : Prop :=
  c.isService ∧ c.iss = recipient ∧ c.aud = [recipient]

instance (c : Claims) (recipient : Text) : Decidable (c.isLocalService recipient) :=
  inferInstanceAs (Decidable (_ ∧ _))

/-! ## The checks -/

/-- `_require_str`. -/
def requireStr (claims : Obj) (name : String) : Except TokenError Text :=
  match claims.get name with
  | .str (c :: cs) => .ok (c :: cs)
  | _ => .error (.noClaim name)

def asText : Json → Option Text
  | .str s => some s
  | _ => none

/-- `_aud`. -/
def audOf (claims : Obj) : Except TokenError (List Text) :=
  match claims.get "aud" with
  | .str s => .ok [s]
  | .arr items =>
      match items.mapM asText with
      | some (a :: as) => .ok (a :: as)
      | _ => .error .badAud
  | _ => .error .badAud

/-- A token that reaches no machine but its issuer's. -/
def OwnMachine (issuer : Text) (aud : List Text) : Prop := ∀ a ∈ aud, a = issuer

instance (issuer : Text) (aud : List Text) : Decidable (OwnMachine issuer aud) :=
  inferInstanceAs (Decidable (∀ a ∈ aud, a = issuer))

variable {P T : Type}

/-- `_check_grants`. -/
def checkGrants (key : TrustKey P) (typ sub : Text) (aud : List Text) : Except TokenError Unit :=
  if grantAuthority ∈ key.grants then .ok ()
  else if typ ∈ [typSession, typClient, typAdministration] then
    .error (.mayNotIssue key.issuer typ)
  else if grantNode ∉ key.grants then
    if grantFiles ∈ key.grants then
      ensure (OwnMachine key.issuer aud ∨
        (sub = subAgent ∧ ∀ a ∈ aud, a = key.issuer ∨ a = recipientControl)) (.jobSite key.issuer)
    else .error (.noGrant key.issuer)
  else if OwnMachine key.issuer aud then .ok ()
  else if sub = subAgent then .ok ()
  else if sub = subGateway ∧ grantGateway ∈ key.grants then .ok ()
  else if sub = subStandby ∧ grantStandby ∈ key.grants then
    ensure (∀ a ∈ aud, a = recipientControl) (.standbyOnly key.issuer)
  else .error (.offMachine key.issuer sub)

/-- The longest a token of its class may live. -/
def lifetimeLimit (typ iss : Text) (aud : List Text) (exchanged : Bool) : Int :=
  if typ = typAdministration then 3600
  else if typ = typSession then if exchanged then 10 * 60 else 14 * (24 * 3600)
  else if typ = typClient then 400 * (24 * 3600)
  else if OwnMachine iss aud then 400 * (24 * 3600)
  else 3600

/-- `_check_lifetime`. -/
def checkLifetime (typ iss : Text) (aud : List Text) (lifetime : Int) (exchanged : Bool) :
    Except TokenError Unit :=
  ensure (lifetime ≤ lifetimeLimit typ iss aud exchanged)
    (.tooLong typ aud (lifetimeLimit typ iss aud exchanged) lifetime)

/-- `_check_epoch`: a root token was minted at the epoch of the root this
verifier follows, or later. -/
def checkEpoch (claims : Obj) (bundle : TrustBundle P T) (typ iss : Text) (iat : Int) :
    Except TokenError (Option Int) :=
  if iss ≠ issuerControl ∨ typ = typClient then .ok none
  else
    match claims.get "ep" with
    | .null =>
        match bundle.tokenEpochs with
        | none => .ok none
        | some (since, at_) =>
            if since ≤ iat ∨ at_ < bundle.epoch then .error (.notFollowed none bundle.epoch)
            else .ok none
    | .int ep =>
        if ep < 0 then .error .ep
        else if ep < bundle.epoch then .error (.notFollowed (some ep) bundle.epoch)
        else .ok (some ep)
    | _ => .error .ep

/-- `act`: the machine an exchanged session was exchanged for. -/
def actOf (claims : Obj) (typ : Text) : Except TokenError (Option Text) :=
  match claims.get "act" with
  | .null => .ok none
  | .obj act => if typ = typSession then some <$> requireStr act "sub" else .error .act
  | _ => .error .act

def sidOf (claims : Obj) : Except TokenError (Option Text) :=
  match claims.get "sid" with
  | .null => .ok none
  | .str sid => .ok (some sid)
  | _ => .error .sid

def browserOf (claims : Obj) (typ : Text) : Except TokenError (Option Text) :=
  match claims.get "eugene_browser_session" with
  | .null => .ok none
  | .str s =>
      if typ = typAdministration ∧ s.length = 64 ∧ ∀ c ∈ s, c ∈ "0123456789abcdef".toList then
        .ok (some s)
      else .error .browser
  | _ => .error .browser

def administrationOf (claims : Obj) (typ iss sub : Text) (aud : List Text) (sid : Option Text) :
    Except TokenError (Option Int) :=
  if typ = typAdministration then
    match claims.get "administration_version" with
    | .int version =>
        if iss = issuerControl ∧ aud = [recipientControl] ∧ sub ≠ subOperator ∧ 0 ≤ version ∧
            sid = none then
          .ok (some version)
        else .error .administration
    | _ => .error .administration
  else .ok none

/-- The machines a session names that the bundle does not. -/
def goneMachines (bundle : TrustBundle P T) (aud : List Text) (act : Option Text) : List Text :=
  ((aud.filterMap nodeOf) ++ (act.bind nodeOf).toList).filter fun n => n ∉ bundle.members

/-- A session is not signed out, and the machines it names are in the
bundle. -/
def checkSession (key : TrustKey P) (bundle : TrustBundle P T) (typ iss jti : Text)
    (aud : List Text) (act sid : Option Text) : Except TokenError Unit :=
  if typ = typSession ∨ typ = typAdministration then
    if jti ∈ bundle.revokedSessions ∨ (∃ s, sid = some s ∧ s ≠ [] ∧ s ∈ bundle.revokedSessions) then
      .error .signedOut
    else if grantAuthority ∈ key.grants ∧ iss = issuerControl then
      ensure (goneMachines bundle aud act = [])
        (.gone ((goneMachines bundle aud act).insertionSort (· ≤ ·)))
    else .ok ()
  else .ok ()

/-- `typ` of a header, if it is one of the classes accepted here. -/
def classOf (header : Obj) (classes : List Text) : Except TokenError Text :=
  match header.get "typ" with
  | .str typ => if typ ∈ classes then .ok typ else .error (.notAccepted (.str typ))
  | typ => .error (.notAccepted typ)

/-- The key a header names. -/
def keyOf (header : Obj) (bundle : TrustBundle P T) : Except TokenError (TrustKey P) :=
  match header.get "kid" with
  | .str kid => require (bundle.keys.get? kid) .unknownKey
  | _ => .error .unknownKey

/-- Whom a token of a class must be addressed to. -/
def wanted (typ recipient : Text) : Text := if typ = typClient then recipientGateway else recipient

variable (J : Jwt P T)

/-- `verify`, at a time of this host. -/
def verify (now : ℚ) (token : T) (bundle : TrustBundle P T) (recipient : Text)
    (classes : List Text) : Except TokenError Claims := do
  let header ← (J.header token).mapError .notJwt
  let typ ← classOf header classes
  let key ← keyOf header bundle
  let claims ← (J.decode token key.publicKey now).mapError .jwt
  let iss ← requireStr claims "iss"
  let sub ← requireStr claims "sub"
  let jti ← requireStr claims "jti"
  let aud ← audOf claims
  ensure (iss = key.issuer) (.otherIssuer iss key.issuer)
  ensure (wanted typ recipient ∈ aud) (.addressed aud (wanted typ recipient))
  let iat ← require ((claims.get "iat").toInt J.intOfText) .notIntegers
  let exp ← require ((claims.get "exp").toInt J.intOfText) .notIntegers
  let act ← actOf claims typ
  let sid ← sidOf claims
  checkGrants key typ sub aud
  checkLifetime typ iss aud (exp - iat) act.isSome
  let epoch ← checkEpoch claims bundle typ iss iat
  let browserSession ← browserOf claims typ
  let administrationVersion ← administrationOf claims typ iss sub aud sid
  checkSession key bundle typ iss jti aud act sid
  return { typ, iss, sub, aud, iat, exp, jti, act, administrationVersion, browserSession, sid, epoch }

/-- What `verify` has checked of a token it accepts as `c`: `key` is the key
of the bundle that its header names, `raw` what is inside it. -/
structure Accepted (now : ℚ) (token : T) (bundle : TrustBundle P T) (recipient : Text)
    (classes : List Text) (c : Claims) (key : TrustKey P) (raw : Obj) : Prop where
  header : ∃ h, J.header token = .ok h ∧ classOf h classes = .ok c.typ ∧ keyOf h bundle = .ok key
  decoded : J.decode token key.publicKey now = .ok raw
  iss : requireStr raw "iss" = .ok c.iss
  sub : requireStr raw "sub" = .ok c.sub
  jti : requireStr raw "jti" = .ok c.jti
  aud : audOf raw = .ok c.aud
  issuer : c.iss = key.issuer
  addressed : wanted c.typ recipient ∈ c.aud
  iat : (raw.get "iat").toInt J.intOfText = some c.iat
  exp : (raw.get "exp").toInt J.intOfText = some c.exp
  act : actOf raw c.typ = .ok c.act
  sid : sidOf raw = .ok c.sid
  granted : checkGrants key c.typ c.sub c.aud = .ok ()
  lifetime : c.exp - c.iat ≤ lifetimeLimit c.typ c.iss c.aud c.act.isSome
  epoch : checkEpoch raw bundle c.typ c.iss c.iat = .ok c.epoch
  browser : browserOf raw c.typ = .ok c.browserSession
  administration : administrationOf raw c.typ c.iss c.sub c.aud c.sid = .ok c.administrationVersion
  session : checkSession key bundle c.typ c.iss c.jti c.aud c.act c.sid = .ok ()

/-! ## What passing a check means -/

/-- A claim that is asked for is a string, and not empty. -/
theorem requireStr_eq_ok {claims : Obj} {name : String} {s : Text} :
    requireStr claims name = .ok s ↔ claims.get name = .str s ∧ s ≠ [] := by
  unfold requireStr
  split
  · rename_i c cs h
    rw [h]
    constructor
    · rintro ⟨⟩; exact ⟨rfl, List.cons_ne_nil _ _⟩
    · rintro ⟨⟨⟩, -⟩; rfl
  · rename_i h
    refine ⟨fun h' => (by cases h'), fun ⟨hg, hne⟩ => ?_⟩
    obtain ⟨c, cs, rfl⟩ := List.exists_cons_of_ne_nil hne
    exact absurd hg (h c cs)

/-- What a key may issue: the authority anything; the others service tokens
only, a job site's key to its own machine and the agent routes, a node's
anything on its own machine and, off it, what its grants name. -/
theorem checkGrants_eq_ok {key : TrustKey P} {typ sub : Text} {aud : List Text} :
    checkGrants key typ sub aud = .ok () ↔
      grantAuthority ∈ key.grants ∨
      (typ ∉ [typSession, typClient, typAdministration] ∧
        ((grantNode ∉ key.grants ∧ grantFiles ∈ key.grants ∧
            (OwnMachine key.issuer aud ∨
              (sub = subAgent ∧ ∀ a ∈ aud, a = key.issuer ∨ a = recipientControl))) ∨
          (grantNode ∈ key.grants ∧
            (OwnMachine key.issuer aud ∨ sub = subAgent ∨
              (sub = subGateway ∧ grantGateway ∈ key.grants) ∨
              (sub = subStandby ∧ grantStandby ∈ key.grants ∧ ∀ a ∈ aud, a = recipientControl))))) := by
  unfold checkGrants
  by_cases ha : grantAuthority ∈ key.grants
  · rw [if_pos ha]
    exact ⟨fun _ => Or.inl ha, fun _ => rfl⟩
  rw [if_neg ha, or_iff_right ha]
  by_cases ht : typ ∈ [typSession, typClient, typAdministration]
  · rw [if_pos ht]
    exact ⟨fun h => (by cases h), fun h => absurd ht h.1⟩
  rw [if_neg ht, and_iff_right ht]
  by_cases hn : grantNode ∈ key.grants
  · rw [if_neg (not_not.mpr hn), or_iff_right (fun h => h.1 hn), and_iff_right hn]
    by_cases ho : OwnMachine key.issuer aud
    · rw [if_pos ho]
      exact ⟨fun _ => Or.inl ho, fun _ => rfl⟩
    rw [if_neg ho, or_iff_right ho]
    by_cases hag : sub = subAgent
    · rw [if_pos hag]
      exact ⟨fun _ => Or.inl hag, fun _ => rfl⟩
    rw [if_neg hag, or_iff_right hag]
    by_cases hg : sub = subGateway ∧ grantGateway ∈ key.grants
    · rw [if_pos hg]
      exact ⟨fun _ => Or.inl hg, fun _ => rfl⟩
    rw [if_neg hg, or_iff_right hg]
    by_cases hs : sub = subStandby ∧ grantStandby ∈ key.grants
    · rw [if_pos hs, ensure_eq_ok]
      exact ⟨fun h => ⟨hs.1, hs.2, h⟩, fun h => h.2.2⟩
    · rw [if_neg hs]
      exact ⟨fun h => (by cases h), fun h => absurd ⟨h.1, h.2.1⟩ hs⟩
  · rw [if_pos hn]
    by_cases hf : grantFiles ∈ key.grants
    · rw [if_pos hf, ensure_eq_ok]
      exact ⟨fun h => Or.inl ⟨hn, hf, h⟩, fun h => h.elim (·.2.2) fun h => absurd h.1 hn⟩
    · rw [if_neg hf]
      exact ⟨fun h => (by cases h), fun h => h.elim (fun h => absurd h.2.1 hf) fun h => absurd h.1 hn⟩

/-- Only the authority's key issues a session. -/
theorem authority_of_session {key : TrustKey P} {typ sub : Text} {aud : List Text}
    (h : checkGrants key typ sub aud = .ok ())
    (ht : typ ∈ [typSession, typClient, typAdministration]) : grantAuthority ∈ key.grants := by
  rcases checkGrants_eq_ok.mp h with h | ⟨hn, -⟩
  · exact h
  · exact absurd ht hn

/-- A root token with no `ep` is from before the marks the bundle has, and
one with `ep` is from the epoch followed, or a later one. -/
theorem checkEpoch_eq_ok {claims : Obj} {bundle : TrustBundle P T} {typ iss : Text} {iat : Int}
    {epoch : Option Int} :
    checkEpoch claims bundle typ iss iat = .ok epoch ↔
      ((iss ≠ issuerControl ∨ typ = typClient) ∧ epoch = none) ∨
      (¬ (iss ≠ issuerControl ∨ typ = typClient) ∧
        ((claims.get "ep" = .null ∧ epoch = none ∧
            ∀ since at_, bundle.tokenEpochs = some (since, at_) → iat < since ∧ bundle.epoch ≤ at_) ∨
          ∃ ep, claims.get "ep" = .int ep ∧ 0 ≤ ep ∧ bundle.epoch ≤ ep ∧ epoch = some ep)) := by
  unfold checkEpoch
  by_cases hc : iss ≠ issuerControl ∨ typ = typClient
  · simp [hc, eq_comm]
  rw [if_neg hc]
  simp only [hc, false_and, false_or, not_false_eq_true, true_and]
  cases hep : claims.get "ep" with
  | null =>
      cases hm : bundle.tokenEpochs with
      | none => simp [eq_comm]
      | some m =>
          obtain ⟨since, at_⟩ := m
          by_cases hb : since ≤ iat ∨ at_ < bundle.epoch
          · simp only [if_pos hb, reduceCtorEq, true_and, false_and, exists_false, or_false,
              Option.some.injEq, Prod.mk.injEq, and_imp, false_iff, not_and]
            intro _ h
            have := h since at_ rfl rfl
            omega
          · simp only [if_neg hb, Except.ok.injEq, reduceCtorEq, true_and, false_and, exists_false,
              or_false, Option.some.injEq, Prod.mk.injEq, and_imp]
            constructor
            · rintro rfl
              refine ⟨rfl, ?_⟩
              rintro s a rfl rfl
              omega
            · rintro ⟨rfl, -⟩; rfl
  | int ep =>
      by_cases h₁ : ep < 0
      · simp only [if_pos h₁, reduceCtorEq, false_and, false_or, Json.int.injEq, false_iff]
        rintro ⟨e, rfl, h, -⟩; omega
      · by_cases h₂ : ep < bundle.epoch
        · simp only [if_neg h₁, if_pos h₂, reduceCtorEq, false_and, false_or, Json.int.injEq,
            false_iff]
          rintro ⟨e, rfl, -, h, -⟩; omega
        · simp only [if_neg h₁, if_neg h₂, Except.ok.injEq, reduceCtorEq, false_and, false_or,
            Json.int.injEq]
          constructor
          · rintro rfl; exact ⟨ep, rfl, by omega, by omega, rfl⟩
          · rintro ⟨e, rfl, -, -, rfl⟩; rfl
  | bool b => simp
  | float x => simp
  | str s => simp
  | arr items => simp
  | obj fields => simp

/-- A session that passes is not signed out, nor is the one it was
exchanged for; and the machines the root's sessions name are members. -/
theorem checkSession_eq_ok {key : TrustKey P} {bundle : TrustBundle P T} {typ iss jti : Text}
    {aud : List Text} {act sid : Option Text} :
    checkSession key bundle typ iss jti aud act sid = .ok () ↔
      (typ = typSession ∨ typ = typAdministration →
        jti ∉ bundle.revokedSessions ∧
        (∀ s, sid = some s → s ≠ [] → s ∉ bundle.revokedSessions) ∧
        (grantAuthority ∈ key.grants → iss = issuerControl →
          ∀ n, n ∈ aud.filterMap nodeOf ∨ act.bind nodeOf = some n → n ∈ bundle.members)) := by
  have hgone : goneMachines bundle aud act = [] ↔
      ∀ n, n ∈ aud.filterMap nodeOf ∨ act.bind nodeOf = some n → n ∈ bundle.members := by
    simp only [goneMachines, List.filter_eq_nil_iff, List.mem_append, Option.mem_toList,
      decide_eq_true_eq, not_not]
  unfold checkSession
  by_cases ht : typ = typSession ∨ typ = typAdministration
  · rw [if_pos ht]
    simp only [ht, forall_true_left]
    by_cases hr : jti ∈ bundle.revokedSessions ∨ ∃ s, sid = some s ∧ s ≠ [] ∧ s ∈ bundle.revokedSessions
    · rw [if_pos hr]
      refine ⟨fun h => (by cases h), fun h => ?_⟩
      rcases hr with hr | ⟨s, hs, hne, hm⟩
      · exact absurd hr h.1
      · exact absurd hm (h.2.1 s hs hne)
    · rw [if_neg hr]
      rw [not_or] at hr
      have hsid : ∀ s, sid = some s → s ≠ [] → s ∉ bundle.revokedSessions :=
        fun s hs hne hm => hr.2 ⟨s, hs, hne, hm⟩
      by_cases hc : grantAuthority ∈ key.grants ∧ iss = issuerControl
      · rw [if_pos hc, ensure_eq_ok, hgone]
        exact ⟨fun h => ⟨hr.1, hsid, fun _ _ => h⟩, fun h => h.2.2 hc.1 hc.2⟩
      · rw [if_neg hc]
        exact ⟨fun _ => ⟨hr.1, hsid, fun h₁ h₂ => absurd ⟨h₁, h₂⟩ hc⟩, fun _ => rfl⟩
  · rw [if_neg ht]
    exact ⟨fun _ h => absurd h ht, fun _ => rfl⟩

theorem mapError_eq_ok {ε ε' α : Type} {f : ε → ε'} {x : Except ε α} {a : α} :
    x.mapError f = .ok a ↔ x = .ok a := by
  cases x with
  | error e => exact ⟨fun h => (by cases h), fun h => (by cases h)⟩
  | ok b => exact ⟨fun h => by cases h; rfl, fun h => by cases h; rfl⟩

/-- **A token is accepted exactly when every check passes.** -/
theorem verify_eq_ok {now : ℚ} {token : T} {bundle : TrustBundle P T} {recipient : Text}
    {classes : List Text} {c : Claims} :
    verify J now token bundle recipient classes = .ok c ↔
      ∃ key raw, Accepted J now token bundle recipient classes c key raw := by
  simp only [verify, checkLifetime, bind_eq_ok, mapError_eq_ok, ensure_eq_ok, require_eq_ok,
    pure_eq_ok]
  constructor
  · rintro ⟨h, hh, typ, ht, key, hk, raw, hd, iss, hi, sub, hs, jti, hj, aud, ha, -, hiss, -, hw,
      iat, hiat, exp, hexp, act, hact, sid, hsid, _, hg, -, hl, epoch, hep, browser, hb, version, hv,
      _, hsess, rfl⟩
    exact ⟨key, raw, ⟨h, hh, ht, hk⟩, hd, hi, hs, hj, ha, hiss, hw, hiat, hexp, hact, hsid, hg, hl,
      hep, hb, hv, hsess⟩
  · rintro ⟨key, raw, ⟨h, hh, ht, hk⟩, hd, hi, hs, hj, ha, hiss, hw, hiat, hexp, hact, hsid, hg, hl,
      hep, hb, hv, hsess⟩
    exact ⟨h, hh, _, ht, key, hk, raw, hd, _, hi, _, hs, _, hj, _, ha, (), hiss, (), hw, _, hiat, _,
      hexp, _, hact, _, hsid, (), hg, (), hl, _, hep, _, hb, _, hv, (), hsess, rfl⟩

end InferenceDriver.Tokens
