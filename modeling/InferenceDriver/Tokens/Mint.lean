/-
# `Tokens.Mint` — what is minted is accepted

`Signer.mint` writes a token's claims with defaults of its own, `verify`
takes them apart with checks of its own, and the two have to agree on every
token that may be issued.  `MayIssue` says what may be issued, by the
grants of the key; `Current` what else the verifier's bundle has to say of
it.  `verify_mint` is the agreement: such a token is accepted, and read back
as it was minted.

What `verify` is strict about and `mint` is not is asked for on top: names
that are not empty, and an epoch that is not negative; and an epoch is read
of the root's tokens only (`minted_refused`).
-/
import InferenceDriver.Tokens.Symbolic
import InferenceDriver.Tokens.Verify

namespace InferenceDriver

namespace Obj

/-- `d[key] = value`. -/
def set : Obj → Text → Json → Obj
  | [], key, value => [(key, value)]
  | f :: o, key, value => if f.1 = key then (key, value) :: o else f :: set o key value

/-- `d.update(other)`. -/
def update (o other : Obj) : Obj := other.foldl (fun o f => o.set f.1 f.2) o

theorem item?_cons (f : Text × Json) (o : Obj) (name : String) :
    item? (f :: o) name = if f.1 = name.toList then some f.2 else o.item? name := by
  rw [item?, List.find?_cons]
  by_cases h : f.1 = name.toList
  · rw [if_pos h, decide_eq_true h]
    rfl
  · rw [if_neg h, decide_eq_false h]
    rfl

theorem item?_set (o : Obj) (key : Text) (value : Json) (name : String) :
    (o.set key value).item? name = if key = name.toList then some value else o.item? name := by
  induction o with
  | nil => exact item?_cons (key, value) [] name
  | cons f o ih =>
      rw [set, item?_cons]
      by_cases hf : f.1 = key
      · rw [if_pos hf, item?_cons, hf]
        split
        · rfl
        · rfl
      · rw [if_neg hf, item?_cons, ih]
        by_cases hk : key = name.toList
        · rw [if_pos hk, if_pos hk, if_neg fun h => hf (h.trans hk.symm)]
        · rw [if_neg hk, if_neg hk]

/-- What the other has, and else what was there. -/
theorem item?_update {other : Obj} (keys : (other.map (·.1)).Nodup) (o : Obj) (name : String) :
    (o.update other).item? name = (Obj.item? other name).or (o.item? name) := by
  rw [update]
  induction other generalizing o with
  | nil => rfl
  | cons f other ih =>
      obtain ⟨hout, keys⟩ := List.nodup_cons.mp keys
      rw [List.foldl_cons, ih keys, item?_set, item?_cons]
      by_cases hf : f.1 = name.toList
      · have hnone : Obj.item? other name = none := by
          rw [item?, Option.map_eq_none_iff, List.find?_eq_none]
          intro e he h
          exact hout (List.mem_map.mpr ⟨e, he, (of_decide_eq_true h).trans hf.symm⟩)
        rw [if_pos hf, if_pos hf, hnone]
        rfl
      · rw [if_neg hf, if_neg hf]

end Obj

namespace Tokens

open Checks

variable {P T : Type} (J : Jwt P T)

/-! ## Minting -/

/-- `Signer`: a private token key, by its public half, and the issuer its tokens carry. -/
structure Signer (P : Type) where
  key : P
  issuer : Text
  epoch : Option Int

def Signer.kid (S : Signer P) : Text := J.thumbprint S.key

/-- `trust_key(grants)`. -/
def Signer.trustKey (S : Signer P) (grants : List Text) : TrustKey P :=
  ⟨S.kid J, S.issuer, S.key, grants⟩

/-- `ValueError` of `mint`. -/
inductive MintError where
  /-- "a token must name at least one recipient" -/
  | noRecipient
  /-- "ttl_seconds must be positive" -/
  | notPositive

/-- `jti or secrets.token_urlsafe(12)`; what is drawn is not empty. -/
def jtiOf (jti : Option Text) (drawn : Text) : Text :=
  match jti with
  | some (c :: cs) => c :: cs
  | _ => drawn

/-- The claims `mint` signs. -/
def Signer.claims (S : Signer P) (typ sub : Text) (aud : List Text) (issued ttlSeconds : Int)
    (jti : Text) (extra : Obj) : Obj :=
  Obj.update
    ([("iss".toList, .str S.issuer), ("sub".toList, .str sub),
      ("aud".toList, .arr (aud.map .str)), ("iat".toList, .int issued),
      ("exp".toList, .int (issued + ttlSeconds)), ("jti".toList, .str jti)] ++
    match S.epoch with
    | some ep => if typ ≠ typClient then [("ep".toList, .int ep)] else []
    | none => [])
    extra

/-- `mint`, of a token issued at `issued`, with the random part drawn. -/
def Signer.mint (S : Signer P) (typ sub : Text) (aud : List Text) (ttlSeconds issued : Int)
    (jti : Option Text) (drawn : Text) (extra : Obj) : Except MintError (T × Int) := do
  ensure (aud ≠ []) .noRecipient
  ensure (0 < ttlSeconds) .notPositive
  return (J.sign S.key [("typ".toList, .str typ), ("kid".toList, .str (S.kid J))]
    (S.claims typ sub aud issued ttlSeconds (jtiOf jti drawn) extra), issued + ttlSeconds)

/-! ## What may be issued -/

/-- What a key's grants permit: the authority anything; the others service
tokens, a job site's to its own machine and its agent to the root, a node's
to its own machine, its agent anywhere, its gateway anywhere with that
grant, its standby to the root with that one. -/
def MayIssue (grants : List Text) (issuer typ sub : Text) (aud : List Text) : Prop :=
  grantAuthority ∈ grants ∨
    (typ = typService ∧
      ((grantNode ∉ grants ∧ grantFiles ∈ grants ∧
          (OwnMachine issuer aud ∨
            (sub = subAgent ∧ ∀ a ∈ aud, a = issuer ∨ a = recipientControl))) ∨
        (grantNode ∈ grants ∧
          (OwnMachine issuer aud ∨ sub = subAgent ∨
            (sub = subGateway ∧ grantGateway ∈ grants) ∨
            (sub = subStandby ∧ grantStandby ∈ grants ∧ ∀ a ∈ aud, a = recipientControl)))))

/-- What `extra` adds to a token: nothing that is minted anyway, and of what
is verified an exchanged session's `act` and `sid` alone. -/
structure Adds (extra : Obj) (typ : Text) (act sid : Option Text) : Prop where
  keys : (extra.map (·.1)).Nodup
  free : ∀ name ∈ ["iss", "sub", "aud", "iat", "exp", "jti", "ep", "nbf", "eugene_browser_session"],
    Obj.item? extra name = none
  act : actOf extra typ = .ok act
  sid : sidOf extra = .ok sid

/-- What a verifier's bundle has to say of a token before it is accepted:
its root is followed, and a session is not signed out and names members. -/
structure Current (S : Signer P) (grants : List Text) (B : TrustBundle P T) (typ : Text)
    (aud : List Text) (issued : Int) (jti : Text) (act sid : Option Text) : Prop where
  listed : B.keys.get? (S.kid J) = some (S.trustKey J grants)
  marked : S.issuer = issuerControl → typ ≠ typClient → ∀ ep, S.epoch = some ep → B.epoch ≤ ep
  unmarked : S.issuer = issuerControl → typ ≠ typClient → S.epoch = none →
    ∀ since at_, B.tokenEpochs = some (since, at_) → issued < since ∧ B.epoch ≤ at_
  signedIn : typ = typSession → jti ∉ B.revokedSessions ∧
    ∀ s, sid = some s → s ≠ [] → s ∉ B.revokedSessions
  members : typ = typSession → S.issuer = issuerControl →
    ∀ n, n ∈ aud.filterMap nodeOf ∨ act.bind nodeOf = some n → n ∈ B.members

/-- The epoch a token of its class carries and a verifier reads: the root's. -/
def Signer.epochOf (S : Signer P) (typ : Text) : Option Int :=
  if S.issuer = issuerControl ∧ typ ≠ typClient then S.epoch else none

/-- What a minted token says. -/
def Signer.minted (S : Signer P) (typ sub : Text) (aud : List Text) (issued ttlSeconds : Int)
    (jti : Text) (act sid : Option Text) : Claims where
  typ := typ
  iss := S.issuer
  sub := sub
  aud := aud
  iat := issued
  exp := issued + ttlSeconds
  jti := jti
  act := act
  administrationVersion := none
  browserSession := none
  sid := sid
  epoch := S.epochOf typ

/-! ## What is minted -/

theorem mint_eq_ok {S : Signer P} {typ sub : Text} {aud : List Text} {ttlSeconds issued exp : Int}
    {jti : Option Text} {drawn : Text} {extra : Obj} {token : T} :
    S.mint J typ sub aud ttlSeconds issued jti drawn extra = .ok (token, exp) ↔
      aud ≠ [] ∧ 0 < ttlSeconds ∧ exp = issued + ttlSeconds ∧
        token = J.sign S.key [("typ".toList, .str typ), ("kid".toList, .str (S.kid J))]
          (S.claims typ sub aud issued ttlSeconds (jtiOf jti drawn) extra) := by
  simp only [Signer.mint, bind_eq_ok, ensure_eq_ok, pure_eq_ok, Prod.mk.injEq]
  constructor
  · rintro ⟨-, ha, -, ht, rfl, rfl⟩
    exact ⟨ha, ht, rfl, rfl⟩
  · rintro ⟨ha, ht, rfl, rfl⟩
    exact ⟨(), ha, (), ht, rfl, rfl⟩

theorem jtiOf_ne_nil {jti : Option Text} {drawn : Text} (h : drawn ≠ []) : jtiOf jti drawn ≠ [] := by
  unfold jtiOf
  split
  · exact List.cons_ne_nil _ _
  · exact h

section Claims

variable {S : Signer P} {typ sub jti : Text} {aud : List Text} {issued ttlSeconds : Int} {extra : Obj}
  {act sid : Option Text}

/-- A claim that `extra` does not touch is minted as it is. -/
theorem claims_get (hx : Adds extra typ act sid) {name : String}
    (hn : name ∈ ["iss", "sub", "aud", "iat", "exp", "jti", "ep", "nbf", "eugene_browser_session"]) :
    (S.claims typ sub aud issued ttlSeconds jti extra).item? name =
      (S.claims typ sub aud issued ttlSeconds jti []).item? name := by
  rw [Signer.claims, Obj.item?_update hx.keys, hx.free name hn]
  rfl

/-- Another is as `extra` has it. -/
theorem claims_get_extra (hx : Adds extra typ act sid) {name : String}
    (hn : (S.claims typ sub aud issued ttlSeconds jti []).item? name = none) :
    (S.claims typ sub aud issued ttlSeconds jti extra).get name = Obj.get extra name := by
  have h : (S.claims typ sub aud issued ttlSeconds jti extra).item? name = Obj.item? extra name := by
    rw [Signer.claims, Obj.item?_update hx.keys]
    exact (congrArg _ hn).trans Option.or_none
  rw [Obj.get, h, Obj.get]

/-- What is not minted. -/
theorem claims_none {name : String} (hn : name ∈ ["nbf", "act", "sid", "eugene_browser_session"]) :
    (S.claims typ sub aud issued ttlSeconds jti []).item? name = none := by
  simp only [List.mem_cons, List.not_mem_nil, or_false] at hn
  rw [Signer.claims]
  cases S.epoch with
  | none => rcases hn with rfl | rfl | rfl | rfl <;> rfl
  | some ep =>
      by_cases ht : typ ≠ typClient
      · simp only [if_pos ht]
        rcases hn with rfl | rfl | rfl | rfl <;> rfl
      · simp only [if_neg ht]
        rcases hn with rfl | rfl | rfl | rfl <;> rfl

/-- `ep` is minted for a token that is no client key, by a signer that has an epoch. -/
theorem claims_ep (hx : Adds extra typ act sid) (ht : typ ≠ typClient) :
    (S.claims typ sub aud issued ttlSeconds jti extra).get "ep" = S.epoch.elim .null .int := by
  rw [Obj.get, claims_get hx (by decide), Signer.claims]
  cases S.epoch with
  | none => rfl
  | some ep =>
      simp only [if_pos ht]
      rfl

end Claims

/-! ## It is accepted -/

theorem checkGrants_of_mayIssue {S : Signer P} {grants : List Text} {typ sub : Text}
    {aud : List Text} (h : MayIssue grants S.issuer typ sub aud) :
    checkGrants (S.trustKey J grants) typ sub aud = .ok () := by
  refine checkGrants_eq_ok.mpr (h.imp_right fun ⟨ht, h⟩ => ⟨?_, h⟩)
  rw [ht]
  decide

theorem audOf_minted {claims : Obj} {aud : List Text} (h : claims.get "aud" = .arr (aud.map .str))
    (hne : aud ≠ []) : audOf claims = .ok aud := by
  have hall : ∀ l : List Text, (l.map Json.str).mapM asText = some l := by
    intro l
    induction l with
    | nil => rfl
    | cons a l ih =>
        rw [List.map_cons, List.mapM_cons, ih]
        rfl
  obtain ⟨a, as, rfl⟩ := List.exists_cons_of_ne_nil hne
  rw [audOf, h]
  simp only [hall]

/-- The root's tokens carry an epoch that is followed, or were minted before
the marks; of another issuer's, and of a client key, none is read. -/
theorem checkEpoch_minted {S : Signer P} {grants : List Text} {B : TrustBundle P T} {typ jti : Text}
    {aud : List Text} {issued : Int} {act sid : Option Text} {claims : Obj}
    (hep : typ ≠ typClient → claims.get "ep" = S.epoch.elim .null .int)
    (hepoch : ∀ ep, S.epoch = some ep → 0 ≤ ep) (hnow : Current J S grants B typ aud issued jti act sid) :
    checkEpoch claims B typ S.issuer issued = .ok (S.epochOf typ) := by
  rw [checkEpoch_eq_ok, Signer.epochOf]
  by_cases hroot : S.issuer = issuerControl ∧ typ ≠ typClient
  · obtain ⟨hc, ht⟩ := hroot
    have hthis : ¬ (S.issuer ≠ issuerControl ∨ typ = typClient) := by
      rintro (h | h)
      · exact h hc
      · exact ht h
    rw [if_pos ⟨hc, ht⟩, hep ht]
    refine Or.inr ⟨hthis, ?_⟩
    cases he : S.epoch with
    | none => exact Or.inl ⟨rfl, rfl, hnow.unmarked hc ht he⟩
    | some ep => exact Or.inr ⟨ep, rfl, hepoch ep he, hnow.marked hc ht ep he, rfl⟩
  · rw [if_neg hroot]
    refine Or.inl ⟨?_, rfl⟩
    by_cases hc : S.issuer = issuerControl
    · exact Or.inr (not_not.mp fun ht => hroot ⟨hc, ht⟩)
    · exact Or.inl hc

theorem checkSession_minted {S : Signer P} {grants : List Text} {B : TrustBundle P T} {typ jti : Text}
    {aud : List Text} {issued : Int} {act sid : Option Text} (hadm : typ ≠ typAdministration)
    (hnow : Current J S grants B typ aud issued jti act sid) :
    checkSession (S.trustKey J grants) B typ S.issuer jti aud act sid = .ok () := by
  refine checkSession_eq_ok.mpr fun ht => ?_
  have ht := ht.resolve_right hadm
  obtain ⟨hjti, hsid⟩ := hnow.signedIn ht
  exact ⟨hjti, hsid, fun _ hc => hnow.members ht hc⟩

/-- **Minting and verifying agree.**  A session, a service token or a client
key that a signer mints, with what its grants and its class permit, is
accepted by a verifier whose bundle is current and whose clock is within
the leeway of some moment of the token's life, for any recipient it is
addressed to; and it is read back as it was minted. -/
theorem verify_mint {S : Signer P} {grants : List Text} {B : TrustBundle P T} {typ sub : Text}
    {aud : List Text} {ttlSeconds issued exp : Int} {jti : Option Text} {drawn : Text} {extra : Obj}
    {act sid : Option Text} {token : T} {now : ℚ} (moment : ℚ) {recipient : Text} {classes : List Text}
    (hm : S.mint J typ sub aud ttlSeconds issued jti drawn extra = .ok (token, exp))
    (hdrawn : drawn ≠ []) (hadds : Adds extra typ act sid)
    (htyp : typ ∈ [typSession, typService, typClient]) (hclass : typ ∈ classes)
    (hto : wanted typ recipient ∈ aud) (hissuer : S.issuer ≠ []) (hsub : sub ≠ [])
    (hepoch : ∀ ep, S.epoch = some ep → 0 ≤ ep) (hmay : MayIssue grants S.issuer typ sub aud)
    (hlife : ttlSeconds ≤ lifetimeLimit typ S.issuer aud act.isSome)
    (hnow : Current J S grants B typ aud issued (jtiOf jti drawn) act sid)
    (halive : issued ≤ moment ∧ moment < exp) (hclock : |now - moment| ≤ leewaySeconds) :
    verify J now token B recipient classes =
      .ok (S.minted typ sub aud issued ttlSeconds (jtiOf jti drawn) act sid) := by
  obtain ⟨haud, hpos, rfl, rfl⟩ := (mint_eq_ok J).mp hm
  have hadm : typ ≠ typAdministration := by
    rintro rfl
    exact absurd htyp (by decide)
  obtain ⟨h, hh, hget⟩ := J.header_sign S.key [("typ".toList, .str typ), ("kid".toList, .str (S.kid J))]
    (S.claims typ sub aud issued ttlSeconds (jtiOf jti drawn) extra)
  have hheadtyp : h.get "typ" = .str typ := hget "typ" (by intro h; cases h)
  have hkid : h.get "kid" = .str (S.kid J) := hget "kid" (by intro h; cases h)
  -- what is minted is as `mint` wrote it
  have written : ∀ name v, name ∈ ["iss", "sub", "aud", "iat", "exp", "jti"] →
      (S.claims typ sub aud issued ttlSeconds (jtiOf jti drawn) []).item? name = some v →
      (S.claims typ sub aud issued ttlSeconds (jtiOf jti drawn) extra).get name = v := by
    intro name v hn hv
    rw [Obj.get, claims_get hadds (List.mem_append_left ["ep", "nbf", "eugene_browser_session"] hn), hv]
    rfl
  have hiss := written "iss" _ (by decide) rfl
  have hsub' := written "sub" _ (by decide) rfl
  have haud' := written "aud" _ (by decide) rfl
  have hiat := written "iat" _ (by decide) rfl
  have hexp := written "exp" _ (by decide) rfl
  have hjti := written "jti" _ (by decide) rfl
  have hact : actOf (S.claims typ sub aud issued ttlSeconds (jtiOf jti drawn) extra) typ = .ok act := by
    rw [actOf, claims_get_extra hadds (claims_none (by decide)), ← actOf]
    exact hadds.act
  have hsid : sidOf (S.claims typ sub aud issued ttlSeconds (jtiOf jti drawn) extra) = .ok sid := by
    rw [sidOf, claims_get_extra hadds (claims_none (by decide)), ← sidOf]
    exact hadds.sid
  have hnbf : (S.claims typ sub aud issued ttlSeconds (jtiOf jti drawn) extra).item? "nbf" = none :=
    (claims_get hadds (by decide)).trans (claims_none (by decide))
  have hbrowser : (S.claims typ sub aud issued ttlSeconds (jtiOf jti drawn) extra).get
      "eugene_browser_session" = .null := by
    rw [Obj.get, claims_get hadds (by decide), claims_none (by decide)]
    rfl
  -- the clock is within the leeway of a moment between `iat` and `exp`
  obtain ⟨hahead, hbehind⟩ := abs_le.mp hclock
  have hintime : InTime J.intOfText (S.claims typ sub aud issued ttlSeconds (jtiOf jti drawn) extra) now := by
    refine ⟨fun name hname => ?_, issued, issued + ttlSeconds, by rw [hiat]; rfl, by rw [hexp]; rfl,
      by linarith [halive.1], by linarith [halive.2]⟩
    simp only [requiredClaims, List.mem_cons, List.not_mem_nil, or_false] at hname
    rcases hname with rfl | rfl | rfl | rfl | rfl | rfl <;> simp only [hiss, hsub', haud', hiat, hexp, hjti] <;>
      intro hnull <;> cases hnull
  refine (verify_eq_ok J).mpr ⟨S.trustKey J grants,
    S.claims typ sub aud issued ttlSeconds (jtiOf jti drawn) extra,
    { header := ⟨h, hh, ?_, ?_⟩
      decoded := J.decode_of _ _ _ _ (J.signed_sign _ _ _) (J.payload_sign _ _ _) hintime hnbf
        ⟨sub, hsub'⟩ ⟨_, hjti⟩
      iss := requireStr_eq_ok.mpr ⟨hiss, hissuer⟩
      sub := requireStr_eq_ok.mpr ⟨hsub', hsub⟩
      jti := requireStr_eq_ok.mpr ⟨hjti, jtiOf_ne_nil hdrawn⟩
      aud := audOf_minted haud' haud
      issuer := rfl
      addressed := hto
      iat := by rw [hiat]; rfl
      exp := by rw [hexp]; rfl
      act := hact
      sid := hsid
      granted := checkGrants_of_mayIssue J hmay
      lifetime := by
        show issued + ttlSeconds - issued ≤ _
        rw [add_sub_cancel_left]
        exact hlife
      epoch := checkEpoch_minted J (claims_ep hadds) hepoch hnow
      browser := by rw [browserOf, hbrowser]; rfl
      administration := by rw [administrationOf]; exact if_neg hadm
      session := checkSession_minted J hadm hnow }⟩
  · rw [classOf, hheadtyp]
    exact if_pos hclass
  · rw [keyOf, hkid]
    exact require_eq_ok.mpr hnow.listed

/-! ## An install -/

/-- The root, at its third epoch. -/
def root : Signer ℕ := ⟨2, issuerControl, some 3⟩

/-- A node; its signer should have no epoch. -/
def node (epoch : Option Int) : Signer ℕ := ⟨5, "node:nas".toList, epoch⟩

/-- The bundle that lists the two. -/
def install : TrustBundle ℕ (ℕ × Obj × Obj) where
  version := 1
  epoch := 3
  iat := 0
  authority := symbolic.publicB64 1
  keys := ⟨[(root.kid symbolic, root.trustKey symbolic [grantAuthority]),
    ((node none).kid symbolic, (node none).trustKey symbolic [grantNode])], by decide⟩
  revokedSessions := []
  jws := (1, [], [])
  payload := []
  tokenEpochs := some (100, 1)

/-- What an exchange adds: the machine that asked, and the session it came from. -/
def exchange : Obj :=
  [("act".toList, .obj [("sub".toList, .str "node:nas".toList)]), ("sid".toList, .str "s".toList)]

/-- A session the root exchanged for a machine of the install, by a verifier
whose clock is three minutes behind. -/
theorem verify_mint_exchanged : ∃ token exp,
    root.mint symbolic typSession subOperator ["node:nas".toList] 600 1000 none ['j'] exchange =
        .ok (token, exp) ∧
      verify symbolic 820 token install "node:nas".toList [typSession] =
        .ok (root.minted typSession subOperator ["node:nas".toList] 1000 600 ['j']
          (some "node:nas".toList) (some "s".toList)) := by
  have hmint : root.mint symbolic typSession subOperator ["node:nas".toList] 600 1000 none ['j'] exchange =
      .ok (_, 1600) := rfl
  have adds : Adds exchange typSession (some "node:nas".toList) (some "s".toList) :=
    ⟨by decide, by decide, rfl, rfl⟩
  have current : Current symbolic root [grantAuthority] install typSession ["node:nas".toList] 1000 ['j']
      (some "node:nas".toList) (some "s".toList) := by
    refine ⟨by rfl, fun _ _ ep h => ?_, fun _ _ h => ?_, fun _ => ⟨by decide, fun s _ _ h => ?_⟩,
      fun _ _ n h => ?_⟩
    · cases h
      decide
    · cases h
    · cases h
    · rcases h with h | h
      · cases List.mem_singleton.mp h
        decide
      · cases h
        decide
  exact ⟨_, _, hmint, verify_mint symbolic 1000 hmint (by decide) adds (by decide) (by decide)
    (by decide) (by decide) (by decide) (fun ep h => by cases h; decide) (Or.inl (by decide))
    (by decide) current (by norm_num) (by norm_num [abs_le, leewaySeconds])⟩

/-- A service token to this machine, minted and verified at 1000. -/
def toNas (S : Signer ℕ) (sub : Text) : ℕ × Obj × Obj :=
  symbolic.sign S.key [("typ".toList, .str typService), ("kid".toList, .str (S.kid symbolic))]
    (S.claims typService sub ["node:nas".toList] 1000 60 ['j'] [])

/-- Everything that was asked of such a token, but that a claim is not
empty, that an epoch is not negative, and that only the root has one. -/
def Issued (S : Signer ℕ) (grants : List Text) (B : TrustBundle ℕ (ℕ × Obj × Obj)) (sub : Text) : Prop :=
  S.mint symbolic typService sub ["node:nas".toList] 60 1000 none ['j'] [] = .ok (toNas S sub, 1060) ∧
    Current symbolic S grants B typService ["node:nas".toList] 1000 ['j'] none none ∧
    MayIssue grants S.issuer typService sub ["node:nas".toList] ∧
    60 ≤ lifetimeLimit typService S.issuer ["node:nas".toList] false

/-- An install that is at a negative epoch. -/
def early : TrustBundle ℕ (ℕ × Obj × Obj) := { install with epoch := -2, tokenEpochs := none }

def earlyRoot : Signer ℕ := { root with epoch := some (-1) }

theorem issued_node (epoch : Option Int) (sub : Text) : Issued (node epoch) [grantNode] install sub := by
  have hnode : (node epoch).issuer ≠ issuerControl := (by decide : "node:nas".toList ≠ issuerControl)
  have own : OwnMachine (node epoch).issuer ["node:nas".toList] :=
    (by decide : OwnMachine "node:nas".toList ["node:nas".toList])
  refine ⟨rfl, ⟨by rfl, fun h => absurd h hnode, fun h => absurd h hnode, fun h => ?_, fun h => ?_⟩,
    Or.inr ⟨rfl, Or.inr ⟨by decide, Or.inl own⟩⟩, ?_⟩
  · exact absurd h (by decide)
  · exact absurd h (by decide)
  · exact (by decide : 60 ≤ lifetimeLimit typService "node:nas".toList ["node:nas".toList] false)

theorem issued_early : Issued earlyRoot [grantAuthority] early subOperator := by
  refine ⟨rfl, ⟨by rfl, fun _ _ ep h => ?_, fun _ _ h => ?_, fun h => ?_, fun h => ?_⟩,
    Or.inl (by decide), by decide⟩
  · cases h
    decide
  · cases h
  · exact absurd h (by decide)
  · exact absurd h (by decide)

/-- How a token to this machine is refused, or the epoch that is read of it. -/
def outcome (token : ℕ × Obj × Obj) (B : TrustBundle ℕ (ℕ × Obj × Obj)) : Option String ⊕ Option Int :=
  match verify symbolic 1000 token B "node:nas".toList [typService] with
  | .error (.noClaim name) => .inl (some name)
  | .error _ => .inl none
  | .ok c => .inr c.epoch

/-- `mint` signs a `sub` that is empty and an epoch that is negative, which
`verify` refuses, and an epoch that no root has, which `verify` does not
read. -/
theorem minted_refused :
    (Issued (node none) [grantNode] install [] ∧
        outcome (toNas (node none) []) install = .inl (some "sub")) ∧
      (Issued earlyRoot [grantAuthority] early subOperator ∧
        outcome (toNas earlyRoot subOperator) early = .inl none) ∧
      Issued (node (some 3)) [grantNode] install subAgent ∧
        (toNas (node (some 3)) subAgent).2.2.get "ep" = .int 3 ∧
        outcome (toNas (node (some 3)) subAgent) install = .inr none :=
  ⟨⟨issued_node none [], by decide +kernel⟩, ⟨issued_early, by decide +kernel⟩,
    issued_node (some 3) subAgent, rfl, by decide +kernel⟩

end Tokens

end InferenceDriver
