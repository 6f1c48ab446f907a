/-
# `Tokens.Revoke` — how long a sign-out holds

A sign-out is an entry `(jti, exp)` in the bundle, and `build_bundle` leaves
out the entries that are past their expiry by more than the leeway.  The
clock that decides this is the root's; the clock that decides whether the
session has expired is the verifier's, which may be behind by the leeway
again, and a session exchanged for the one signed out lives up to ten
minutes of its own.

`refused_iff_covered` gives the exact condition, for every bundle that was
built: the sign-out is still listed, or so much time has passed that
nothing is left alive, or there is no key that issues sessions at all.
Between the two times, `signedOut_accepted`, the session is accepted again.
-/
import InferenceDriver.Tokens.Symbolic
import InferenceDriver.Tokens.Verify

namespace InferenceDriver.Tokens

open Checks

variable {P T : Type} (J : Jwt P T)

/-! ## What a built bundle says -/

/-- A key as a bundle gives it back: the grants in order. -/
def TrustKey.sorted (k : TrustKey P) : TrustKey P :=
  { k with grants := k.grants.insertionSort (· ≤ ·) }

theorem mem_sorted {k : TrustKey P} {g : Text} : g ∈ k.sorted.grants ↔ g ∈ k.grants :=
  List.mem_insertionSort _

theorem map_str (l : List Text) : (l.map Json.str).map J.str = l := by
  rw [List.map_map]
  exact List.map_id l

/-- A listed key is read back. -/
theorem addKey_toDict {keys keys' : Dict Text (TrustKey P)} {k : TrustKey P}
    (h : addKey J keys (k.toDict J) = .ok keys') :
    k.kid ∉ keys.keys ∧ keys' = keys.set k.kid k.sorted := by
  simp only [addKey, bind_eq_ok, map_eq_ok, require_eq_ok, ensure_eq_ok, pure_eq_ok] at h
  obtain ⟨_, ⟨⟩, pk, hpk, kid, ⟨_, ⟨⟩, hkid⟩, -, -, -, hnew, issuer, ⟨_, ⟨⟩, hi⟩, grants, hg, hk⟩ := h
  cases hkid
  cases hi
  cases hg
  cases (J.loadPublic_b64 k.publicKey).symm.trans hpk
  rw [map_str] at hk
  exact ⟨hnew, hk.symm⟩

/-- Setting a key that was not there adds one entry. -/
theorem get?_set_fresh {d : Dict Text (TrustKey P)} {kid kid' : Text} {k k' : TrustKey P}
    (h : kid ∉ d.keys) :
    (d.set kid k).get? kid' = some k' ↔ kid = kid' ∧ k' = k ∨ d.get? kid' = some k' := by
  by_cases hk : kid = kid'
  · subst hk
    rw [Dict.get?_set_self]
    constructor
    · rintro ⟨⟩; exact Or.inl ⟨rfl, rfl⟩
    · rintro (⟨-, rfl⟩ | hd)
      · rfl
      · exact absurd (Dict.mem_keys_iff.mpr ⟨k', hd⟩) h
  · rw [Dict.get?_set_ne _ _ (Ne.symm hk)]
    exact ⟨Or.inr, fun h => h.elim (fun h => absurd h.1 hk) id⟩

/-- The loop over the listed keys reads them all back, and keeps what was
read before. -/
theorem addKeys_toDict {ks : List (TrustKey P)} {keys keys' : Dict Text (TrustKey P)}
    (h : (ks.map (TrustKey.toDict J)).foldlM (addKey J) keys = .ok keys') {kid : Text}
    {k' : TrustKey P} :
    keys'.get? kid = some k' ↔
      (∃ k ∈ ks, k.kid = kid ∧ k' = k.sorted) ∨ keys.get? kid = some k' := by
  induction ks generalizing keys with
  | nil =>
      cases pure_eq_ok.mp h
      simp
  | cons k ks ih =>
      rw [List.map_cons, List.foldlM_cons, bind_eq_ok] at h
      obtain ⟨keys₁, h₁, h⟩ := h
      obtain ⟨hfresh, rfl⟩ := addKey_toDict J h₁
      rw [ih h, get?_set_fresh hfresh, List.exists_mem_cons_iff, ← or_assoc,
        or_comm (b := k.kid = kid ∧ _)]

/-- The sign-outs read back are the ones listed. -/
theorem signOuts_toDict (l : List (Text × Int)) {revoked : List Text}
    (h : (l.map fun r => Json.obj [("jti".toList, .str r.1), ("exp".toList, .int r.2)]).mapM
      (fun r => (J.str ·) <$> require (subscript r "jti") Fault.malformed) = .ok revoked) :
    revoked = l.map (·.1) := by
  induction l generalizing revoked with
  | nil => exact (pure_eq_ok.mp h).symm
  | cons r l ih =>
      rw [List.map_cons, List.mapM_cons, bind_eq_ok] at h
      obtain ⟨_, hj, h⟩ := h
      rw [bind_eq_ok] at h
      obtain ⟨revoked', hl, h⟩ := h
      cases pure_eq_ok.mp h
      rw [ih hl, List.map_cons]
      obtain ⟨_, hs, rfl⟩ := map_eq_ok.mp hj
      cases require_eq_ok.mp hs
      rfl

/-- What a bundle that was built says. -/
structure Built (B : TrustBundle P T) (epoch : Int) (keys : List (TrustKey P))
    (revoked : List (Text × Int)) (t : Int) : Prop where
  epoch : B.epoch = epoch
  revoked : B.revokedSessions = (keptSignOuts revoked t).map (·.1)
  keys : ∀ kid k', B.keys.get? kid = some k' ↔ ∃ k ∈ keys, k.kid = kid ∧ k' = k.sorted

theorem built_of_build {clock : ℚ} {authority : P} {version epoch : Int} {keys : List (TrustKey P)}
    {revoked : List (Text × Int)} {t : Int} {te : Option (Int × Int)} {B : TrustBundle P T}
    (h : buildBundle J clock authority version epoch keys revoked t te = .ok B) :
    Built B epoch keys revoked t := by
  simp only [buildBundle, parseBundle, bind_eq_ok, require_eq_ok, ensure_eq_ok, pure_eq_ok,
    mapError_eq_ok] at h
  obtain ⟨-, -, header, -, -, -, pinned, -, claims, hc, -, -, raws, hraws, ks, hks, signOuts, hso,
    revoked', hr, -, -, version', -, epoch', he, iat, -, rfl⟩ := h
  obtain ⟨-, hp⟩ := J.decodeBundle_ok _ _ _ _ hc
  cases (J.payload_sign _ _ _).symm.trans hp
  cases hraws
  cases hso
  cases he
  refine ⟨rfl, signOuts_toDict J _ hr, fun kid k' => ?_⟩
  rw [addKeys_toDict J hks, or_iff_left (Dict.get?_empty kid k')]
  simp only [List.mem_insertionSort]

theorem mem_kept {revoked : List (Text × Int)} {t : Int} {j : Text} :
    j ∈ (keptSignOuts revoked t).map (·.1) ↔ ∃ e, (j, e) ∈ revoked ∧ t ≤ e + leewaySeconds := by
  simp only [keptSignOuts, List.mem_map, List.mem_filter, List.mem_insertionSort, List.mem_dedup,
    decide_eq_true_eq, Prod.exists, exists_and_right, exists_eq_right]

/-! ## What is accepted -/

/-- Some text that is not listed. -/
theorem exists_unlisted (l : List Text) : ∃ s, s ≠ [] ∧ s ∉ l := by
  refine ⟨'x' :: l.flatten, List.cons_ne_nil _ _, fun h => ?_⟩
  have := (List.sublist_flatten_of_mem h).length_le
  rw [List.length_cons] at this
  omega

/-- What is true of every session a verifier accepts. -/
theorem session_bounds {B : TrustBundle P T} {now : ℚ} {token : T} {recipient : Text}
    {classes : List Text} {c : Claims} (h : verify J now token B recipient classes = .ok c)
    (hc : c.typ = typSession ∨ c.typ = typAdministration) :
    (∃ kid k, B.keys.get? kid = some k ∧ grantAuthority ∈ k.grants ∧ k.issuer ≠ []) ∧
    c.jti ∉ B.revokedSessions ∧
    (∀ s, c.sid = some s → s ≠ [] → s ∉ B.revokedSessions) ∧
    now - leewaySeconds < c.exp ∧ (c.isSession → c.act.isSome → c.exp - c.iat ≤ 600) := by
  obtain ⟨k, raw, ha⟩ := (verify_eq_ok J).mp h
  obtain ⟨hdr, -, -, hk⟩ := ha.header
  have hmem : c.typ ∈ [typSession, typClient, typAdministration] := by
    rcases hc with hc | hc <;> rw [hc] <;> decide
  have hkid : ∃ kid, B.keys.get? kid = some k := by
    unfold keyOf at hk
    split at hk
    · exact ⟨_, require_eq_ok.mp hk⟩
    · cases hk
  obtain ⟨kid, hkid⟩ := hkid
  obtain ⟨hj, hs, -⟩ := checkSession_eq_ok.mp ha.session hc
  obtain ⟨-, -, -, iat, exp, hiat, hexp, -, hlt⟩ := J.decode_ok _ _ _ _ ha.decoded
  cases hexp.symm.trans ha.exp
  refine ⟨⟨kid, k, hkid, authority_of_session ha.granted hmem, ?_⟩, hj, hs, hlt, fun ht hact => ?_⟩
  · rw [← ha.issuer]
    exact (requireStr_eq_ok.mp ha.iss).2
  · have hl := ha.lifetime
    rw [lifetimeLimit, show c.typ = typSession from ht, if_neg (by decide), if_pos rfl,
      if_pos hact] at hl
    omega

/-- The claims of a session exchanged for `j`, of this issuer. -/
def childClaims (issuer jti j : Text) (iat exp ep : Int) : Obj :=
  [("iss".toList, .str issuer), ("sub".toList, .str subOperator),
    ("aud".toList, .str recipientControl), ("iat".toList, .int iat), ("exp".toList, .int exp),
    ("jti".toList, .str jti), ("ep".toList, .int ep),
    ("act".toList, .obj [("sub".toList, .str subGateway)]), ("sid".toList, .str j)]

/-- A session with these claims, signed by a key. -/
def childToken (k : TrustKey P) (claims : Obj) : T :=
  J.sign k.publicKey [("typ".toList, .str typSession), ("kid".toList, .str k.kid)] claims

/-- A session that a key of the bundle may issue and whose times are right
is accepted, unless the one it came from is listed. -/
theorem exists_child {B : TrustBundle P T} {k : TrustKey P} {j : Text} {iat : Int} {now : ℚ}
    (hk : B.keys.get? k.kid = some k) (hauth : grantAuthority ∈ k.grants) (hiss : k.issuer ≠ [])
    (hj : j ≠ [] → j ∉ B.revokedSessions) (hiat : (iat : ℚ) ≤ now + leewaySeconds)
    (hexp : now - leewaySeconds < (iat + 600 : Int)) :
    ∃ token c, verify J now token B recipientControl [typSession] = .ok c ∧ c.isSession ∧
      c.act.isSome ∧ c.sid = some j ∧ c.iat = iat := by
  obtain ⟨jti, hne, hjti⟩ := exists_unlisted B.revokedSessions
  have hepoch : ∃ epoch, checkEpoch (childClaims k.issuer jti j iat (iat + 600) (max 0 B.epoch)) B
      typSession k.issuer iat = .ok epoch := by
    by_cases hc : k.issuer ≠ issuerControl ∨ typSession = typClient
    · exact ⟨none, checkEpoch_eq_ok.mpr (Or.inl ⟨hc, rfl⟩)⟩
    · exact ⟨some (max 0 B.epoch), checkEpoch_eq_ok.mpr (Or.inr ⟨hc, Or.inr
        ⟨max 0 B.epoch, rfl, le_max_left _ _, le_max_right _ _, rfl⟩⟩)⟩
  obtain ⟨epoch, hepoch⟩ := hepoch
  obtain ⟨h, hh, hget⟩ := J.header_sign k.publicKey
    [("typ".toList, .str typSession), ("kid".toList, .str k.kid)]
    (childClaims k.issuer jti j iat (iat + 600) (max 0 B.epoch))
  have htyp : h.get "typ" = .str typSession := hget "typ" (by intro h; cases h)
  have hkid : h.get "kid" = .str k.kid := hget "kid" (by intro h; cases h)
  refine ⟨childToken J k (childClaims k.issuer jti j iat (iat + 600) (max 0 B.epoch)),
    ⟨typSession, k.issuer, subOperator, [recipientControl], iat, iat + 600, jti, some subGateway, none,
      none, some j, epoch⟩, (verify_eq_ok J).mpr ⟨k, _, ⟨h, hh, ?_, ?_⟩, J.decode_of _ _ _ _
        (J.signed_sign _ _ _) (J.payload_sign _ _ _) ?_ rfl ⟨_, rfl⟩ ⟨_, rfl⟩, ?_, ?_, ?_, rfl, rfl, ?_, rfl,
        rfl, rfl, rfl, ?_, ?_, hepoch, rfl, rfl, ?_⟩, rfl, rfl, rfl, rfl⟩
  · rw [classOf, htyp]; rfl
  · rw [keyOf, hkid]; exact require_eq_ok.mpr hk
  · refine ⟨fun name hname => ?_, iat, iat + 600, rfl, rfl, hiat, hexp⟩
    simp only [requiredClaims, List.mem_cons, List.not_mem_nil, or_false] at hname
    rcases hname with rfl | rfl | rfl | rfl | rfl | rfl <;>
      · intro h
        cases h
  · exact requireStr_eq_ok.mpr ⟨rfl, hiss⟩
  · rfl
  · exact requireStr_eq_ok.mpr ⟨rfl, hne⟩
  · exact List.mem_cons_self
  · exact checkGrants_eq_ok.mpr (Or.inl hauth)
  · show iat + 600 - iat ≤ 600
    omega
  · refine checkSession_eq_ok.mpr fun _ => ⟨hjti, ?_, fun _ _ n hn => ?_⟩
    · rintro s ⟨⟩ hs
      exact hj hs
    · rcases hn with hn | hn
      · cases hn
      · cases hn

/-! ## Sign-outs -/

/-- A session, or an administration session, with this `jti` and expiry. -/
def IsSession (j : Text) (e : Int) (c : Claims) : Prop :=
  (c.typ = typSession ∨ c.typ = typAdministration) ∧ c.jti = j ∧ c.exp = e

/-- An exchanged session that came from the session `j`, minted before `e`. -/
def IsExchanged (j : Text) (e : Int) (c : Claims) : Prop :=
  c.isSession ∧ c.act.isSome ∧ c.sid = some j ∧ c.iat < e

/-- No verifier that holds `B` accepts the session `j`, or one that was
exchanged for it before it expired, while the root's clock reads `t` or
later and the verifier's own is off by no more than the leeway. -/
def Refused (B : TrustBundle P T) (j : Text) (e t : Int) : Prop :=
  ∀ (root own : ℚ) (token : T) (recipient : Text) (classes : List Text) (c : Claims), t ≤ root →
    root - leewaySeconds ≤ own → own ≤ root + leewaySeconds →
    verify J own token B recipient classes = .ok c → ¬ IsSession j e c ∧ ¬ IsExchanged j e c

/-- The session is still listed in a bundle of time `t`, or it and all that
was exchanged for it have expired everywhere, or no key may issue one. -/
def Covered (keys : List (TrustKey P)) (revoked : List (Text × Int)) (j : Text) (e t : Int) : Prop :=
  (j ≠ [] ∧ ∃ e', (j, e') ∈ revoked ∧ t ≤ e' + leewaySeconds) ∨
    e + 600 + 2 * leewaySeconds ≤ t + 1 ∨
    ∀ k ∈ keys, grantAuthority ∈ k.grants → k.issuer = []

/-- A covered session is refused. -/
theorem refused_of_covered {B : TrustBundle P T} {epoch : Int} {keys : List (TrustKey P)}
    {revoked : List (Text × Int)} {t : Int} (hB : Built B epoch keys revoked t) {j : Text} {e : Int}
    (hcov : Covered keys revoked j e t) : Refused J B j e t := by
  intro root own token recipient classes c ht hlo _ hv
  have key : c.typ = typSession ∨ c.typ = typAdministration →
      (c.jti = j ∧ c.exp = e) ∨ IsExchanged j e c → False := by
    intro hc hor
    obtain ⟨⟨kid, k', hk, hauth, hiss⟩, hj, hs, hlt, hlife⟩ := session_bounds J hv hc
    have hown : (t : ℚ) - leewaySeconds ≤ own := by linarith
    rcases hcov with ⟨hj0, hkept⟩ | hlate | hnone
    · have hin : j ∈ B.revokedSessions := by rw [hB.revoked, mem_kept]; exact hkept
      rcases hor with ⟨rfl, -⟩ | ⟨-, -, hsid, -⟩
      · exact hj hin
      · exact hs j hsid hj0 hin
    · have hexp : c.exp ≤ e + 599 := by
        rcases hor with ⟨-, rfl⟩ | ⟨hses, hact, -, hiat⟩
        · omega
        · have := hlife hses hact
          omega
      have : (t : ℚ) - leewaySeconds - leewaySeconds < (e + 599 : Int) :=
        lt_of_lt_of_le (by linarith) (Int.cast_le.mpr hexp)
      have : t - leewaySeconds - leewaySeconds < e + 599 := by exact_mod_cast this
      simp only [leewaySeconds] at *
      omega
    · obtain ⟨k, hmem, -, rfl⟩ := (hB.keys kid k').mp hk
      exact hiss (hnone k hmem (mem_sorted.mp hauth))
  exact ⟨fun h => key h.1 (Or.inl h.2), fun h => key (Or.inl h.1) (Or.inr h)⟩

/-- **Exactly when a sign-out holds for good**, for every bundle that was
built, and every session. -/
theorem refused_iff_covered {clock : ℚ} {authority : P} {version epoch : Int}
    {keys : List (TrustKey P)} {revoked : List (Text × Int)} {t : Int} {te : Option (Int × Int)}
    {B : TrustBundle P T}
    (h : buildBundle J clock authority version epoch keys revoked t te = .ok B) (j : Text) (e : Int) :
    Refused J B j e t ↔ Covered keys revoked j e t := by
  have hB := built_of_build J h
  refine ⟨fun hr => ?_, refused_of_covered J hB⟩
  by_contra hcov
  unfold Covered at hcov
  push Not at hcov
  obtain ⟨hlisted, hearly, k, hk, hauth, hiss⟩ := hcov
  have hj : j ≠ [] → j ∉ B.revokedSessions := by
    intro hne hmem
    rw [hB.revoked, mem_kept] at hmem
    obtain ⟨e', hm, hle⟩ := hmem
    exact absurd hle (not_le.mpr (hlisted hne e' hm))
  -- the oldest clock the leeway allows, and the youngest session
  have hiat : ((min (e - 1) t : Int) : ℚ) ≤ (t - leewaySeconds : ℚ) + leewaySeconds := by
    have : ((min (e - 1) t : Int) : ℚ) ≤ (t : Int) := Int.cast_le.mpr (min_le_right _ _)
    linarith
  have hexp : (t - leewaySeconds : ℚ) - leewaySeconds < (min (e - 1) t + 600 : Int) := by
    have : t - leewaySeconds - leewaySeconds < min (e - 1) t + 600 := by
      simp only [leewaySeconds] at hearly ⊢
      omega
    exact_mod_cast this
  obtain ⟨token, c, hv, hses, hact, hsid, hc⟩ :=
    exists_child J (k := k.sorted) ((hB.keys _ _).mpr ⟨k, hk, rfl, rfl⟩) (mem_sorted.mpr hauth) hiss
      hj hiat hexp
  refine (hr t (t - leewaySeconds) token recipientControl [typSession] c le_rfl le_rfl ?_ hv).2
    ⟨hses, hact, hsid, ?_⟩
  · simp only [leewaySeconds]
    push_cast
    linarith
  · rw [hc]
    omega

/-- The key of the root, under its thumbprint. -/
def signingKey : TrustKey ℕ := ⟨symbolic.thumbprint 1, issuerControl, 1, [grantAuthority]⟩

/-- As long as the sign-out is listed, the session is refused. -/
theorem refused_iff_covered_listed : ∃ B,
    buildBundle symbolic 0 9 1 0 [signingKey] [("j".toList, 1000)] 1300 none = .ok B ∧
      Refused symbolic B "j".toList 1000 1300 := by
  obtain ⟨B, hB, -⟩ := passes_iff.mp (show passes (fun _ => true) (buildBundle symbolic 0 9 1 0
    [signingKey] [("j".toList, 1000)] 1300 none) = true by decide)
  exact ⟨B, hB, (refused_iff_covered symbolic hB _ _).mpr
    (Or.inl ⟨List.cons_ne_nil _ _, 1000, List.mem_cons_self, le_rfl⟩)⟩

instance (j : Text) (e : Int) (c : Claims) : Decidable (IsSession j e c) :=
  inferInstanceAs (Decidable (_ ∧ _))

instance (j : Text) (e : Int) (c : Claims) : Decidable (IsExchanged j e c) :=
  inferInstanceAs (Decidable (_ ∧ _))

/-- A session that expired at 1000. -/
def expiredSession : ℕ × Obj × Obj :=
  childToken symbolic signingKey
    [("iss".toList, .str issuerControl), ("sub".toList, .str subOperator),
      ("aud".toList, .str recipientControl), ("iat".toList, .int 0), ("exp".toList, .int 1000),
      ("jti".toList, .str "j".toList)]

/-- The root prunes the sign-out at 1500.  A verifier whose clock is behind
by the leeway accepts the session again, and one whose clock is right a
session that was exchanged for it while it was good. -/
theorem signedOut_accepted : ∃ B c c',
    buildBundle symbolic 0 9 1 0 [signingKey] [("j".toList, 1000)] 1500 none = .ok B ∧
      verify symbolic 1200 expiredSession B recipientControl [typSession] = .ok c ∧
      IsSession "j".toList 1000 c ∧
      verify symbolic 1500 (childToken symbolic signingKey
        (childClaims issuerControl "i".toList "j".toList 999 1299 0)) B recipientControl
        [typSession] = .ok c' ∧
      IsExchanged "j".toList 1000 c' ∧ ¬ Refused symbolic B "j".toList 1000 1500 := by
  obtain ⟨B, hB, hv⟩ := passes_iff.mp (show passes (fun B =>
      passes (fun c => IsSession "j".toList 1000 c)
        (verify symbolic 1200 expiredSession B recipientControl [typSession]) &&
      passes (fun c => IsExchanged "j".toList 1000 c)
        (verify symbolic 1500 (childToken symbolic signingKey
          (childClaims issuerControl "i".toList "j".toList 999 1299 0)) B recipientControl
          [typSession]))
    (buildBundle symbolic 0 9 1 0 [signingKey] [("j".toList, 1000)] 1500 none) = true by
      decide +kernel)
  rw [Bool.and_eq_true, passes_iff, passes_iff] at hv
  obtain ⟨⟨c, hc, hs⟩, c', hc', hx⟩ := hv
  have hx := of_decide_eq_true hx
  refine ⟨B, c, c', hB, hc, of_decide_eq_true hs, hc', hx, fun hr => ?_⟩
  refine (hr 1500 1500 _ _ _ c' ?_ ?_ ?_ hc').2 hx <;> norm_num [leewaySeconds]

end InferenceDriver.Tokens
