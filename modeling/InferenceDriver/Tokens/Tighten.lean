/-
# `Tokens.Tighten` — a tighter bundle accepts no more

An install is tightened by publishing another bundle: a key is taken out, a
grant withdrawn, a session signed out, the epoch raised, the marks of the
root's tokens set or moved back.  `verify_antitone` is that no sequence of
such changes lets in a token that was refused before, or changes what an
accepted one says.

It is not a matter of each check alone.  Without its grant `node` a key is
judged as a job site's, by other rules; and the machines a session may name
are read off ALL the keys, so taking out one key tightens the check of
another's tokens.  `Tighter` is the order on bundles under which every
check of `verify` is monotone.
-/
import InferenceDriver.Tokens.Symbolic
import InferenceDriver.Tokens.Verify

namespace InferenceDriver.Tokens

variable {P T : Type}

/-- `k'` is `k` with grants withdrawn. -/
structure Narrower (k k' : TrustKey P) : Prop where
  issuer : k'.issuer = k.issuer
  publicKey : k'.publicKey = k.publicKey
  grants : ∀ g ∈ k'.grants, g ∈ k.grants

/-- `b'` trusts no more than `b`. -/
structure Tighter (b b' : TrustBundle P T) : Prop where
  keys : ∀ kid k', b'.keys.get? kid = some k' → ∃ k, b.keys.get? kid = some k ∧ Narrower k k'
  revoked : ∀ j ∈ b.revokedSessions, j ∈ b'.revokedSessions
  epoch : b.epoch ≤ b'.epoch
  marks : ∀ since at_, b.tokenEpochs = some (since, at_) →
    ∃ since' at', b'.tokenEpochs = some (since', at') ∧ since' ≤ since ∧ at' ≤ at_

/-- One change that tightens a bundle. -/
inductive Tightening : TrustBundle P T → TrustBundle P T → Prop where
  | removeKey (b : TrustBundle P T) (kid : Text) : Tightening b { b with keys := b.keys.erase kid }
  | removeGrants (b : TrustBundle P T) (kid : Text) (k : TrustKey P) (grants : List Text) :
      b.keys.get? kid = some k → (∀ g ∈ grants, g ∈ k.grants) →
        Tightening b { b with keys := b.keys.set kid { k with grants } }
  | revoke (b : TrustBundle P T) (jtis : List Text) :
      Tightening b { b with revokedSessions := jtis ++ b.revokedSessions }
  | raiseEpoch (b : TrustBundle P T) (epoch : Int) : b.epoch ≤ epoch → Tightening b { b with epoch }
  | addTokenEpochs (b : TrustBundle P T) (marks : Int × Int) : b.tokenEpochs = none →
      Tightening b { b with tokenEpochs := some marks }
  | lowerTokenEpochs (b : TrustBundle P T) (since at_ since' at' : Int) :
      b.tokenEpochs = some (since, at_) → since' ≤ since → at' ≤ at_ →
        Tightening b { b with tokenEpochs := some (since', at') }
  /-- The bundle is numbered, dated and signed anew. -/
  | publish (b : TrustBundle P T) (version iat : Int) (authority : Text) (jws : T) (payload : Obj) :
      Tightening b { b with version, iat, authority, jws, payload }

theorem Narrower.refl (k : TrustKey P) : Narrower k k := ⟨rfl, rfl, fun _ h => h⟩

theorem Tighter.refl (b : TrustBundle P T) : Tighter b b where
  keys _ k h := ⟨k, h, .refl k⟩
  revoked _ h := h
  epoch := Int.le_refl _
  marks since at_ h := ⟨since, at_, h, Int.le_refl _, Int.le_refl _⟩

theorem Tighter.trans {a b c : TrustBundle P T} (h : Tighter a b) (h' : Tighter b c) :
    Tighter a c where
  keys kid k₂ hk := by
    obtain ⟨k₁, h₁, n₁⟩ := h'.keys kid k₂ hk
    obtain ⟨k₀, h₀, n₀⟩ := h.keys kid k₁ h₁
    exact ⟨k₀, h₀, n₁.issuer.trans n₀.issuer, n₁.publicKey.trans n₀.publicKey,
      fun g hg => n₀.grants g (n₁.grants g hg)⟩
  revoked j hj := h'.revoked j (h.revoked j hj)
  epoch := Int.le_trans h.epoch h'.epoch
  marks since at_ hm := by
    obtain ⟨s₁, a₁, h₁, hs, ha⟩ := h.marks since at_ hm
    obtain ⟨s₂, a₂, h₂, hs', ha'⟩ := h'.marks s₁ a₁ h₁
    exact ⟨s₂, a₂, h₂, Int.le_trans hs' hs, Int.le_trans ha' ha⟩

/-- Each change tightens. -/
theorem Tightening.tighter {b b' : TrustBundle P T} (h : Tightening b b') : Tighter b b' := by
  cases h with
  | removeKey kid₀ =>
      refine ⟨fun kid k' hk => ?_, (Tighter.refl b).revoked, Int.le_refl _, (Tighter.refl b).marks⟩
      by_cases he : kid = kid₀
      · subst he
        cases (Dict.get?_erase_self b.keys kid).symm.trans hk
      · exact ⟨k', (Dict.get?_erase_ne b.keys he).symm.trans hk, .refl k'⟩
  | removeGrants kid₀ k grants hk₀ hg =>
      refine ⟨fun kid k' hk => ?_, (Tighter.refl b).revoked, Int.le_refl _, (Tighter.refl b).marks⟩
      by_cases he : kid = kid₀
      · subst he
        cases (Dict.get?_set_self b.keys kid _).symm.trans hk
        exact ⟨k, hk₀, rfl, rfl, hg⟩
      · exact ⟨k', (Dict.get?_set_ne b.keys _ he).symm.trans hk, .refl k'⟩
  | revoke jtis =>
      exact ⟨(Tighter.refl b).keys, fun j hj => List.mem_append_right jtis hj, Int.le_refl _,
        (Tighter.refl b).marks⟩
  | raiseEpoch epoch he =>
      exact ⟨(Tighter.refl b).keys, (Tighter.refl b).revoked, he, (Tighter.refl b).marks⟩
  | addTokenEpochs marks hn =>
      exact ⟨(Tighter.refl b).keys, (Tighter.refl b).revoked, Int.le_refl _,
        fun since at_ hm => by cases hn.symm.trans hm⟩
  | lowerTokenEpochs since at_ since' at' hm hs ha =>
      refine ⟨(Tighter.refl b).keys, (Tighter.refl b).revoked, Int.le_refl _, fun s a h => ?_⟩
      cases hm.symm.trans h
      exact ⟨since', at', rfl, hs, ha⟩
  | publish version iat authority jws payload =>
      exact ⟨(Tighter.refl b).keys, (Tighter.refl b).revoked, Int.le_refl _, (Tighter.refl b).marks⟩

/-- So does any sequence of changes. -/
theorem tighter_of_changes {b b' : TrustBundle P T} (h : Relation.ReflTransGen Tightening b b') :
    Tighter b b' := by
  induction h with
  | refl => exact .refl b
  | tail _ hs ih => exact ih.trans hs.tighter

/-! ## Each check is monotone -/

/-- Withdrawing a grant widens nothing, though it may change which rule
judges the token: what a job site's key may send, a node's key may. -/
theorem checkGrants_antitone {k k' : TrustKey P} (h : Narrower k k') {typ sub : Text}
    {aud : List Text} (hc : checkGrants k' typ sub aud = .ok ()) :
    checkGrants k typ sub aud = .ok () := by
  rw [checkGrants_eq_ok] at hc ⊢
  rw [h.issuer] at hc
  rcases hc with ha | ⟨ht, ⟨-, hf, hr⟩ | ⟨hn, hr⟩⟩
  · exact Or.inl (h.grants _ ha)
  · by_cases hn : grantNode ∈ k.grants
    · refine Or.inr ⟨ht, Or.inr ⟨hn, ?_⟩⟩
      rcases hr with ho | ⟨hs, -⟩
      · exact Or.inl ho
      · exact Or.inr (Or.inl hs)
    · exact Or.inr ⟨ht, Or.inl ⟨hn, h.grants _ hf, hr⟩⟩
  · refine Or.inr ⟨ht, Or.inr ⟨h.grants _ hn, ?_⟩⟩
    rcases hr with ho | hs | ⟨hs, hg⟩ | ⟨hs, hg, hr⟩
    · exact Or.inl ho
    · exact Or.inr (Or.inl hs)
    · exact Or.inr (Or.inr (Or.inl ⟨hs, h.grants _ hg⟩))
    · exact Or.inr (Or.inr (Or.inr ⟨hs, h.grants _ hg, hr⟩))

theorem checkEpoch_antitone {b b' : TrustBundle P T} (h : Tighter b b') {claims : Obj}
    {typ iss : Text} {iat : Int} {epoch : Option Int}
    (hc : checkEpoch claims b' typ iss iat = .ok epoch) :
    checkEpoch claims b typ iss iat = .ok epoch := by
  rw [checkEpoch_eq_ok] at hc ⊢
  rcases hc with hc | ⟨hn, ⟨he, hnone, hm⟩ | ⟨ep, he, hpos, hle, hsome⟩⟩
  · exact Or.inl hc
  · refine Or.inr ⟨hn, Or.inl ⟨he, hnone, fun since at_ hs => ?_⟩⟩
    obtain ⟨since', at', hs', h₁, h₂⟩ := h.marks since at_ hs
    obtain ⟨h₃, h₄⟩ := hm since' at' hs'
    have := h.epoch
    omega
  · exact Or.inr ⟨hn, Or.inr ⟨ep, he, hpos, Int.le_trans h.epoch hle, hsome⟩⟩

/-- A tighter bundle names no more machines. -/
theorem members_antitone {b b' : TrustBundle P T} (h : Tighter b b') {n : Text}
    (hn : n ∈ b'.members) : n ∈ b.members := by
  obtain ⟨⟨kid, k'⟩, hm, hk⟩ := List.mem_filterMap.mp hn
  obtain ⟨k, hget, nar⟩ := h.keys kid k' (Dict.mem_iff.mp hm)
  exact List.mem_filterMap.mpr ⟨(kid, k), Dict.mem_iff.mpr hget, by rw [← nar.issuer]; exact hk⟩

/-- A session of a key that still holds `authority` is judged by the same
rule, against fewer machines and more sign-outs. -/
theorem checkSession_antitone {b b' : TrustBundle P T} (h : Tighter b b') {k k' : TrustKey P}
    {typ iss jti : Text} {aud : List Text} {act sid : Option Text}
    (ha : typ = typSession ∨ typ = typAdministration → grantAuthority ∈ k'.grants)
    (hc : checkSession k' b' typ iss jti aud act sid = .ok ()) :
    checkSession k b typ iss jti aud act sid = .ok () := by
  rw [checkSession_eq_ok] at hc ⊢
  intro ht
  obtain ⟨hj, hs, hm⟩ := hc ht
  exact ⟨fun hr => hj (h.revoked _ hr), fun s hsid hne hr => hs s hsid hne (h.revoked _ hr),
    fun _ hi n hn => members_antitone h (hm (ha ht) hi n hn)⟩

/-- What a tighter bundle accepts, the bundle accepts, and reads alike. -/
theorem verify_of_tighter (J : Jwt P T) {b b' : TrustBundle P T} (h : Tighter b b') {now : ℚ}
    {token : T} {recipient : Text} {classes : List Text} {c : Claims}
    (hv : verify J now token b' recipient classes = .ok c) :
    verify J now token b recipient classes = .ok c := by
  obtain ⟨k', raw, ha⟩ := (verify_eq_ok J).mp hv
  obtain ⟨hdr, hh, hcl, hk⟩ := ha.header
  obtain ⟨k, hk₀, nar⟩ : ∃ k, keyOf hdr b = .ok k ∧ Narrower k k' := by
    unfold keyOf at hk ⊢
    split at hk
    · rename_i kid _
      obtain ⟨k, hget, nar⟩ := h.keys kid k' (Checks.require_eq_ok.mp hk)
      exact ⟨k, Checks.require_eq_ok.mpr hget, nar⟩
    · cases hk
  have hauth : c.typ = typSession ∨ c.typ = typAdministration → grantAuthority ∈ k'.grants := by
    intro ht
    refine authority_of_session ha.granted ?_
    rcases ht with ht | ht <;> rw [ht] <;> decide
  refine (verify_eq_ok J).mpr ⟨k, raw, ⟨hdr, hh, hcl, hk₀⟩, ?_, ha.iss, ha.sub, ha.jti, ha.aud, ?_,
    ha.addressed, ha.iat, ha.exp, ha.act, ha.sid, checkGrants_antitone nar ha.granted, ha.lifetime,
    checkEpoch_antitone h ha.epoch, ha.browser, ha.administration,
    checkSession_antitone h hauth ha.session⟩
  · rw [← nar.publicKey]; exact ha.decoded
  · rw [← nar.issuer]; exact ha.issuer

/-- **Tightening a bundle, by any sequence of changes, never widens what
`verify` accepts**, and changes nothing in what is still accepted. -/
theorem verify_antitone (J : Jwt P T) {b b' : TrustBundle P T}
    (h : Relation.ReflTransGen Tightening b b') {now : ℚ} {token : T} {recipient : Text}
    {classes : List Text} {c : Claims} (hv : verify J now token b' recipient classes = .ok c) :
    verify J now token b recipient classes = .ok c :=
  verify_of_tighter J (tighter_of_changes h) hv

/-- A root's key that is also a node's. -/
def rootKey : TrustKey ℕ := ⟨"k".toList, issuerControl, 1, [grantAuthority, grantNode]⟩

/-- A bundle with nothing but that key. -/
def rootBundle : TrustBundle ℕ (ℕ × Obj × Obj) where
  version := 1
  epoch := 0
  iat := 0
  authority := "k".toList
  keys := Dict.empty.set rootKey.kid rootKey
  revokedSessions := []
  jws := (1, [], [])
  payload := []
  tokenEpochs := none

/-- A session the root's key signed. -/
def rootSession : ℕ × Obj × Obj :=
  (1, [("typ".toList, .str typSession), ("kid".toList, .str "k".toList)],
    [("iss".toList, .str issuerControl), ("sub".toList, .str subOperator),
      ("aud".toList, .str recipientControl), ("iat".toList, .int 0), ("exp".toList, .int 1000),
      ("jti".toList, .str "j".toList)])

/-- The bundle after the grant the root does not need is withdrawn and
another session is signed out. -/
def rootBundleTightened : TrustBundle ℕ (ℕ × Obj × Obj) :=
  { rootBundle with
    keys := rootBundle.keys.set rootKey.kid { rootKey with grants := [grantAuthority] }
    revokedSessions := ["other".toList] ++ rootBundle.revokedSessions }

/-- The session is accepted with the tighter bundle, so it was before. -/
theorem verify_antitone_rootSession : ∃ c,
    verify symbolic 500 rootSession rootBundleTightened recipientControl [typSession] = .ok c ∧
    verify symbolic 500 rootSession rootBundle recipientControl [typSession] = .ok c := by
  have changes : Relation.ReflTransGen Tightening rootBundle rootBundleTightened := by
    refine .tail (.single (.removeGrants rootBundle rootKey.kid rootKey [grantAuthority] rfl ?_))
      (.revoke _ ["other".toList])
    intro g hg
    cases List.mem_singleton.mp hg
    exact List.mem_cons_self
  obtain ⟨c, hc, -⟩ := Checks.passes_iff.mp (show Checks.passes (fun _ => true) (verify symbolic 500
    rootSession rootBundleTightened recipientControl [typSession]) = true by decide +kernel)
  exact ⟨c, hc, verify_antitone symbolic changes hc⟩

end InferenceDriver.Tokens
