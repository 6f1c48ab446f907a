/-
# `Tokens.Symbolic` — tokens without cryptography

A model of the libraries in which everything the laws of `Jwt` leave open
is as plain as it can be: a key is a number, a token is the key that signed
it with its headers and its claims, and a key is written in unary.  The
laws hold of it, so they contradict nothing, and concrete runs can be
computed in it.
-/
import InferenceDriver.Tokens.Bundle

namespace InferenceDriver.Tokens

/-- `InTime`, computed. -/
def inTime (intOfText : Text → Option Int) (claims : Obj) (now : ℚ) : Bool :=
  requiredClaims.all (fun name => !(claims.get name).isNull) &&
    match (claims.get "iat").toInt intOfText, (claims.get "exp").toInt intOfText with
    | some iat, some exp =>
        decide ((iat : ℚ) ≤ now + leewaySeconds) && decide (now - leewaySeconds < exp)
    | _, _ => false

theorem inTime_iff {intOfText : Text → Option Int} {claims : Obj} {now : ℚ} :
    inTime intOfText claims now = true ↔ InTime intOfText claims now := by
  have hreq : requiredClaims.all (fun name => !(claims.get name).isNull) = true ↔
      ∀ name ∈ requiredClaims, claims.get name ≠ .null := by
    simp only [List.all_eq_true, Bool.not_eq_true', Json.isNull_eq_false]
  unfold inTime InTime
  rw [Bool.and_eq_true, hreq]
  refine and_congr_right fun _ => ?_
  cases (claims.get "iat").toInt intOfText with
  | none => simp
  | some iat =>
      cases (claims.get "exp").toInt intOfText with
      | none => simp
      | some exp => simp

/-- Numbers for keys, and a token is `(key, headers, claims)`. -/
def symbolic : Jwt ℕ (ℕ × Obj × Obj) where
  intOfText s := (String.ofList s).toInt?
  strOf _ := []
  header t := .ok t.2.1
  payload t := some t.2.2
  signed t key := t.1 == key
  decode t key now :=
    if t.1 = key ∧ inTime (fun s => (String.ofList s).toInt?) t.2.2 now then .ok t.2.2
    else .error "refused".toList
  decodeBundle t key _ := if t.1 = key then .ok t.2.2 else .error "refused".toList
  sign key headers claims := (key, headers, claims)
  publicB64 key := List.replicate key 'k'
  loadPublic s := some s.length
  thumbprint key := List.replicate key 't'
  decode_ok t key now claims h := by
    by_cases hc : t.1 = key ∧ inTime (fun s => (String.ofList s).toInt?) t.2.2 now
    · rw [if_pos hc] at h
      cases h
      exact ⟨beq_iff_eq.mpr hc.1, rfl, inTime_iff.mp hc.2⟩
    · rw [if_neg hc] at h
      cases h
  decode_of t key now claims hs hp hi _ _ _ := by
    cases hp
    exact if_pos ⟨beq_iff_eq.mp hs, inTime_iff.mpr hi⟩
  decodeBundle_ok t key _ claims h := by
    by_cases hc : t.1 = key
    · rw [if_pos hc] at h
      cases h
      exact ⟨beq_iff_eq.mpr hc, rfl⟩
    · rw [if_neg hc] at h
      cases h
  decodeBundle_of t key _ claims hs hp _ := by
    cases hp
    exact if_pos (beq_iff_eq.mp hs)
  header_sign key headers _ := ⟨headers, rfl, fun _ _ => rfl⟩
  payload_sign _ _ _ := rfl
  signed_sign key _ _ := beq_self_eq_true key
  loadPublic_b64 key := congrArg some List.length_replicate

end InferenceDriver.Tokens
