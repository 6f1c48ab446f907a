/-
# `OpenAi.Rerank` — passages, best first

`rerank` takes the scores of an answer, decides from them what scale they
are on, and returns the passages best first.  A backend may answer in any
order, and with more passages than it was asked for.

The logistic that brings a logit to between 0 and 1 is taken as exact: some
strictly increasing map of the scores into the open interval (`Logistic`),
of which `1 / (1 + e^-x)` over the reals is the one meant (`Logistic.exact`).
Then a score is as good as the backend's own number, on either scale, and
what is returned are the best of all the backend scored (`best_first`).
-/
import InferenceDriver.Lib.Keyed
import InferenceDriver.OpenAi.Wire
import InferenceDriver.Py.Float

namespace InferenceDriver.OpenAi.Rerank

open Checks Keyed

/-! ## Requests and answers -/

inductive RerankScale where
  | probability
  | logit
deriving DecidableEq, Repr

/-- `RerankPassagesRequest`. -/
structure RerankRequest where
  documents : List Text
  topN : Option Nat
  some_documents : documents ≠ []
  topN_pos : ∀ n ∈ topN, 1 ≤ n

/-- How many passages the backend owes: as many as are asked for. -/
def RerankRequest.owed (request : RerankRequest) : Nat :=
  match request.topN with
  | none => request.documents.length
  | some n => min n request.documents.length

section

variable (S : Type) [Field S] [LinearOrder S] [IsStrictOrderedRing S]

/-- A strictly increasing map into what lies between 0 and 1. -/
structure Logistic where
  map : ℚ → S
  strictMono : StrictMono map
  pos : ∀ x, 0 < map x
  lt_one : ∀ x, map x < 1

structure RerankedPassage where
  index : Nat
  score : S
  rawScore : ℚ

structure RerankResponse where
  results : List (RerankedPassage S)
  scale : RerankScale
  modelId : Text
  usage : Option Usage

end

/-- `1 / (1 + e^-x)`. -/
noncomputable def Logistic.exact : Logistic ℝ where
  map x := Real.sigmoid x
  strictMono := Real.sigmoid_strictMono.comp Rat.cast_strictMono
  pos x := Real.sigmoid_pos x
  lt_one x := Real.sigmoid_lt_one x

/-! ## The scores of an answer -/

variable (E : Env) (repr : Json → Text)

/-- A `CliError` with no status. -/
def refuse {α : Type} (message : Text) : Except Failure α := .error (.cli message none)

/-- `_number`: a finite number, which no `bool` is.  A whole number too
large to be a `float` is an `OverflowError`. -/
def number : Json → Except Failure (Option ℚ)
  | .int n => (some ·) <$> require (floatOfInt n) .uncaught
  | .float (.fin q) => .ok (some q)
  | _ => .ok none

def malformed {α : Type} (passages : Nat) (entry : Json) : Except Failure α :=
  refuse ("openai_compat_http returned a malformed rerank result for ".toList ++ (toString passages).toList ++
    " passages: ".toList ++ repr entry)

/-- One result of `_rerank_scores`. -/
def scoreOne (passages : Nat) (scored : Dict Nat ℚ) (entry : Json) : Except Failure (Dict Nat ℚ) := do
  let raw ← number (Obj.get (dictOf entry) "relevance_score")
  match Obj.get (dictOf entry) "index", raw with
  | .int n, some raw =>
      if h : (0 ≤ n ∧ n < passages) ∧ n.toNat ∉ scored.keys then return scored.push n.toNat raw h.2
      else malformed repr passages entry
  | _, _ => malformed repr passages entry

/-- `_rerank_scores`. -/
def rerankScores (body : Json) (passages owed : Nat) : Except Failure (List (Nat × ℚ)) :=
  match Obj.get (dictOf body) "results" with
  | .arr (entry :: entries) => do
      let scored ← (entry :: entries).foldlM (scoreOne repr passages) .empty
      if scored.items.length < owed then
        refuse ("openai_compat_http returned ".toList ++ (toString scored.items.length).toList ++
          " rerank scores for ".toList ++ (toString owed).toList ++ " passages; a ".toList ++
          "passage is matched to its score by index alone, so none may be missing".toList)
      else return scored.items
  | _ => refuse ("openai_compat_http returned no rerank results: ".toList ++
      repr (.str ((E.str body).take 200)))

/-- A score no probability is. -/
def outside (score : ℚ) : Bool := !decide (0 ≤ score ∧ score ≤ 1)

/-- `_scale_of`: the scale to read an answer on, and the one that is known
from then on. -/
def scaleOf (known : Option RerankScale) (scores : List ℚ) : RerankScale × Option RerankScale :=
  if known = some .logit then (.logit, known)
  else if scores.any outside then (.logit, some .logit)
  else (.probability, known)

/-- `_rerank_usage`. -/
def rerankUsage (usage : Json) : Option Usage :=
  match usage with
  | .obj o =>
      match asCount (Obj.get o "prompt_tokens"), asCount (Obj.get o "total_tokens") with
      | none, none => none
      | prompt, total =>
          some { promptTokens := prompt, completionTokens := none, totalTokens := total,
                 cachedPromptTokens := none, reasoningTokens := none }
  | _ => none

/-! ## The answer, best first -/

section

variable {S : Type} [Field S] [LinearOrder S] [IsStrictOrderedRing S] (L : Logistic S)

/-- A backend's number on its scale. -/
def scoreOf (scale : RerankScale) (raw : ℚ) : S :=
  match scale with
  | .logit => L.map raw
  | .probability => raw

/-- `RerankedPassage(...)`, which takes scores between 0 and 1. -/
def passageOf (scale : RerankScale) (scored : Nat × ℚ) : Except Failure (RerankedPassage S) :=
  let score := scoreOf L scale scored.2
  if 0 ≤ score ∧ score ≤ 1 then .ok { index := scored.1, score, rawScore := scored.2 }
  else .error .uncaught

/-- `(-row.score, row.index)`. -/
def rankKey (row : RerankedPassage S) : S ×ₗ Nat := toLex (-row.score, row.index)

/-- `rows[:topN]`. -/
def firstOf (topN : Option Nat) (rows : List (RerankedPassage S)) : List (RerankedPassage S) :=
  match topN with
  | none => rows
  | some n => rows.take n

def respond (target : Target) (request : RerankRequest) (body : Json) (scale : RerankScale)
    (scored : List (Nat × ℚ)) : Except Failure (RerankResponse S) := do
  let rows ← scored.mapM (passageOf L scale)
  let modelId := publicModelId E (Obj.get (dictOf body) "model") target
  ensure (E.holds modelId = true) .uncaught
  return { results := firstOf request.topN (sortBy rankKey rows), scale, modelId
           usage := rerankUsage (Obj.get (dictOf body) "usage") }

/-- `rerank`, once the backend has answered: the response, and the scale
that is known from then on. -/
def rerankAnswer (target : Target) (request : RerankRequest) (known : Option RerankScale) (body : Json) :
    Except Failure (RerankResponse S) × Option RerankScale :=
  match rerankScores E repr body request.documents.length request.owed with
  | .error failure => (.error failure, known)
  | .ok scored =>
      let scale := scaleOf known (scored.map (·.2))
      (respond E L target request body scale.1 scored, scale.2)

end

/-! ## What the backend scored -/

/-- The backend's number for an index. -/
def Scored (body : Json) (index : Nat) (raw : ℚ) : Prop :=
  ∃ entries o, Obj.get (dictOf body) "results" = .arr entries ∧ .obj o ∈ entries ∧
    Obj.get o "index" = .int index ∧ number (Obj.get o "relevance_score") = .ok (some raw)

/-- An entry that scores a passage. -/
def Scores (passages : Nat) (entry : Json) (scored : Nat × ℚ) : Prop :=
  ∃ o, entry = .obj o ∧ Obj.get o "index" = .int scored.1 ∧
    number (Obj.get o "relevance_score") = .ok (some scored.2) ∧ scored.1 < passages

variable {E} {repr}

theorem scoreOne_ok {passages : Nat} {scored scored' : Dict Nat ℚ} {entry : Json}
    (h : scoreOne repr passages scored entry = .ok scored') :
    ∃ pair, Scores passages entry pair ∧ scored'.items = scored.items ++ [pair] := by
  rw [scoreOne, bind_eq_ok] at h
  obtain ⟨raw, hraw, h⟩ := h
  have hindex : ∀ v, Obj.get (dictOf entry) "index" = v → (∀ n, v ≠ .int n) → False := by
    intro v hv hne
    rw [hv] at h
    cases v with
    | int n => exact hne n rfl
    | _ => cases h
  cases hv : Obj.get (dictOf entry) "index" with
  | int n =>
      rw [hv] at h
      cases raw with
      | none => cases h
      | some raw =>
          simp only at h
          split at h
          · rename_i hn
            cases pure_eq_ok.mp h
            refine ⟨(n.toNat, raw), ?_, rfl⟩
            have hn' : (n.toNat : Int) = n := Int.toNat_of_nonneg hn.1.1
            cases entry with
            | obj o =>
                refine ⟨o, rfl, ?_, hraw, ?_⟩
                · rw [hn']
                  exact hv
                · exact Int.ofNat_lt.mp (hn' ▸ hn.1.2)
            | _ => cases hv
          · cases h
  | _ => exact absurd (hindex _ hv fun n hn => (by cases hn)) id

/-- The scores are those of the entries, one after the other. -/
theorem foldlM_scores {passages : Nat} {entries : List Json} {scored scored' : Dict Nat ℚ}
    (h : entries.foldlM (scoreOne repr passages) scored = .ok scored') :
    ∃ pairs, List.Forall₂ (Scores passages) entries pairs ∧ scored'.items = scored.items ++ pairs := by
  induction entries generalizing scored with
  | nil =>
      cases pure_eq_ok.mp h
      exact ⟨[], .nil, (List.append_nil _).symm⟩
  | cons entry entries ih =>
      rw [List.foldlM_cons, bind_eq_ok] at h
      obtain ⟨scored₁, h₁, h⟩ := h
      obtain ⟨pair, hpair, hitems⟩ := scoreOne_ok h₁
      obtain ⟨pairs, hpairs, hitems'⟩ := ih h
      refine ⟨pair :: pairs, .cons hpair hpairs, ?_⟩
      rw [hitems', hitems, List.append_assoc, List.singleton_append]

/-- What the scores of an answer are. -/
structure Read (body : Json) (passages owed : Nat) (scored : List (Nat × ℚ)) : Prop where
  nodup : (scored.map (·.1)).Nodup
  within : ∀ pair ∈ scored, pair.1 < passages
  given : ∀ pair, pair ∈ scored ↔ Scored body pair.1 pair.2
  owed : owed ≤ scored.length

theorem rerankScores_ok {body : Json} {passages owed : Nat} {scored : List (Nat × ℚ)}
    (h : rerankScores E repr body passages owed = .ok scored) : Read body passages owed scored := by
  rw [rerankScores] at h
  cases hresults : Obj.get (dictOf body) "results" with
  | arr entries =>
      rw [hresults] at h
      cases entries with
      | nil => cases h
      | cons entry entries =>
          obtain ⟨dict, hdict, h⟩ := bind_eq_ok.mp h
          split at h
          · cases h
          · rename_i howed
            cases pure_eq_ok.mp h
            obtain ⟨pairs, hpairs, hitems⟩ := foldlM_scores hdict
            have hitems : dict.items = pairs := hitems
            refine ⟨dict.nodup, ?_, ?_, Nat.le_of_not_lt howed⟩
            · intro pair hpair
              rw [hitems] at hpair
              obtain ⟨e, -, o, -, -, -, hlt⟩ := forall₂_left hpairs hpair
              exact hlt
            · intro pair
              rw [hitems]
              constructor
              · intro hpair
                obtain ⟨e, he, o, rfl, hindex, hraw, -⟩ := forall₂_left hpairs hpair
                exact ⟨_, o, hresults, he, hindex, hraw⟩
              · rintro ⟨entries', o, hentries, ho, hindex, hraw⟩
                cases hresults.symm.trans hentries
                obtain ⟨pair', hpair', o', ho', hindex', hraw', -⟩ := forall₂_right hpairs ho
                cases ho'
                have h₁ : pair.1 = pair'.1 := Int.ofNat.inj (Json.int.inj (hindex.symm.trans hindex'))
                have h₂ : pair.2 = pair'.2 := Option.some.inj (Except.ok.inj (hraw.symm.trans hraw'))
                exact (Prod.ext h₁ h₂ : pair = pair') ▸ hpair'
  | _ =>
      rw [hresults] at h
      cases h

/-! ## The scale of an answer -/

/-- An answer is read as probabilities only if it can be. -/
theorem probability_of_scaleOf {known : Option RerankScale} {scores : List ℚ}
    (h : (scaleOf known scores).1 = .probability) : ∀ score ∈ scores, 0 ≤ score ∧ score ≤ 1 := by
  rw [scaleOf] at h
  split at h
  · cases h
  · split at h
    · cases h
    · rename_i hnone
      intro score hscore
      by_contra hout
      exact hnone (List.any_eq_true.mpr ⟨score, hscore, by rw [outside, decide_eq_false hout]; rfl⟩)

/-- Once it is logits, it is logits. -/
theorem scaleOf_logit (scores : List ℚ) : (scaleOf (some .logit) scores).2 = some .logit := rfl

/-! ## Scores and rows -/

section

set_option linter.unusedSectionVars false

variable {S : Type} [Field S] [LinearOrder S] [IsStrictOrderedRing S] {L : Logistic S}

theorem scoreOf_lt {scale : RerankScale} {raw raw' : ℚ} : scoreOf L scale raw < scoreOf L scale raw' ↔ raw < raw' := by
  cases scale with
  | logit => exact L.strictMono.lt_iff_lt
  | probability => exact Rat.cast_lt

theorem scoreOf_inj {scale : RerankScale} {raw raw' : ℚ} : scoreOf L scale raw = scoreOf L scale raw' ↔ raw = raw' := by
  cases scale with
  | logit => exact L.strictMono.injective.eq_iff
  | probability => exact Rat.cast_inj

/-- On the scale the answer is on, its scores lie between 0 and 1. -/
theorem scoreOf_unit {known : Option RerankScale} {scores : List ℚ} {raw : ℚ} (hraw : raw ∈ scores) :
    0 ≤ scoreOf L (scaleOf known scores).1 raw ∧ scoreOf L (scaleOf known scores).1 raw ≤ 1 := by
  cases h : (scaleOf known scores).1 with
  | logit => exact ⟨(L.pos raw).le, (L.lt_one raw).le⟩
  | probability =>
      obtain ⟨h₀, h₁⟩ := probability_of_scaleOf h raw hraw
      exact ⟨Rat.cast_nonneg.mpr h₀, (Rat.cast_le.mpr h₁).trans_eq Rat.cast_one⟩

variable (L) in
/-- A passage with its score. -/
def rowOf (scale : RerankScale) (scored : Nat × ℚ) : RerankedPassage S where
  index := scored.1
  score := scoreOf L scale scored.2
  rawScore := scored.2

theorem mapM_passageOf {scale : RerankScale} {scored : List (Nat × ℚ)}
    (h : ∀ pair ∈ scored, 0 ≤ scoreOf L scale pair.2 ∧ scoreOf L scale pair.2 ≤ 1) :
    scored.mapM (passageOf L scale) = .ok (scored.map (rowOf L scale)) := by
  induction scored with
  | nil => rfl
  | cons pair scored ih =>
      obtain ⟨hpair, h⟩ := List.forall_mem_cons.mp h
      rw [List.mapM_cons, ih h, passageOf, if_pos hpair]
      rfl

theorem rankKey_lt {a b : RerankedPassage S} :
    rankKey a < rankKey b ↔ b.score < a.score ∨ a.score = b.score ∧ a.index < b.index := by
  rw [rankKey, rankKey, Prod.Lex.toLex_lt_toLex]
  simp only [neg_lt_neg_iff, neg_inj]

theorem nodup_rows {scale : RerankScale} {scored : List (Nat × ℚ)} (h : (scored.map (·.1)).Nodup) :
    ((sortBy rankKey (scored.map (rowOf L scale))).map (·.index)).Nodup := by
  rw [((sortBy_perm rankKey _).map _).nodup_iff, List.map_map]
  exact h

/-- The rows of an answer, in order. -/
theorem sorted_rows {scale : RerankScale} {scored : List (Nat × ℚ)} (h : (scored.map (·.1)).Nodup) :
    (sortBy rankKey (scored.map (rowOf L scale))).Pairwise fun a b => rankKey a < rankKey b := by
  have hnodup : ((sortBy rankKey (scored.map (rowOf L scale))).map (·.index)).Nodup := nodup_rows h
  have hne := List.pairwise_map.mp hnodup
  refine ((sortBy_pairwise rankKey _).and hne).imp fun hab => lt_of_le_of_ne hab.1 fun heq => hab.2 ?_
  exact congrArg (fun k => (ofLex k).2) heq

theorem firstOf_sublist (topN : Option Nat) (rows : List (RerankedPassage S)) : (firstOf topN rows).Sublist rows := by
  cases topN with
  | none => exact List.Sublist.refl _
  | some n => exact List.take_sublist n rows

/-- A row that is not among the first comes after each of them. -/
theorem firstOf_before {topN : Option Nat} {rows : List (RerankedPassage S)}
    (h : rows.Pairwise fun a b => rankKey a < rankKey b) {row : RerankedPassage S} (hrow : row ∈ rows) :
    row ∈ firstOf topN rows ∨ ∀ a ∈ firstOf topN rows, rankKey a < rankKey row := by
  cases topN with
  | none => exact .inl hrow
  | some n =>
      rw [← List.take_append_drop n rows, List.pairwise_append] at h
      rw [← List.take_append_drop n rows, List.mem_append] at hrow
      exact hrow.imp id fun hdrop a ha => h.2.2 a ha row hdrop

theorem respond_ok {target : Target} {request : RerankRequest} {body : Json} {known : Option RerankScale}
    {scored : List (Nat × ℚ)} {r : RerankResponse S}
    (h : respond E L target request body (scaleOf known (scored.map (·.2))).1 scored = .ok r) :
    r.scale = (scaleOf known (scored.map (·.2))).1 ∧
      r.results = firstOf request.topN (sortBy rankKey (scored.map (rowOf L r.scale))) := by
  rw [respond, mapM_passageOf fun pair hpair => scoreOf_unit (List.mem_map_of_mem hpair), bind_eq_ok] at h
  obtain ⟨_, hrows, h⟩ := h
  cases hrows
  obtain ⟨_, -, h⟩ := bind_eq_ok.mp h
  cases pure_eq_ok.mp h
  exact ⟨rfl, rfl⟩

/-- What an answer that is returned has come from. -/
theorem rerankAnswer_ok {target : Target} {request : RerankRequest} {known : Option RerankScale} {body : Json}
    {r : RerankResponse S} (h : (rerankAnswer E repr L target request known body).1 = .ok r) :
    ∃ scored, Read body request.documents.length request.owed scored ∧
      r.scale = (scaleOf known (scored.map (·.2))).1 ∧
      r.results = firstOf request.topN (sortBy rankKey (scored.map (rowOf L r.scale))) := by
  rw [rerankAnswer] at h
  cases hscored : rerankScores E repr body request.documents.length request.owed with
  | error failure =>
      rw [hscored] at h
      cases h
  | ok scored =>
      rw [hscored] at h
      exact ⟨scored, rerankScores_ok hscored, respond_ok h⟩

/-! ## The best, in order -/

/-- The best of what the backend scored, in order: as many as are asked
for, each with the backend's number, and what is left out is worse. -/
structure BestFirst (request : RerankRequest) (body : Json) (r : RerankResponse S) : Prop where
  distinct : (r.results.map (·.index)).Nodup
  within : ∀ row ∈ r.results, row.index < request.documents.length
  count : r.results.length = request.owed
  sorted : r.results.Pairwise fun a b => b.score < a.score ∨ a.score = b.score ∧ a.index < b.index
  rawSorted : r.results.Pairwise fun a b => b.rawScore ≤ a.rawScore
  given : ∀ row ∈ r.results, Scored body row.index row.rawScore
  best : ∀ index raw, Scored body index raw → (∃ row ∈ r.results, row.index = index ∧ row.rawScore = raw) ∨
    ∀ row ∈ r.results, raw < row.rawScore ∨ raw = row.rawScore ∧ row.index < index

theorem Read.length_le {body : Json} {passages owed : Nat} {scored : List (Nat × ℚ)}
    (h : Read body passages owed scored) : scored.length ≤ passages := by
  have hsub : scored.map (·.1) ⊆ List.range passages := by
    intro i hi
    obtain ⟨pair, hpair, rfl⟩ := List.mem_map.mp hi
    exact List.mem_range.mpr (h.within pair hpair)
  have hle := (h.nodup.subperm hsub).length_le
  rw [List.length_map, List.length_range] at hle
  exact hle

theorem length_firstOf {body : Json} {request : RerankRequest} {scored : List (Nat × ℚ)}
    (h : Read body request.documents.length request.owed scored) {rows : List (RerankedPassage S)}
    (hrows : rows.length = scored.length) : (firstOf request.topN rows).length = request.owed := by
  have hle := h.length_le
  have howed := h.owed
  rw [RerankRequest.owed] at howed ⊢
  cases htop : request.topN with
  | none =>
      rw [htop] at howed
      exact hrows.trans (le_antisymm hle howed)
  | some n =>
      rw [htop] at howed
      simp only at howed ⊢
      rw [firstOf, List.length_take, hrows]
      omega

/-- **What is returned are the best of the passages, in order.** -/
theorem best_first (target : Target) (request : RerankRequest) (known : Option RerankScale) (body : Json)
    {r : RerankResponse S} (h : (rerankAnswer E repr L target request known body).1 = .ok r) :
    BestFirst request body r := by
  obtain ⟨scored, hread, -, hresults⟩ := rerankAnswer_ok h
  have hsorted : (sortBy rankKey (scored.map (rowOf L r.scale))).Pairwise fun a b => rankKey a < rankKey b :=
    sorted_rows hread.nodup
  have hsub : r.results.Sublist (sortBy rankKey (scored.map (rowOf L r.scale))) := by
    rw [hresults]
    exact firstOf_sublist _ _
  have hrow : ∀ row ∈ r.results, ∃ pair ∈ scored, row = rowOf L r.scale pair := by
    intro row hrow
    obtain ⟨pair, hpair, heq⟩ := List.mem_map.mp (mem_sortBy.mp (hsub.subset hrow))
    exact ⟨pair, hpair, heq.symm⟩
  have hpairwise : r.results.Pairwise fun a b => b.score < a.score ∨ a.score = b.score ∧ a.index < b.index :=
    (hsorted.sublist hsub).imp rankKey_lt.mp
  refine ⟨?_, ?_, ?_, hpairwise, ?_, ?_, ?_⟩
  · exact (nodup_rows hread.nodup).sublist (hsub.map _)
  · intro row h'
    obtain ⟨pair, hpair, rfl⟩ := hrow row h'
    exact hread.within pair hpair
  · rw [hresults]
    exact length_firstOf hread (by rw [length_sortBy, List.length_map])
  · refine hpairwise.imp_of_mem fun ha hb hab => ?_
    obtain ⟨a, -, rfl⟩ := hrow _ ha
    obtain ⟨b, -, rfl⟩ := hrow _ hb
    exact hab.elim (fun hlt => (scoreOf_lt.mp hlt).le) fun heq => (scoreOf_inj.mp heq.1).ge
  · intro row h'
    obtain ⟨pair, hpair, rfl⟩ := hrow row h'
    exact (hread.given pair).mp hpair
  · intro index raw hscored
    have hmem : rowOf L r.scale (index, raw) ∈ sortBy rankKey (scored.map (rowOf L r.scale)) :=
      mem_sortBy.mpr (List.mem_map_of_mem ((hread.given (index, raw)).mpr hscored))
    rw [hresults]
    refine (firstOf_before hsorted hmem).imp (fun hin => ⟨_, hin, rfl, rfl⟩) fun hbefore row h' => ?_
    obtain ⟨pair, -, rfl⟩ := hrow row (hresults ▸ h')
    refine (rankKey_lt.mp (hbefore _ h')).imp scoreOf_lt.mp fun heq => ⟨(scoreOf_inj.mp heq.1).symm, heq.2⟩

/-- An answer that can be read is returned. -/
theorem rerankAnswer_isOk {target : Target} {request : RerankRequest} {body : Json} {scored : List (Nat × ℚ)}
    (h : rerankScores E repr body request.documents.length request.owed = .ok scored)
    (hmodel : E.holds (publicModelId E (Obj.get (dictOf body) "model") target) = true) (known : Option RerankScale) :
    ∃ r, (rerankAnswer E repr L target request known body).1 = .ok r := by
  rw [rerankAnswer, h]
  simp only [respond]
  rw [mapM_passageOf fun pair hpair => scoreOf_unit (List.mem_map_of_mem hpair), ensure_of hmodel]
  exact ⟨_, rfl⟩

end

/-- Two passages, the second the better. -/
def twoPassages : Json :=
  .ofFields [("results", .arr [.ofFields [("index", .int 0), ("relevance_score", .float (.fin (1 / 4)))],
    .ofFields [("index", .int 1), ("relevance_score", .float (.fin (3 / 4)))]])]

/-- The better of two passages. -/
def oneOfTwo : RerankRequest :=
  ⟨["a".toList, "b".toList], some 1, List.cons_ne_nil _ _, fun _ hn => (Option.some.inj hn) ▸ le_refl 1⟩

theorem twoPassages_read : rerankScores (.ofTable []) (fun _ => []) twoPassages oneOfTwo.documents.length oneOfTwo.owed =
    .ok [(0, 1 / 4), (1, 3 / 4)] := by rfl

theorem best_first_two : ∃ r, (rerankAnswer (.ofTable []) (fun _ => []) Logistic.exact ⟨"m".toList, "m".toList, false⟩
    oneOfTwo none twoPassages).1 = .ok r ∧ BestFirst oneOfTwo twoPassages r := by
  obtain ⟨r, hr⟩ : ∃ r, (rerankAnswer (.ofTable []) (fun _ => []) Logistic.exact ⟨"m".toList, "m".toList, false⟩
      oneOfTwo none twoPassages).1 = .ok r :=
    rerankAnswer_isOk twoPassages_read rfl none
  exact ⟨r, hr, best_first _ _ _ _ hr⟩

end InferenceDriver.OpenAi.Rerank
