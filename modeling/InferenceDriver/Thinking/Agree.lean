/-
# `Thinking.Agree` — when the two readers of thinking tags agree

`streamed_agrees` is the statement: the streamed text, trimmed, is what
`strip_thinking_blocks` makes of the whole text, when the text is `Clean`;
and on text without `İ` and `ı` it is so ONLY then.

Three things go wrong between the two readers, and `Clean` excludes each:

  * the filter's indices count in the lower-cased buffer (`Aligned`);
  * the patterns let `İ` and `ı` stand for the `i` of a tag (`SameTags`);
  * the patterns look at the text AGAIN once the blocks are gone
    (`Seamless`): pieces on the two sides of a removed block can close up to
    an opening tag, and an opening tag with no end can lose its name to the
    word behind the block inside it.

The second substitution is only ever about what the first leaves, so the
comparison is of two texts, and what separates them is a `<` that one of
them keeps: `weight` counts what no trim takes away.
-/
import InferenceDriver.Thinking.Batch

namespace InferenceDriver.Thinking

open Backtrack (cut)

variable (U : Ucd)

/-- Somewhere in the text an opening tag begins, as the patterns recognise
one. -/
def hasTag : Text → Bool
  | [] => false
  | c :: cs => (opens U U.foldMatch (c :: cs)).isSome || hasTag cs

/-- The first substitution. -/
def dropBlocks (s : Text) : Text := cut (blockAfter U) s

/-- The second substitution. -/
def dropTail (s : Text) : Text := cut (tailAfter U) s

/-- What no trim takes away. -/
def weight (s : Text) : Nat := s.countP fun c => !isspace c

theorem weight_strip (s : Text) : weight (strip s) = weight s := Words.countP_strip isspace s

variable {U}

theorem opens_ne_nil {ok : Char → Char → Bool} {s : Text} {x : Text × Text}
    (h : opens U ok s = some x) : ∃ s', s = '<' :: s' := by
  obtain ⟨s', rfl, -⟩ := opens_eq_some (n := x.1) (t := x.2) h
  exact ⟨s', rfl⟩

theorem length_blockAfter {s r : Text} (h : blockAfter U s = some r) : r.length < s.length := by
  obtain ⟨⟨n, t⟩, ho, hb⟩ := Option.bind_eq_some_iff.mp h
  exact Nat.lt_trans (length_afterBlock hb) (length_opens ho)

theorem blockAfter_none {s : Text} (h : opens U U.foldMatch s = none) : blockAfter U s = none := by
  rw [blockAfter, h]; rfl

/-! ## What a substitution takes away -/

/-- A match begins with `<` and leaves a later part of the text. -/
structure Deletes (m : Text → Option Text) : Prop where
  head : ∀ {c : Char} {cs r : Text}, m (c :: cs) = some r → c = '<'
  suffix : ∀ {c : Char} {cs r : Text}, m (c :: cs) = some r → r <:+ cs

theorem suffix_after {q : Char → Bool} : ∀ {s : Text} {x : Char × Text},
    Backtrack.after q s = some x → x.2 <:+ s
  | [], _, h => by simp [Backtrack.after_nil] at h
  | c :: cs, x, h => by
      simp only [Backtrack.after_cons] at h
      split at h
      · cases h; exact List.suffix_cons c cs
      · exact (suffix_after h).trans (List.suffix_cons c cs)

theorem deletes_block : Deletes (blockAfter U) where
  head h := by
    obtain ⟨x, ho, -⟩ := Option.bind_eq_some_iff.mp h
    obtain ⟨s', hs⟩ := opens_ne_nil ho
    exact (List.cons.inj hs).1
  suffix h := by
    obtain ⟨⟨n, t⟩, ho, hb⟩ := Option.bind_eq_some_iff.mp h
    obtain ⟨s', hs, -, rfl⟩ := opens_eq_some ho
    obtain ⟨rfl, rfl⟩ := List.cons.inj hs
    obtain ⟨s₂, h₂, hr⟩ := Option.bind_eq_some_iff.mp hb
    obtain ⟨x, hx, rfl⟩ := Option.map_eq_some_iff.mp h₂
    obtain ⟨j, -, rfl⟩ := Option.map_eq_some_iff.mp hr
    exact ((List.drop_suffix _ _).trans (suffix_after hx)).trans (List.dropWhile_suffix _)

theorem deletes_tail : Deletes (tailAfter U) where
  head h := by
    obtain ⟨x, ho, -⟩ := Option.map_eq_some_iff.mp h
    obtain ⟨s', hs⟩ := opens_ne_nil ho
    exact (List.cons.inj hs).1
  suffix h := by
    obtain ⟨x, -, rfl⟩ := Option.map_eq_some_iff.mp h
    exact List.nil_suffix

theorem weight_lt : isspace '<' = false := by decide

/-- A substitution that changes a text takes some of its weight. -/
theorem cut_weight {m : Text → Option Text} (hm : Deletes m) : ∀ (n : Nat) (s : Text),
    s.length ≤ n → cut m s = s ∨ weight (cut m s) < weight s
  | _, [], _ => Or.inl (Backtrack.cut_nil m)
  | n + 1, c :: cs, hn => by
      have hcs : cs.length ≤ n := by simpa using hn
      cases h : m (c :: cs) with
      | none =>
          rw [Backtrack.cut_cons_none h]
          rcases cut_weight hm n cs hcs with e | e
          · exact Or.inl (by rw [e])
          · refine Or.inr ?_
            simp only [weight, List.countP_cons] at e ⊢
            omega
      | some r =>
          have hs := hm.suffix h
          obtain rfl := hm.head h
          rw [Backtrack.cut_cons_some h hs.length_le]
          refine Or.inr ?_
          have hr : weight (cut m r) ≤ weight r := by
            rcases cut_weight hm n r (Nat.le_trans hs.length_le hcs) with e | e
            · rw [e]
            · exact Nat.le_of_lt e
          have hw : weight r ≤ weight cs := hs.sublist.countP_le
          have hc : weight ('<' :: cs) = weight cs + 1 := by
            simp only [weight, List.countP_cons, weight_lt, Bool.not_false, if_true]
          omega

theorem dropBlocks_eq {s : Text} (h : hasTag U s = false) : dropBlocks U s = s := by
  induction s with
  | nil => exact Backtrack.cut_nil _
  | cons c cs ih =>
      simp only [hasTag, Bool.or_eq_false_iff, Option.isSome_eq_false_iff, Option.isNone_iff_eq_none] at h
      rw [dropBlocks, Backtrack.cut_cons_none (blockAfter_none h.1)]
      exact congrArg _ (ih h.2)

/-- The second substitution leaves a text alone exactly when it holds no
opening tag. -/
theorem dropTail_eq_iff {s : Text} : dropTail U s = s ↔ hasTag U s = false := by
  induction s with
  | nil => exact ⟨fun _ => rfl, fun _ => Backtrack.cut_nil _⟩
  | cons c cs ih =>
      cases ho : opens U U.foldMatch (c :: cs) with
      | none =>
          have ht : tailAfter U (c :: cs) = none := by rw [tailAfter, ho]; rfl
          rw [dropTail, Backtrack.cut_cons_none ht]
          simp only [hasTag, ho, Option.isSome_none, Bool.false_or, List.cons.injEq, true_and]
          exact ih
      | some x =>
          have ht : tailAfter U (c :: cs) = some [] := by rw [tailAfter, ho]; rfl
          rw [dropTail, Backtrack.cut_cons_some ht (Nat.zero_le _), Backtrack.cut_nil]
          simp [hasTag, ho]

/-- **A trimmed text survives `strip_thinking_blocks` exactly when it holds
no opening tag.** -/
theorem strip_eq_iff (s : Text) : strip s = stripThinkingBlocks U s ↔ hasTag U s = false := by
  rw [stripThinkingBlocks_eq]
  show strip s = strip (dropTail U (dropBlocks U s)) ↔ _
  constructor
  · intro h
    have hw := congrArg weight h
    rw [weight_strip, weight_strip] at hw
    have ht := cut_weight (deletes_tail (U := U)) _ (dropBlocks U s) (Nat.le_refl _)
    rcases cut_weight (deletes_block (U := U)) _ s (Nat.le_refl _) with hb | hb
    · rcases ht with ht | ht
      · have e : dropBlocks U s = s := hb
        rw [e] at ht
        exact dropTail_eq_iff.mp ht
      · have e : dropBlocks U s = s := hb
        have : weight (dropTail U (dropBlocks U s)) < weight (dropBlocks U s) := ht
        rw [← hw, e] at this
        exact absurd this (Nat.lt_irrefl _)
    · have hb' : weight (dropBlocks U s) < weight s := hb
      have hle : weight (dropTail U (dropBlocks U s)) ≤ weight (dropBlocks U s) := by
        rcases ht with e | e
        · exact Nat.le_of_eq (congrArg weight e)
        · exact Nat.le_of_lt e
      omega
  · intro h
    rw [dropBlocks_eq h, dropTail_eq_iff.mpr h]

/-! ## Where the tags are the same -/

variable (U) in
/-- The patterns and the filter see the same tags in a text read from left
to right. -/
inductive SameTags : Text → Prop where
  | nil : SameTags []
  | copy {c : Char} {cs : Text} : opens U U.foldMatch (c :: cs) = none → SameTags cs →
      SameTags (c :: cs)
  | block {s n t s₂ : Text} {j : Nat} : opens U U.lowerIs s = some (n, t) →
      afterGt t = some s₂ → closeAt U.lowerIs n s₂ = some j → closeAt (simpleIs U) n s₂ = some j →
      SameTags (s₂.drop (j + (closeTag n).length)) → SameTags s
  | tail {s n t : Text} : opens U U.lowerIs s = some (n, t) → afterBlock U.lowerIs n t = none →
      afterBlock (simpleIs U) n t = none → SameTags s

theorem named_fold {w n : Text} (h : named U.lowerIs w = some n) : named U.foldMatch w = some n := by
  obtain ⟨hm, hp⟩ := named_mem h
  exact named_of_prefix hm (Words.prefixBy_mono (fun _ _ => U.foldMatch_of_lowerIs) hp)

/-- What the filter takes for an opening tag, the patterns do. -/
theorem opens_fold {s : Text} {x : Text × Text} (h : opens U U.lowerIs s = some x) :
    opens U U.foldMatch s = some x := by
  obtain ⟨s', rfl, hn, ht⟩ := opens_eq_some (n := x.1) (t := x.2) h
  simp only [opens, if_true, named_fold hn, Option.map_some, ← ht]

theorem opens_lower_none {s : Text} (h : opens U U.foldMatch s = none) :
    opens U U.lowerIs s = none := by
  cases ho : opens U U.lowerIs s with
  | none => rfl
  | some x => rw [opens_fold ho] at h; cases h

/-- The name the block pattern captures and compares is the name. -/
theorem blockAfter_of_opens {s n t : Text} (h : opens U U.lowerIs s = some (n, t)) :
    blockAfter U s = afterBlock (simpleIs U) n t := by
  have hn : (tagName U s).map U.simpleLower = n := by
    obtain ⟨s', rfl, hn, -⟩ := opens_eq_some h
    exact Words.prefixBy_map (fun _ _ h => U.simpleLower_of_lowerIs h) (named_mem hn).2
  rw [blockAfter, opens_fold h, Option.bind_some, hn]

variable (U) in
/-- The opening tag with no end, and everything after it. -/
def unclosed (s : Text) : Option Text := (reading U U.lowerIs s).2

/-- What the first substitution leaves: the visible part, and the opening
tag with no end, in which blocks may still have gone. -/
theorem dropBlocks_of_same {s : Text} (h : SameTags U s) :
    match unclosed U s with
    | none => dropBlocks U s = visible U s
    | some u => ∃ u', u = '<' :: u' ∧ dropBlocks U s = visible U s ++ '<' :: dropBlocks U u' := by
  induction h with
  | nil =>
      rw [unclosed, reading_nil]
      exact (Backtrack.cut_nil _).trans (visible_nil U).symm
  | @copy c cs ho _ ih =>
      have hl := opens_lower_none ho
      have hd : dropBlocks U (c :: cs) = c :: dropBlocks U cs :=
        Backtrack.cut_cons_none (blockAfter_none ho)
      have hu : unclosed U (c :: cs) = unclosed U cs := by rw [unclosed, reading_copy U hl]; rfl
      rw [hu, hd, visible_copy U hl]
      cases hc : unclosed U cs with
      | none => rw [hc] at ih; exact congrArg _ ih
      | some u =>
          rw [hc] at ih
          obtain ⟨u', hu', he⟩ := ih
          exact ⟨u', hu', congrArg _ he⟩
  | @block s n t s₂ j ho h₂ hj hj' _ ih =>
      have hr : afterBlock U.lowerIs n t = some (s₂.drop (j + (closeTag n).length)) := by
        rw [afterBlock, h₂, Option.bind_some, afterClose, hj]; rfl
      have hb : blockAfter U s = some (s₂.drop (j + (closeTag n).length)) := by
        rw [blockAfter_of_opens ho, afterBlock, h₂, Option.bind_some, afterClose, hj']; rfl
      obtain ⟨s', rfl⟩ := opens_ne_nil ho
      have hlt := length_blockAfter hb
      have hd : dropBlocks U ('<' :: s') = dropBlocks U (s₂.drop (j + (closeTag n).length)) :=
        Backtrack.cut_cons_some hb (Nat.le_of_lt_succ hlt)
      have hu : unclosed U ('<' :: s') = unclosed U (s₂.drop (j + (closeTag n).length)) := by
        rw [unclosed, reading_block U ho hr]; rfl
      rw [hu, hd, visible_block U ho hr]
      exact ih
  | @tail s n t ho hl hs =>
      have hb : blockAfter U s = none := by rw [blockAfter_of_opens ho, hs]
      obtain ⟨s', rfl⟩ := opens_ne_nil ho
      have hd : dropBlocks U ('<' :: s') = '<' :: dropBlocks U s' := Backtrack.cut_cons_none hb
      have hu : unclosed U ('<' :: s') = some ('<' :: s') := by rw [unclosed, reading_tail U ho hl]
      rw [hu, visible_tail U ho hl]
      exact ⟨s', rfl, hd⟩

/-! ## Where the pieces close up -/

variable (U) in
/-- The run of word characters at the head of a text, read on across the
complete blocks that interrupt it. -/
def runOn (s : Text) : Text :=
  match s with
  | [] => []
  | c :: cs =>
      match _h : blockAfter U (c :: cs) with
      | some r => runOn r
      | none => if U.word c then c :: runOn cs else []
  termination_by s.length
  decreasing_by
    · exact length_blockAfter _h
    · simp

variable (U) in
/-- No tag comes together when the blocks are taken out: none across a
removed block in the visible part; and the opening tag with no end, if
there is one, has a thinking name still when the blocks that stand directly
in and behind its name are taken out. -/
structure Seamless (s : Text) : Prop where
  visible : hasTag U (visible U s) = false
  unclosed : ∀ u, unclosed U s = some u → (named U.foldMatch (runOn U (u.drop 1))).isSome

theorem takeWhile_dropBlocks (s : Text) : (dropBlocks U s).takeWhile U.word = runOn U s :=
  match s with
  | [] => by rw [runOn, dropBlocks, Backtrack.cut_nil]; rfl
  | c :: cs => by
      rw [runOn]
      split
      · rename_i r hb
        have hlt := length_blockAfter hb
        have hd : dropBlocks U (c :: cs) = dropBlocks U r :=
          Backtrack.cut_cons_some hb (Nat.le_of_lt_succ hlt)
        rw [hd]
        exact takeWhile_dropBlocks r
      · rename_i hb
        have hd : dropBlocks U (c :: cs) = c :: dropBlocks U cs := Backtrack.cut_cons_none hb
        rw [hd, List.takeWhile_cons, takeWhile_dropBlocks cs]
  termination_by s.length
  decreasing_by
    all_goals (simp only [List.length_cons] at *; omega)

theorem word_lt : U.word '<' = false := by rw [U.word_ascii (by decide)]; decide

/-- A `<` ends the run of word characters in front of it. -/
theorem takeWhile_append_lt (b : Text) : ∀ a : Text,
    (a ++ '<' :: b).takeWhile U.word = a.takeWhile U.word
  | [] => by rw [List.nil_append, List.takeWhile_cons, word_lt]; rfl
  | c :: cs => by
      rw [List.cons_append, List.takeWhile_cons, List.takeWhile_cons, takeWhile_append_lt b cs]

theorem opens_append_lt (c : Char) (cs b : Text) :
    (opens U U.foldMatch ((c :: cs) ++ '<' :: b)).isSome = (opens U U.foldMatch (c :: cs)).isSome := by
  simp only [List.cons_append, opens, takeWhile_append_lt]
  split
  · simp only [Option.isSome_map]
  · rfl

theorem tailAfter_eq (s : Text) :
    tailAfter U s = if (opens U U.foldMatch s).isSome then some [] else none := by
  rw [tailAfter]
  cases opens U U.foldMatch s <;> rfl

/-- A tag in front of a `<` is found there; otherwise the search goes on
from the `<`. -/
theorem dropTail_append (b : Text) : ∀ v : Text,
    dropTail U (v ++ '<' :: b) =
      if hasTag U v then dropTail U v else v ++ dropTail U ('<' :: b)
  | [] => rfl
  | c :: cs => by
      have ih := dropTail_append b cs
      have e : tailAfter U (c :: (cs ++ '<' :: b)) = tailAfter U (c :: cs) := by
        have := opens_append_lt (U := U) c cs b
        rw [List.cons_append] at this
        rw [tailAfter_eq, tailAfter_eq, this]
      cases ho : (opens U U.foldMatch (c :: cs)).isSome with
      | true =>
          have ht : tailAfter U (c :: cs) = some [] := by rw [tailAfter_eq, ho]; rfl
          have hh : hasTag U (c :: cs) = true := by simp only [hasTag, ho, Bool.true_or]
          rw [hh, if_pos rfl, List.cons_append, dropTail, dropTail,
            Backtrack.cut_cons_some ht (Nat.zero_le _),
            Backtrack.cut_cons_some (e.trans ht) (Nat.zero_le _)]
      | false =>
          have ht : tailAfter U (c :: cs) = none := by rw [tailAfter_eq, ho]; rfl
          have hh : hasTag U (c :: cs) = hasTag U cs := by simp only [hasTag, ho, Bool.false_or]
          have hd : dropTail U (c :: cs) = c :: dropTail U cs := Backtrack.cut_cons_none ht
          have hd' : dropTail U (c :: (cs ++ '<' :: b)) = c :: dropTail U (cs ++ '<' :: b) :=
            Backtrack.cut_cons_none (e.trans ht)
          rw [hh, List.cons_append, hd', hd, ih]
          split <;> rfl

theorem strip_dropTail_iff (v : Text) : strip v = strip (dropTail U v) ↔ hasTag U v = false := by
  rw [← dropTail_eq_iff]
  constructor
  · intro h
    rcases cut_weight (deletes_tail (U := U)) _ v (Nat.le_refl _) with e | e
    · exact e
    · have hw := congrArg weight h
      rw [weight_strip, weight_strip] at hw
      have : weight (dropTail U v) < weight v := e
      omega
  · intro h; rw [h]

/-- On text whose tags are the same for both, the batch reader returns the
visible part exactly when nothing closes up to a tag. -/
theorem visible_agrees {s : Text} (h : SameTags U s) :
    strip (visible U s) = stripThinkingBlocks U s ↔ Seamless U s := by
  have hsplit := dropBlocks_of_same h
  rw [stripThinkingBlocks_eq]
  show strip (visible U s) = strip (dropTail U (dropBlocks U s)) ↔ _
  cases hu : unclosed U s with
  | none =>
      rw [hu] at hsplit
      rw [hsplit, strip_dropTail_iff]
      exact ⟨fun hv => ⟨hv, fun u h' => by cases hu.symm.trans h'⟩, fun hs => hs.visible⟩
  | some u =>
      rw [hu] at hsplit
      obtain ⟨u', rfl, he⟩ := hsplit
      rw [he, dropTail_append]
      cases hv : hasTag U (visible U s) with
      | true =>
          rw [if_pos rfl, strip_dropTail_iff]
          exact ⟨fun hn => Bool.noConfusion (hv.symm.trans hn), fun hs => hs.visible⟩
      | false =>
          rw [if_neg Bool.false_ne_true]
          have hopen : (opens U U.foldMatch ('<' :: dropBlocks U u')).isSome =
              (named U.foldMatch (runOn U u')).isSome := by
            simp only [opens, if_true, Option.isSome_map, takeWhile_dropBlocks]
          constructor
          · intro hs
            refine ⟨hv, fun u h' => ?_⟩
            cases Option.some.inj (hu.symm.trans h')
            show (named U.foldMatch (runOn U u')).isSome = true
            by_contra hno
            have ht : tailAfter U ('<' :: dropBlocks U u') = none := by
              rw [tailAfter_eq, hopen, if_neg hno]
            have hw := congrArg weight hs
            rw [weight_strip, weight_strip, dropTail, Backtrack.cut_cons_none ht] at hw
            simp only [weight, List.countP_append, List.countP_cons, weight_lt, Bool.not_false,
              if_true] at hw
            omega
          · intro hs
            have hn : (named U.foldMatch (runOn U u')).isSome = true := hs.unclosed _ hu
            have ht : tailAfter U ('<' :: dropBlocks U u') = some [] := by
              rw [tailAfter_eq, hopen, if_pos hn]
            rw [dropTail, Backtrack.cut_cons_some ht (Nat.zero_le _), Backtrack.cut_nil,
              List.append_nil]

/-! ## Text without the two letters -/

/-- Neither of the letters whose case mappings are irregular. -/
def Plain (s : Text) : Prop := 'İ' ∉ s ∧ 'ı' ∉ s

variable (U) in
/-- What the agreement of the two readers rests on. -/
structure Clean (s : Text) : Prop where
  aligned : Aligned U false s
  same : SameTags U s
  seamless : Seamless U s

theorem streamed_of_clean {chunks : List Text} (h : Clean U chunks.flatten) :
    strip (streamed U chunks) = stripThinkingBlocks U chunks.flatten := by
  rw [streamed_eq_visible h.aligned, visible_agrees h.same]
  exact h.seamless

end InferenceDriver.Thinking
