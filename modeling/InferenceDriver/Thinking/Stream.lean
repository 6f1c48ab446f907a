/-
# `Thinking.Stream` — the filter is the left-to-right reader, however the text is cut

`streamed_eq_visible`: whatever the chunks, what a fresh `ThinkingFilter`
emits is the visible part of the whole text — provided the text is
`Aligned`.

## Why `Aligned`

The filter looks for `<think` and for the closing tag in the LOWER-CASED
buffer, and cuts the buffer itself at the index it finds.  One character,
`İ`, lower-cases to two, so behind one of them the index is too large by
one.  `Aligned` says that this never happens: no `İ` stands in front of a
place where `<think` is found (since the last tag or near miss), and none
inside a block in front of its closing tag.  A text without `İ` is aligned
(`aligned_of_single`).

## How the proof goes

`finish f r` is what is still owed when the filter stands at `f` and the
text to come is `r`; it is stated with the reader, not with the filter.
One turn of the loop pays exactly what it emits (`turn_spec`), so a run of
the loop does, so a feed does, and the chunks drop out of the statement:
`finish` at the start is the visible part of everything, and at the end it
is what `flush` returns.
-/
import InferenceDriver.Thinking.Scan

namespace InferenceDriver.Thinking

variable (U : Ucd)

/-- `<think` in any case at the head of a text. -/
def hit (s : Text) : Bool := (Words.prefixBy U.lowerIs openMark s).isSome

/-- No search of the filter has an `İ` in front of what it finds.  `seen`:
one has been copied since the filter's buffer last began. -/
inductive Aligned : Bool → Text → Prop where
  | nil (seen : Bool) : Aligned seen []
  | copy {seen : Bool} {c : Char} {cs : Text} : hit U (c :: cs) = false →
      Aligned (seen || c == 'İ') cs → Aligned seen (c :: cs)
  /-- `<thinker`: the buffer begins again behind the `<`. -/
  | near {c : Char} {cs : Text} : hit U (c :: cs) = true →
      opens U U.lowerIs (c :: cs) = none → Aligned false cs → Aligned false (c :: cs)
  | block {s n t s₂ : Text} {j : Nat} : opens U U.lowerIs s = some (n, t) →
      afterGt t = some s₂ → closeAt U.lowerIs n s₂ = some j → 'İ' ∉ s₂.take j →
      Aligned false (s₂.drop (j + (closeTag n).length)) → Aligned false s
  | tail {s n t : Text} : opens U U.lowerIs s = some (n, t) →
      afterBlock U.lowerIs n t = none → Aligned false s

variable {U}

/-! ## Marks and names under `str.lower` -/

theorem lower_ne_nil (c : Char) : U.lower c ≠ [] := by
  by_cases h : c = 'İ'
  · subst h; simp [U.lower_dotted]
  · obtain ⟨d, hd⟩ := U.lower_single c h
    simp [hd]

/-- A word of ASCII that does not end in `i` is found whole. -/
theorem whole_of {pat : Text} (h : '\u0307' ∉ pat) (hl : pat.getLast? ≠ some 'i') :
    Words.Whole U.lower pat := by
  intro c
  by_cases hc : c = 'İ'
  · subst hc
    exact Or.inr ⟨'i', '\u0307', U.lower_dotted, h, hl⟩
  · exact Or.inl (U.lower_single c hc)

theorem whole_openMark : Words.Whole U.lower openMark := whole_of (by decide) (by decide)

theorem whole_closeTag {n : Text} (h : n ∈ thinkNames) : Words.Whole U.lower (closeTag n) := by
  rcases mem_thinkNames.mp h with rfl | rfl <;> exact whole_of (by decide) (by decide)

theorem whole_name {n : Text} (h : n ∈ thinkNames) : Words.Whole U.lower n := by
  rcases mem_thinkNames.mp h with rfl | rfl <;> exact whole_of (by decide) (by decide)

theorem closeTag_ne_nil (n : Text) : closeTag n ≠ [] := by
  simp [closeTag]

/-- The filter's test of a name is the reader's. -/
theorem lowerText_mem {w : Text} :
    (U.lowerText w ∈ thinkNames → named U.lowerIs w = some (U.lowerText w)) ∧
      (U.lowerText w ∉ thinkNames → named U.lowerIs w = none) := by
  constructor
  · intro h
    exact named_of_prefix h ((Words.flatMap_eq_iff (whole_name h) lower_ne_nil).mp rfl)
  · intro h
    cases hn : named U.lowerIs w with
    | none => rfl
    | some n =>
        obtain ⟨hm, hp⟩ := named_mem hn
        have : U.lowerText w = n := (Words.flatMap_eq_iff (whole_name hm) lower_ne_nil).mpr hp
        exact absurd (this ▸ hm) h

theorem eq_lt_of_lowerIs {c : Char} (h : U.lowerIs '<' c = true) : c = '<' :=
  (U.lowerIs_punct (by decide) (by decide)).mp h

/-- A hit begins with `<`. -/
theorem hit_cons {s : Text} (h : hit U s = true) : ∃ s', s = '<' :: s' := by
  cases s with
  | nil => simp [hit, openMark, Words.prefixBy] at h
  | cons c cs =>
      have ho : openMark = '<' :: "think".toList := rfl
      rw [hit, ho] at h
      simp only [Words.prefixBy] at h
      split at h
      · rename_i hc
        exact ⟨cs, by rw [eq_lt_of_lowerIs hc]⟩
      · simp at h

theorem hit_append {s : Text} (h : hit U s = true) (r : Text) : hit U (s ++ r) = true := by
  obtain ⟨t, ht⟩ := Option.isSome_iff_exists.mp h
  simp [hit, Words.prefixBy_append r ht]

/-- An opening tag is a hit. -/
theorem hit_of_opens {s n t : Text} (h : opens U U.lowerIs s = some (n, t)) : hit U s = true := by
  obtain ⟨s', rfl, hn, -⟩ := opens_eq_some h
  obtain ⟨hm, hp⟩ := named_mem hn
  have hlt : U.lowerIs '<' '<' = true := (U.lowerIs_punct (by decide) (by decide)).mpr rfl
  have hthink : (Words.prefixBy U.lowerIs "think".toList (s'.takeWhile U.word)).isSome := by
    rcases mem_thinkNames.mp hm with rfl | rfl
    · have e : "thinking".toList = "think".toList ++ "ing".toList := by decide
      rw [e, Words.prefixBy_concat] at hp
      obtain ⟨u, hu, -⟩ := Option.bind_eq_some_iff.mp hp
      rw [hu]; rfl
    · rw [hp]; rfl
  obtain ⟨u, hu⟩ := Option.isSome_iff_exists.mp hthink
  have := Words.prefixBy_append (s'.dropWhile U.word) hu
  rw [List.takeWhile_append_dropWhile] at this
  show (Words.prefixBy U.lowerIs ('<' :: "think".toList) ('<' :: s')).isSome = true
  rw [Words.prefixBy, if_pos hlt, this]; rfl

theorem opens_none_of_hit {s : Text} (h : hit U s = false) : opens U U.lowerIs s = none := by
  cases ho : opens U U.lowerIs s with
  | none => rfl
  | some x => rw [hit_of_opens ho] at h; cases h

/-! ## Walking along an aligned text -/

theorem Aligned.weaken {s : Text} {seen : Bool} (h : Aligned U seen s) : Aligned U false s := by
  induction h with
  | nil => exact .nil false
  | @copy seen c cs hc _ ih =>
      have : Aligned U (false || c == 'İ') cs := by
        cases hs : (c == 'İ') with
        | false => exact ih
        | true => rename_i h; simpa [hs] using h
      exact .copy hc this
  | near h₁ h₂ h₃ _ => exact .near h₁ h₂ h₃
  | block h₁ h₂ h₃ h₄ h₅ _ => exact .block h₁ h₂ h₃ h₄ h₅
  | tail h₁ h₂ => exact .tail h₁ h₂

/-- Text without a hit is copied, and what follows it stays aligned. -/
theorem copied : ∀ {k : Nat} {s : Text}, (∀ i < k, hit U (s.drop i) = false) →
    Aligned U false s →
      visible U s = s.take k ++ visible U (s.drop k) ∧ Aligned U false (s.drop k)
  | 0, s, _, hs => ⟨by simp, by simpa using hs⟩
  | k + 1, [], _, _ => ⟨by simp, by simpa using Aligned.nil false⟩
  | k + 1, c :: cs, h, hs => by
      have h₀ : hit U (c :: cs) = false := by simpa using h 0 (Nat.succ_pos k)
      have hcs : Aligned U false cs := by
        cases hs with
        | copy _ h => exact h.weaken
        | near h' => rw [h₀] at h'; cases h'
        | block h' => rw [hit_of_opens h'] at h₀; cases h₀
        | tail h' => rw [hit_of_opens h'] at h₀; cases h₀
      obtain ⟨hv, ha⟩ := copied (k := k) (fun i hi => by simpa using h (i + 1) (by omega)) hcs
      refine ⟨?_, by simpa using ha⟩
      rw [visible_copy U (opens_none_of_hit h₀), hv]
      simp

/-- In front of the first hit of an aligned text there is no `İ`. -/
theorem Aligned.no_dotted : ∀ {j : Nat} {seen : Bool} {s : Text}, Aligned U seen s →
    hit U (s.drop j) = true → (∀ i < j, hit U (s.drop i) = false) →
      seen = false ∧ 'İ' ∉ s.take j
  | 0, seen, s, hs, hj, _ => by
      refine ⟨?_, by simp⟩
      cases hs with
      | nil => simp [hit, openMark, Words.prefixBy] at hj
      | copy h _ => rw [List.drop_zero, h] at hj; cases hj
      | near => rfl
      | block => rfl
      | tail => rfl
  | j + 1, seen, s, hs, hj, hb => by
      have h₀ : hit U s = false := by simpa using hb 0 (Nat.succ_pos j)
      cases hs with
      | nil => simp [hit, openMark, Words.prefixBy] at hj
      | @copy _ c cs _ h =>
          obtain ⟨hseen, hno⟩ := Aligned.no_dotted (j := j) h (by simpa using hj)
            fun i hi => by simpa using hb (i + 1) (by omega)
          simp only [Bool.or_eq_false_iff, beq_eq_false_iff_ne] at hseen
          refine ⟨hseen.1, ?_⟩
          simp only [List.take_succ_cons, List.mem_cons, not_or]
          exact ⟨Ne.symm hseen.2, hno⟩
      | near h => rw [h₀] at h; cases h
      | block h => rw [hit_of_opens h] at h₀; cases h₀
      | tail h => rw [hit_of_opens h] at h₀; cases h₀

/-- A text without `İ` is aligned. -/
theorem aligned_of_single {s : Text} (h : 'İ' ∉ s) : Aligned U false s :=
  match s with
  | [] => .nil false
  | c :: cs => by
      have hcs : 'İ' ∉ cs := fun hm => h (List.mem_cons_of_mem _ hm)
      cases hh : hit U (c :: cs) with
      | false =>
          refine .copy hh ?_
          have hc : (c == 'İ') = false := by
            simpa using fun e : c = 'İ' => h (e ▸ List.mem_cons_self)
          rw [hc]
          exact aligned_of_single hcs
      | true =>
          cases ho : opens U U.lowerIs (c :: cs) with
          | none => exact .near hh ho (aligned_of_single hcs)
          | some x =>
              obtain ⟨n, t⟩ := x
              cases hb : afterBlock U.lowerIs n t with
              | none => exact .tail ho hb
              | some r =>
                  obtain ⟨s₂, h₂, hr⟩ := Option.bind_eq_some_iff.mp hb
                  obtain ⟨j, hj, hd⟩ := Option.map_eq_some_iff.mp hr
                  have hs₂ : 'İ' ∉ s₂ := fun hm =>
                    h (mem_of_opens ho (mem_of_afterGt h₂ hm))
                  have hr' : 'İ' ∉ r := fun hm => hs₂ (List.mem_of_mem_drop (hd ▸ hm))
                  have hlt : r.length < (c :: cs).length :=
                    Nat.lt_trans (length_afterBlock hb) (length_opens ho)
                  exact .block ho h₂ hj (fun hm => hs₂ (List.mem_of_mem_take hm))
                    (hd ▸ aligned_of_single hr')
  termination_by s.length
  decreasing_by
    all_goals (simp only [List.length_cons] at *; omega)

/-! ## What is still owed -/

/-- What is owed inside a block of name `n` when `s` is still to be read. -/
def insideOf (n s : Text) : Text :=
  match afterClose U.lowerIs n s with
  | none => []
  | some r => visible U r

/-- What is owed by a filter at `f` when `r` is still to come. -/
def finish (f : ThinkingFilter) (r : Text) : Text :=
  match f.state with
  | .outside => visible U (f.buf ++ r)
  | .name => visible U (f.buf ++ r)
  | .opening =>
      match afterGt (f.buf ++ r) with
      | none => []
      | some s => insideOf (U := U) f.name s
  | .inside => insideOf (U := U) f.name (f.buf ++ r)

/-- `Aligned` inside a block. -/
def AlignedIn (n s : Text) : Prop :=
  ∀ j, closeAt U.lowerIs n s = some j →
    'İ' ∉ s.take j ∧ Aligned U false (s.drop (j + (closeTag n).length))

/-- What the state of a filter says of what it holds. -/
def Held (f : ThinkingFilter) (r : Text) : Prop :=
  match f.state with
  | .outside => Aligned U false (f.buf ++ r)
  | .name => hit U f.buf = true ∧ Aligned U false (f.buf ++ r)
  | .opening => f.name ∈ thinkNames ∧
      ∀ s, afterGt (f.buf ++ r) = some s → AlignedIn (U := U) f.name s
  | .inside => f.name ∈ thinkNames ∧ AlignedIn (U := U) f.name (f.buf ++ r)

/-- A step from `f` to `f'` that emits `out` pays what it emits. -/
structure Pays (f : ThinkingFilter) (r out : Text) (f' : ThinkingFilter) : Prop where
  held : Held (U := U) f' r
  owed : finish (U := U) f r = out ++ finish (U := U) f' r

/-! ## What the searches find -/

theorem find_lowered {pat s : Text} (hne : pat ≠ []) (hw : Words.Whole U.lower pat)
    (hs : ∀ j, Words.findBy U.lowerIs pat s = some j → 'İ' ∉ s.take j) :
    Words.find pat (U.lowerText s) = Words.findBy U.lowerIs pat s := by
  refine Words.find_flatMap_of_single hne hw fun j hj c hc => ?_
  obtain ⟨d, hd⟩ := U.lower_single c (by rintro rfl; exact hs j hj hc)
  rw [hd]; rfl

theorem find_lowered_none {pat s : Text} (hne : pat ≠ []) (hw : Words.Whole U.lower pat) :
    Words.find pat (U.lowerText s) = none ↔ Words.findBy U.lowerIs pat s = none := by
  rw [Ucd.lowerText, Words.find_flatMap hne hw, Option.map_eq_none_iff]; rfl

theorem findOpen_none {s : Text} (h : findOpen U s = none) (i : Nat) :
    hit U (s.drop i) = false := by
  have := Words.findBy_none ((find_lowered_none (by decide) whole_openMark).mp h) i
  rw [hit, this]; rfl

/-- What the filter finds outside is the first hit of everything to come. -/
theorem findOpen_some {s r : Text} {k : Nat} (ha : Aligned U false (s ++ r))
    (h : findOpen U s = some k) :
    k ≤ s.length ∧ hit U (s.drop k) = true ∧ ∀ i < k, hit U ((s ++ r).drop i) = false := by
  have first : ∀ j, Words.findBy U.lowerIs openMark s = some j →
      hit U (s.drop j) = true ∧ ∀ i < j, hit U ((s ++ r).drop i) = false := by
    intro j hj
    refine ⟨(Words.findBy_some hj).1, fun i hi => ?_⟩
    rw [hit, (Words.findBy_some (Words.findBy_append r hj)).2 i hi]; rfl
  have hno : ∀ j, Words.findBy U.lowerIs openMark s = some j → 'İ' ∉ s.take j := by
    intro j hj
    obtain ⟨h₁, h₂⟩ := first j hj
    have hl := Words.findBy_length hj
    have hd : hit U ((s ++ r).drop j) = true := by
      rw [List.drop_append_of_le_length (by omega)]
      exact hit_append h₁ r
    have := (Aligned.no_dotted ha hd h₂).2
    rwa [List.take_append_of_le_length (by omega)] at this
  rw [findOpen, find_lowered (by decide) whole_openMark hno] at h
  have hl := Words.findBy_length h
  exact ⟨by omega, first k h⟩

theorem viableUpTo_le (l : Text) : ∀ n, viableUpTo l n ≤ n
  | 0 => Nat.le_refl 0
  | n + 1 => by
      simp only [viableUpTo]
      split
      · exact Nat.le_refl _
      · exact Nat.le_succ_of_le (viableUpTo_le l n)

theorem le_viableUpTo {l : Text} {m : Nat}
    (hp : (l.drop (l.length - m)).isPrefixOf openMark = true) :
    ∀ n, m ≤ n → m ≤ viableUpTo l n
  | 0, h => h
  | n + 1, h => by
      simp only [viableUpTo]
      split
      · exact h
      · rename_i hn
        have : m ≠ n + 1 := fun e => hn (e ▸ hp)
        exact le_viableUpTo hp n (by omega)

/-- What is emitted when no tag is found stands in front of every hit of
everything to come: a hit across the end of the buffer is a viable tail. -/
theorem no_hit_in_cut {s : Text} (h : findOpen U s = none) (r : Text) :
    ∀ i < s.length - viablePrefixLen U s, hit U ((s ++ r).drop i) = false := by
  intro i hi
  by_contra hh
  have hil : i ≤ s.length := by omega
  rw [List.drop_append_of_le_length hil, Bool.not_eq_false] at hh
  have hsome : (Words.prefixBy U.lowerIs openMark (s.drop i ++ r)).isSome := hh
  have hnone : Words.prefixBy U.lowerIs openMark (s.drop i) = none := by
    simpa [hit] using findOpen_none h i
  have hshort : (s.drop i).length < openMark.length := by
    by_contra hl
    rw [Words.prefixBy_append_none r hnone (by omega)] at hsome
    cases hsome
  obtain ⟨hp, hl⟩ := Words.image_of_straddle hsome (by omega)
  have hlow : U.lowerText s = (s.take i).flatMap U.lower ++ (s.drop i).flatMap U.lower := by
    rw [Ucd.lowerText, ← List.flatMap_append, List.take_append_drop]
  have hdrop : (U.lowerText s).drop ((U.lowerText s).length - (s.drop i).length) =
      (s.drop i).flatMap U.lower := by
    rw [hlow, List.length_append, hl, Nat.add_sub_cancel, List.drop_left]
  have hlen : (s.drop i).length = s.length - i := List.length_drop
  have hv : (s.drop i).length ≤ viablePrefixLen U s := by
    refine le_viableUpTo (by rw [hdrop]; exact hp) _ ?_
    exact Nat.le_min.mpr ⟨by omega, Nat.le_sub_one_of_lt hshort⟩
  omega

/-- Inside a block whose close is not in the buffer, what is dropped holds
no beginning of it. -/
theorem closeAt_keep {n s r : Text} (h : closeAt U.lowerIs n s = none) {k : Nat}
    (hk : k + ((closeTag n).length - 1) ≤ s.length) :
    closeAt U.lowerIs n (s ++ r) = (closeAt U.lowerIs n (s.drop k ++ r)).map (· + k) := by
  have hks : k ≤ s.length := by omega
  have : closeAt U.lowerIs n (s ++ r) = (closeAt U.lowerIs n ((s ++ r).drop k)).map (· + k) :=
    Words.findBy_drop (by rw [List.length_append]; omega) fun i hi => by
      rw [List.drop_append_of_le_length (by omega)]
      exact Words.prefixBy_append_none r (Words.findBy_none h i)
        (by rw [List.length_drop]; omega)
  rwa [List.drop_append_of_le_length hks] at this

/-! ## One turn of the loop -/

theorem turn_outside {buf name r : Text} (h : Held (U := U) ⟨buf, .outside, name⟩ r) :
    Pays (U := U) ⟨buf, .outside, name⟩ r (turn U ⟨buf, .outside, name⟩).1
      (turn U ⟨buf, .outside, name⟩).2.1 := by
  have ha : Aligned U false (buf ++ r) := h
  cases hf : findOpen U buf with
  | none =>
      have hno := no_hit_in_cut hf r
      have hc := Nat.sub_le buf.length (viablePrefixLen U buf)
      simp only [turn, hf]
      obtain ⟨hv, hr⟩ := copied hno ha
      rw [List.take_append_of_le_length hc, List.drop_append_of_le_length hc] at hv
      rw [List.drop_append_of_le_length hc] at hr
      exact ⟨hr, hv⟩
  | some k =>
      obtain ⟨hk, hhit, hno⟩ := findOpen_some ha hf
      obtain ⟨hv, hr⟩ := copied hno ha
      rw [List.take_append_of_le_length hk, List.drop_append_of_le_length hk] at hv
      rw [List.drop_append_of_le_length hk] at hr
      simp only [turn, hf]
      exact ⟨⟨hhit, hr⟩, hv⟩

/-- A name the buffer shows to its end is the name of the whole text. -/
theorem opens_of_complete {s r : Text} (h : (readName U ('<' :: s)).2 = true) :
    opens U U.lowerIs (('<' :: s) ++ r) =
      (named U.lowerIs (readName U ('<' :: s)).1).map fun n => (n, s.dropWhile U.word ++ r) := by
  have hlt : (s.takeWhile U.word).length < s.length := by
    have := of_decide_eq_true h
    simp only [List.drop_succ_cons, List.drop_zero, List.length_cons] at this
    omega
  have hne : s.takeWhile U.word ≠ s := fun e => by rw [e] at hlt; exact Nat.lt_irrefl _ hlt
  have hsplit : s.takeWhile U.word ++ s.dropWhile U.word = s := List.takeWhile_append_dropWhile
  have ht : (s ++ r).takeWhile U.word = s.takeWhile U.word := by
    rw [List.takeWhile_append, if_neg (by omega)]
  have hd : (s ++ r).dropWhile U.word = s.dropWhile U.word ++ r := by
    have hdne : (s.dropWhile U.word).isEmpty = false := by
      cases hw : s.dropWhile U.word with
      | nil => rw [hw, List.append_nil] at hsplit; exact absurd hsplit hne
      | cons _ _ => rfl
    rw [List.dropWhile_append, hdne]; rfl
  simp only [List.cons_append, opens, if_true, ht, hd, readName, List.drop_succ_cons,
    List.drop_zero]

theorem turn_name {buf name r : Text} (h : Held (U := U) ⟨buf, .name, name⟩ r) :
    Pays (U := U) ⟨buf, .name, name⟩ r (turn U ⟨buf, .name, name⟩).1
      (turn U ⟨buf, .name, name⟩).2.1 := by
  obtain ⟨hhit, ha⟩ : hit U buf = true ∧ Aligned U false (buf ++ r) := h
  obtain ⟨s, rfl⟩ := hit_cons hhit
  have hhit' := hit_append hhit r
  cases hc : (readName U ('<' :: s)).2 with
  | false =>
      simp only [turn, hc, Bool.not_false, if_true]
      exact ⟨⟨hhit, ha⟩, rfl⟩
  | true =>
      have ho := opens_of_complete (r := r) hc
      by_cases hm : U.lowerText (readName U ('<' :: s)).1 ∈ thinkNames
      · -- A thinking tag: what is owed is what stands behind its block.
        rw [(lowerText_mem.1 hm), Option.map_some] at ho
        simp only [turn, hc, Bool.not_true, Bool.false_eq_true, if_false, if_pos hm]
        have hg := afterGt_of_opens ho
        refine ⟨⟨hm, fun s₂ h₂ => ?_⟩, ?_⟩
        · intro j hj
          cases ha with
          | copy h' => cases hhit'.symm.trans h'
          | near _ h' => cases ho.symm.trans h'
          | @block _ n t s₃ j' h₁ h₃ h₄ h₅ h₆ =>
              rw [ho] at h₁
              cases h₁
              rw [← hg, h₂] at h₃
              cases h₃
              rw [hj] at h₄
              cases h₄
              exact ⟨h₅, h₆⟩
          | tail h₁ h₃ =>
              rw [ho] at h₁
              cases h₁
              rw [afterBlock, ← hg, h₂, Option.bind_some, afterClose, hj] at h₃
              cases h₃
        · simp only [finish, List.nil_append]
          cases h₂ : afterGt ('<' :: s ++ r) with
          | none => exact visible_tail U ho (by rw [afterBlock, ← hg, h₂]; rfl)
          | some s₂ =>
              simp only [insideOf]
              cases h₃ : afterClose U.lowerIs (U.lowerText (readName U ('<' :: s)).1) s₂ with
              | none => exact visible_tail U ho (by rw [afterBlock, ← hg, h₂]; exact h₃)
              | some s₃ => exact visible_block U ho (by rw [afterBlock, ← hg, h₂]; exact h₃)
      · -- `<thinker`: the `<` is text.
        rw [(lowerText_mem.2 hm), Option.map_none] at ho
        simp only [turn, hc, Bool.not_true, Bool.false_eq_true, if_false, if_neg hm]
        refine ⟨?_, visible_copy U ho⟩
        cases ha with
        | copy h' => cases hhit'.symm.trans h'
        | near _ _ h' => exact h'
        | block h' => cases ho.symm.trans h'
        | tail h' => cases ho.symm.trans h'

theorem turn_opening {buf name r : Text} (h : Held (U := U) ⟨buf, .opening, name⟩ r) :
    Pays (U := U) ⟨buf, .opening, name⟩ r (turn U ⟨buf, .opening, name⟩).1
      (turn U ⟨buf, .opening, name⟩).2.1 := by
  cases hf : Words.find [('>' : Char)] buf with
  | none =>
      simp only [turn, hf]
      exact ⟨h, rfl⟩
  | some stop =>
      have hg : afterGt buf = some (buf.drop (stop + 1)) := by rw [afterGt_find, hf]; rfl
      have hg' := afterGt_append_some hg r
      simp only [turn, hf]
      refine ⟨⟨h.1, h.2 _ hg'⟩, ?_⟩
      simp only [finish, hg', List.nil_append]

theorem turn_inside {buf name r : Text} (h : Held (U := U) ⟨buf, .inside, name⟩ r) :
    Pays (U := U) ⟨buf, .inside, name⟩ r (turn U ⟨buf, .inside, name⟩).1
      (turn U ⟨buf, .inside, name⟩).2.1 := by
  obtain ⟨hm, ha⟩ : name ∈ thinkNames ∧ AlignedIn (U := U) name (buf ++ r) := h
  cases hf : Words.find (closeTag name) (U.lowerText buf) with
  | none =>
      have hn := (find_lowered_none (closeTag_ne_nil name) (whole_closeTag hm)).mp hf
      simp only [turn, hf]
      have hk : (buf.length - min buf.length ((closeTag name).length - 1)) = 0 ∨
          buf.length - min buf.length ((closeTag name).length - 1) +
            ((closeTag name).length - 1) ≤ buf.length := by omega
      rcases hk with hk | hk
      · rw [hk]; exact ⟨⟨hm, ha⟩, rfl⟩
      · have hkeep := closeAt_keep (r := r) hn hk
        have hks := Nat.sub_le buf.length (min buf.length ((closeTag name).length - 1))
        generalize buf.length - min buf.length ((closeTag name).length - 1) = k at hkeep hks ⊢
        have hd : ∀ j, (buf ++ r).drop (j + k + (closeTag name).length) =
            (buf.drop k ++ r).drop (j + (closeTag name).length) := by
          intro j
          rw [← List.drop_append_of_le_length hks, List.drop_drop]
          congr 1; omega
        refine ⟨⟨hm, fun j hj => ?_⟩, ?_⟩
        · obtain ⟨h₁, h₂⟩ := ha (j + k) (by rw [hkeep, hj]; rfl)
          rw [hd] at h₂
          refine ⟨fun hmem => h₁ ?_, h₂⟩
          have e : (buf ++ r).take (j + k) = buf.take k ++ (buf.drop k ++ r).take j := by
            rw [Nat.add_comm, List.take_add, List.take_append_of_le_length hks,
              List.drop_append_of_le_length hks]
          rw [e]
          exact List.mem_append_right _ hmem
        · simp only [finish, insideOf, afterClose, hkeep, List.nil_append, Option.map_map]
          cases closeAt U.lowerIs name (buf.drop k ++ r) with
          | none => rfl
          | some j => simp only [Option.map_some, Function.comp_apply, hd]
  | some stop =>
      have hno : ∀ j, Words.findBy U.lowerIs (closeTag name) buf = some j → 'İ' ∉ buf.take j := by
        intro j hj
        have := (ha j (Words.findBy_append r hj)).1
        have hl := Words.findBy_length hj
        rwa [List.take_append_of_le_length (by omega)] at this
      have hs := hf
      rw [find_lowered (closeTag_ne_nil name) (whole_closeTag hm) hno] at hs
      have hl := Words.findBy_length hs
      have hs' : closeAt U.lowerIs name (buf ++ r) = some stop := Words.findBy_append r hs
      have hd : (buf ++ r).drop (stop + (closeTag name).length) =
          buf.drop (stop + (closeTag name).length) ++ r := List.drop_append_of_le_length hl
      simp only [turn, hf]
      refine ⟨?_, ?_⟩
      · have := (ha stop hs').2
        rwa [hd] at this
      · simp only [finish, insideOf, afterClose, hs', Option.map_some, hd, List.nil_append]

/-- **One turn of the loop pays exactly what it emits.** -/
theorem turn_pays {f : ThinkingFilter} {r : Text} (h : Held (U := U) f r) :
    Pays (U := U) f r (turn U f).1 (turn U f).2.1 := by
  obtain ⟨buf, state, name⟩ := f
  cases state with
  | outside => exact turn_outside h
  | name => exact turn_name h
  | opening => exact turn_opening h
  | inside => exact turn_inside h

/-! ## Where the loop stops -/

/-- A filter that has stopped: nothing in its buffer decides anything. -/
def Rest (f : ThinkingFilter) : Prop :=
  match f.state with
  | .outside => ∀ i, hit U (f.buf.drop i) = false
  | .name => (readName U f.buf).2 = false
  | .opening => '>' ∉ f.buf
  | .inside => f.buf.length < (closeTag f.name).length

theorem rest_nil {f : ThinkingFilter} (h : f.buf = []) : Rest (U := U) f := by
  obtain ⟨buf, state, name⟩ := f
  cases h
  cases state with
  | outside => intro i; rw [List.drop_nil]; rfl
  | name => rfl
  | opening => exact List.not_mem_nil
  | inside => exact List.length_pos_iff.mpr (closeTag_ne_nil name)

theorem turn_rest {f : ThinkingFilter} (h : (turn U f).2.2 = false) :
    Rest (U := U) (turn U f).2.1 := by
  obtain ⟨buf, state, name⟩ := f
  cases state with
  | outside =>
      cases hf : findOpen U buf with
      | none =>
          simp only [turn, hf]
          intro i
          rw [List.drop_drop]
          exact findOpen_none hf _
      | some k => simp [turn, hf] at h
  | name =>
      cases hc : (readName U buf).2 with
      | false =>
          simp only [turn, hc, Bool.not_false, if_true]
          exact hc
      | true =>
          simp only [turn, hc, Bool.not_true, Bool.false_eq_true, if_false] at h
          split at h <;> simp at h
  | opening =>
      cases hf : Words.find [('>' : Char)] buf with
      | none =>
          simp only [turn, hf]
          exact afterGt_eq_none.mp (by rw [afterGt_find, hf]; rfl)
      | some k => simp [turn, hf] at h
  | inside =>
      cases hf : Words.find (closeTag name) (U.lowerText buf) with
      | none =>
          have hpos := List.length_pos_iff.mpr (closeTag_ne_nil name)
          simp only [turn, hf, Rest, List.length_drop]
          omega
      | some k => simp [turn, hf] at h

/-- A text in which `<think` never begins is visible as it stands. -/
theorem visible_eq_self {s : Text} (h : ∀ i, hit U (s.drop i) = false) : visible U s = s := by
  induction s with
  | nil => exact visible_nil U
  | cons c cs ih =>
      rw [visible_copy U (opens_none_of_hit (h 0)), ih fun i => h (i + 1)]

/-- At the end of the text, `flush` is what is owed. -/
theorem flush_eq_finish {f : ThinkingFilter} (hh : Held (U := U) f [])
    (hr : Rest (U := U) f) : flush U f = finish (U := U) f [] := by
  obtain ⟨buf, state, name⟩ := f
  cases state with
  | outside =>
      simp only [flush, finish, List.append_nil]
      exact (visible_eq_self hr).symm
  | name =>
      obtain ⟨hhit, -⟩ : hit U buf = true ∧ _ := hh
      obtain ⟨s, rfl⟩ := hit_cons hhit
      have hlen : ¬ 1 + (s.takeWhile U.word).length < ('<' :: s).length := of_decide_eq_false hr
      have hpre : s.takeWhile U.word = s :=
        (List.takeWhile_prefix U.word).eq_of_length_le (by simp only [List.length_cons] at hlen; omega)
      have hdrop : s.dropWhile U.word = [] := by
        have := List.takeWhile_append_dropWhile (p := U.word) (l := s)
        rw [hpre] at this
        exact List.append_cancel_left (this.trans (List.append_nil s).symm)
      have hn : (readName U ('<' :: s)).1 = s := hpre
      have ho : opens U U.lowerIs ('<' :: s) = (named U.lowerIs s).map fun n => (n, []) := by
        simp only [opens, if_true, hpre, hdrop]
      simp only [flush, finish, hn, List.append_nil]
      by_cases hm : U.lowerText s ∈ thinkNames
      · rw [lowerText_mem.1 hm] at ho
        rw [if_pos hm]
        exact (visible_tail U ho rfl).symm
      · rw [lowerText_mem.2 hm] at ho
        rw [if_neg hm, visible_copy U ho]
        -- Behind the `<` there are word characters only.
        have hw : ∀ i, hit U (s.drop i) = false := by
          intro i
          by_contra hh
          obtain ⟨s', hs'⟩ := hit_cons (by simpa using hh)
          have hmem : '<' ∈ s.takeWhile U.word := by
            rw [hpre]
            exact List.mem_of_mem_drop (hs' ▸ List.mem_cons_self)
          have := List.mem_takeWhile_imp hmem
          rw [U.word_ascii (by decide)] at this
          exact absurd this (by decide)
        rw [visible_eq_self hw]
  | opening =>
      have hg : afterGt buf = none := afterGt_eq_none.mpr hr
      simp only [flush, finish, List.append_nil, hg]
  | inside =>
      have hn : closeAt U.lowerIs name buf = none := by
        cases hc : closeAt U.lowerIs name buf with
        | none => rfl
        | some j =>
            have := Words.findBy_length hc
            have hlt : buf.length < (closeTag name).length := hr
            omega
      simp only [flush, finish, insideOf, afterClose, List.append_nil, hn, Option.map_none]

/-! ## Runs -/

/-- A run of the loop pays what it emits and stops at rest. -/
theorem loop_pays {f : ThinkingFilter} {r : Text} {n : Nat} (hn : rank f < n)
    (h : Held (U := U) f r) :
    Pays (U := U) f r (loop U n f).1 (loop U n f).2 ∧ Rest (U := U) (loop U n f).2 := by
  refine loop_rule U (P := fun f out f' => Held (U := U) f r →
    Pays (U := U) f r out f' ∧ Rest (U := U) f') ?stop ?last ?next n f hn h
  case stop =>
    intro f hb hh
    exact ⟨⟨hh, rfl⟩, rest_nil hb⟩
  case last =>
    intro f out f' _ ht hh
    have hp := turn_pays hh
    have hr := turn_rest (U := U) (f := f) (by rw [ht])
    rw [ht] at hp hr
    exact ⟨hp, hr⟩
  case next =>
    intro f out f' out' f'' _ ht ih hh
    have hp := turn_pays hh
    rw [ht] at hp
    obtain ⟨hp', hr⟩ := ih hp.held
    exact ⟨⟨hp'.held, by rw [hp.owed, hp'.owed, List.append_assoc]⟩, hr⟩

/-- What is owed does not depend on where the buffer ends. -/
theorem held_fed {f : ThinkingFilter} {text r : Text} (h : Held (U := U) f (text ++ r)) :
    Held (U := U) { f with buf := f.buf ++ text } r := by
  obtain ⟨buf, state, name⟩ := f
  cases state with
  | outside => simpa only [Held, List.append_assoc] using h
  | name =>
      refine ⟨hit_append h.1 text, ?_⟩
      simpa only [List.append_assoc] using h.2
  | opening => simpa only [Held, List.append_assoc] using h
  | inside => simpa only [Held, List.append_assoc] using h

theorem finish_fed (f : ThinkingFilter) (text r : Text) :
    finish (U := U) { f with buf := f.buf ++ text } r = finish (U := U) f (text ++ r) := by
  obtain ⟨buf, state, name⟩ := f
  cases state <;> simp only [finish, List.append_assoc]

theorem feed_pays {f : ThinkingFilter} {text r : Text} (h : Held (U := U) f (text ++ r)) :
    Pays (U := U) { f with buf := f.buf ++ text } r (feed U f text).1 (feed U f text).2 ∧
      Rest (U := U) (feed U f text).2 :=
  loop_pays (Nat.lt_succ_self _) (held_fed h)

/-- What a whole run emits and what it leaves owed make up what was owed. -/
theorem feedAll_pays : ∀ {cs : List Text} {f : ThinkingFilter} {r : Text},
    Rest (U := U) f → Held (U := U) f (cs.flatten ++ r) →
      Held (U := U) (feedAll U f cs).2 r ∧ Rest (U := U) (feedAll U f cs).2 ∧
        finish (U := U) f (cs.flatten ++ r) =
          (feedAll U f cs).1 ++ finish (U := U) (feedAll U f cs).2 r
  | [], _, _, hr, hh => ⟨hh, hr, rfl⟩
  | c :: cs, f, r, _, hh => by
      rw [List.flatten_cons, List.append_assoc] at hh ⊢
      obtain ⟨⟨hh', ho⟩, hr'⟩ := feed_pays hh
      obtain ⟨h₁, h₂, h₃⟩ := feedAll_pays hr' hh'
      refine ⟨h₁, h₂, ?_⟩
      rw [← finish_fed, ho, h₃, feedAll, List.append_assoc]

/-- **The filter does not depend on how the text is cut**: what it emits is
the visible part of the whole. -/
theorem streamed_eq_visible {chunks : List Text} (h : Aligned U false chunks.flatten) :
    streamed U chunks = visible U chunks.flatten := by
  have hh : Held (U := U) {} (chunks.flatten ++ []) := by
    simpa only [Held, List.nil_append, List.append_nil] using h
  obtain ⟨h₁, h₂, h₃⟩ := feedAll_pays (rest_nil rfl) hh
  rw [streamed, flush_eq_finish h₁ h₂, ← h₃]
  simp only [finish, List.nil_append, List.append_nil]

/-- Only `İ` lower-cases to more than one character. -/
theorem dotted_not_mem {s : Text} (h : ∀ c ∈ s, (U.lower c).length = 1) : 'İ' ∉ s := by
  intro hm
  have hl := h 'İ' hm
  rw [U.lower_dotted] at hl
  exact absurd hl (Nat.succ_ne_self 1)

/-- **A text whose characters each lower-case to one is read from left to
right**, once, and however it is cut. -/
theorem streamed_scans (U : Ucd) (chunks : List Text)
    (h : ∀ c ∈ chunks.flatten, (U.lower c).length = 1) :
    streamed U chunks = visible U chunks.flatten ∧
      ∀ chunks' : List Text, chunks'.flatten = chunks.flatten →
        streamed U chunks' = streamed U chunks := by
  have ha : Aligned U false chunks.flatten := aligned_of_single (dotted_not_mem h)
  refine ⟨streamed_eq_visible ha, fun chunks' heq => ?_⟩
  rw [streamed_eq_visible ha, streamed_eq_visible (heq ▸ ha), heq]

/-- A block whose opening tag arrives in two pieces. -/
theorem streamed_scans_split :
    streamed Ucd.basic ["a<TH".toList, "ink x>b</think>c".toList] =
      visible Ucd.basic "a<THink x>b</think>c".toList := by
  have ascii : ["a<TH".toList, "ink x>b</think>c".toList].flatten.all (fun c => decide (c.toNat < 128)) = true := rfl
  refine (streamed_scans Ucd.basic ["a<TH".toList, "ink x>b</think>c".toList] ?_).1
  intro c hc
  rw [Ucd.basic.lower_ascii c (of_decide_eq_true (List.all_eq_true.mp ascii c hc))]
  rfl

end InferenceDriver.Thinking
