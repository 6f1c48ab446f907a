/-
# `Thinking.Filter` — the two readers of thinking tags

`engines/_thinking.py` removes `<think>…</think>` and `<thinking>…</thinking>`
from a model's answer twice over:

  * `stripThinkingBlocks`, for a finished text: two substitutions,
    `_THINK_BLOCK_RE` and then `_THINK_TAIL_RE`, and a `strip`;
  * `ThinkingFilter`, for a text that arrives in pieces: a buffer, a state,
    and a loop that runs until it must wait for more.

Both are translated as they stand.  The patterns are the source's patterns,
run by the backtracking matcher of `Lib.Backtrack`; the filter's indices are
the source's indices, including the two that are found in the LOWER-CASED
buffer and then used to cut the buffer itself.
-/
import InferenceDriver.Py.Text

namespace InferenceDriver.Thinking

open Backtrack (Re Flavour)

variable (U : Ucd)

/-! ## The batch reader -/

/-- How the two patterns compare: `re.IGNORECASE` over `str`. -/
def flavour : Flavour Char where
  word := U.word
  same a b := U.simpleLower a == U.simpleLower b
  newline c := c == '\n'

/-- A literal of a pattern, under `re.IGNORECASE`. -/
def lit (w : String) : Re Char := Re.chars (w.toList.map U.foldMatch)

/-- `_THINK_BLOCK_RE = <(think(?:ing)?)\b[^>]*>.*?</\1>`, with `re.DOTALL`. -/
def thinkBlockRe : Re Char :=
  .seq (lit U "<") <|
  .seq (.group (.seq (lit U "think") (.opt (lit U "ing")))) <|
  .seq .bound <|
  .seq (.star fun c => !(c == '>')) <|
  .seq (lit U ">") <|
  .seq (.lazyStar fun _ => true) <|
  .seq (lit U "</") <|
  .seq .backref (lit U ">")

/-- `_THINK_TAIL_RE = <think(?:ing)?\b.*$`, with `re.DOTALL`. -/
def thinkTailRe : Re Char :=
  .seq (lit U "<think") <|
  .seq (.opt (lit U "ing")) <|
  .seq .bound <|
  .seq (.star fun _ => true) .eos

/-- `strip_thinking_blocks`. -/
def stripThinkingBlocks (text : Text) : Text :=
  strip (Backtrack.sub (flavour U) (thinkTailRe U)
    (Backtrack.sub (flavour U) (thinkBlockRe U) text))

/-! ## The streaming reader -/

/-- `_THINK_NAMES`. -/
def thinkNames : List Text := ["thinking".toList, "think".toList]

/-- `ThinkingFilter._OPEN`. -/
def openMark : Text := "<think".toList

/-- The closing tag of a name, `f"</{self._name}>"`. -/
def closeTag (name : Text) : Text := "</".toList ++ name ++ ">".toList

/-- `ThinkingFilter._state`; the source writes `None` for `outside`. -/
inductive State where
  | outside
  /-- Seen `<think`, reading the rest of the tag's name. -/
  | name
  /-- It is a thinking tag; consuming to `>`. -/
  | opening
  /-- Within the block, waiting for the matching close. -/
  | inside
deriving DecidableEq, Repr

structure ThinkingFilter where
  buf : Text := []
  state : State := .outside
  name : Text := []
deriving DecidableEq, Repr

/-- `ThinkingFilter._find_open`: an index into the lower-cased text. -/
def findOpen (text : Text) : Option Nat := Words.find openMark (U.lowerText text)

/-- `ThinkingFilter._read_name`: the name after a leading `<`, and whether
it ended before the text did. -/
def readName (text : Text) : Text × Bool :=
  let name := (text.drop 1).takeWhile U.word
  (name, decide (1 + name.length < text.length))

/-- The largest size up to `n` of a tail of `lowered` that begins `_OPEN`. -/
def viableUpTo (lowered : Text) : Nat → Nat
  | 0 => 0
  | n + 1 =>
      if (lowered.drop (lowered.length - (n + 1))).isPrefixOf openMark then n + 1
      else viableUpTo lowered n

/-- `ThinkingFilter._viable_prefix_len`. -/
def viablePrefixLen (text : Text) : Nat :=
  viableUpTo (U.lowerText text) (min text.length (openMark.length - 1))

/-- One turn of the loop of `ThinkingFilter.feed`: the text it emits, the
filter after it, and whether the loop goes on. -/
def turn (f : ThinkingFilter) : Text × ThinkingFilter × Bool :=
  match f.state with
  | .outside =>
      match findOpen U f.buf with
      | none =>
          -- No tag can begin here; all but a viable tail is emitted.
          let cut := f.buf.length - viablePrefixLen U f.buf
          (f.buf.take cut, { f with buf := f.buf.drop cut }, false)
      | some index =>
          (f.buf.take index, { f with buf := f.buf.drop index, state := .name }, true)
  | .name =>
      let (name, complete) := readName U f.buf
      if !complete then ([], f, false)
      else if U.lowerText name ∈ thinkNames then
        ([], { f with name := U.lowerText name, state := .opening }, true)
      else
        -- `<thinker` and friends: the `<` goes out and the rest is rescanned.
        (f.buf.take 1, { f with buf := f.buf.drop 1, state := .outside }, true)
  | .opening =>
      match Words.find [('>' : Char)] f.buf with
      | none => ([], f, false)
      | some stop => ([], { f with buf := f.buf.drop (stop + 1), state := .inside }, true)
  | .inside =>
      let close := closeTag f.name
      match Words.find close (U.lowerText f.buf) with
      | none =>
          let keep := min f.buf.length (close.length - 1)
          ([], { f with buf := f.buf.drop (f.buf.length - keep) }, false)
      | some stop =>
          ([], { f with buf := f.buf.drop (stop + close.length), state := .outside, name := [] },
            true)

/-- `while self._buf`, with fuel. -/
def loop : Nat → ThinkingFilter → Text × ThinkingFilter
  | 0, f => ([], f)
  | n + 1, f =>
      if f.buf = [] then ([], f)
      else
        match turn U f with
        | (out, f', true) => (out ++ (loop n f').1, (loop n f').2)
        | (out, f', false) => (out, f')

/-- Decreased by every turn after which the loop goes on (`rank_turn`), so
it bounds the turns of one `feed`. -/
def rank (f : ThinkingFilter) : Nat :=
  3 * f.buf.length +
    match f.state with
    | .outside => 2
    | .name => 1
    | .opening => 0
    | .inside => 0

/-- `ThinkingFilter.feed`: the text safe to emit now. -/
def feed (f : ThinkingFilter) (text : Text) : Text × ThinkingFilter :=
  let f' := { f with buf := f.buf ++ text }
  loop U (rank f' + 1) f'

/-- `ThinkingFilter.flush`: whatever is still withheld at the end. -/
def flush (f : ThinkingFilter) : Text :=
  match f.state with
  | .opening => []
  | .inside => []
  | .name => if U.lowerText (readName U f.buf).1 ∈ thinkNames then [] else f.buf
  | .outside => f.buf

/-- Every chunk fed in order. -/
def feedAll (f : ThinkingFilter) : List Text → Text × ThinkingFilter
  | [] => ([], f)
  | c :: cs => ((feed U f c).1 ++ (feedAll (feed U f c).2 cs).1, (feedAll (feed U f c).2 cs).2)

/-- What a fresh filter emits for a text cut into chunks, `flush` included. -/
def streamed (chunks : List Text) : Text :=
  (feedAll U {} chunks).1 ++ flush U (feedAll U {} chunks).2

/-- A turn the loop goes on after has strictly less left to do. -/
theorem rank_turn {f f' : ThinkingFilter} {out : Text} (hb : f.buf ≠ [])
    (h : turn U f = (out, f', true)) : rank f' < rank f := by
  have hpos : 0 < f.buf.length := List.length_pos_iff.mpr hb
  unfold turn at h
  cases hs : f.state with
  | outside =>
      simp only [hs] at h
      split at h
      · simp at h
      · obtain ⟨-, rfl, -⟩ := by simpa only [Prod.mk.injEq] using h
        simp only [rank, hs, List.length_drop]; omega
  | name =>
      simp only [hs] at h
      split at h
      · simp at h
      · split at h
        · obtain ⟨-, rfl, -⟩ := by simpa only [Prod.mk.injEq] using h
          simp only [rank, hs]; omega
        · obtain ⟨-, rfl, -⟩ := by simpa only [Prod.mk.injEq] using h
          simp only [rank, hs, List.length_drop]; omega
  | opening =>
      simp only [hs] at h
      split at h
      · simp at h
      · obtain ⟨-, rfl, -⟩ := by simpa only [Prod.mk.injEq] using h
        simp only [rank, hs, List.length_drop]; omega
  | inside =>
      simp only [hs] at h
      split at h
      · simp at h
      · obtain ⟨-, rfl, -⟩ := by simpa only [Prod.mk.injEq] using h
        simp only [rank, hs, List.length_drop, closeTag, List.length_append]
        have : "</".toList.length = 2 := rfl
        omega

/-- What a turn preserves, a run of the loop preserves: `P f out f'` for the
whole run follows from one turn and from stopping. -/
theorem loop_rule {P : ThinkingFilter → Text → ThinkingFilter → Prop}
    (stop : ∀ f, f.buf = [] → P f [] f)
    (last : ∀ f out f', f.buf ≠ [] → turn U f = (out, f', false) → P f out f')
    (next : ∀ f out f' out' f'', f.buf ≠ [] → turn U f = (out, f', true) →
      P f' out' f'' → P f (out ++ out') f'') :
    ∀ (n : Nat) (f : ThinkingFilter), rank f < n → P f (loop U n f).1 (loop U n f).2 := by
  intro n
  induction n with
  | zero => intro f h; exact absurd h (Nat.not_lt_zero _)
  | succ n ih =>
      intro f h
      by_cases hb : f.buf = []
      · simpa only [loop, if_pos hb] using stop f hb
      · rcases ht : turn U f with ⟨out, f', again⟩
        cases again with
        | true =>
            have hr := rank_turn U hb ht
            simp only [loop, if_neg hb, ht]
            exact next f out f' _ _ hb ht (ih f' (by omega))
        | false =>
            simp only [loop, if_neg hb, ht]
            exact last f out f' hb ht

end InferenceDriver.Thinking
