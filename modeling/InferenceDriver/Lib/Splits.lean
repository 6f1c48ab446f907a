/-
# `Lib.Splits` — what is written, told apart from what follows it

A way of writing splits when what begins with something it wrote begins
with nothing else it could have written, and the rest is the rest.  It
need only do so before what may follow: a number before anything but
another digit, the inside of a quotation before the quote.

A reader that takes what was written off the front shows it
(`Splits.of_reader`); words of one kind of letter split before a letter of
another (`Splits.of_letters`); and a word for each letter makes a way of
writing texts that ends where no word begins (`Splits.flatMap`).
-/
import Mathlib.Data.List.Basic

namespace Written

variable {A B C : Type}

/-- One thing that is written is told apart, and so is what follows it. -/
def SplitsAt (follow : List C → Prop) (write : A → List C) (a : A) : Prop :=
  ∀ b r s, follow r → follow s → write a ++ r = write b ++ s → a = b ∧ r = s

def Splits (follow : List C → Prop) (write : A → List C) : Prop := ∀ a, SplitsAt follow write a

/-- Whatever follows. -/
def Anything (_ : List C) : Prop := True

/-- What begins with this. -/
def Begins (c : C) (text : List C) : Prop := text.head? = some c

variable {follow : List C → Prop} {write : A → List C}

theorem Splits.injective (h : Splits follow write) (hnil : follow []) {a b : A} (hw : write a = write b) : a = b :=
  (h a b [] [] hnil hnil (by rw [hw])).1

theorem Splits.weaken {narrow : List C → Prop} (h : Splits follow write) (hn : ∀ t, narrow t → follow t) :
    Splits narrow write :=
  fun a b r s hr hs => h a b r s (hn r hr) (hn s hs)

/-- A reader takes what was written off the front. -/
theorem Splits.of_reader (read : List C → Option (A × List C))
    (h : ∀ a r, follow r → read (write a ++ r) = some (a, r)) : Splits follow write := by
  intro a b r s hr hs heq
  have ha := h a r hr
  rw [heq, h b s hs] at ha
  cases ha
  exact ⟨rfl, rfl⟩

/-- Words of one kind of letter, before a letter of another kind. -/
theorem Splits.of_letters (p : C → Bool) (hp : ∀ a, ∀ c ∈ write a, p c = true)
    (hinj : ∀ a b, write a = write b → a = b) : Splits (fun t : List C => ∀ c, t.head? = some c → p c = false) write := by
  intro a b r s hr hs heq
  have part : ∀ (a : A) (t : List C), (∀ c, t.head? = some c → p c = false) →
      (write a ++ t).takeWhile p = write a ∧ (write a ++ t).dropWhile p = t := by
    intro a t ht
    have hend : t.takeWhile p = [] ∧ t.dropWhile p = t := by
      cases t with
      | nil => exact ⟨rfl, rfl⟩
      | cons c t =>
          have hc : ¬ p c = true := by rw [ht c rfl]; exact Bool.false_ne_true
          exact ⟨List.takeWhile_cons_of_neg hc, List.dropWhile_cons_of_neg hc⟩
    rw [List.takeWhile_append_of_pos (hp a), List.dropWhile_append_of_pos (hp a), hend.1, hend.2, List.append_nil]
    exact ⟨rfl, rfl⟩
  have ha := part a r hr
  have hb := part b s hs
  rw [heq] at ha
  exact ⟨hinj a b (ha.1.symm.trans hb.1), ha.2.symm.trans hb.2⟩

/-- A word for each letter, and then what no word begins with. -/
theorem Splits.flatMap {code : B → List C} {stop : C} (h : Splits Anything code)
    (hstop : ∀ b r, ¬ Begins stop (code b ++ r)) : Splits (Begins stop) (fun text : List B => text.flatMap code) := by
  intro text
  induction text with
  | nil =>
      intro other r s hr hs (heq : [].flatMap code ++ r = other.flatMap code ++ s)
      cases other with
      | nil => exact ⟨rfl, heq⟩
      | cons b other =>
          rw [List.flatMap_nil, List.nil_append, List.flatMap_cons, List.append_assoc] at heq
          rw [heq] at hr
          exact absurd hr (hstop b _)
  | cons a text ih =>
      intro other r s hr hs (heq : (a :: text).flatMap code ++ r = other.flatMap code ++ s)
      cases other with
      | nil =>
          rw [List.flatMap_nil, List.nil_append, List.flatMap_cons, List.append_assoc] at heq
          rw [← heq] at hs
          exact absurd hs (hstop a _)
      | cons b other =>
          rw [List.flatMap_cons, List.flatMap_cons, List.append_assoc, List.append_assoc] at heq
          obtain ⟨rfl, hrest⟩ := h a b _ _ trivial trivial heq
          obtain ⟨rfl, hrs⟩ := ih other r s hr hs hrest
          exact ⟨rfl, hrs⟩

end Written
