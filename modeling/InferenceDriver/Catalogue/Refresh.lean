/-
# `Catalogue.Refresh` — reading the list again

The loop of an account (`run`): read, wait, read again.  After a read that
went well it waits the interval, read from the settings each time; after one
that did not it waits half a minute, and then twice as long each time, up to
the interval.

`run_paced` says how long it waits after every read, however the reads go
and whatever the settings become between them; that the account is then in
a state its reads bring it to; and that the loop stops for nothing but a
cancel or an interval no float holds.

A float is its rational: doubling is exact, and where it would not be
finite the interval is less.
-/
import InferenceDriver.Catalogue.Listing
import InferenceDriver.Lib.Backoff
import InferenceDriver.Py.Float

namespace InferenceDriver.Catalogue

variable {R When : Type}

/-! ## The loop -/

/-- `_FIRST_RETRY_SECONDS`. -/
def firstRetrySeconds : ℚ := 30

/-- How a read of the loop ends, after what else happens to the account until then. -/
structure Round (R When : Type) where
  before : List (Event R When)
  fetched : Fetched R
  now : When
  writes : Bool

/-- What `refresh` returns. -/
def Fetched.ok : Fetched R → Bool
  | .list _ => true
  | .failed _ => false

/-- What a round is to the account. -/
def Round.events (r : Round R When) : List (Event R When) := r.before ++ [.refresh r.fetched r.now r.writes]

/-- The loop between two passes. -/
structure Loop (R When : Type) where
  account : State R When
  retry : ℚ

/-- How a loop ends. -/
inductive Ended where
  | cancelled
  | overflowError

/-- What a pass came to, and for how long it then sleeps. -/
structure Pass extends Backoff.Try ℚ where
  delay : ℚ

/-- One pass of `run`. -/
def pass (A : Account R When) (l : Loop R When) (r : Round R When) : Except Ended (Loop R When × Pass) :=
  let account := refresh A (after A l.account r.before) r.fetched r.now r.writes
  match r.fetched with
  | .failed .cancelled => .error .cancelled
  | fetched =>
      match floatOfInt account.refreshSeconds with
      | none => .error .overflowError
      | some interval =>
          if fetched.ok then .ok (⟨account, firstRetrySeconds⟩, ⟨⟨true, interval⟩, interval⟩)
          else .ok (⟨account, min (l.retry * 2) interval⟩, ⟨⟨false, interval⟩, min l.retry interval⟩)

/-- `run`, of so many passes. -/
def run (A : Account R When) (l : Loop R When) : List (Round R When) → List Pass × Except Ended (Loop R When)
  | [] => ([], .ok l)
  | r :: rounds =>
      match pass A l r with
      | .error ended => ([], .error ended)
      | .ok (l, p) => (p :: (run A l rounds).1, (run A l rounds).2)

/-- The loop of a new account. -/
def start (A : Account R When) (file : Stored) (get : Text → Value) : Loop R When :=
  ⟨init A file get, firstRetrySeconds⟩

/-! ## The interval -/

theorem le_refreshSeconds (s : State R When) : 60 ≤ s.refreshSeconds := by
  unfold State.refreshSeconds
  split
  · split
    · omega
    · decide
  · decide

/-- What is cut off to fit a double leaves at least as much as doubles have all of. -/
theorem le_significand (m : Nat) : min m (2 ^ 52) ≤ m / 2 ^ (m.size - 53) * 2 ^ (m.size - 53) := by
  rcases Nat.lt_or_ge 53 m.size with hbig | hsmall
  · have hm : 2 ^ (m.size - 1) ≤ m := Nat.lt_size.mp (by omega)
    have hunit : 2 ^ 52 * 2 ^ (m.size - 53) = 2 ^ (m.size - 1) := by
      rw [← Nat.pow_add]
      congr 1
      omega
    have hlow : 2 ^ 52 ≤ m / 2 ^ (m.size - 53) := by
      rw [Nat.le_div_iff_mul_le (Nat.two_pow_pos _), hunit]
      exact hm
    exact (Nat.min_le_right _ _).trans (hlow.trans (Nat.le_mul_of_pos_right _ (Nat.two_pow_pos _)))
  · rw [Nat.sub_eq_zero_of_le hsmall, Nat.pow_zero, Nat.div_one, Nat.mul_one]
    exact Nat.min_le_left _ _

theorem floatOfInt_cases {n : Int} {q : ℚ} (h : floatOfInt n = some q) :
    ∃ significand, n.natAbs / 2 ^ (n.natAbs.size - 53) ≤ significand ∧
      q = n.sign * (significand * 2 ^ (n.natAbs.size - 53) : ℕ) := by
  have hround (low : Nat) (c : Prop) [Decidable c] : low ≤ if c then low + 1 else low := by
    split
    · exact Nat.le_succ low
    · exact le_rfl
  unfold floatOfInt at h
  simp only [Option.ite_none_right_eq_some, Option.some.injEq] at h
  exact ⟨_, hround _ _, h.2.symm⟩

theorem le_floatOfInt {n : Int} {q : ℚ} (hn : 60 ≤ n) (h : floatOfInt n = some q) : 60 ≤ q := by
  obtain ⟨significand, hle, rfl⟩ := floatOfInt_cases h
  have hsign : n.sign = 1 := Int.sign_eq_one_of_pos (by omega)
  have hlow := (le_significand n.natAbs).trans (Nat.mul_le_mul_right _ hle)
  have hmin : 60 ≤ min n.natAbs (2 ^ 52) := le_min (by omega) (by norm_num)
  rw [hsign, Int.cast_one, one_mul]
  exact_mod_cast hmin.trans hlow

/-! ## A pass -/

/-- Half a minute, and then twice as long each time. -/
def retries : Backoff.Policy ℚ where
  first := firstRetrySeconds
  grow retry := retry * 2
  monotone a b h := by
    have : a * 2 ≤ b * 2 := by linarith
    exact this
  le_grow t h := by
    have : (30 : ℚ) ≤ t := h
    linarith

theorem retries_grown (n : Nat) : retries.grown n = 30 * 2 ^ n := by
  induction n with
  | zero =>
      rw [pow_zero, mul_one]
      rfl
  | succ n ih =>
      rw [Backoff.Policy.grown_succ, ih, pow_succ, ← mul_assoc]
      rfl

theorem after_events (A : Account R When) (s : State R When) (r : Round R When) :
    after A s r.events = refresh A (after A s r.before) r.fetched r.now r.writes := by
  rw [after, Round.events, List.foldl_append]
  rfl

/-- What a pass does, when the loop goes on. -/
structure Passed (A : Account R When) (l : Loop R When) (r : Round R When) (l' : Loop R When) (p : Pass) : Prop where
  account : l'.account = after A l.account r.events
  ok : p.ok = r.fetched.ok
  interval : floatOfInt (after A l.account r.events).refreshSeconds = some p.interval
  delay : p.delay = p.toTry.wait l.retry
  retry : l'.retry = retries.next l.retry p.toTry

/-- Why a loop stops at a round. -/
def Stops (A : Account R When) (s : State R When) (r : Round R When) : Ended → Prop
  | .cancelled => r.fetched = .failed .cancelled
  | .overflowError => floatOfInt (after A s r.events).refreshSeconds = none

theorem pass_cases (A : Account R When) (l : Loop R When) (r : Round R When) :
    (∃ l' p, pass A l r = .ok (l', p) ∧ Passed A l r l' p) ∨
      ∃ ended, pass A l r = .error ended ∧ Stops A l.account r ended := by
  have hevents := after_events A l.account r
  unfold pass
  simp only [← hevents]
  cases hf : r.fetched with
  | list models =>
      cases hi : floatOfInt (after A l.account r.events).refreshSeconds with
      | none => exact .inr ⟨.overflowError, rfl, hi⟩
      | some interval => exact .inl ⟨_, _, rfl, rfl, by rw [hf]; rfl, hi, rfl, rfl⟩
  | failed failure =>
      cases failure with
      | cancelled => exact .inr ⟨.cancelled, rfl, hf⟩
      | _ =>
          cases hi : floatOfInt (after A l.account r.events).refreshSeconds with
          | none => exact .inr ⟨.overflowError, rfl, hi⟩
          | some interval => exact .inl ⟨_, _, rfl, rfl, by rw [hf]; rfl, hi, rfl, rfl⟩

/-! ## A run -/

/-- The account after so many rounds. -/
def accountAt (A : Account R When) (s : State R When) (rounds : List (Round R When)) (n : Nat) : State R When :=
  after A s ((rounds.take n).flatMap Round.events)

theorem accountAt_succ (A : Account R When) (s : State R When) (r : Round R When) (rounds : List (Round R When))
    (n : Nat) : accountAt A s (r :: rounds) (n + 1) = accountAt A (after A s r.events) rounds n := by
  rw [accountAt, List.take_succ_cons, List.flatMap_cons, after, List.foldl_append]
  rfl

/-- The pass of a round. -/
structure IsPass (A : Account R When) (s : State R When) (rounds : List (Round R When)) (n : Nat) (p : Pass) : Prop where
  ok : rounds[n]?.map (·.fetched.ok) = some p.ok
  interval : floatOfInt (accountAt A s rounds (n + 1)).refreshSeconds = some p.interval

theorem run_pass (A : Account R When) {l : Loop R When} {rounds : List (Round R When)} {earlier later : List Pass}
    {p : Pass} (h : (run A l rounds).1 = earlier ++ p :: later) :
    p.delay = p.toTry.wait (retries.after l.retry (earlier.map Pass.toTry)) ∧
      IsPass A l.account rounds earlier.length p := by
  induction rounds generalizing l earlier with
  | nil => exact absurd h.symm (List.append_ne_nil_of_right_ne_nil _ (List.cons_ne_nil _ _))
  | cons r rounds ih =>
      rcases pass_cases A l r with ⟨l', q, hpass, hq⟩ | ⟨ended, hpass, -⟩
      · simp only [run, hpass] at h
        cases earlier with
        | nil =>
            cases h
            exact ⟨hq.delay, ⟨by rw [hq.ok]; rfl, by rw [List.length_nil, accountAt_succ]; exact hq.interval⟩⟩
        | cons e earlier =>
            obtain ⟨rfl, hrest⟩ := List.cons.inj h
            obtain ⟨hdelay, hp⟩ := ih hrest
            rw [hq.retry] at hdelay
            refine ⟨hdelay, ⟨hp.ok, ?_⟩⟩
            rw [List.length_cons, accountAt_succ, ← hq.account]
            exact hp.interval
      · simp only [run, hpass] at h
        exact absurd h.symm (List.append_ne_nil_of_right_ne_nil _ (List.cons_ne_nil _ _))

/-- How a run ends: with every round, or at the one that stops it. -/
def Ends (A : Account R When) (s : State R When) (rounds : List (Round R When)) (done : List Pass) :
    Except Ended (Loop R When) → Prop
  | .ok l => done.length = rounds.length ∧ l.account = accountAt A s rounds rounds.length
  | .error ended => ∃ r, rounds[done.length]? = some r ∧ Stops A (accountAt A s rounds done.length) r ended

theorem run_ends (A : Account R When) (l : Loop R When) (rounds : List (Round R When)) :
    Ends A l.account rounds (run A l rounds).1 (run A l rounds).2 := by
  induction rounds generalizing l with
  | nil => exact ⟨rfl, rfl⟩
  | cons r rounds ih =>
      rcases pass_cases A l r with ⟨l', p, hpass, hp⟩ | ⟨ended, hpass, hstops⟩
      · have hrest := ih l'
        simp only [run, hpass]
        cases hend : (run A l' rounds).2 with
        | ok last =>
            rw [hend] at hrest
            obtain ⟨hlength, haccount⟩ := hrest
            refine ⟨congrArg (· + 1) hlength, ?_⟩
            rw [haccount, List.length_cons, accountAt_succ, hp.account]
        | error ended =>
            rw [hend] at hrest
            obtain ⟨r', hr', hstops⟩ := hrest
            refine ⟨r', hr', ?_⟩
            rw [List.length_cons, accountAt_succ, ← hp.account]
            exact hstops
      · simp only [run, hpass]
        exact ⟨r, rfl, hstops⟩

/-! ## The pace -/

/-- How long a loop waits after each of its reads. -/
structure Paced (done : List Pass) : Prop where
  waits : ∀ p ∈ done, 60 ≤ p.interval ∧ 30 ≤ p.delay ∧ p.delay ≤ p.interval
  /-- After a read that went well, the interval. -/
  well : ∀ p ∈ done, p.ok = true → p.delay = p.interval
  /-- After failures in a row, twice as long each time, cut at an interval:
  no shorter than at the least there has been, no longer than at this one. -/
  failing : ∀ earlier failed p later, done = earlier ++ failed ++ p :: later → (∀ q ∈ earlier.getLast?, q.ok = true) →
    (∀ q ∈ failed, q.ok = false) → p.ok = false → ∀ least, 60 ≤ least → (∀ q ∈ failed ++ [p], least ≤ q.interval) →
    min (30 * 2 ^ failed.length) least ≤ p.delay ∧ p.delay ≤ min (30 * 2 ^ failed.length) p.interval

/-- A pass, and those before it. -/
theorem mem_run (A : Account R When) {s : State R When} {rounds : List (Round R When)} {p : Pass}
    (h : p ∈ (run A ⟨s, firstRetrySeconds⟩ rounds).1) :
    ∃ earlier : List Pass, (∀ q ∈ earlier, q ∈ (run A ⟨s, firstRetrySeconds⟩ rounds).1) ∧
      p.delay = p.toTry.wait (retries.after retries.first (earlier.map Pass.toTry)) ∧
      IsPass A s rounds earlier.length p := by
  obtain ⟨earlier, later, hsplit⟩ := List.append_of_mem h
  refine ⟨earlier, fun q hq => ?_, run_pass A hsplit⟩
  rw [hsplit]
  exact List.mem_append_left _ hq

theorem first_le_interval (A : Account R When) {s : State R When} {rounds : List (Round R When)} {p : Pass}
    (h : p ∈ (run A ⟨s, firstRetrySeconds⟩ rounds).1) : 60 ≤ p.interval ∧ retries.first ≤ p.interval := by
  obtain ⟨earlier, -, -, hp⟩ := mem_run A h
  have hsixty : 60 ≤ p.interval := le_floatOfInt (le_refreshSeconds _) hp.interval
  exact ⟨hsixty, (by decide : firstRetrySeconds ≤ 60).trans hsixty⟩

/-- What came before the last success does not count. -/
theorem after_streak {earlier : List Pass} (h : ∀ q ∈ earlier.getLast?, q.ok = true) (failed : List Pass) :
    retries.after retries.first ((earlier ++ failed).map Pass.toTry) =
      retries.after retries.first (failed.map Pass.toTry) := by
  have hsuccess : ∀ t ∈ (earlier.map Pass.toTry).getLast?, t.ok = true := by
    intro t ht
    rw [List.getLast?_map] at ht
    obtain ⟨q, hq, rfl⟩ := Option.map_eq_some_iff.mp ht
    exact h q hq
  rw [List.map_append, Backoff.Policy.after, List.foldl_append]
  rcases Backoff.Policy.after_success retries.first hsuccess with hnil | hreset
  · rw [hnil]
    rfl
  · exact congrArg (List.foldl retries.next · _) hreset

theorem paced_run (A : Account R When) (s : State R When) (rounds : List (Round R When)) :
    Paced (run A ⟨s, firstRetrySeconds⟩ rounds).1 := by
  refine ⟨fun p hp => ⟨(first_le_interval A hp).1, ?_, ?_⟩, fun p hp hok => ?_, ?_⟩
  · obtain ⟨earlier, hearlier, hdelay, -⟩ := mem_run A hp
    have hintervals : ∀ t ∈ earlier.map Pass.toTry, retries.first ≤ t.interval :=
      List.forall_mem_map.mpr fun q hq => (first_le_interval A (hearlier q hq)).2
    rw [hdelay]
    exact Backoff.Policy.first_le_wait (Backoff.Policy.first_le_after le_rfl hintervals) (first_le_interval A hp).2
  · obtain ⟨earlier, -, hdelay, -⟩ := mem_run A hp
    rw [hdelay]
    exact Backoff.Try.wait_le _ _
  · obtain ⟨earlier, -, hdelay, -⟩ := mem_run A hp
    rw [hdelay, Backoff.Try.wait, if_pos hok]
  · intro earlier failed p later hsplit hlast hfailed hp least hleast hintervals
    have hdelay : p.delay = p.toTry.wait (retries.after retries.first ((earlier ++ failed).map Pass.toTry)) :=
      (run_pass A hsplit).1
    rw [after_streak hlast] at hdelay
    have hleast' : retries.first ≤ least := (by decide : firstRetrySeconds ≤ 60).trans hleast
    have hfailed' : ∀ t ∈ failed.map Pass.toTry, t.ok = false := List.forall_mem_map.mpr hfailed
    have hintervals' : ∀ t ∈ failed.map Pass.toTry, least ≤ t.interval :=
      List.forall_mem_map.mpr fun q hq => hintervals q (List.mem_append_left _ hq)
    have hstreak := Backoff.Policy.wait_streak hleast' hfailed' hintervals' (t := p.toTry) hp
      (hintervals p (List.mem_append_right _ List.mem_cons_self))
    rwa [← hdelay, retries_grown, List.length_map] at hstreak

/-- **The list is read again and again at a pace**: never sooner than half a
minute after a read, never later than the interval there then is, which is
what is waited when the read went well; after failures in a row the waits
double up to it.  The account goes through what its reads and settings bring
it to, and only a cancel or an interval no float holds stops the loop. -/
theorem run_paced (A : Account R When) (file : Stored) (get : Text → Value) (rounds : List (Round R When)) :
    Paced (run A (start A file get) rounds).1 ∧
      (∀ earlier p later, (run A (start A file get) rounds).1 = earlier ++ p :: later →
        IsPass A (init A file get) rounds earlier.length p) ∧
      Ends A (init A file get) rounds (run A (start A file get) rounds).1 (run A (start A file get) rounds).2 :=
  ⟨paced_run A _ rounds, fun _ _ _ h => (run_pass A h).2, run_ends A _ rounds⟩

/-- An account whose provider is down, read every hour. -/
example :
    let A : Account Unit Unit :=
      ⟨[], [], false, ⟨id, fun _ => rfl⟩, fun _ => .null, fun _ => none, fun _ => [], fun _ => none⟩
    let down : Round Unit Unit := ⟨[], .failed (.other []), (), true⟩
    (run A (start A .absent fun _ => .null) (List.replicate 9 down)).1.map Pass.delay =
      [30, 60, 120, 240, 480, 960, 1920, 3600, 3600] := by
  decide +kernel

end InferenceDriver.Catalogue
