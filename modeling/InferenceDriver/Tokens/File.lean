/-
# `Tokens.File` — the bundle file

`BundleFile` keeps the newest bundle it has verified and reads the file
again when its stamp (inode, modification time, size) has changed.  Others
replace the file at any moment, also between the `stat` and the read of one
`get`, so a `get` is two steps and a run is any interleaving of them with
replacements.

Whatever the order, the bundles handed out never go back, and the held one
changes only to a good one read from the file (`bundleFile_runs`, first two
parts).  That a `get` also finds the bundle that is in the file holds in
the runs that put no file back whose `stat`, but not whose contents, the
last load has seen.  `get` remembers the stamp it took before it read, and
takes a file with that stamp for one it has read: `bundleFile_missed`.
-/
import InferenceDriver.Lib.Lts
import InferenceDriver.Tokens.Symbolic
import InferenceDriver.Tokens.Verify

namespace InferenceDriver.Tokens

open Checks

variable {P T : Type} (J : Jwt P T)

/-- `(st_ino, st_mtime_ns, st_size)`. -/
abbrev Stamp := Nat × Int × Nat

/-- What reading a file and `str(json.loads(…)["jws"])` come to. -/
inductive Content (T : Type) where
  | jws (token : T)
  /-- `OSError`, `ValueError`, `KeyError` or `TypeError`, which `get` catches. -/
  | fails (said : Text)
  /-- Anything else, such as the `RecursionError` of a document nested too deep. -/
  | escapes

/-- Why `get` keeps what it has. -/
inductive FileError where
  | cannotRead
  | unreadable (said : Text)
  | refused (fault : Fault)
  | older (why : Text)

/-- `str(exc)`, given `repr` and what the interpreter says of a malformed bundle. -/
def Fault.message (repr : Json → Text) (said : Text) : Fault → Text
  | notJws detail => "not a JWS: ".toList ++ detail
  | wrongTyp typ => "typ is ".toList ++ repr typ ++ ", not ".toList ++ repr (.str typBundle)
  | signature detail =>
      "signature did not verify against the pinned authority: ".toList ++ detail
  | otherAuthority =>
      "the bundle names a different authority from the one that signed it".toList
  | notThumbprint kid =>
      "key ".toList ++ repr (.str kid) ++ " is not the thumbprint of its public key".toList
  | listedTwice kid => "key ".toList ++ repr (.str kid) ++ " is listed twice".toList
  | malformed => "malformed bundle: ".toList ++ said
  | twoKeys => "a trust bundle cannot list one key twice".toList
  | overflow => said

/-- `BundleFile.error`. -/
def FileError.message (repr : Json → Text) (said path : Text) : FileError → Text
  | cannotRead => "cannot read the trust bundle at ".toList ++ path ++ ": ".toList ++ said
  | unreadable said => "the trust bundle at ".toList ++ path ++ " was refused: ".toList ++ said
  | refused fault =>
      "the trust bundle at ".toList ++ path ++ " was refused: ".toList ++ fault.message repr said
  | older why => "the trust bundle at ".toList ++ path ++ " was refused: ".toList ++ why

structure BundleFile (P T : Type) where
  bundle : Option (TrustBundle P T)
  stamp : Option Stamp
  checked : ℚ
  error : Option FileError

/-- `BundleFile.__init__`. -/
def BundleFile.new : BundleFile P T where
  bundle := none
  stamp := none
  checked := 0
  error := none

/-- Whether a `get` at `now` looks at the file. -/
def BundleFile.Looks (f : BundleFile P T) (interval now : ℚ) : Prop :=
  f.bundle = none ∨ interval ≤ now - f.checked

instance (f : BundleFile P T) (interval now : ℚ) : Decidable (f.Looks interval now) :=
  decidable_of_iff (f.bundle.isNone ∨ interval ≤ now - f.checked) (by
    rw [Option.isNone_iff_eq_none, BundleFile.Looks])

/-- `BundleFile.get` up to its read: what `stat` says decides whether it
goes on to read, and with which stamp. -/
def BundleFile.look (f : BundleFile P T) (interval now : ℚ) (stat : Option Stamp) :
    BundleFile P T × Option Stamp :=
  if f.Looks interval now then
    match stat with
    | none => ({ f with checked := now, error := some .cannotRead }, none)
    | some stamp =>
        if f.stamp = some stamp then ({ f with checked := now }, none)
        else ({ f with checked := now }, some stamp)
  else (f, none)

/-- The rest of `BundleFile.get`; it raises when there is nothing. -/
def BundleFile.load (f : BundleFile P T) (clock : ℚ) (authority : Text) (stamp : Stamp)
    (content : Content T) : Option (BundleFile P T) :=
  match content with
  | .fails said => some { f with error := some (.unreadable said) }
  | .escapes => none
  | .jws token =>
      match parseBundle J clock token authority with
      | .error .overflow => none
      | .error fault => some { f with error := some (.refused fault) }
      | .ok offered =>
          match acceptsReplacement f.bundle offered with
          | some why => some { f with error := some (.older why) }
          | none => some { f with bundle := some offered, stamp := some stamp, error := none }

/-! ## Runs -/

/-- A directory, a reader, and what its `get`s have returned, the latest
first. -/
structure World (P T : Type) where
  /-- The stamp of the file in place; none when it is missing. -/
  file : Option Stamp
  reader : BundleFile P T
  /-- A `get` that holds the lock, between its `stat` and its read. -/
  reading : Option Stamp
  returned : List (Option (TrustBundle P T))

inductive Move where
  /-- Another process replaces the file, or takes it away. -/
  | replace (file : Option Stamp)
  /-- A `get` takes the lock. -/
  | look (now : ℚ)
  /-- It reads the file. -/
  | read (clock : ℚ)

/-- The reader's pinned authority and check interval, and the file each
stamp stands for: no two contents have one stamp. -/
structure Setting (T : Type) where
  authority : Text
  interval : ℚ
  contents : Stamp → Content T

variable (E : Setting T)

/-- What a read finds at the path. -/
def Setting.content (file : Option Stamp) : Content T :=
  match file with
  | none => .fails "No such file or directory".toList
  | some stamp => E.contents stamp

def step (w : World P T) : Move → Option (World P T)
  | .replace file => some { w with file }
  | .look now =>
      match w.reading with
      | some _ => none
      | none =>
          match w.reader.look E.interval now w.file with
          | (f, none) => some { w with reader := f, returned := f.bundle :: w.returned }
          | (f, some stamp) => some { w with reader := f, reading := some stamp }
  | .read clock =>
      match w.reading with
      | none => none
      | some stamp =>
          match w.reader.load J clock E.authority stamp (E.content w.file) with
          | none => some { w with reading := none }
          | some f =>
              some { w with reader := f, reading := none, returned := f.bundle :: w.returned }

/-- Any file, or none, is there at the start. -/
def bundleFile : Lts.System (World P T) Move where
  init w := w.reader = .new ∧ w.reading = none ∧ w.returned = []
  step := step J E

/-- The file in place at a stamp is this bundle, signed and whole. -/
def Holds (stamp : Stamp) (clock : ℚ) (b : TrustBundle P T) : Prop :=
  ∃ token, E.contents stamp = .jws token ∧ parseBundle J clock token E.authority = .ok b

/-- `b` in the order of `(epoch, version)`. -/
def NotBelow (held : Option (TrustBundle P T)) (b : TrustBundle P T) : Prop :=
  ∀ x, held = some x → x.epoch < b.epoch ∨ x.epoch = b.epoch ∧ x.version ≤ b.version

/-- What is returned after `earlier` may be `later`: no less, and something
after something. -/
def Follows (later earlier : Option (TrustBundle P T)) : Prop :=
  ∀ x, earlier = some x → ∃ y, later = some y ∧ NotBelow (some x) y

/-- The bundle in place is returned by a `get` that looks, when nothing is
replaced while it runs. -/
def Serves (w : World P T) : Prop :=
  ∀ now clock stamp b, w.reading = none → w.file = some stamp → w.reader.Looks E.interval now →
    Holds J E stamp clock b → acceptsReplacement w.reader.bundle b = none →
    ∃ w', (step J E w (.look now)).bind (fun w₁ =>
        if w₁.reading = none then some w₁ else step J E w₁ (.read clock)) = some w' ∧
      w'.returned = some b :: w.returned

/-- No file is put in place under the stamp that the reader remembers, unless
it is the one whose bundle the reader holds. -/
def PutsBackWhatWasRead (w : World P T) : Move → Prop
  | .replace (some stamp) => w.reader.stamp = some stamp →
      ∃ clock b, w.reader.bundle = some b ∧ Holds J E stamp clock b
  | _ => True

/-! ## One step -/

theorem acceptsReplacement_eq_none {held : Option (TrustBundle P T)} {offered : TrustBundle P T} :
    acceptsReplacement held offered = none ↔ NotBelow held offered := by
  cases held with
  | none => exact ⟨fun _ _ h => (by cases h), fun _ => rfl⟩
  | some b =>
      have hb : NotBelow (some b) offered ↔
          b.epoch < offered.epoch ∨ b.epoch = offered.epoch ∧ b.version ≤ offered.version :=
        ⟨fun h => h b rfl, fun h x hx => by cases hx; exact h⟩
      rw [hb]
      unfold acceptsReplacement
      by_cases h₁ : offered.epoch < b.epoch
      · simp only [if_pos h₁, reduceCtorEq, false_iff]
        omega
      by_cases h₂ : b.epoch < offered.epoch
      · simp only [if_neg h₁, if_pos h₂, true_iff]
        exact Or.inl h₂
      by_cases h₃ : offered.version < b.version
      · simp only [if_neg h₁, if_neg h₂, if_pos h₃, reduceCtorEq, false_iff]
        omega
      · simp only [if_neg h₁, if_neg h₂, if_neg h₃, true_iff]
        omega

/-- The look at a file changes no bundle, and remembers no stamp. -/
theorem look_keeps (f : BundleFile P T) (interval now : ℚ) (stat : Option Stamp) :
    (f.look interval now stat).1.bundle = f.bundle ∧
      (f.look interval now stat).1.stamp = f.stamp := by
  unfold BundleFile.look
  split
  · cases stat with
    | none => exact ⟨rfl, rfl⟩
    | some stamp =>
        simp only
        split
        · exact ⟨rfl, rfl⟩
        · exact ⟨rfl, rfl⟩
  · exact ⟨rfl, rfl⟩

/-- What a load that does not raise leaves behind: what was held, or the
file's bundle under the stamp that was taken. -/
theorem load_cases {f f' : BundleFile P T} {clock : ℚ} {stamp : Stamp} {file : Option Stamp}
    (h : f.load J clock E.authority stamp (E.content file) = some f') :
    (f'.bundle = f.bundle ∧ f'.stamp = f.stamp) ∨
      ∃ now b, file = some now ∧ Holds J E now clock b ∧ acceptsReplacement f.bundle b = none ∧
        f' = { f with bundle := some b, stamp := some stamp, error := none } := by
  cases file with
  | none => cases h; exact Or.inl ⟨rfl, rfl⟩
  | some now =>
      cases hc : E.contents now with
      | fails said =>
          rw [Setting.content, hc] at h
          cases h
          exact Or.inl ⟨rfl, rfl⟩
      | escapes =>
          rw [Setting.content, hc] at h
          cases h
      | jws token =>
          rw [Setting.content, hc] at h
          unfold BundleFile.load at h
          simp only at h
          split at h
          · cases h
          · cases h; exact Or.inl ⟨rfl, rfl⟩
          · rename_i b hb
            split at h
            · cases h; exact Or.inl ⟨rfl, rfl⟩
            · rename_i ha
              cases h
              exact Or.inr ⟨now, b, rfl, ⟨token, hc, hb⟩, ha, rfl⟩

/-- Everything a step can do. -/
theorem step_cases {w w' : World P T} {m : Move} (h : step J E w m = some w') :
    (∃ file, m = .replace file ∧ w' = { w with file }) ∨
    (∃ now, m = .look now ∧ w.reading = none ∧
      let seen := w.reader.look E.interval now w.file
      ((seen.2 = none ∧ w' = { w with reader := seen.1, returned := seen.1.bundle :: w.returned }) ∨
        ∃ stamp, seen.2 = some stamp ∧ w' = { w with reader := seen.1, reading := some stamp })) ∨
    (∃ clock stamp, m = .read clock ∧ w.reading = some stamp ∧
      ((w.reader.load J clock E.authority stamp (E.content w.file) = none ∧
          w' = { w with reading := none }) ∨
        ∃ f, w.reader.load J clock E.authority stamp (E.content w.file) = some f ∧
          w' = { w with reader := f, reading := none, returned := f.bundle :: w.returned })) := by
  cases m with
  | replace file => cases h; exact Or.inl ⟨file, rfl, rfl⟩
  | look now =>
      refine Or.inr (Or.inl ⟨now, rfl, ?_⟩)
      unfold step at h
      simp only at h
      split at h
      · cases h
      · rename_i hr
        refine ⟨hr, ?_⟩
        split at h
        · rename_i f hf
          cases h
          rw [hf]
          exact Or.inl ⟨rfl, rfl⟩
        · rename_i f stamp hf
          cases h
          rw [hf]
          exact Or.inr ⟨stamp, rfl, rfl⟩
  | read clock =>
      refine Or.inr (Or.inr ?_)
      unfold step at h
      simp only at h
      split at h
      · cases h
      · rename_i stamp hr
        refine ⟨clock, stamp, rfl, hr, ?_⟩
        split at h
        · rename_i hl
          cases h
          exact Or.inl ⟨hl, rfl⟩
        · rename_i f hl
          cases h
          exact Or.inr ⟨f, hl, rfl⟩

/-- The held bundle changes only by a read of a good file. -/
theorem held_changes {w w' : World P T} {m : Move} (h : step J E w m = some w') :
    w'.reader.bundle = w.reader.bundle ∨
      ∃ clock stamp b, m = .read clock ∧ w.file = some stamp ∧ Holds J E stamp clock b ∧
        acceptsReplacement w.reader.bundle b = none ∧ w'.reader.bundle = some b := by
  rcases step_cases J E h with ⟨file, rfl, rfl⟩ | ⟨now, rfl, -, ⟨-, rfl⟩ | ⟨stamp, -, rfl⟩⟩ |
    ⟨clock, stamp, rfl, -, ⟨-, rfl⟩ | ⟨f, hl, rfl⟩⟩
  · exact Or.inl rfl
  · exact Or.inl (look_keeps w.reader E.interval now w.file).1
  · exact Or.inl (look_keeps w.reader E.interval now w.file).1
  · exact Or.inl rfl
  · rcases load_cases J E hl with ⟨hb, -⟩ | ⟨file, b, hf, hh, ha, rfl⟩
    · exact Or.inl hb
    · exact Or.inr ⟨clock, file, b, rfl, hf, hh, ha, rfl⟩

/-! ## Nothing goes back -/

theorem Follows.refl (b : Option (TrustBundle P T)) : Follows b b := by
  intro x hx
  refine ⟨x, hx, fun y hy => ?_⟩
  cases hy
  exact Or.inr ⟨rfl, Int.le_refl _⟩

theorem Follows.trans {c b a : Option (TrustBundle P T)} (h : Follows c b) (h' : Follows b a) :
    Follows c a := by
  intro x hx
  obtain ⟨y, hy, hxy⟩ := h' x hx
  obtain ⟨z, hz, hyz⟩ := h y hy
  refine ⟨z, hz, fun x' hx' => ?_⟩
  have h₁ := hxy x' hx'
  have h₂ := hyz y rfl
  omega

/-- Each step keeps the held bundle or replaces it by one not below it. -/
theorem held_follows {w w' : World P T} {m : Move} (h : step J E w m = some w') :
    Follows w'.reader.bundle w.reader.bundle := by
  rcases held_changes J E h with hb | ⟨-, -, b, -, -, -, ha, hb⟩
  · rw [hb]
    exact Follows.refl _
  · rw [hb]
    intro x hx
    refine ⟨b, rfl, ?_⟩
    rw [← hx]
    exact acceptsReplacement_eq_none.mp ha

/-- What has been returned, in order, ends with the held bundle. -/
structure Ordered (w : World P T) : Prop where
  returned : w.returned.Pairwise Follows
  held : ∀ b ∈ w.returned, Follows w.reader.bundle b

theorem ordered_step {w w' : World P T} {m : Move} (hw : Ordered w)
    (h : step J E w m = some w') : Ordered w' := by
  have kept : ∀ b ∈ w.returned, Follows w'.reader.bundle b :=
    fun b hb => (held_follows J E h).trans (hw.held b hb)
  -- a `get` that returns adds the held bundle in front
  have adds : w'.returned = w'.reader.bundle :: w.returned → Ordered w' := by
    intro hr
    refine ⟨?_, ?_⟩
    · rw [hr]
      exact List.pairwise_cons.mpr ⟨kept, hw.returned⟩
    · rw [hr]
      exact List.forall_mem_cons.mpr ⟨Follows.refl _, kept⟩
  rcases step_cases J E h with ⟨file, rfl, rfl⟩ | ⟨now, rfl, -, ⟨-, rfl⟩ | ⟨stamp, -, rfl⟩⟩ |
    ⟨clock, stamp, rfl, -, ⟨-, rfl⟩ | ⟨f, -, rfl⟩⟩
  · exact ⟨hw.returned, kept⟩
  · exact adds rfl
  · exact ⟨hw.returned, kept⟩
  · exact ⟨hw.returned, kept⟩
  · exact adds rfl

theorem ordered_reach {w : World P T} (h : Lts.Reach (bundleFile J E) w) : Ordered w := by
  refine Lts.Reach.invariant (I := Ordered) (fun w hw => ?_)
    (fun w m w' hw hs => ordered_step J E hw hs) h
  obtain ⟨-, -, hr⟩ := hw
  refine ⟨?_, ?_⟩
  · rw [hr]
    exact List.Pairwise.nil
  · rw [hr]
    exact fun b hb => (by cases hb)

/-! ## What is in the file is found -/

/-- A bundle is what its token says, whenever it is read. -/
theorem parseBundle_unique {clock clock' : ℚ} {token : T} {authority : Text}
    {b b' : TrustBundle P T} (h : parseBundle J clock token authority = .ok b)
    (h' : parseBundle J clock' token authority = .ok b') : b = b' := by
  have same : ∀ pinned claims, (J.decodeBundle token pinned clock).mapError Fault.signature = .ok claims →
      ∀ claims', (J.decodeBundle token pinned clock').mapError Fault.signature = .ok claims' →
        claims = claims' := by
    intro pinned claims hc claims' hc'
    have h₁ := (J.decodeBundle_ok _ _ _ _ (mapError_eq_ok.mp hc)).2
    have h₂ := (J.decodeBundle_ok _ _ _ _ (mapError_eq_ok.mp hc')).2
    exact Option.some.inj (h₁.symm.trans h₂)
  unfold parseBundle at h h'
  rw [bind_eq_ok] at h h'
  obtain ⟨header, hh, h⟩ := h
  obtain ⟨header', hh', h'⟩ := h'
  cases hh.symm.trans hh'
  rw [bind_eq_ok] at h h'
  obtain ⟨-, -, h⟩ := h
  obtain ⟨-, -, h'⟩ := h'
  rw [bind_eq_ok] at h h'
  obtain ⟨pinned, hp, h⟩ := h
  obtain ⟨pinned', hp', h'⟩ := h'
  cases hp.symm.trans hp'
  rw [bind_eq_ok] at h h'
  obtain ⟨claims, hc, h⟩ := h
  obtain ⟨claims', hc', h'⟩ := h'
  cases same _ _ hc _ hc'
  exact Except.ok.inj (h.symm.trans h')

/-- The file under the remembered stamp, when it is in place, is the one
whose bundle is held. -/
def Remembers (w : World P T) : Prop :=
  ∀ stamp, w.reader.stamp = some stamp → w.file = some stamp →
    ∃ clock b, w.reader.bundle = some b ∧ Holds J E stamp clock b

theorem remembers_step {w w' : World P T} {m : Move} (hw : Remembers J E w)
    (hm : PutsBackWhatWasRead J E w m) (h : step J E w m = some w') : Remembers J E w' := by
  have looked : ∀ now w', w'.file = w.file → w'.reader = (w.reader.look E.interval now w.file).1 →
      Remembers J E w' := by
    intro now w' hf hr stamp hs hfile
    obtain ⟨hb, hst⟩ := look_keeps w.reader E.interval now w.file
    rw [hr, hst] at hs
    obtain ⟨clock, b, hheld, hh⟩ := hw stamp hs (hf.symm.trans hfile)
    exact ⟨clock, b, by rw [hr, hb, hheld], hh⟩
  rcases step_cases J E h with ⟨file, rfl, rfl⟩ | ⟨now, rfl, -, ⟨-, rfl⟩ | ⟨stamp, -, rfl⟩⟩ |
    ⟨clock, stamp, rfl, -, ⟨-, rfl⟩ | ⟨f, hl, rfl⟩⟩
  · intro stamp hs hf
    cases hf
    exact hm hs
  · exact looked now _ rfl rfl
  · exact looked now _ rfl rfl
  · exact hw
  · rcases load_cases J E hl with ⟨hb, hst⟩ | ⟨file, b, hf, hh, -, rfl⟩
    · intro stamp' hs hfile
      obtain ⟨c, b, hheld, hh⟩ := hw stamp' (hst.symm.trans hs) hfile
      exact ⟨c, b, hb.trans hheld, hh⟩
    · -- the stamp may be that of a file that was replaced before the read
      intro stamp' hs hfile
      cases hf.symm.trans hfile
      exact ⟨clock, b, rfl, hh⟩

/-- A `get` alone that finds the stamp it remembers. -/
theorem step_look_returns {w : World P T} {now : ℚ} {f : BundleFile P T} (hr : w.reading = none)
    (hl : w.reader.look E.interval now w.file = (f, none)) :
    step J E w (.look now) = some { w with reader := f, returned := f.bundle :: w.returned } := by
  unfold step
  simp only [hr, hl]

/-- A `get` alone that finds another. -/
theorem step_look_reads {w : World P T} {now : ℚ} {f : BundleFile P T} {stamp : Stamp}
    (hr : w.reading = none) (hl : w.reader.look E.interval now w.file = (f, some stamp)) :
    step J E w (.look now) = some { w with reader := f, reading := some stamp } := by
  unfold step
  simp only [hr, hl]

theorem step_read {w : World P T} {clock : ℚ} {f : BundleFile P T} {stamp : Stamp}
    (hr : w.reading = some stamp)
    (hl : w.reader.load J clock E.authority stamp (E.content w.file) = some f) :
    step J E w (.read clock) =
      some { w with reader := f, reading := none, returned := f.bundle :: w.returned } := by
  unfold step
  simp only [hr, hl]

/-- A good file that may replace what is held is taken. -/
theorem load_of_holds {f : BundleFile P T} {clock : ℚ} {stamp file : Stamp} {b : TrustBundle P T}
    (hh : Holds J E file clock b) (ha : acceptsReplacement f.bundle b = none) :
    f.load J clock E.authority stamp (E.contents file) =
      some { f with bundle := some b, stamp := some stamp, error := none } := by
  obtain ⟨token, hc, hp⟩ := hh
  unfold BundleFile.load
  simp only [hc, hp, ha]

theorem serves_of_remembers {w : World P T} (hw : Remembers J E w) : Serves J E w := by
  intro now clock stamp b hr hf hlook hh ha
  have hlooked : w.reader.look E.interval now w.file =
      if w.reader.stamp = some stamp then ({ w.reader with checked := now }, none)
      else ({ w.reader with checked := now }, some stamp) := by
    unfold BundleFile.look
    rw [if_pos hlook, hf]
  by_cases hs : w.reader.stamp = some stamp
  · rw [if_pos hs] at hlooked
    obtain ⟨clock', b', hheld, token', hc', hp'⟩ := hw stamp hs hf
    obtain ⟨token, hc, hp⟩ := hh
    cases hc.symm.trans hc'
    cases parseBundle_unique J hp hp'
    rw [step_look_returns J E hr hlooked, Option.bind_some, if_pos hr]
    exact ⟨_, rfl, by rw [hheld]⟩
  · rw [if_neg hs] at hlooked
    have hload : BundleFile.load J { w.reader with checked := now } clock E.authority stamp
        (E.content w.file) = some ⟨some b, some stamp, now, none⟩ := by
      rw [hf]
      exact load_of_holds J E hh ha
    rw [step_look_reads J E hr hlooked, Option.bind_some, if_neg (fun h => (by cases h)),
      step_read J E rfl hload]
    exact ⟨_, rfl, rfl⟩

/-- **The bundle file over every run.**  What is returned never goes back;
the held bundle changes only to one that is in the file, good, and may
replace it; and as long as no file is put back whose stamp, but not whose
contents, the reader has taken, a `get` that looks returns the bundle that
is there. -/
theorem bundleFile_runs :
    (∀ w, Lts.Reach (bundleFile J E) w → w.returned.Pairwise Follows) ∧
    (∀ w m w', Lts.Reach (bundleFile J E) w → step J E w m = some w' →
      w'.reader.bundle = w.reader.bundle ∨
        ∃ clock stamp b, m = .read clock ∧ w.file = some stamp ∧ Holds J E stamp clock b ∧
          acceptsReplacement w.reader.bundle b = none ∧ w'.reader.bundle = some b) ∧
    ∀ w, Lts.Run (bundleFile J E) (PutsBackWhatWasRead J E) w → Serves J E w := by
  refine ⟨fun w hw => (ordered_reach J E hw).returned, fun w m w' _ hs => held_changes J E hs,
    fun w hw => serves_of_remembers J E (hw.invariant (fun w hw => ?_) fun w m w' hw hm hs =>
      remembers_step J E hw hm hs)⟩
  intro stamp hs
  rw [hw.1] at hs
  cases hs

/-- A bundle of a root, with nothing in it but its number. -/
def numbered (version : Int) : ℕ × Obj × Obj :=
  symbolic.sign 1 [("typ".toList, .str typBundle)] (bundlePayload symbolic 1 version 0 [] [] 0 none)

/-- Two files: inode 5 holds version 5, any other version 4. -/
def twoFiles : Setting (ℕ × Obj × Obj) where
  authority := symbolic.publicB64 1
  interval := 1
  contents stamp := .jws (numbered (if stamp.1 = 5 then 5 else 4))

/-- File 5 is there for the `stat`, 4 for the read, and 5 again. -/
def putBack : List Move :=
  [.replace (some (5, 0, 0)), .look 0, .replace (some (4, 0, 0)), .read 0, .replace (some (5, 0, 0))]

/-- Version 5 is in place, is good, and may replace version 4, which the
reader holds; but every `get` takes it for the file it has read. -/
theorem bundleFile_missed : ∃ w, Lts.Reach (bundleFile symbolic twoFiles) w ∧
    w.file = some (5, 0, 0) ∧ (w.reader.bundle.map (·.version)) = some 4 ∧
    ¬ Serves symbolic twoFiles w := by
  have hrun : (putBack.foldlM (step symbolic twoFiles) ⟨none, .new, none, []⟩).any (fun w =>
      decide (w.reading = none ∧ w.file = some (5, 0, 0) ∧ w.reader.Looks twoFiles.interval 10 ∧
        w.reader.bundle.map (·.version) = some 4) &&
      passes (fun b => b.version = 5 ∧ acceptsReplacement w.reader.bundle b = none)
        (parseBundle symbolic 0 (numbered 5) twoFiles.authority) &&
      ((step symbolic twoFiles w (.look 10)).bind (fun w₁ =>
        if w₁.reading = none then some w₁ else step symbolic twoFiles w₁ (.read 0))).all (fun w' =>
          w'.returned.all fun b => b.map (·.version) = some 4)) = true := by
    decide +kernel
  obtain ⟨w, hw, htest⟩ := (Option.any_eq_true _ _).mp hrun
  simp only [Bool.and_eq_true, decide_eq_true_eq, passes_iff] at htest
  obtain ⟨⟨⟨hr, hf, hl, hv⟩, b, hb, hb5, ha⟩, hget⟩ := htest
  have start : Lts.Reach (bundleFile symbolic twoFiles) ⟨none, .new, none, []⟩ :=
    .start ⟨rfl, rfl, rfl⟩
  refine ⟨w, start.foldlM hw, hf, hv, fun hs => ?_⟩
  obtain ⟨w', hw', hret⟩ := hs 10 0 (5, 0, 0) b hr hf hl ⟨numbered 5, rfl, hb⟩ ha
  rw [hw', Option.all_some, hret, List.all_cons, Bool.and_eq_true, decide_eq_true_eq,
    Option.map_some, hb5] at hget
  cases hget.1

end InferenceDriver.Tokens
