/-
# `Gemini.Jobs` — the id of a video job

A job is Google's operation, and its id is the operation's name in base64:
the driver keeps nothing.  So whatever comes back as an id is read, and must
be refused unless a name that can stand in a URL comes out.

`_SAFE_NAME` ends in `$`, which also stands before a newline at the end of
the text, so one kind of id is neither read as a safe name nor refused: that
of a safe name with a newline after it (`operation_safe`).
-/
import InferenceDriver.OpenAi.Wire
import InferenceDriver.Py.Base64
import InferenceDriver.Py.Utf8
import InferenceDriver.Lib.Backtrack

namespace InferenceDriver.Gemini.Jobs

open Backtrack OpenAi

/-- `bytes.decode()`; none is a `UnicodeDecodeError`. -/
def decodeStrict (bytes : List UInt8) : Option Text := bytes.toByteArray.utf8Decode?.map Array.toList

/-! ## Names -/

def safeChar (c : Char) : Bool := c.isAlphanum || c == '_' || c == '.' || c == '/' || c == '-'

/-- `_SAFE_NAME`: one or more of the class, and `$`. -/
def safeName : Re Char := .seq (.chr safeChar) (.seq (.star safeChar) .eos)

def flavour : Flavour Char := ⟨fun c => c.isAlphanum || c == '_', fun c d => c == d, fun c => c == '\n'⟩

/-- `_SAFE_NAME.match(name)`. -/
def matchSafe (name : Text) : Bool := (first flavour safeName ⟨none, name, none⟩).isSome

/-- `_job_id`. -/
def jobId (operation : Text) : Text := Base64.urlsafeB64encode (encodeUtf8 operation)

/-- The name that was written as an id, if one was. -/
def nameOf (id : Text) : Option Text := (Base64.urlsafeB64decode (id ++ Base64.padding id)).bind decodeStrict

def noSuchJob : Failure := .cli "No such video job.".toList (some 404)

/-- `_operation`. -/
def operation (id : Text) : Except Failure Text :=
  match nameOf id with
  | none => .error noSuchJob
  | some name =>
      if matchSafe name = false ∨ "..".toList <:+: name ∨ "/".toList <+: name then .error noSuchJob
      else .ok name

/-! ## What is accepted -/

/-- A name that can stand in a URL. -/
structure SafeName (name : Text) : Prop where
  nonempty : name ≠ []
  chars : ∀ c ∈ name, safeChar c = true
  inside : ¬ "..".toList <:+: name
  relative : ¬ "/".toList <+: name

theorem decodeStrict_encode (text : Text) : decodeStrict (encodeUtf8 text) = some text := by
  have hencode : (encodeUtf8 text).toByteArray = List.utf8Encode text := rfl
  rw [decodeStrict, hencode, List.utf8Decode?_utf8Encode, Option.map_some]

/-- An id is of the name it was made from. -/
theorem nameOf_jobId (name : Text) : nameOf (jobId name) = some name := by
  rw [nameOf, jobId, Base64.decode_encode]
  exact decodeStrict_encode name

theorem matchSafe_iff (name : Text) : matchSafe name = true ↔
    ∃ body, body ≠ [] ∧ (∀ c ∈ body, safeChar c = true) ∧ (name = body ∨ name = body ++ ['\n']) := by
  rw [matchSafe, safeName, first_plus_eos]
  refine exists_congr fun body => and_congr_right fun _ => and_congr_right fun _ => or_congr_right ?_
  constructor
  · rintro ⟨n, hn, hname⟩
    rwa [← eq_of_beq hn]
  · intro hname
    exact ⟨'\n', beq_self_eq_true '\n', hname⟩

theorem operation_eq_ok {id name : Text} : operation id = .ok name ↔
    nameOf id = some name ∧ matchSafe name = true ∧ ¬ "..".toList <:+: name ∧ ¬ "/".toList <+: name := by
  rw [operation]
  cases nameOf id with
  | none =>
      constructor
      · intro h
        cases h
      · rintro ⟨h, -⟩
        cases h
  | some name' =>
      show (if _ then _ else _) = _ ↔ _
      split
      · rename_i h
        constructor
        · intro h
          cases h
        · rintro ⟨heq, hmatch, hinside, hrelative⟩
          cases heq
          rcases h with h | h | h
          · exact absurd (h.symm.trans hmatch) Bool.false_ne_true
          · exact absurd h hinside
          · exact absurd h hrelative
      · rename_i h
        simp only [not_or, Bool.not_eq_false] at h
        constructor
        · intro heq
          cases heq
          exact ⟨rfl, h⟩
        · rintro ⟨heq, -⟩
          exact congrArg Except.ok (Option.some.inj heq)

/-- What is not read is refused, as no job there is. -/
theorem operation_refuses (id : Text) : operation id = .error noSuchJob ∨ ∃ name, operation id = .ok name := by
  rw [operation]
  split
  · exact Or.inl rfl
  · split
    · exact Or.inl rfl
    · exact Or.inr ⟨_, rfl⟩

theorem SafeName.matchSafe {name : Text} (h : SafeName name) : matchSafe name = true :=
  (matchSafe_iff name).mpr ⟨name, h.nonempty, h.chars, Or.inl rfl⟩

theorem SafeName.newline_not_mem {name : Text} (h : SafeName name) : '\n' ∉ name := fun hmem =>
  absurd (h.chars _ hmem) (by decide)

/-- A safe name with a newline after it passes for one. -/
theorem SafeName.newline {name id : Text} (h : SafeName name) (hid : nameOf id = some (name ++ ['\n'])) :
    operation id = .ok (name ++ ['\n']) := by
  have hmatch := (matchSafe_iff (name ++ ['\n'])).mpr ⟨name, h.nonempty, h.chars, Or.inr rfl⟩
  refine operation_eq_ok.mpr ⟨hid, hmatch, fun hinside => ?_, fun hrelative => ?_⟩
  · rcases List.infix_concat_iff.mp hinside with hsuffix | hinside
    · rcases List.suffix_concat_iff.mp hsuffix with hnil | ⟨t, ht, -⟩
      · cases hnil
      · have hlast := congrArg List.getLast? ht
        rw [List.getLast?_append] at hlast
        cases hlast
    · exact h.inside hinside
  · rcases List.prefix_concat_iff.mp hrelative with heq | hprefix
    · have hlength := congrArg List.length heq
      rw [List.length_append, List.length_singleton] at hlength
      exact h.nonempty (List.eq_nil_of_length_eq_zero (Nat.succ.inj hlength).symm)
    · exact h.relative hprefix

/-- **A safe name is read back, and no id gives any other name, but that of a safe name and a newline.** -/
theorem operation_safe (name id : Text) : (SafeName name → operation (jobId name) = .ok name) ∧
    ((operation id = .error noSuchJob ∨ ∃ name, operation id = .ok name ∧ SafeName name) ↔
      ¬ ∃ name, SafeName name ∧ nameOf id = some (name ++ ['\n'])) := by
  refine ⟨fun h => ?_, ?_⟩
  · exact operation_eq_ok.mpr ⟨nameOf_jobId name, h.matchSafe, h.inside, h.relative⟩
  · constructor
    · rintro hid ⟨name, hname, hnewline⟩
      have hok := hname.newline hnewline
      rcases hid with hid | ⟨name', hid, hsafe⟩
      · rw [hok] at hid
        cases hid
      · rw [hok] at hid
        cases hid
        exact hsafe.newline_not_mem (List.mem_append_right _ List.mem_cons_self)
    · intro hid
      refine (operation_refuses id).imp_right ?_
      rintro ⟨name, hok⟩
      obtain ⟨hname, hmatch, hinside, hrelative⟩ := operation_eq_ok.mp hok
      obtain ⟨body, hne, hchars, rfl | rfl⟩ := (matchSafe_iff name).mp hmatch
      · exact ⟨name, hok, ⟨hne, hchars, hinside, hrelative⟩⟩
      · refine absurd ⟨body, ⟨hne, hchars, fun h => ?_, fun h => ?_⟩, hname⟩ hid
        · exact hinside (h.trans (List.prefix_append _ _).isInfix)
        · exact hrelative (h.trans (List.prefix_append _ _))

/-- The id of `abc` and a newline is taken for a job of that name. -/
theorem newline_read : ¬ ∀ id, operation id = .error noSuchJob ∨ ∃ name, operation id = .ok name ∧ SafeName name := by
  intro h
  have hbytes : encodeUtf8 "abc\n".toList = [97, 98, 99, 10] := by decide
  have hid : jobId "abc\n".toList = "YWJjCg".toList := by
    rw [jobId, hbytes]
    decide
  have hname : nameOf "YWJjCg".toList = some "abc\n".toList := hid ▸ nameOf_jobId _
  have hchars : "abc".toList.all safeChar = true := rfl
  have habc : SafeName "abc".toList := ⟨by decide, List.all_eq_true.mp hchars, by decide, by decide⟩
  have hok : operation "YWJjCg".toList = .ok "abc\n".toList := habc.newline hname
  rcases h "YWJjCg".toList with herror | ⟨name, hsafe, hname⟩
  · rw [hok] at herror
    cases herror
  · rw [hok] at hsafe
    cases hsafe
    exact hname.newline_not_mem (by decide)

end InferenceDriver.Gemini.Jobs
