/-
# `Http.Url` — a URL, from its text

`httpx.URL` cuts a text into scheme, authority, path and query, and the
authority into host and port, by two regular expressions of RFC 3986, and
each piece is then normalised on its own.  The cutting is here; how a host
is encoded, a path or a query quoted and a number read is a parameter
(`Httpx`).  A name that cannot be read back as a host makes no URL here.

The scheme and the authority end before the path begins, so what is hung on
a URL's text after a `/` changes neither (`site_append`).  The one text that
has nothing left after its scheme is where this fails.
-/
import Mathlib.Data.List.TakeWhile
import InferenceDriver.Py.Text

namespace InferenceDriver.Http

/-! ## Cutting -/

def schemeChar (c : Char) : Bool := c.isAlphanum || c == '+' || c == '-' || c == '.'

/-- `(?:([a-zA-Z][a-zA-Z0-9+.-]*)?:)?`, and what comes after it. -/
def splitScheme (text : Text) : Text × Text :=
  if (text.dropWhile schemeChar).head? = some ':' ∧ text.head?.all fun c => c.isAlpha || c == ':' then
    (text.takeWhile schemeChar, (text.dropWhile schemeChar).tail)
  else ([], text)

def authorityChar (c : Char) : Bool := c ≠ '/' && c ≠ '?' && c ≠ '#'

/-- `(?://([^/?#]*))?`, and what comes after it. -/
def splitAuthority : Text → Text × Text
  | '/' :: '/' :: rest => (rest.takeWhile authorityChar, rest.dropWhile authorityChar)
  | rest => ([], rest)

/-- `[^?#]*`, and the query behind a `?` up to a `#`. -/
def splitPath (rest : Text) : Text × Option Text :=
  let path := rest.takeWhile fun c => c ≠ '?' && c ≠ '#'
  match rest.dropWhile fun c => c ≠ '?' && c ≠ '#' with
  | '?' :: rest => (path, some (rest.takeWhile fun c => c ≠ '#'))
  | _ => (path, none)

/-- What comes before the last of a character, if it is there, and after it. -/
def splitLast (c : Char) (text : Text) : Option Text × Text :=
  let after := (text.reverse.takeWhile fun d => d ≠ c).reverse
  match text.reverse.dropWhile fun d => d ≠ c with
  | _ :: before => (some before.reverse, after)
  | [] => (none, text)

/-- `(\[.*\]|[^:@]*)`, and what comes after it. -/
def splitHost (text : Text) : Text × Text :=
  match text, splitLast ']' text with
  | '[' :: _, (some before, after) => (before ++ [']'], after)
  | _, _ =>
      (text.takeWhile fun c => c ≠ ':' && c ≠ '@', text.dropWhile fun c => c ≠ ':' && c ≠ '@')

/-- `:?` -/
def dropColon : Text → Text
  | ':' :: rest => rest
  | rest => rest

/-! ## Normalising -/

/-- A path that is empty or begins with a slash. -/
def Rooted (path : Text) : Prop := path = [] ∨ path.head? = some '/'

instance (path : Text) : Decidable (Rooted path) := inferInstanceAs (Decidable (_ ∨ _))

/-- What is done with the pieces of a URL. -/
structure Httpx where
  /-- `encode_host`, and the host as it is read back; none is `InvalidURL`. -/
  host : Text → Option (Text × Text)
  host_nil : host [] = some ([], [])
  /-- `int` of a text; none is a `ValueError`. -/
  int : Text → Option Int
  /-- `normalize_path`, where there is a scheme or an authority, and `quote`. -/
  path : Bool → Text → Text
  path_rooted : ∀ p, Rooted p → Rooted (path true p)
  query : Text → Text

/-- The ports that are left out. -/
def defaultPort (scheme : Text) : Option Int :=
  if scheme = "ftp".toList then some 21
  else if scheme = "http".toList ∨ scheme = "ws".toList then some 80
  else if scheme = "https".toList ∨ scheme = "wss".toList then some 443
  else none

/-- Which machine, and how. -/
structure Site where
  scheme : Text
  /-- As it is sent. -/
  rawHost : Text
  /-- `host`. -/
  host : Text
  port : Option Int
deriving DecidableEq

/-- `httpx.URL`. -/
structure Url extends Site where
  path : Text
  query : Option Text
deriving DecidableEq

variable (H : Httpx)

/-- `normalize_port`; none is `InvalidURL`. -/
def normalizePort (port scheme : Text) : Option (Option Int) :=
  if port = [] then some none
  else (H.int port).map fun n => if defaultPort scheme = some n then none else some n

/-- The scheme and the authority of a URL. -/
def site (scheme authority : Text) : Option Site :=
  let host := splitHost (splitLast '@' authority).2
  (H.host host.1).bind fun names =>
    (normalizePort H (dropColon host.2) scheme).map fun port =>
      { scheme := scheme.map Char.toLower, rawHost := names.1, host := names.2, port }

/-- `MAX_URL_LENGTH`, and no ASCII control characters. -/
def validText (text : Text) : Bool :=
  text.length ≤ 65536 && text.all fun c => 32 ≤ c.toNat && c.toNat ≠ 127

/-- `validate_path`. -/
def validPath (path : Text) (hasScheme hasAuthority : Bool) : Bool :=
  if hasAuthority then decide (Rooted path)
  else hasScheme || !("//".toList.isPrefixOf path || ":".toList.isPrefixOf path)

/-- Whether an authority counts as one. -/
def hasAuthority (authority : Text) (s : Site) : Bool :=
  (splitLast '@' authority).1.getD [] ≠ [] || s.rawHost ≠ [] || s.port.isSome

/-- The pieces that say which machine it is. -/
def cut (text : Text) : Text × Text := ((splitScheme text).1, (splitAuthority (splitScheme text).2).1)

/-- The path and the query, of a URL whose site is known. -/
def finish (scheme authority rest : Text) (s : Site) : Option Url :=
  if validPath (splitPath rest).1 (scheme ≠ []) (hasAuthority authority s) then
    some { s with
      path := H.path (scheme ≠ [] || hasAuthority authority s) (splitPath rest).1
      query := (splitPath rest).2.map H.query }
  else none

/-- `httpx.URL(text)`; none is `InvalidURL`. -/
def Url.parse (text : Text) : Option Url :=
  if validText text then
    (site H (cut text).1 (cut text).2).bind
      (finish H (cut text).1 (cut text).2 (splitAuthority (splitScheme text).2).2)
  else none

/-- `raw_path`. -/
def Url.rawPath (u : Url) : Text :=
  (if u.path = [] then ['/'] else u.path) ++
    match u.query with
    | some query => '?' :: query
    | none => []

/-- `netloc`. -/
def Url.netloc (u : Url) : Text :=
  (if ':' ∈ u.rawHost then '[' :: u.rawHost ++ [']'] else u.rawHost) ++
    match u.port with
    | some port => ':' :: (toString port).toList
    | none => []

/-! ## What is hung on a text -/

variable {H}

theorem finish_eq_some {scheme authority rest : Text} {s : Site} {u : Url}
    (h : finish H scheme authority rest s = some u) :
    u.toSite = s ∧ validPath (splitPath rest).1 (scheme ≠ []) (hasAuthority authority s) = true ∧
      u.path = H.path (scheme ≠ [] || hasAuthority authority s) (splitPath rest).1 := by
  rw [finish] at h
  split at h
  · rename_i hv
    cases h
    exact ⟨rfl, hv, rfl⟩
  · cases h

theorem parse_eq_some {text : Text} {u : Url} (h : Url.parse H text = some u) :
    site H (cut text).1 (cut text).2 = some u.toSite ∧
      finish H (cut text).1 (cut text).2 (splitAuthority (splitScheme text).2).2 u.toSite = some u := by
  rw [Url.parse] at h
  split at h
  · obtain ⟨s, hs, h⟩ := Option.bind_eq_some_iff.mp h
    obtain ⟨rfl, -⟩ := finish_eq_some h
    exact ⟨hs, h⟩
  · cases h

/-- A URL with a host has a path that begins with a slash, as it is sent. -/
theorem rawPath_rooted {text : Text} {u : Url} (h : Url.parse H text = some u) (hh : u.rawHost ≠ []) :
    u.rawPath.head? = some '/' := by
  obtain ⟨-, hf⟩ := parse_eq_some h
  obtain ⟨-, hv, hp⟩ := finish_eq_some hf
  have hauth : hasAuthority (cut text).2 u.toSite = true := by
    rw [hasAuthority, Bool.or_eq_true, Bool.or_eq_true]
    exact Or.inl (Or.inr (decide_eq_true hh))
  rw [hauth, Bool.or_true] at hp
  rw [hauth, validPath, if_pos rfl] at hv
  have hrooted := H.path_rooted _ (of_decide_eq_true hv)
  rw [← hp] at hrooted
  rw [Url.rawPath]
  rcases hrooted with hnil | hslash
  · rw [if_pos hnil]
    rfl
  · have hne : u.path ≠ [] := fun hnil => by rw [hnil] at hslash; cases hslash
    rw [if_neg hne]
    obtain ⟨path, hpath⟩ := List.head?_eq_some_iff.mp hslash
    rw [hpath]
    rfl

/-- A text with a scheme is the scheme, a colon and what comes after it. -/
theorem splitScheme_eq {text : Text} (h : (splitScheme text).1 ≠ []) :
    text = (splitScheme text).1 ++ ':' :: (splitScheme text).2 := by
  rw [splitScheme] at h ⊢
  split at h
  · rename_i hc
    obtain ⟨rest, hrest⟩ := List.head?_eq_some_iff.mp hc.1
    rw [if_pos hc, hrest]
    have hsplit := List.takeWhile_append_dropWhile (p := schemeChar) (l := text)
    rw [hrest] at hsplit
    exact hsplit.symm
  · exact absurd rfl h

/-- A scheme is read as such, whatever comes after its colon. -/
theorem splitScheme_scheme {text : Text} (h : (splitScheme text).1 ≠ []) (rest : Text) :
    splitScheme ((splitScheme text).1 ++ ':' :: rest) = ((splitScheme text).1, rest) := by
  have heq := splitScheme_eq h
  obtain ⟨c, scheme, hs⟩ := List.exists_cons_of_ne_nil h
  have hall : ∀ d ∈ (splitScheme text).1, schemeChar d = true := by
    intro d hd
    rw [splitScheme] at hd
    split at hd
    · exact List.mem_takeWhile_imp hd
    · cases hd
  have hfirst : text.head?.all (fun c => c.isAlpha || c == ':') := by
    rw [splitScheme] at h
    split at h
    · rename_i hc
      exact hc.2
    · exact absurd rfl h
  rw [heq, hs] at hfirst
  rw [splitScheme, List.takeWhile_append_of_pos hall, List.dropWhile_append_of_pos hall,
    List.takeWhile_cons_of_neg (by decide), List.dropWhile_cons_of_neg (by decide), List.append_nil, if_pos]
  · rfl
  · refine ⟨rfl, ?_⟩
    rw [hs]
    exact hfirst

theorem splitScheme_append {text : Text} (h : (splitScheme text).1 ≠ []) (more : Text) :
    splitScheme (text ++ more) = ((splitScheme text).1, (splitScheme text).2 ++ more) := by
  have heq : text ++ more = (splitScheme text).1 ++ ':' :: ((splitScheme text).2 ++ more) := by
    rw [← List.cons_append, ← List.append_assoc, ← splitScheme_eq h]
  rw [heq, splitScheme_scheme h]

theorem takeWhile_append_stop {p : Char → Bool} {a b : Text} (h : b.head?.all fun c => !p c) :
    (a ++ b).takeWhile p = a.takeWhile p := by
  induction a with
  | nil =>
      cases b with
      | nil => rfl
      | cons c b => exact List.takeWhile_cons_of_neg (by simpa using h)
  | cons c a ih =>
      by_cases hc : p c = true
      · rw [List.cons_append, List.takeWhile_cons_of_pos hc, List.takeWhile_cons_of_pos hc, ih]
      · rw [List.cons_append, List.takeWhile_cons_of_neg hc, List.takeWhile_cons_of_neg hc]

theorem splitAuthority_other {rest : Text} (h : ∀ r, rest ≠ '/' :: '/' :: r) : (splitAuthority rest).1 = [] := by
  rw [splitAuthority.eq_def]
  split
  · exact absurd rfl (h _)
  · rfl

/-- An authority that is there ends before a slash, and none begins where
something else than a slash stands last. -/
theorem splitAuthority_append {rest more : Text} (hne : rest ≠ []) (hlast : rest.getLast? ≠ some '/')
    (hmore : Rooted more) : (splitAuthority (rest ++ more)).1 = (splitAuthority rest).1 := by
  have hstop : more.head?.all fun c => !authorityChar c := by
    rcases hmore with rfl | hm
    · rfl
    · rw [hm]
      rfl
  obtain ⟨c, tail, rfl⟩ := List.exists_cons_of_ne_nil hne
  by_cases hslashes : ∃ r, c :: tail = '/' :: '/' :: r
  · obtain ⟨r, heq⟩ := hslashes
    cases heq
    exact takeWhile_append_stop hstop
  · rw [splitAuthority_other fun r hr => hslashes ⟨r, hr⟩]
    refine splitAuthority_other fun r hr => ?_
    cases tail with
    | nil =>
        cases hr
        exact hlast rfl
    | cons d tail =>
        cases hr
        exact hslashes ⟨tail, rfl⟩

/-- **What is hung on a text** changes neither the scheme nor the authority,
if a scheme is there with something behind it. -/
theorem cut_append {text more : Text} (hscheme : (splitScheme text).1 ≠ [])
    (hrest : (splitScheme text).2 ≠ []) (hlast : text.getLast? ≠ some '/') (hmore : Rooted more) :
    cut (text ++ more) = cut text := by
  have htext : (splitScheme text).2 <:+ text := by
    rw [splitScheme]
    split
    · exact (List.tail_suffix _).trans (List.dropWhile_suffix _)
    · exact List.suffix_rfl
  have hlast' : (splitScheme text).2.getLast? ≠ some '/' := by
    obtain ⟨front, hfront⟩ := htext
    rw [← hfront, List.getLast?_append_of_ne_nil _ hrest] at hlast
    exact hlast
  rw [cut, cut, splitScheme_append hscheme, splitAuthority_append hrest hlast' hmore]

end InferenceDriver.Http
