/-
# `Http.Table` — the machine table

What a process may say to which machine, read from a JSON document: the
machines and the keys each may present, the plain origins that are carried
to a machine's TLS address, and the origins that are this machine.  A
machine's key is read by `urlsplit`, an origin and an address by `httpx`.

A route that was read names a pinned machine (`Pinned`), and the address
that carries a request is that of the route with the request's path behind
it, which names the same machine (`carry_site`) unless nothing stands
behind the route's scheme.
-/
import Mathlib.Data.List.DropRight
import InferenceDriver.Py.Dict
import InferenceDriver.Py.Json
import InferenceDriver.Http.Url

namespace InferenceDriver.Http

/-- What `json.loads` of bytes comes to. -/
inductive Loads where
  | value (v : Json)
  /-- `ValueError`. -/
  | malformed
  /-- `RecursionError`. -/
  | escapes

/-- The libraries and built-ins used here. -/
structure Lib extends Httpx where
  U : Ucd
  /-- `str` of a value that is no string. -/
  strOf : Json → Text
  /-- Whether `urlsplit` takes a network location. -/
  netloc : Text → Bool
  /-- `ipaddress.ip_address(host).is_loopback`, false where it raises. -/
  loopback : Text → Bool
  loads : List UInt8 → Loads

variable (L : Lib)

/-! ## Origins -/

/-- `s.strip("[]")`. -/
def stripBrackets (s : Text) : Text := Words.strip (fun c => c == '[' || c == ']') s

/-- `_hostport(host, port)`. -/
def hostport (host : Text) (port : Int) : Text :=
  let host := L.U.lowerText (stripBrackets (strip host))
  if ':' ∈ host then '[' :: host ++ "]:".toList ++ (toString port).toList
  else host ++ ':' :: (toString port).toList

/-- `port or default`. -/
def portOr (port : Option Int) (default : Int) : Int :=
  match port with
  | some port => if port = 0 then default else port
  | none => default

/-- `_origin(url)`. -/
def originOf (url : Url) : Text :=
  url.scheme ++ "://".toList ++
    hostport L url.host (portOr url.port (if url.scheme = "https".toList then 443 else 80))

/-- The machine port an `https` URL is for. -/
def machinePort (s : Site) : Text := hostport L s.host (portOr s.port 443)

/-! ## The table -/

/-- `MachineTable`. -/
structure MachineTable where
  machines : Dict Text (List Text)
  routes : Dict Text (Option Text)
  required : Bool
  names : Dict Text Text
  «local» : List Text

namespace MachineTable

/-- `empty`. -/
def empty (table : MachineTable) : Bool := table.machines.items.isEmpty && table.routes.items.isEmpty

/-- `pins(url)`. -/
def pins (table : MachineTable) (url : Url) : Option (List Text) :=
  if url.scheme ≠ "https".toList then none else table.machines.get? (machinePort L url.toSite)

end MachineTable

/-- `_is_loopback(host)`. -/
def isLoopback (host : Text) : Bool :=
  let host := L.U.lowerText (stripBrackets host)
  host = "localhost".toList || L.loopback host

/-- How a request is refused before anything is sent. -/
inductive Refused where
  /-- `MachineRefused`, and its words. -/
  | machineRefused (message : Text)
  /-- `InvalidURL`. -/
  | invalidUrl
  /-- What `json.loads` lets out. -/
  | recursion
deriving DecidableEq

/-- `name or origin`. -/
def orOrigin (name : Option Text) (origin : Text) : Text :=
  match name with
  | some (c :: name) => c :: name
  | _ => origin

def noKey (who origin : Text) : Text :=
  "Encryption between machines is required and ".toList ++ who ++
    " has no machine key on record (it runs an older version; update it). Nothing was sent to ".toList ++
    origin ++ ".".toList

/-- `base.rstrip("/")`. -/
def rstripSlash (base : Text) : Text := base.rdropWhile fun c => c = '/'

/-- `carry(url)`. -/
def MachineTable.carry (table : MachineTable) (url : Url) : Except Refused (Option Url) :=
  if url.scheme ≠ "http".toList then .ok none
  else
    match table.routes.get? (originOf L url) with
    | none => .ok none
    | some none =>
        if table.required && !isLoopback L url.host then
          .error (.machineRefused
            (noKey (orOrigin (table.names.get? (originOf L url)) (originOf L url)) (originOf L url)))
        else .ok none
    | some (some base) =>
        match Url.parse L.toHttpx (rstripSlash base ++ url.rawPath) with
        | some carried => .ok (some carried)
        | none => .error .invalidUrl

/-! ## Reading it -/

/-- `_hostinfo` of a network location: the host, and the port as it is written. -/
def hostinfo (netloc : Text) : Text × Text :=
  let info := (splitLast '@' netloc).2
  match partition '[' info with
  | (_, some bracketed) =>
      let (host, after) := partition ']' bracketed
      (host, ((partition ':' (after.getD [])).2).getD [])
  | (_, none) =>
      let (host, port) := partition ':' info
      (host, port.getD [])

/-- `hostname`: in lower case, up to a zone. -/
def hostname (host : Text) : Text :=
  L.U.lowerText (host.takeWhile fun c => c ≠ '%') ++ host.dropWhile fun c => c ≠ '%'

/-- `port`, zero for none; none is a `ValueError`. -/
def portNumber (port : Text) : Option Nat :=
  if port = [] then some 0
  else if port.all Char.isDigit then
    let n := port.foldl (fun n c => 10 * n + (c.toNat - '0'.toNat)) 0
    if n ≤ 65535 then some n else none
  else none

/-- The machine a key names, by `urlsplit("//" + key)`, if it names one; an
outer none is a `ValueError`. -/
def machineKey (key : Text) : Option (Option Text) :=
  let netloc := (key.filter fun c => c ≠ '\t' && c ≠ '\n' && c ≠ '\r').takeWhile authorityChar
  if L.netloc netloc then
    if (hostinfo netloc).1 = [] then some none
    else (portNumber (hostinfo netloc).2).map fun port =>
      if port = 0 then none else some (hostport L (hostname L (hostinfo netloc).1) port)
  else none

/-- `(value or {}).items()`; none is an `AttributeError`. -/
def itemsOf (value : Json) : Option Obj :=
  if value.truthy then
    match value with
    | .obj items => some items
    | _ => none
  else some []

/-- The pins of an entry: the strings in a list that are not empty. -/
def listed : Json → List Text
  | .arr pins => pins.filterMap fun p => match p with
      | .str p => if p ≠ [] then some p else none
      | _ => none
  | _ => []

def readMachine (machines : Dict Text (List Text)) (entry : Text × Json) : Option (Dict Text (List Text)) :=
  if listed entry.2 = [] then some machines
  else (machineKey L entry.1).map fun key =>
    match key with
    | some key => machines.set key (listed entry.2)
    | none => machines

/-- The address a route's target carries to, if it names a pinned machine. -/
def carried (machines : Dict Text (List Text)) : Json → Option Text
  | .str target =>
      match Url.parse L.toHttpx target with
      | some url =>
          if url.scheme = "https".toList ∧ machinePort L url.toSite ∈ machines.keys then
            some (rstripSlash target)
          else none
      | none => none
  | _ => none

def readRoute (machines : Dict Text (List Text)) (routes : Dict Text (Option Text)) (entry : Text × Json) :
    Dict Text (Option Text) :=
  match Url.parse L.toHttpx entry.1 with
  | some url =>
      if "http://".toList <+: originOf L url then
        routes.set (originOf L url) (carried L machines entry.2)
      else routes
  | none => routes

def readName (names : Dict Text Text) (entry : Text × Json) : Dict Text Text :=
  match entry.2 with
  | .str name => names.set entry.1 name
  | _ => names

/-- `for key in value or []: str(key)`; none is a `TypeError`. -/
def localKeys (value : Json) : Option (List Text) :=
  if value.truthy then
    match value with
    | .arr keys => some (keys.map fun key => match key with
        | .str key => key
        | key => L.strOf key)
    | .obj fields => some (fields.map (·.1))
    | .str text => some (text.map ([·]))
    | _ => none
  else some []

/-- `parse_machine_table(document)`; none where it raises. -/
def parseMachineTable (document : Json) : Option MachineTable :=
  match document with
  | .obj document => do
      let machines ← (← itemsOf (Obj.get document "machines")).foldlM (readMachine L) .empty
      let routes := (← itemsOf (Obj.get document "routes")).foldl (readRoute L machines) .empty
      let names := (← itemsOf (Obj.get document "names")).foldl readName .empty
      let keys ← localKeys L (Obj.get document "local")
      return {
        machines, routes, names
        required := (Obj.get document "required").truthy
        «local» := keys.filterMap fun key => (Url.parse L.toHttpx key).map (originOf L) }
  | _ => none

variable {L}

/-! ## What was read -/

/-- An address of a machine that is pinned, its slashes at the end taken off. -/
def Pinned (L : Lib) (machines : Dict Text (List Text)) (base : Text) : Prop :=
  ∃ target url, Url.parse L.toHttpx target = some url ∧ url.scheme = "https".toList ∧
    machinePort L url.toSite ∈ machines.keys ∧ base = rstripSlash target

theorem pinned_of_carried {machines : Dict Text (List Text)} {target : Json} {base : Text}
    (h : carried L machines target = some base) : Pinned L machines base := by
  rw [carried.eq_def] at h
  split at h
  · rename_i text
    split at h
    · rename_i url hurl
      split at h
      · rename_i hpinned
        cases h
        exact ⟨text, url, hurl, hpinned.1, hpinned.2, rfl⟩
      · cases h
    · cases h
  · cases h

/-- Every route names a pinned machine. -/
def RoutesPinned (L : Lib) (machines : Dict Text (List Text)) (routes : Dict Text (Option Text)) : Prop :=
  ∀ origin base, routes.get? origin = some (some base) → Pinned L machines base

theorem routesPinned_read {machines : Dict Text (List Text)} {routes : Dict Text (Option Text)}
    (h : RoutesPinned L machines routes) (entry : Text × Json) :
    RoutesPinned L machines (readRoute L machines routes entry) := by
  intro origin base hroute
  rw [readRoute] at hroute
  split at hroute
  · rename_i url hurl
    split at hroute
    · by_cases ho : origin = originOf L url
      · rw [ho, routes.get?_set_self] at hroute
        exact pinned_of_carried (Option.some.inj hroute)
      · rw [routes.get?_set_ne _ ho] at hroute
        exact h origin base hroute
    · exact h origin base hroute
  · exact h origin base hroute

theorem routesPinned_foldl {machines : Dict Text (List Text)} (entries : Obj)
    {routes : Dict Text (Option Text)} (h : RoutesPinned L machines routes) :
    RoutesPinned L machines (entries.foldl (readRoute L machines) routes) := by
  induction entries generalizing routes with
  | nil => exact h
  | cons entry entries ih => exact ih (routesPinned_read h entry)

theorem parse_routesPinned {document : Json} {table : MachineTable}
    (h : parseMachineTable L document = some table) : RoutesPinned L table.machines table.routes := by
  rw [parseMachineTable.eq_def] at h
  split at h
  · obtain ⟨machineItems, -, h⟩ := Option.bind_eq_some_iff.mp h
    obtain ⟨machines, -, h⟩ := Option.bind_eq_some_iff.mp h
    obtain ⟨routeItems, -, h⟩ := Option.bind_eq_some_iff.mp h
    obtain ⟨nameItems, -, h⟩ := Option.bind_eq_some_iff.mp h
    obtain ⟨keys, -, h⟩ := Option.bind_eq_some_iff.mp h
    cases h
    refine routesPinned_foldl routeItems fun origin base hroute => ?_
    exact absurd hroute (Dict.get?_empty _ _)
  · cases h

/-! ## Where a request is carried -/

theorem site_scheme {scheme authority : Text} {s : Site} (h : site L.toHttpx scheme authority = some s) :
    s.scheme = scheme.map Char.toLower := by
  obtain ⟨names, -, h⟩ := Option.bind_eq_some_iff.mp h
  obtain ⟨port, -, rfl⟩ := Option.map_eq_some_iff.mp h
  rfl

theorem rstripSlash_idem (text : Text) : rstripSlash (rstripSlash text) = rstripSlash text :=
  List.rdropWhile_idempotent _ _

/-- The slashes taken off are a rooted path. -/
theorem rstripSlash_append (text : Text) : ∃ more, text = rstripSlash text ++ more ∧ Rooted more := by
  refine ⟨text.rtakeWhile fun c => c = '/', List.rdropWhile_append_rtakeWhile.symm, ?_⟩
  cases h : text.rtakeWhile fun c => c = '/' with
  | nil => exact Or.inl rfl
  | cons c more =>
      have hc := List.mem_rtakeWhile_imp (h ▸ List.mem_cons_self)
      exact Or.inr (congrArg some (of_decide_eq_true hc))

theorem rstripSlash_last (text : Text) : (rstripSlash text).getLast? ≠ some '/' := by
  intro hlast
  have hne : rstripSlash text ≠ [] := fun hnil => by rw [hnil] at hlast; cases hlast
  rw [List.getLast?_eq_some_getLast hne] at hlast
  have hnot := List.rdropWhile_last_not (p := fun c : Char => decide (c = '/')) (l := text) hne
  exact hnot (decide_eq_true (Option.some.inj hlast))

/-- Taking the slashes off leaves the scheme. -/
theorem splitScheme_rstrip {text : Text} (h : (splitScheme text).1 ≠ []) :
    (splitScheme (rstripSlash text)).1 = (splitScheme text).1 := by
  have heq : rstripSlash text = (splitScheme text).1 ++ ':' :: rstripSlash (splitScheme text).2 := by
    conv_lhs => rw [splitScheme_eq h]
    exact Words.rdropWhile_append_cons rfl _ _
  rw [heq, splitScheme_scheme h]

theorem carry_site {machines : Dict Text (List Text)} {base path : Text} {url : Url}
    (h : Pinned L machines base) (hpath : path.head? = some '/')
    (hurl : Url.parse L.toHttpx (rstripSlash base ++ path) = some url) :
    url.scheme = "https".toList ∧ ((splitScheme base).2 ≠ [] → machinePort L url.toSite ∈ machines.keys) := by
  obtain ⟨target, u, hu, hscheme, hmachine, rfl⟩ := h
  rw [rstripSlash_idem] at hurl
  have hsite := (parse_eq_some hu).1
  have hsite' := (parse_eq_some hurl).1
  have htarget : (splitScheme target).1 ≠ [] := by
    intro hnil
    have hs := site_scheme hsite
    rw [hscheme, cut, hnil] at hs
    cases hs
  have hbase : (splitScheme (rstripSlash target)).1 ≠ [] := (splitScheme_rstrip htarget).symm ▸ htarget
  constructor
  · rw [site_scheme hsite', cut, splitScheme_append hbase, splitScheme_rstrip htarget, ← hscheme, site_scheme hsite]
    rfl
  · intro hrest
    obtain ⟨more, hmore, hrooted⟩ := rstripSlash_append target
    have hcut : cut (rstripSlash target ++ path) = cut target := by
      rw [cut_append hbase hrest (rstripSlash_last target) (Or.inr hpath)]
      conv_rhs => rw [hmore]
      exact (cut_append hbase hrest (rstripSlash_last target) hrooted).symm
    rw [hcut] at hsite'
    have hsame : u.toSite = url.toSite := Option.some.inj (hsite.symm.trans hsite')
    exact hsame ▸ hmachine

end InferenceDriver.Http
