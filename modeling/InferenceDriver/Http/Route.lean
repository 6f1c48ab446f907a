/-
# `Http.Route` — a request, and the transport it is sent on

Before a request is sent it is carried to the TLS address of its machine,
if the table has one; refused, if it would take a token of this install
over plain HTTP to another machine while the install requires encryption;
or left as it is.  Then it goes out on the pinned transport if the table
pins the machine it is for, and on the plain one if not.

`routed` is what this owes: a carried request is pinned, a pinned machine's
request is, and a token that was minted is recognised in a request, so that
it goes out in clear to this machine only.  Tokens are recognised by their
class, machines by how they are written, and a route to no machine at all
is not asked for (`not_routed`).
-/
import InferenceDriver.Http.Table
import InferenceDriver.Py.Base64
import InferenceDriver.Py.Utf8
import InferenceDriver.Tokens.Mint

namespace InferenceDriver.Http

open Base64

variable (L : Lib)

/-! ## Headers -/

abbrev Headers := List (Text × Text)

/-- `headers.get(name)`, of a name in lower case. -/
def header (headers : Headers) (name : String) : Option Text :=
  match headers.filter fun h => L.U.lowerText h.1 = name.toList with
  | [] => none
  | found => some (", ".toList.intercalate (found.map (·.2)))

/-- `headers[name] = value`. -/
def setHeader (headers : Headers) (name value : Text) : Headers :=
  match headers with
  | [] => [(name, value)]
  | h :: headers =>
      if L.U.lowerText h.1 = L.U.lowerText name then
        (name, value) :: headers.filter fun h => L.U.lowerText h.1 ≠ L.U.lowerText name
      else h :: setHeader headers name value

/-! ## Tokens of this install -/

/-- `value.split(" ", 1)[-1].strip().split(".", 1)[0]`. -/
def tokenHead (value : Text) : Text :=
  (strip ((partition ' ' value).2.getD value)).takeWhile fun c => c ≠ '.'

/-- Whether a value is such a token. -/
def isToken (value : Text) : Except Refused Bool :=
  if !("eyJ".toList.isPrefixOf (tokenHead value)) then .ok false
  else
    match urlsafeB64decode (tokenHead value ++ padding (tokenHead value)) with
    | none => .ok false
    | some bytes =>
        match L.loads bytes with
        | .value (.obj header) =>
            match (Obj.item? header "typ").getD (.str []) with
            | .str typ => .ok ("ep-".toList.isPrefixOf (L.U.lowerText typ))
            | _ => .ok false
        | .value _ => .ok false
        | .malformed => .ok false
        | .escapes => .error .recursion

/-- `_eugene_token(headers)`. -/
def eugeneToken (headers : Headers) : Except Refused Bool :=
  match isToken L ((header L headers "authorization").getD []) with
  | .ok false => isToken L ((header L headers "x-api-key").getD [])
  | other => other

/-! ## Routing -/

structure Request where
  url : Url
  headers : Headers
deriving DecidableEq

/-- What an HTTP client sends a request with: a URL that was read from a
text and names a host. -/
def Request.Absolute (request : Request) : Prop :=
  (∃ text, Url.parse L.toHttpx text = some request.url) ∧ request.url.rawHost ≠ []

def inClear (host : Text) : Text :=
  "Encryption between machines is required, and this request would carry an Eugene Plexus token to ".toList ++
    host ++ " in plain HTTP; it was not sent.".toList

/-- A request that nothing carries. -/
def uncarried (table : MachineTable) (request : Request) : Except Refused Request :=
  if table.required && decide (request.url.scheme = "http".toList) then
    match eugeneToken L request.headers with
    | .ok true =>
        if !isLoopback L request.url.host && decide (originOf L request.url ∉ table.local) then
          .error (.machineRefused (inClear request.url.host))
        else .ok request
    | .ok false => .ok request
    | .error e => .error e
  else .ok request

/-- `_route(request, table)`: the request as it goes on. -/
def route (table : MachineTable) (request : Request) : Except Refused Request :=
  if table.empty && !table.required then .ok request
  else
    match table.carry L request.url with
    | .error e => .error e
    | .ok (some url) =>
        .ok { url, headers := setHeader L request.headers "Host".toList url.netloc }
    | .ok none => uncarried L table request

inductive Transport where
  | plain
  | pinned
deriving DecidableEq

/-- `handle_async_request(request)`: what it is sent on, and what is sent. -/
def handle (table : MachineTable) (request : Request) : Except Refused (Transport × Request) :=
  (route L table request).map fun sent =>
    (if (table.pins L sent.url).isSome then .pinned else .plain, sent)

/-! ## Recognising a token -/

/-- A JWS in its compact form. -/
def compact (header payload signature : List UInt8) : Text :=
  urlsafeB64encode header ++ '.' :: (urlsafeB64encode payload ++ '.' :: urlsafeB64encode signature)

/-- A JSON object whose first key begins with a letter, and no blank before it. -/
def Opens (header : List UInt8) : Prop :=
  ∃ c rest, header = 0x7B :: 0x22 :: c :: rest ∧ c.toNat / 64 = 1

/-- How `jwt.encode` writes a token: the compact form, its header a JSON
object that says the `typ` it was given. -/
structure Compact {P T : Type} (L : Lib) (J : Tokens.Jwt P T) (text : T → Text) : Prop where
  sign : ∀ key typ claims, typ ≠ [] → ∃ h p s o,
    text (J.sign key [("typ".toList, .str typ), ("kid".toList, .str (J.thumbprint key))] claims) = compact h p s ∧
      Opens h ∧ L.loads h = .value (.obj o) ∧ Obj.item? o "typ" = some (.str typ)

/-- A request carries a token: as a bearer, after one blank or more, or as an `x-api-key`. -/
def Carries (headers : Headers) (token : Text) : Prop :=
  (∃ word blanks, ' ' ∉ word ∧ (∀ c ∈ blanks, c = ' ') ∧
    header L headers "authorization" = some (word ++ ' ' :: (blanks ++ token))) ∨
  header L headers "x-api-key" = some token

/-- No character of a token is a blank or a point. -/
theorem digits_plain : ∀ n : Fin 64, isspace (digit n) = false ∧ digit n ≠ '.' := by
  decide +kernel

theorem encode_not_space {bytes : List UInt8} {c : Char} (h : c ∈ urlsafeB64encode bytes) :
    isspace c = false := by
  have all : ∀ n : Fin 64, (!isspace (digit n)) = true := fun n => by rw [(digits_plain n).1]; rfl
  simpa using encode_all (p := fun c => !isspace c) all h

theorem encode_not_dot {bytes : List UInt8} {c : Char} (h : c ∈ urlsafeB64encode bytes) : c ≠ '.' := by
  have all : ∀ n : Fin 64, decide (digit n ≠ '.') = true := fun n => decide_eq_true (digits_plain n).2
  exact of_decide_eq_true (encode_all (p := fun c => decide (c ≠ '.')) all h)

theorem compact_no_blank (h p s : List UInt8) : ' ' ∉ compact h p s := by
  have blank : ∀ bytes : List UInt8, ' ' ∉ urlsafeB64encode bytes := fun bytes hmem => by
    have hs : isspace ' ' = false := encode_not_space hmem
    cases hs
  intro hmem
  rcases List.mem_append.mp hmem with hmem | hmem
  · exact blank h hmem
  · rcases List.mem_cons.mp hmem with hdot | hmem
    · cases hdot
    · rcases List.mem_append.mp hmem with hmem | hmem
      · exact blank p hmem
      · rcases List.mem_cons.mp hmem with hdot | hmem
        · cases hdot
        · exact blank s hmem

/-- The first part of a token, blanks in front of it or not. -/
theorem head_of_compact {blanks : Text} (hb : ∀ c ∈ blanks, c = ' ') (h p s : List UInt8) :
    ((strip (blanks ++ compact h p s)).takeWhile fun c => c ≠ '.') = urlsafeB64encode h := by
  have hfront : (blanks ++ urlsafeB64encode h).dropWhile isspace = urlsafeB64encode h := by
    rw [List.dropWhile_append_of_pos fun c hc => by rw [hb c hc]; rfl]
    refine List.dropWhile_eq_self_iff.mpr fun hne => ?_
    rw [encode_not_space (List.getElem_mem hne)]
    exact Bool.false_ne_true
  rw [compact, ← List.append_assoc, strip, Words.strip_append_cons rfl, hfront,
    List.takeWhile_append_of_pos fun c hc => decide_eq_true (encode_not_dot hc),
    List.takeWhile_cons_of_neg (by decide), List.append_nil]

theorem partition_blank {word rest : Text} (h : ' ' ∉ word) :
    (partition ' ' (word ++ ' ' :: rest)).2 = some rest := by
  rw [partition_append h]

theorem partition_no_blank {text : Text} (h : ' ' ∉ text) : (partition ' ' text).2 = none := by
  have hall : ∀ c ∈ text, decide (c ≠ ' ') = true := fun c hc => decide_eq_true fun heq => h (heq ▸ hc)
  rw [partition, List.dropWhile_eq_nil_iff.mpr hall]
  rfl

theorem head_of_opens {h : List UInt8} (hopens : Opens h) : "eyJ".toList.isPrefixOf (urlsafeB64encode h) = true := by
  obtain ⟨c, rest, rfl, hc⟩ := hopens
  have hdigit : digit ((0x22 : UInt8).toNat % 16 * 4 + c.toNat / 64) = 'J' := by
    rw [hc]
    decide
  rw [urlsafeB64encode, hdigit]
  rfl

/-- A token whose class is one of this install's is recognised. -/
theorem isToken_compact {L : Lib} {value typ : Text} {h : List UInt8} {o : Obj}
    (hhead : tokenHead value = urlsafeB64encode h) (hopens : Opens h) (hloads : L.loads h = .value (.obj o))
    (htyp : Obj.item? o "typ" = some (.str typ))
    (hclass : "ep-".toList.isPrefixOf (L.U.lowerText typ) = true) : isToken L value = .ok true := by
  rw [isToken, hhead, if_neg (by rw [head_of_opens hopens]; exact Bool.false_ne_true), Base64.decode_encode]
  simp only
  rw [hloads]
  simp only
  rw [htyp, Option.getD_some]
  simp only
  rw [hclass]

/-- A request that carries such a token is seen to, or is not sent. -/
theorem eugeneToken_of_carries {L : Lib} {headers : Headers} {typ : Text} {h p s : List UInt8} {o : Obj}
    (hcarries : Carries L headers (compact h p s)) (hopens : Opens h) (hloads : L.loads h = .value (.obj o))
    (htyp : Obj.item? o "typ" = some (.str typ))
    (hclass : "ep-".toList.isPrefixOf (L.U.lowerText typ) = true) : eugeneToken L headers ≠ .ok false := by
  rcases hcarries with ⟨word, blanks, hword, hblanks, hauth⟩ | hkey
  · have htoken : isToken L ((header L headers "authorization").getD []) = .ok true := by
      refine isToken_compact ?_ hopens hloads htyp hclass
      rw [hauth, Option.getD_some, tokenHead, partition_blank hword, Option.getD_some]
      exact head_of_compact hblanks h p s
    rw [eugeneToken, htoken]
    exact fun heq => (by cases heq)
  · have htoken : isToken L ((header L headers "x-api-key").getD []) = .ok true := by
      refine isToken_compact ?_ hopens hloads htyp hclass
      rw [hkey, Option.getD_some, tokenHead, partition_no_blank (compact_no_blank h p s), Option.getD_none]
      exact head_of_compact (fun c hc => absurd hc List.not_mem_nil) h p s
    rw [eugeneToken, htoken]
    split
    · exact fun heq => (by cases heq)
    · rename_i hother
      intro heq
      exact hother heq

/-! ## What a request comes to -/

theorem carry_eq_some {table : MachineTable} {url carried : Url} (h : table.carry L url = .ok (some carried)) :
    ∃ base, table.routes.get? (originOf L url) = some (some base) ∧
      Url.parse L.toHttpx (rstripSlash base ++ url.rawPath) = some carried := by
  rw [MachineTable.carry] at h
  split at h
  · cases h
  · split at h
    · cases h
    · split at h
      · cases h
      · cases h
    · rename_i base hbase
      split at h
      · rename_i url' hurl
        cases h
        exact ⟨base, hbase, hurl⟩
      · cases h

/-- A table with a route is not empty. -/
theorem empty_of_route {table : MachineTable} {origin : Text} {base : Option Text}
    (h : table.routes.get? origin = some base) : table.empty = false := by
  have hne : table.routes.items ≠ [] := fun hnil => by
    rw [Dict.get?, hnil] at h
    cases h
  rw [MachineTable.empty, Bool.and_eq_false_iff]
  exact Or.inr (by simpa using hne)

theorem uncarried_eq_ok {table : MachineTable} {request sent : Request}
    (h : uncarried L table request = .ok sent) :
    sent = request ∧ (table.required = true → request.url.scheme = "http".toList →
      eugeneToken L request.headers ≠ .ok false →
        isLoopback L request.url.host = true ∨ originOf L request.url ∈ table.local) := by
  rw [uncarried] at h
  split at h
  · split at h
    · split at h
      · cases h
      · rename_i hlocal
        cases h
        refine ⟨rfl, fun _ _ _ => ?_⟩
        rw [Bool.and_eq_true, Bool.not_eq_true', decide_eq_true_eq, not_and_or, Bool.not_eq_false,
          Decidable.not_not] at hlocal
        exact hlocal
    · rename_i hfalse
      cases h
      exact ⟨rfl, fun _ _ hne => absurd hfalse hne⟩
    · cases h
  · rename_i hno
    cases h
    refine ⟨rfl, fun hr hs _ => absurd ?_ hno⟩
    rw [Bool.and_eq_true]
    exact ⟨hr, decide_eq_true hs⟩

/-- A request is left as it is or carried, unless it is refused. -/
theorem route_eq_ok {table : MachineTable} {request sent : Request} (h : route L table request = .ok sent) :
    (sent = request ∧ (table.required = true → request.url.scheme = "http".toList →
        eugeneToken L request.headers ≠ .ok false →
          isLoopback L request.url.host = true ∨ originOf L request.url ∈ table.local)) ∨
      table.carry L request.url = .ok (some sent.url) := by
  rw [route] at h
  split at h
  · rename_i hempty
    cases h
    refine Or.inl ⟨rfl, fun hr => ?_⟩
    rw [hr, Bool.not_true, Bool.and_false] at hempty
    cases hempty
  · split at h
    · cases h
    · rename_i url hcarry
      cases h
      exact Or.inr hcarry
    · exact Or.inl (uncarried_eq_ok L h)

/-- A request for an `https` machine is left as it is. -/
theorem route_https {table : MachineTable} {request : Request} (h : request.url.scheme = "https".toList) :
    route L table request = .ok request := by
  have hne : request.url.scheme ≠ "http".toList := by rw [h]; decide
  rw [route]
  split
  · rfl
  · rw [MachineTable.carry, if_pos hne]
    simp only
    rw [uncarried, decide_eq_false hne, Bool.and_false, if_neg Bool.false_ne_true]

/-- **Where requests go**, with a table that was read from a document: a
request that is carried is carried to `https` at a machine the table pins,
and pinned, if its route has something behind its scheme; a request for an
`https` machine the table pins is pinned; and under `required`, of the
requests that carry a token this install minted, only those to this machine
go out over plain HTTP. -/
theorem routed {P T : Type} {L : Lib} {J : Tokens.Jwt P T} {text : T → Text} (hjwt : Compact L J text)
    {document : Json} {table : MachineTable} (htable : parseMachineTable L document = some table)
    {request : Request} (hreq : request.Absolute L) :
    (∀ base url, table.routes.get? (originOf L request.url) = some (some base) → (splitScheme base).2 ≠ [] →
      table.carry L request.url = .ok (some url) →
        url.scheme = "https".toList ∧ machinePort L url.toSite ∈ table.machines.keys ∧
        handle L table request =
          .ok (.pinned, { url, headers := setHeader L request.headers "Host".toList url.netloc })) ∧
    (request.url.scheme = "https".toList → machinePort L request.url.toSite ∈ table.machines.keys →
      handle L table request = .ok (.pinned, request)) ∧
    (table.required = true → ∀ (S : Tokens.Signer P) (typ sub : Text) (aud : List Text) (ttlSeconds issued : Int)
      (jti : Option Text) (drawn : Text) (extra : Obj) (token : T) (exp : Int),
      S.mint J typ sub aud ttlSeconds issued jti drawn extra = .ok (token, exp) →
      "ep-".toList.isPrefixOf (L.U.lowerText typ) = true → Carries L request.headers (text token) →
      ∀ transport sent, handle L table request = .ok (transport, sent) → sent.url.scheme = "http".toList →
        isLoopback L sent.url.host = true ∨ originOf L sent.url ∈ table.local) := by
  obtain ⟨⟨urlText, hurlText⟩, hhost⟩ := hreq
  have hpath := rawPath_rooted hurlText hhost
  have pinned : ∀ {url : Url}, url.scheme = "https".toList → machinePort L url.toSite ∈ table.machines.keys →
      (table.pins L url).isSome = true := by
    intro url hs hm
    obtain ⟨pins, hpins⟩ := Dict.mem_keys_iff.mp hm
    rw [MachineTable.pins, if_neg (not_not_intro hs), hpins]
    rfl
  refine ⟨fun base url hroute hrest hcarry => ?_, fun hs hm => ?_, ?_⟩
  · obtain ⟨base', hroute', hparse⟩ := carry_eq_some L hcarry
    cases hroute.symm.trans hroute'
    obtain ⟨hs, hm⟩ := carry_site (parse_routesPinned htable _ _ hroute) hpath hparse
    refine ⟨hs, hm hrest, ?_⟩
    rw [handle, route, empty_of_route hroute, Bool.false_and, if_neg Bool.false_ne_true, hcarry]
    exact congrArg (fun t => Except.ok (t, _)) (if_pos (pinned hs (hm hrest)))
  · rw [handle, route_https L hs]
    exact congrArg (fun t => Except.ok (t, _)) (if_pos (pinned hs hm))
  · intro hrequired S typ sub aud ttlSeconds issued jti drawn extra token exp hmint hclass hcarries transport sent
      hhandle hscheme
    obtain ⟨-, -, -, rfl⟩ := (Tokens.mint_eq_ok J).mp hmint
    have htyp : typ ≠ [] := fun hnil => by
      rw [hnil] at hclass
      cases hclass
    obtain ⟨h, p, s, o, htext, hopens, hloads, ho⟩ := hjwt.sign S.key typ
      (S.claims typ sub aud issued ttlSeconds (Tokens.jtiOf jti drawn) extra) htyp
    have hseen : eugeneToken L request.headers ≠ .ok false :=
      eugeneToken_of_carries (htext ▸ hcarries) hopens hloads ho hclass
    rw [handle] at hhandle
    cases hr : route L table request with
    | error e =>
        rw [hr] at hhandle
        cases hhandle
    | ok sent' =>
        rw [hr] at hhandle
        cases hhandle
        rcases route_eq_ok L hr with ⟨rfl, hclear⟩ | hcarry
        · exact hclear hrequired hscheme hseen
        · obtain ⟨base, hroute, hparse⟩ := carry_eq_some L hcarry
          obtain ⟨hs, -⟩ := carry_site (parse_routesPinned htable _ _ hroute) hpath hparse
          rw [hs] at hscheme
          cases hscheme

/-! ## An install of two machines -/

def opening : Text := "\x7b\"alg\":\"EdDSA\",\"kid\":\"".toList

def middle : Text := ['"', ',', '"', 't', 'y', 'p', '"', ':', '"']

def closing : Text := ['"', '\x7d']

/-- The header of a token, as `jwt.encode` writes it. -/
def headerText (kid typ : Text) : Text := opening ++ (kid ++ (middle ++ (typ ++ closing)))

/-- It is read back piece by piece. -/
def readHeader (header : Text) : Obj :=
  let rest := header.drop 22
  [("alg".toList, .str "EdDSA".toList), ("kid".toList, .str (rest.takeWhile fun c => c ≠ '"')),
    ("typ".toList, .str (((rest.dropWhile fun c => c ≠ '"').drop 9).dropLast.dropLast))]

/-- Plain names and numbers for hosts, and nothing that needs quoting. -/
def plainLib : Lib where
  host text := some (stripBrackets text, stripBrackets text)
  host_nil := rfl
  int text := (portNumber text).map Int.ofNat
  path _ p := p
  path_rooted _ h := h
  query q := q
  U := Ucd.basic
  strOf _ := []
  netloc _ := true
  loopback host := decide (host = "127.0.0.1".toList ∨ host = "::1".toList)
  loads bytes := .value (.obj (readHeader (decodeUtf8 bytes)))

/-- A symbolic token, as text. -/
def tokenText (token : ℕ × Obj × Obj) : Text :=
  match Obj.get token.2.1 "kid", Obj.get token.2.1 "typ" with
  | .str kid, .str typ => compact (encodeUtf8 (headerText kid typ)) [] []
  | _, _ => []

/-- What is written of a key without quotes is read back. -/
theorem readHeader_text {kid : Text} (h : '"' ∉ kid) (typ : Text) :
    Obj.item? (readHeader (headerText kid typ)) "typ" = some (.str typ) := by
  have hkid : ∀ c ∈ kid, decide (c ≠ '"') = true := fun c hc => decide_eq_true fun heq => h (heq ▸ hc)
  have hopening : opening.length = 22 := by decide
  have hrest : ((middle ++ (typ ++ closing)).dropWhile fun c => c ≠ '"').drop 9 = typ ++ closing := by
    rw [middle, List.cons_append, List.dropWhile_cons_of_neg (by decide), ← List.cons_append]
    exact List.drop_left' rfl
  have hlast : (typ ++ closing).dropLast.dropLast = typ := by
    rw [closing, ← List.singleton_append, ← List.append_assoc, List.dropLast_concat, List.dropLast_concat]
  rw [readHeader, headerText]
  simp only [Obj.item?_cons]
  rw [if_neg (by decide), if_neg (by decide), if_pos trivial, List.drop_left' hopening,
    List.dropWhile_append_of_pos hkid, hrest, hlast]

theorem compact_plain : Compact plainLib Tokens.symbolic tokenText where
  sign key typ claims _ := by
    refine ⟨encodeUtf8 (headerText (Tokens.symbolic.thumbprint key) typ), [], [],
      readHeader (headerText (Tokens.symbolic.thumbprint key) typ), rfl, ⟨0x61, _, rfl, rfl⟩, ?_, ?_⟩
    · exact congrArg (fun t => Loads.value (.obj (readHeader t))) (decode_encode _)
    · exact readHeader_text (fun hmem => by cases List.eq_of_mem_replicate hmem) typ

/-- A machine that is pinned under a key, another that is carried to an
address, and `required`; this machine is `192.168.1.2`. -/
def tableOf (key address : Text) : Option MachineTable :=
  parseMachineTable plainLib (.obj
    [("machines".toList, .obj [(key, .arr [.str "pin".toList])]),
      ("routes".toList, .obj [("http://10.0.0.7:8079".toList, .str address)]),
      ("required".toList, .bool true), ("local".toList, .arr [.str "http://192.168.1.2:8079".toList])])

/-- A request for a URL, with a token as its bearer. -/
def requestFor (url : Text) (token : ℕ × Obj × Obj) : Option Request :=
  (Url.parse plainLib.toHttpx url).map fun url =>
    { url, headers := [("Authorization".toList, "Bearer ".toList ++ tokenText token)] }

/-- What a request is sent on, and to which host and port. -/
def sentTo (key address url : Text) (token : ℕ × Obj × Obj) : Option (Transport × Text × Text × Option Int) :=
  match tableOf key address, requestFor url token with
  | some table, some request =>
      (handle plainLib table request).toOption.map fun sent =>
        (sent.1, sent.2.url.scheme, sent.2.url.host, sent.2.url.port)
  | _, _ => none

/-- A token of the root's, of a class that is one of this install's or not. -/
def bearer (typ : Text) : ℕ × Obj × Obj :=
  Tokens.symbolic.sign 2 [("typ".toList, .str typ), ("kid".toList, .str (Tokens.root.kid Tokens.symbolic))]
    (Tokens.root.claims typ Tokens.subOperator ["node:nas".toList] 1000 60 ['j'] [])

theorem bearer_minted (typ : Text) :
    Tokens.root.mint Tokens.symbolic typ Tokens.subOperator ["node:nas".toList] 60 1000 none ['j'] [] =
      .ok (bearer typ, 1060) := rfl

theorem header_singleton {L : Lib} {key : Text} {name : String} (h : L.U.lowerText key = name.toList)
    (value : Text) : header L [(key, value)] name = some value := by
  rw [header, List.filter_cons, if_pos (decide_eq_true h), List.filter_nil]
  exact congrArg some List.intercalate_singleton

theorem absolute_requestFor {url : Text} {token : ℕ × Obj × Obj} {request : Request}
    (h : requestFor url token = some request) (hhost : request.url.rawHost ≠ []) :
    request.Absolute plainLib ∧ Carries plainLib request.headers (tokenText token) := by
  obtain ⟨u, hu, rfl⟩ := Option.map_eq_some_iff.mp h
  have hname : plainLib.U.lowerText "Authorization".toList = "authorization".toList := by decide
  have hword : "Bearer ".toList = "Bearer".toList ++ [' '] := by decide
  have hvalue : "Bearer ".toList ++ tokenText token = "Bearer".toList ++ ' ' :: ([] ++ tokenText token) := by
    rw [hword, List.append_assoc, List.singleton_append, List.nil_append]
  refine ⟨⟨⟨url, hu⟩, hhost⟩, Or.inl ⟨"Bearer".toList, [], by decide, fun c hc => (by cases hc), ?_⟩⟩
  exact (header_singleton hname _).trans (congrArg some hvalue)

/-- Of three requests with a service token, one is carried to its machine,
one is for the machine itself, and one for this machine. -/
theorem routed_agent : ∃ (table : MachineTable) (toAgent toMachine toSelf sent : Request),
    tableOf "10.0.0.7:8083".toList "https://10.0.0.7:8083/agent/".toList = some table ∧
      (∃ carried, handle plainLib table toAgent = .ok (.pinned, carried)) ∧
      handle plainLib table toMachine = .ok (.pinned, toMachine) ∧
      handle plainLib table toSelf = .ok (.plain, sent) ∧
      (isLoopback plainLib sent.url.host = true ∨ originOf plainLib sent.url ∈ table.local) := by
  have hrun : (tableOf "10.0.0.7:8083".toList "https://10.0.0.7:8083/agent/".toList).any (fun table =>
      (requestFor "http://10.0.0.7:8079/v1".toList (bearer Tokens.typService)).any fun a =>
      (requestFor "https://10.0.0.7:8083/".toList (bearer Tokens.typService)).any fun m =>
      (requestFor "http://192.168.1.2:8079/".toList (bearer Tokens.typService)).any fun s =>
        decide (table.routes.get? (originOf plainLib a.url) = some (some "https://10.0.0.7:8083/agent".toList)) &&
          decide (a.url.rawHost ≠ [] ∧ m.url.rawHost ≠ [] ∧ s.url.rawHost ≠ []) &&
          (table.carry plainLib a.url).toOption.join.isSome &&
          decide (m.url.scheme = "https".toList ∧ machinePort plainLib m.url.toSite ∈ table.machines.keys) &&
          decide (table.required = true) &&
          ((handle plainLib table s).toOption.any fun sent =>
            decide (sent.1 = .plain ∧ sent.2.url.scheme = "http".toList))) = true := by
    decide +kernel
  obtain ⟨table, htable, hrun⟩ := (Option.any_eq_true _ _).mp hrun
  obtain ⟨a, ha, hrun⟩ := (Option.any_eq_true _ _).mp hrun
  obtain ⟨m, hm, hrun⟩ := (Option.any_eq_true _ _).mp hrun
  obtain ⟨s, hs, hrun⟩ := (Option.any_eq_true _ _).mp hrun
  simp only [Bool.and_eq_true, decide_eq_true_eq] at hrun
  obtain ⟨⟨⟨⟨⟨hroute, hah, hmh, hsh⟩, hcarry⟩, hscheme, hpinned⟩, hrequired⟩, hsent⟩ := hrun
  obtain ⟨url, hcarry⟩ := Option.isSome_iff_exists.mp hcarry
  have hcarry : table.carry plainLib a.url = .ok (some url) := by
    cases hc : table.carry plainLib a.url with
    | error e =>
        rw [hc] at hcarry
        cases hcarry
    | ok carried =>
        rw [hc] at hcarry
        exact congrArg Except.ok hcarry
  obtain ⟨⟨transport, sent⟩, hhandle, hsent⟩ := (Option.any_eq_true _ _).mp hsent
  obtain ⟨htransport, hhttp⟩ : transport = .plain ∧ sent.url.scheme = "http".toList := of_decide_eq_true hsent
  cases htransport
  have hhandle : handle plainLib table s = .ok (.plain, sent) := by
    cases hc : handle plainLib table s with
    | error e =>
        rw [hc] at hhandle
        cases hhandle
    | ok sent' =>
        rw [hc] at hhandle
        exact congrArg Except.ok (Option.some.inj hhandle)
  obtain ⟨hs, hbearer⟩ := absolute_requestFor hs hsh
  refine ⟨table, a, m, s, sent, htable, ?_, ?_, hhandle, ?_⟩
  · exact ⟨_, ((routed compact_plain htable (absolute_requestFor ha hah).1).1 _ _ hroute (by decide) hcarry).2.2⟩
  · exact (routed compact_plain htable (absolute_requestFor hm hmh).1).2.1 hscheme hpinned
  · exact (routed compact_plain htable hs).2.2 hrequired Tokens.root _ _ _ _ _ _ _ _ _ _
      (bearer_minted Tokens.typService) (by decide) hbearer _ _ hhandle hhttp

/-- A table that pins a blank host, and a route to a bare `https:`, take a
request wherever its path says; a token of another class is not recognised;
and a machine that is written in another way is not found in the table. -/
theorem not_routed :
    sentTo " :443".toList "https://".toList "http://10.0.0.7:8079//example.net/x".toList
        (bearer Tokens.typService) = some (.plain, "https".toList, "example.net".toList, none) ∧
      sentTo "10.0.0.7:8083".toList "https://10.0.0.7:8083".toList "http://10.0.0.9:8079/".toList
        (bearer "at+jwt".toList) = some (.plain, "http".toList, "10.0.0.9".toList, some 8079) ∧
      sentTo "[0:0:0:0:0:0:0:1]:8083".toList [] "https://[::1]:8083/".toList
        (bearer Tokens.typService) = some (.plain, "https".toList, "::1".toList, some 8083) :=
  ⟨by decide +kernel, by decide +kernel, by decide +kernel⟩

end InferenceDriver.Http
