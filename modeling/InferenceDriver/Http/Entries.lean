/-
# `Http.Entries` — the machine table, entry by entry

`parse_machine_table` is meant to drop what does not hold together and to
keep the rest.  It raises in five places: a section that is no object, a
`local` that cannot be looped over, a pinned machine whose key `urlsplit`
or `.port` refuses, and a name that `httpx` takes and `idna` does not read
back.  A document with none of these is `Sound`; then its table is that of
its entries, each read alone with the machines (`Unites`), and it is the
table read without looking at what raises (`parseMachineTable`).
-/
import InferenceDriver.Http.Table
import InferenceDriver.Lib.Gather

namespace InferenceDriver.Http

open Gather

/-- What is raised. -/
inductive Raised where
  | valueError
  | attributeError
  | typeError
deriving DecidableEq

/-- The libraries, and which names they do not read back. -/
structure Reader extends Lib where
  /-- Whether `.host` raises `IDNAError`, of the URL a text makes. -/
  undecodable : Text → Bool
  undecodable_parse : ∀ text, undecodable text = true → Url.parse toHttpx text = none

variable (R : Reader)

/-! ## Reading it -/

/-- The machine an entry pins. -/
def machineAt (entry : Text × Json) : Except Raised (Option (Text × List Text)) :=
  if listed entry.2 = [] then .ok none
  else
    match machineKey R.toLib entry.1 with
    | some (some key) => .ok (some (key, listed entry.2))
    | some none => .ok none
    | none => .error .valueError

/-- `_origin(httpx.URL(key))`, none where it is an `InvalidURL`. -/
def originAt (key : Text) : Except Raised (Option Text) :=
  match Url.parse R.toHttpx key with
  | some url => .ok (some (originOf R.toLib url))
  | none => if R.undecodable key then .error .valueError else .ok none

/-- The scheme of a URL. -/
def schemeOf (text : Text) : Text := (cut text).1.map Char.toLower

/-- The address a route's target carries to. -/
def carriedAt (machines : Dict Text (List Text)) : Json → Except Raised (Option Text)
  | .str target =>
      if R.undecodable target && decide (schemeOf target = "https".toList) then .error .valueError
      else .ok (carried R.toLib machines (.str target))
  | _ => .ok none

/-- The route an entry makes. -/
def routeAt (machines : Dict Text (List Text)) (entry : Text × Json) :
    Except Raised (Option (Text × Option Text)) :=
  match originAt R entry.1 with
  | .error raised => .error raised
  | .ok none => .ok none
  | .ok (some origin) =>
      if "http://".toList <+: origin then (carriedAt R machines entry.2).map fun base => some (origin, base)
      else .ok none

/-- The name an entry gives. -/
def nameAt (entry : Text × Json) : Except Raised (Option (Text × Text)) :=
  match entry.2 with
  | .str name => .ok (some (entry.1, name))
  | _ => .ok none

/-- `(value or {}).items()`. -/
def sectionItems (value : Json) : Except Raised Obj :=
  match itemsOf value with
  | some items => .ok items
  | none => .error .attributeError

/-- `for key in value or []`. -/
def localItems (value : Json) : Except Raised (List Text) :=
  match localKeys R.toLib value with
  | some keys => .ok keys
  | none => .error .typeError

/-- The loop over what is this machine. -/
def origins : List Text → Except Raised (List Text)
  | [] => .ok []
  | key :: keys =>
      match originAt R key with
      | .error raised => .error raised
      | .ok found => (origins keys).map fun rest => found.toList ++ rest

/-- `parse_machine_table(document)`. -/
def parseTable (document : Json) : Except Raised MachineTable :=
  match document with
  | .obj o => do
      let machines ← gather (machineAt R) .empty (← sectionItems (Obj.get o "machines"))
      let routes ← gather (routeAt R machines) .empty (← sectionItems (Obj.get o "routes"))
      let names ← gather nameAt .empty (← sectionItems (Obj.get o "names"))
      let «local» ← origins R (← localItems R (Obj.get o "local"))
      return { machines, routes, names, required := (Obj.get o "required").truthy, «local» }
  | _ => .error .valueError

/-! ## What does not raise -/

/-- A route neither side of which is undecodable where it is asked for. -/
def Decodable (entry : Text × Json) : Prop :=
  R.undecodable entry.1 = false ∧
    ∀ url target, Url.parse R.toHttpx entry.1 = some url → "http://".toList <+: originOf R.toLib url →
      entry.2 = .str target → schemeOf target = "https".toList → R.undecodable target = false

/-- A document that can be read through. -/
structure Sound (o : Obj) : Prop where
  machines : ∃ items, itemsOf (Obj.get o "machines") = some items ∧
    ∀ e ∈ items, listed e.2 ≠ [] → (machineKey R.toLib e.1).isSome = true
  routes : ∃ items, itemsOf (Obj.get o "routes") = some items ∧ ∀ e ∈ items, Decodable R e
  names : ∃ items, itemsOf (Obj.get o "names") = some items
  «local» : ∃ keys, localKeys R.toLib (Obj.get o "local") = some keys ∧ ∀ key ∈ keys, R.undecodable key = false

variable {R}

theorem machineAt_isOk {entry : Text × Json} :
    (∃ found, machineAt R entry = .ok found) ↔ (listed entry.2 ≠ [] → (machineKey R.toLib entry.1).isSome = true) := by
  rw [machineAt]
  by_cases h : listed entry.2 = []
  · rw [if_pos h]
    exact ⟨fun _ hne => absurd h hne, fun _ => ⟨_, rfl⟩⟩
  · rw [if_neg h]
    cases machineKey R.toLib entry.1 with
    | none => exact ⟨fun ⟨_, hd⟩ => (by cases hd), fun hd => absurd (hd h) Bool.false_ne_true⟩
    | some key => cases key <;> exact ⟨fun _ _ => rfl, fun _ => ⟨_, rfl⟩⟩

theorem originAt_isOk {key : Text} : (∃ found, originAt R key = .ok found) ↔ R.undecodable key = false := by
  rw [originAt]
  cases h : Url.parse R.toHttpx key with
  | some url =>
      have hd : R.undecodable key = false := by
        rw [← Bool.not_eq_true]
        intro hu
        rw [R.undecodable_parse key hu] at h
        cases h
      exact ⟨fun _ => hd, fun _ => ⟨_, rfl⟩⟩
  | none =>
      cases R.undecodable key with
      | true => exact ⟨fun ⟨_, hd⟩ => (by cases hd), fun hd => (by cases hd)⟩
      | false => exact ⟨fun _ => rfl, fun _ => ⟨_, rfl⟩⟩

theorem originAt_none {key : Text} {found : Option Text} (hurl : Url.parse R.toHttpx key = none)
    (h : originAt R key = .ok found) : found = none := by
  rw [originAt, hurl] at h
  cases hu : R.undecodable key with
  | true =>
      simp only [hu, if_true, reduceCtorEq] at h
  | false =>
      simp only [hu, Bool.false_eq_true, if_false, Except.ok.injEq] at h
      exact h.symm

theorem originAt_eq_some {key origin : Text} :
    originAt R key = .ok (some origin) ↔
      ∃ url, Url.parse R.toHttpx key = some url ∧ originOf R.toLib url = origin := by
  cases hurl : Url.parse R.toHttpx key with
  | some url =>
      rw [originAt, hurl]
      simp only [Except.ok.injEq, Option.some.injEq]
      exact ⟨fun h => ⟨url, rfl, h⟩, fun ⟨_, hu, ho⟩ => hu ▸ ho⟩
  | none =>
      refine ⟨fun h => absurd (originAt_none hurl h) (Option.some_ne_none _), ?_⟩
      rintro ⟨url, hu, -⟩
      cases hu

theorem carriedAt_isOk (machines : Dict Text (List Text)) {target : Json} :
    (∃ base, carriedAt R machines target = .ok base) ↔
      ∀ text, target = .str text → schemeOf text = "https".toList → R.undecodable text = false := by
  cases target with
  | str text =>
      rw [carriedAt]
      by_cases h : R.undecodable text = true ∧ schemeOf text = "https".toList
      · rw [if_pos (by rw [h.1, Bool.true_and]; exact decide_eq_true h.2)]
        refine ⟨fun ⟨_, hd⟩ => (by cases hd), fun hd => ?_⟩
        rw [hd text rfl h.2] at h
        exact absurd h.1 Bool.false_ne_true
      · rw [if_neg (by rw [Bool.and_eq_true, decide_eq_true_eq]; exact h)]
        refine ⟨fun _ text' htext hs => ?_, fun _ => ⟨_, rfl⟩⟩
        cases htext
        exact Bool.eq_false_iff.mpr fun hu => h ⟨hu, hs⟩
  | _ => exact ⟨fun _ _ htext => (by cases htext), fun _ => ⟨_, rfl⟩⟩

theorem routeAt_isOk (machines : Dict Text (List Text)) {entry : Text × Json} :
    (∃ found, routeAt R machines entry = .ok found) ↔ Decodable R entry := by
  rw [Decodable, ← originAt_isOk, routeAt]
  cases h : originAt R entry.1 with
  | error raised => exact ⟨fun ⟨_, hd⟩ => (by cases hd), fun ⟨⟨_, hd⟩, _⟩ => (by cases hd)⟩
  | ok found =>
      cases found with
      | none =>
          refine ⟨fun _ => ⟨⟨_, rfl⟩, fun url target hurl _ => ?_⟩, fun _ => ⟨_, rfl⟩⟩
          have hsome := originAt_eq_some.mpr ⟨url, hurl, rfl⟩
          rw [h] at hsome
          cases hsome
      | some origin =>
          obtain ⟨url, hurl, horigin⟩ := originAt_eq_some.mp h
          by_cases hhttp : "http://".toList <+: origin
          · have hcarried : (∃ base, carriedAt R machines entry.2 = .ok base) ↔ ∀ text, entry.2 = .str text →
                schemeOf text = "https".toList → R.undecodable text = false := carriedAt_isOk machines
            simp only [hhttp, if_true]
            constructor
            · rintro ⟨found, hfound⟩
              refine ⟨⟨_, rfl⟩, fun url' target hurl' _ htarget => hcarried.mp ?_ target htarget⟩
              cases hbase : carriedAt R machines entry.2 with
              | ok base => exact ⟨base, rfl⟩
              | error raised =>
                  rw [hbase] at hfound
                  cases hfound
            · rintro ⟨-, hdecodable⟩
              obtain ⟨base, hbase⟩ := hcarried.mpr fun text htext hs =>
                hdecodable url text hurl (horigin ▸ hhttp) htext hs
              rw [hbase]
              exact ⟨_, rfl⟩
          · simp only [hhttp, if_false]
            refine ⟨fun _ => ⟨⟨_, rfl⟩, fun url' target hurl' hhttp' => ?_⟩, fun _ => ⟨_, rfl⟩⟩
            cases hurl.symm.trans hurl'
            exact absurd (horigin ▸ hhttp') hhttp

theorem nameAt_isOk (entry : Text × Json) : ∃ found, nameAt entry = .ok found := by
  rw [nameAt]
  split
  · exact ⟨_, rfl⟩
  · exact ⟨_, rfl⟩

theorem origins_isOk {keys : List Text} :
    (∃ out, origins R keys = .ok out) ↔ ∀ key ∈ keys, R.undecodable key = false := by
  induction keys with
  | nil => exact ⟨fun _ key hkey => absurd hkey List.not_mem_nil, fun _ => ⟨_, rfl⟩⟩
  | cons key keys ih =>
      rw [List.forall_mem_cons, ← ih, ← originAt_isOk, origins]
      cases originAt R key with
      | error raised => exact ⟨fun ⟨_, hd⟩ => (by cases hd), fun ⟨⟨_, hd⟩, _⟩ => (by cases hd)⟩
      | ok found =>
          cases origins R keys with
          | error raised => exact ⟨fun ⟨_, hd⟩ => (by cases hd), fun ⟨_, ⟨_, hd⟩⟩ => (by cases hd)⟩
          | ok rest => exact ⟨fun _ => ⟨⟨_, rfl⟩, ⟨_, rfl⟩⟩, fun _ => ⟨_, rfl⟩⟩

theorem mem_origins {keys out : List Text} (h : origins R keys = .ok out) (origin : Text) :
    origin ∈ out ↔ ∃ key ∈ keys, originAt R key = .ok (some origin) := by
  induction keys generalizing out with
  | nil =>
      cases h
      simp only [List.not_mem_nil, false_and, exists_const]
  | cons key keys ih =>
      rw [origins] at h
      cases hkey : originAt R key with
      | error raised =>
          rw [hkey] at h
          cases h
      | ok found =>
          rw [hkey] at h
          cases hrest : origins R keys with
          | error raised =>
              rw [hrest] at h
              cases h
          | ok rest =>
              rw [hrest] at h
              cases h
              simp only [List.mem_append, Option.mem_toList, List.mem_cons, exists_eq_or_imp, hkey,
                Except.ok.injEq, ih hrest]

/-! ## The table, part by part -/

theorem sectionItems_eq_ok {value : Json} {items : Obj} :
    sectionItems value = .ok items ↔ itemsOf value = some items := by
  rw [sectionItems]
  cases itemsOf value with
  | some found => simp only [Except.ok.injEq, Option.some.injEq]
  | none => exact ⟨fun h => (by cases h), fun h => (by cases h)⟩

theorem localItems_eq_ok {value : Json} {keys : List Text} :
    localItems R value = .ok keys ↔ localKeys R.toLib value = some keys := by
  rw [localItems]
  cases localKeys R.toLib value with
  | some found => simp only [Except.ok.injEq, Option.some.injEq]
  | none => exact ⟨fun h => (by cases h), fun h => (by cases h)⟩

theorem bind_eq_ok {ε α β : Type} {x : Except ε α} {f : α → Except ε β} {b : β} :
    x >>= f = .ok b ↔ ∃ a, x = .ok a ∧ f a = .ok b := by
  cases x with
  | ok a => exact ⟨fun h => ⟨a, rfl, h⟩, fun ⟨_, ha, h⟩ => (by cases ha; exact h)⟩
  | error e => exact ⟨fun h => (by cases h), fun ⟨_, ha, _⟩ => (by cases ha)⟩

/-- What is read of an object, section by section. -/
structure Reads (R : Reader) (o : Obj) (t : MachineTable) : Prop where
  machines : ∃ items, itemsOf (Obj.get o "machines") = some items ∧
    gather (machineAt R) .empty items = .ok t.machines
  routes : ∃ items, itemsOf (Obj.get o "routes") = some items ∧
    gather (routeAt R t.machines) .empty items = .ok t.routes
  names : ∃ items, itemsOf (Obj.get o "names") = some items ∧ gather nameAt .empty items = .ok t.names
  «local» : ∃ keys, localKeys R.toLib (Obj.get o "local") = some keys ∧ origins R keys = .ok t.local
  required : t.required = (Obj.get o "required").truthy

theorem parseTable_eq_ok {o : Obj} {t : MachineTable} : parseTable R (.obj o) = .ok t ↔ Reads R o t := by
  simp only [parseTable, bind_eq_ok, sectionItems_eq_ok, localItems_eq_ok]
  constructor
  · rintro ⟨ms, hms, machines, hmachines, rs, hrs, routes, hroutes, ns, hns, names, hnames, ks, hks, out, hout, h⟩
    cases h
    exact ⟨⟨ms, hms, hmachines⟩, ⟨rs, hrs, hroutes⟩, ⟨ns, hns, hnames⟩, ⟨ks, hks, hout⟩, rfl⟩
  · rintro ⟨⟨ms, hms, hmachines⟩, ⟨rs, hrs, hroutes⟩, ⟨ns, hns, hnames⟩, ⟨ks, hks, hout⟩, hrequired⟩
    refine ⟨ms, hms, _, hmachines, rs, hrs, _, hroutes, ns, hns, _, hnames, ks, hks, _, hout, ?_⟩
    rw [← hrequired]
    rfl

/-- An object is read through exactly when it is sound. -/
theorem parseTable_isOk {o : Obj} : (∃ t, parseTable R (.obj o) = .ok t) ↔ Sound R o := by
  constructor
  · rintro ⟨t, ht⟩
    obtain ⟨⟨ms, hms, hmachines⟩, ⟨rs, hrs, hroutes⟩, ⟨ns, hns, -⟩, ⟨ks, hks, hout⟩, -⟩ := parseTable_eq_ok.mp ht
    refine ⟨⟨ms, hms, fun e he => ?_⟩, ⟨rs, hrs, fun e he => ?_⟩, ⟨ns, hns⟩, ⟨ks, hks, ?_⟩⟩
    · exact machineAt_isOk.mp (gather_isOk.mp ⟨_, hmachines⟩ e he)
    · exact (routeAt_isOk _).mp (gather_isOk.mp ⟨_, hroutes⟩ e he)
    · exact origins_isOk.mp ⟨_, hout⟩
  · rintro ⟨⟨ms, hms, hmachines⟩, ⟨rs, hrs, hroutes⟩, ⟨ns, hns⟩, ⟨ks, hks, hkeys⟩⟩
    obtain ⟨machines, hm⟩ := gather_isOk.mpr fun e he => machineAt_isOk.mpr (hmachines e he)
    obtain ⟨routes, hr⟩ := gather_isOk.mpr fun e he =>
      (routeAt_isOk machines).mpr (hroutes e he)
    obtain ⟨names, hn⟩ := gather_isOk.mpr fun e (_ : e ∈ ns) => nameAt_isOk e
    obtain ⟨out, hout⟩ := origins_isOk.mpr hkeys
    exact ⟨⟨machines, routes, (Obj.get o "required").truthy, names, out⟩,
      parseTable_eq_ok.mpr ⟨⟨ms, hms, hm⟩, ⟨rs, hrs, hr⟩, ⟨ns, hns, hn⟩, ⟨ks, hks, hout⟩, rfl⟩⟩

/-! ## The union of its entries -/

/-- `MachineTable()`. -/
def emptyTable : MachineTable := ⟨.empty, .empty, false, .empty, []⟩

variable (R) in
/-- The table of a document, the empty one where it raises. -/
def alone (document : Json) : MachineTable :=
  match parseTable R document with
  | .ok t => t
  | .error _ => emptyTable

/-- A table is that of its entries, each alone, a later one before an earlier. -/
structure Unites (R : Reader) (o : Obj) (t : MachineTable) : Prop where
  machines : ∃ items, itemsOf (Obj.get o "machines") = some items ∧ ∀ key, t.machines.get? key =
    latest (fun e => (alone R (.ofFields [("machines", .obj [e])])).machines.get? key) items
  routes : ∃ items, itemsOf (Obj.get o "routes") = some items ∧ ∀ origin, t.routes.get? origin =
    latest (fun e => (alone R (.ofFields [("machines", Obj.get o "machines"),
      ("routes", .obj [e])])).routes.get? origin) items
  names : ∃ items, itemsOf (Obj.get o "names") = some items ∧ ∀ key, t.names.get? key =
    latest (fun e => (alone R (.ofFields [("names", .obj [e])])).names.get? key) items
  «local» : ∃ keys, localKeys R.toLib (Obj.get o "local") = some keys ∧ ∀ origin, origin ∈ t.local ↔
    ∃ key ∈ keys, origin ∈ (alone R (.ofFields [("local", .arr [.str key])])).local
  required : t.required = (Obj.get o "required").truthy

theorem alone_eq {document : Json} {t : MachineTable} (h : parseTable R document = .ok t) :
    alone R document = t := by
  rw [alone, h]

theorem itemsOf_null : itemsOf .null = some [] := rfl

theorem itemsOf_singleton (e : Text × Json) : itemsOf (.obj [e]) = some [e] := rfl

/-- The machines alone. -/
theorem alone_machines {e : Text × Json} {machines : Dict Text (List Text)}
    (h : gather (machineAt R) .empty [e] = .ok machines) :
    (alone R (.ofFields [("machines", .obj [e])])).machines = machines := by
  have hreads : Reads R ([("machines", Json.obj [e])].map fun f => (f.1.toList, f.2))
      ⟨machines, .empty, false, .empty, []⟩ := by
    refine ⟨⟨[e], ?_, h⟩, ⟨[], ?_, rfl⟩, ⟨[], ?_, rfl⟩, ⟨[], ?_, rfl⟩, ?_⟩ <;>
      rw [Json.get_ofFields] <;> rfl
  exact congrArg MachineTable.machines (alone_eq (parseTable_eq_ok.mpr hreads))

/-- A route, with the machines. -/
theorem alone_route {value : Json} {items : Obj} {machines : Dict Text (List Text)} {e : Text × Json}
    {routes : Dict Text (Option Text)} (hitems : itemsOf value = some items)
    (hmachines : gather (machineAt R) .empty items = .ok machines)
    (h : gather (routeAt R machines) .empty [e] = .ok routes) :
    (alone R (.ofFields [("machines", value), ("routes", .obj [e])])).routes = routes := by
  have hreads : Reads R ([("machines", value), ("routes", Json.obj [e])].map fun f => (f.1.toList, f.2))
      ⟨machines, routes, false, .empty, []⟩ := by
    refine ⟨⟨items, ?_, hmachines⟩, ⟨[e], ?_, h⟩, ⟨[], ?_, rfl⟩, ⟨[], ?_, rfl⟩, ?_⟩ <;>
      rw [Json.get_ofFields]
    · exact hitems
    all_goals rfl
  exact congrArg MachineTable.routes (alone_eq (parseTable_eq_ok.mpr hreads))

theorem alone_name {e : Text × Json} {names : Dict Text Text} (h : gather nameAt .empty [e] = .ok names) :
    (alone R (.ofFields [("names", .obj [e])])).names = names := by
  have hreads : Reads R ([("names", Json.obj [e])].map fun f => (f.1.toList, f.2))
      ⟨.empty, .empty, false, names, []⟩ := by
    refine ⟨⟨[], ?_, rfl⟩, ⟨[], ?_, rfl⟩, ⟨[e], ?_, h⟩, ⟨[], ?_, rfl⟩, ?_⟩ <;>
      rw [Json.get_ofFields] <;> rfl
  exact congrArg MachineTable.names (alone_eq (parseTable_eq_ok.mpr hreads))

theorem alone_local {key : Text} {out : List Text} (h : origins R [key] = .ok out) :
    (alone R (.ofFields [("local", .arr [.str key])])).local = out := by
  have hreads : Reads R ([("local", Json.arr [.str key])].map fun f => (f.1.toList, f.2))
      ⟨.empty, .empty, false, .empty, out⟩ := by
    refine ⟨⟨[], ?_, rfl⟩, ⟨[], ?_, rfl⟩, ⟨[], ?_, rfl⟩, ⟨[key], ?_, h⟩, ?_⟩ <;>
      rw [Json.get_ofFields] <;> rfl
  exact congrArg MachineTable.local (alone_eq (parseTable_eq_ok.mpr hreads))

theorem unites_of_reads {o : Obj} {t : MachineTable} (h : Reads R o t) : Unites R o t := by
  obtain ⟨⟨ms, hms, hmachines⟩, ⟨rs, hrs, hroutes⟩, ⟨ns, hns, hnames⟩, ⟨ks, hks, hout⟩, hrequired⟩ := h
  refine ⟨⟨ms, hms, fun key => ?_⟩, ⟨rs, hrs, fun origin => ?_⟩, ⟨ns, hns, fun key => ?_⟩,
    ⟨ks, hks, fun origin => ?_⟩, hrequired⟩
  · refine get?_gather_alone hmachines (fun e => (alone R (.ofFields [("machines", .obj [e])])).machines) ?_ key
    intro e he
    obtain ⟨machines, hm⟩ := gather_isOk.mpr
      (List.forall_mem_singleton.mpr (gather_isOk.mp ⟨_, hmachines⟩ e he))
    rw [alone_machines hm]
    exact hm
  · refine get?_gather_alone hroutes (fun e => (alone R (.ofFields [("machines", Obj.get o "machines"),
      ("routes", .obj [e])])).routes) ?_ origin
    intro e he
    obtain ⟨routes, hr⟩ := gather_isOk.mpr
      (List.forall_mem_singleton.mpr (gather_isOk.mp ⟨_, hroutes⟩ e he))
    rw [alone_route hms hmachines hr]
    exact hr
  · refine get?_gather_alone hnames (fun e => (alone R (.ofFields [("names", .obj [e])])).names) ?_ key
    intro e he
    obtain ⟨names, hn⟩ := gather_isOk.mpr
      (List.forall_mem_singleton.mpr (gather_isOk.mp ⟨_, hnames⟩ e he))
    rw [alone_name hn]
    exact hn
  · rw [mem_origins hout]
    refine exists_congr fun key => and_congr_right fun hkey => ?_
    have hdecodable := origins_isOk.mp ⟨_, hout⟩ key hkey
    obtain ⟨out, ho⟩ := origins_isOk.mpr (List.forall_mem_singleton.mpr hdecodable)
    rw [alone_local ho, mem_origins ho]
    simp only [List.mem_singleton, exists_eq_left]

/-! ## What it raises, and what it keeps -/

variable (R) in
/-- Only what is no object is refused, as a `ValueError`; of an object,
every entry that holds together is kept and no other. -/
structure Whole (document : Json) : Prop where
  raises : ∀ raised, parseTable R document = .error raised → raised = .valueError ∧ ∀ o, document ≠ .obj o
  unites : ∀ o, document = .obj o → ∃ t, parseTable R document = .ok t ∧ Unites R o t

theorem whole_iff {document : Json} : Whole R document ↔ ∀ o, document = .obj o → Sound R o := by
  constructor
  · rintro ⟨-, hunites⟩ o rfl
    obtain ⟨t, ht, -⟩ := hunites o rfl
    exact parseTable_isOk.mp ⟨t, ht⟩
  · intro hsound
    refine ⟨fun raised hraised => ?_, fun o ho => ?_⟩
    · cases document with
      | obj o =>
          obtain ⟨t, ht⟩ := parseTable_isOk.mpr (hsound o rfl)
          rw [ht] at hraised
          cases hraised
      | _ =>
          cases hraised
          exact ⟨rfl, fun o ho => (by cases ho)⟩
    · cases ho
      obtain ⟨t, ht⟩ := parseTable_isOk.mpr (hsound o rfl)
      exact ⟨t, ht, unites_of_reads (parseTable_eq_ok.mp ht)⟩

/-! ## The table without what raises -/

theorem readMachine_eq (machines : Dict Text (List Text)) (entry : Text × Json)
    (found : Option (Text × List Text)) (h : machineAt R entry = .ok found) :
    readMachine R.toLib machines entry = some (put machines found) := by
  rw [machineAt] at h
  rw [readMachine]
  by_cases hlisted : listed entry.2 = []
  · rw [if_pos hlisted] at h ⊢
    cases h
    rfl
  · rw [if_neg hlisted] at h ⊢
    cases hkey : machineKey R.toLib entry.1 with
    | none =>
        rw [hkey] at h
        cases h
    | some key =>
        rw [hkey] at h
        cases key with
        | none =>
            cases h
            rfl
        | some key =>
            cases h
            rfl

theorem readRoute_eq {machines : Dict Text (List Text)} (routes : Dict Text (Option Text))
    (entry : Text × Json) (found : Option (Text × Option Text)) (h : routeAt R machines entry = .ok found) :
    readRoute R.toLib machines routes entry = put routes found := by
  rw [routeAt, originAt] at h
  rw [readRoute]
  cases hurl : Url.parse R.toHttpx entry.1 with
  | none =>
      rw [hurl] at h
      cases hu : R.undecodable entry.1 with
      | true =>
          simp only [hu, if_true] at h
          cases h
      | false =>
          simp only [hu, Bool.false_eq_true, if_false] at h
          cases h
          rfl
  | some url =>
      rw [hurl] at h
      by_cases hhttp : "http://".toList <+: originOf R.toLib url
      · simp only [hhttp, if_true] at h ⊢
        cases hbase : carriedAt R machines entry.2 with
        | error raised =>
            rw [hbase] at h
            cases h
        | ok base =>
            rw [hbase] at h
            cases h
            have hcarried : carried R.toLib machines entry.2 = base := by
              revert hbase
              cases entry.2 with
              | str text =>
                  rw [carriedAt]
                  split
                  · exact fun hb => by cases hb
                  · exact fun hb => Except.ok.inj hb
              | _ => exact fun hb => Except.ok.inj hb
            rw [hcarried]
            rfl
      · simp only [hhttp, if_false] at h ⊢
        cases h
        rfl

theorem readName_eq (names : Dict Text Text) (entry : Text × Json) (found : Option (Text × Text))
    (h : nameAt entry = .ok found) : readName names entry = put names found := by
  rw [nameAt] at h
  rw [readName.eq_def]
  split at h <;> cases h <;> simp_all only [put]

theorem filterMap_origins {keys out : List Text} (h : origins R keys = .ok out) :
    (keys.filterMap fun key => (Url.parse R.toHttpx key).map (originOf R.toLib)) = out := by
  induction keys generalizing out with
  | nil =>
      cases h
      rfl
  | cons key keys ih =>
      rw [origins] at h
      cases hkey : originAt R key with
      | error raised =>
          rw [hkey] at h
          cases h
      | ok found =>
          rw [hkey] at h
          cases hrest : origins R keys with
          | error raised =>
              rw [hrest] at h
              cases h
          | ok rest =>
              rw [hrest] at h
              cases h
              have hfound : (Url.parse R.toHttpx key).map (originOf R.toLib) = found := by
                cases hurl : Url.parse R.toHttpx key with
                | some url =>
                    rw [originAt, hurl] at hkey
                    exact Except.ok.inj hkey
                | none => exact (originAt_none hurl hkey).symm
              rw [List.filterMap_cons, hfound, ih hrest]
              cases found <;> rfl

/-- A document that does not raise has the table that is read of it without
looking at what does. -/
theorem parseMachineTable_of_ok {document : Json} {t : MachineTable} (h : parseTable R document = .ok t) :
    parseMachineTable R.toLib document = some t := by
  cases document with
  | obj o =>
      obtain ⟨⟨ms, hms, hmachines⟩, ⟨rs, hrs, hroutes⟩, ⟨ns, hns, hnames⟩, ⟨ks, hks, hout⟩, hrequired⟩ :=
        parseTable_eq_ok.mp h
      have hm := foldlM_eq_of_gather readMachine_eq hmachines
      have hr := foldl_eq_of_gather readRoute_eq hroutes
      have hn := foldl_eq_of_gather readName_eq hnames
      simp only [parseMachineTable, hms, hrs, hns, hks, hm, hr, hn, Option.bind_eq_bind, Option.bind_some,
        filterMap_origins hout, ← hrequired]
      rfl
  | _ => cases h

end InferenceDriver.Http
