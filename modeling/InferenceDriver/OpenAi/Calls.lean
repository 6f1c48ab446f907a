/-
# `OpenAi.Calls` — calls that arrive in fragments, and calls that arrive whole

A streamed answer cuts its calls into fragments, frame by frame, and a
whole one has them in one array.  The fragments are put together by their
`index` (`_accumulate_tool_calls`, `_finish_tool_calls`); the array is read
as it stands (`_tool_calls_from_wire`).

`folded_calls` is that the two come to the same list, however the fragments
of different calls are mixed and however each call is cut, as long as each
call's own fragments come in order.  What is left of the order is the order
of the fragments of ONE index, which is all that a dictionary keyed by
index remembers of it (`Dict.get?_foldl_put`).
-/
import InferenceDriver.OpenAi.Wire

namespace InferenceDriver.OpenAi

open Checks

/-- A complete call, and its place among the calls of an answer. -/
structure Call where
  index : Int
  id : Text
  name : Text
  arguments : Text
  id_ne : id ≠ []
  name_ne : name ≠ []

namespace Call

/-- The call as it leaves the driver. -/
def made (c : Call) : ToolCall := { id := c.id, name := c.name, arguments := c.arguments }

/-- The item names the call. -/
structure Names (c : Call) (item : Obj) : Prop where
  id : item.get "id" = .str c.id
  name : (dictOf (item.get "function")).get "name" = .str c.name

/-- The call in one piece. -/
structure Complete (c : Call) (item : Obj) : Prop extends Names c item where
  arguments : (dictOf (item.get "function")).get "arguments" = .str c.arguments

/-- A fragment of the call: it may name the call or not, and may carry a
piece of the arguments or none. -/
structure Carries (c : Call) (item : Obj) : Prop where
  id : (item.get "id").truthy = true → item.get "id" = .str c.id
  name : ((dictOf (item.get "function")).get "name").truthy = true →
    (dictOf (item.get "function")).get "name" = .str c.name
  arguments : ((dictOf (item.get "function")).get "arguments").truthy = true →
    ∃ piece, (dictOf (item.get "function")).get "arguments" = .str piece

/-- The piece of the arguments on a fragment. -/
def pieceOf (item : Obj) : Text :=
  match (dictOf (item.get "function")).get "arguments" with
  | .str piece => piece
  | _ => []

/-- The fragments of one call, in order: the first one names it, and their
pieces make up its arguments. -/
structure Split (c : Call) (items : List Obj) : Prop where
  carries : ∀ item ∈ items, c.Carries item
  first : ∃ item rest, items = item :: rest ∧ c.Names item
  arguments : items.flatMap pieceOf = c.arguments

/-- Fragments of the calls, mixed in any way. -/
structure Interleaved (calls : List Call) (items : List Obj) : Prop where
  every : ∀ item ∈ items, ∃ c ∈ calls, asInt (item.get "index") = some c.index
  each : ∀ c ∈ calls, c.Split (items.filter fun item => asInt (item.get "index") = some c.index)

end Call

/-- The fragments on a frame. -/
def fragmentsOf (raw : Json) : List Obj :=
  match raw with
  | .arr items => items.filterMap fun item =>
      match item with
      | .obj o => some o
      | _ => none
  | _ => []

variable (E : Env)

/-- The frames' `tool_calls`, accumulated one after the other. -/
def folded (frames : List Json) : Dict Int Part := frames.foldl (accumulateToolCalls E) .empty

/-- `ToolCall(…)`: the contract's models take no text with half of a
surrogate pair. -/
def Env.takes (c : ToolCall) : Bool := E.holds c.id && E.holds c.name && E.holds c.arguments

/-- The calls, each of them constructed. -/
def taken (calls : List ToolCall) : Except Failure (List ToolCall) :=
  if calls.all E.takes then .ok calls else .error .uncaught

variable {E}

/-! ## One call -/

section One
variable {c : Call} {item : Obj}

theorem Call.Carries.take (h : c.Carries item) (p : Part) :
    p.take E item =
      { id := if (item.get "id").truthy then c.id else p.id
        name := if ((dictOf (item.get "function")).get "name").truthy then c.name else p.name
        arguments := p.arguments ++ Call.pieceOf item } := by
  have hid : (if (item.get "id").truthy then E.str (item.get "id") else p.id) =
      if (item.get "id").truthy then c.id else p.id := by
    split
    · rename_i ht
      rw [h.id ht]
      rfl
    · rfl
  have hname : (if ((dictOf (item.get "function")).get "name").truthy then
        E.str ((dictOf (item.get "function")).get "name") else p.name) =
      if ((dictOf (item.get "function")).get "name").truthy then c.name else p.name := by
    split
    · rename_i ht
      rw [h.name ht]
      rfl
    · rfl
  have hargs : (if ((dictOf (item.get "function")).get "arguments").truthy then
        p.arguments ++ E.str ((dictOf (item.get "function")).get "arguments") else p.arguments) =
      p.arguments ++ Call.pieceOf item := by
    split
    · rename_i ht
      obtain ⟨piece, hp⟩ := h.arguments ht
      rw [Call.pieceOf, hp]
      rfl
    · rename_i ht
      have hnil : Call.pieceOf item = [] := by
        rw [Call.pieceOf]
        split
        · rename_i piece hp
          rw [hp] at ht
          simpa [Json.truthy] using ht
        · rfl
      rw [hnil, List.append_nil]
  rw [Part.take, hid, hname, hargs]

/-- The first fragment gives the call its id and its name. -/
theorem Call.Names.take (hn : c.Names item) (h : c.Carries item) :
    ({} : Part).take E item = ⟨c.id, c.name, Call.pieceOf item⟩ := by
  have hid : (item.get "id").truthy = true := by
    rw [hn.id]
    exact decide_eq_true c.id_ne
  have hname : ((dictOf (item.get "function")).get "name").truthy = true := by
    rw [hn.name]
    exact decide_eq_true c.name_ne
  rw [h.take, if_pos hid, if_pos hname, List.nil_append]

/-- The later ones add to its arguments. -/
theorem Call.Carries.more (h : c.Carries item) (a : Text) :
    (⟨c.id, c.name, a⟩ : Part).take E item = ⟨c.id, c.name, a ++ Call.pieceOf item⟩ := by
  rw [h.take, ite_self, ite_self]

theorem foldl_take {items : List Obj} (h : ∀ item ∈ items, c.Carries item) (a : Text) :
    items.foldl (Part.take E) ⟨c.id, c.name, a⟩ = ⟨c.id, c.name, a ++ items.flatMap Call.pieceOf⟩ := by
  induction items generalizing a with
  | nil => rw [List.flatMap_nil, List.append_nil, List.foldl_nil]
  | cons item items ih =>
      rw [List.foldl_cons, (h item List.mem_cons_self).more,
        ih (fun i hi => h i (List.mem_cons_of_mem _ hi)), List.flatMap_cons, List.append_assoc]

/-- What the fragments of a call add up to. -/
theorem Call.Split.fold {items : List Obj} (h : c.Split items) :
    items.foldl (fun o item => some ((o.getD {}).take E item)) none =
      some (⟨c.id, c.name, c.arguments⟩ : Part) := by
  have some_fold : ∀ (l : List Obj) (p : Part),
      l.foldl (fun o item => some ((o.getD {}).take E item)) (some p) = some (l.foldl (Part.take E) p) := by
    intro l
    induction l with
    | nil => exact fun p => rfl
    | cons x l ih => exact fun p => ih (p.take E x)
  obtain ⟨item, rest, rfl, hn⟩ := h.first
  rw [List.foldl_cons, some_fold, Option.getD_none, hn.take (h.carries item List.mem_cons_self),
    foldl_take fun i hi => h.carries i (List.mem_cons_of_mem _ hi), ← List.flatMap_cons, h.arguments]

end One

/-! ## The frames -/

/-- A fragment that carries its index goes to that call, wherever it stands. -/
def put (parts : Dict Int Part) (item : Obj) : Dict Int Part :=
  parts.set (indexOf item 0) (((parts.get? (indexOf item 0)).getD {}).take E item)

theorem indexOf_eq {item : Obj} {i : Int} (h : asInt (item.get "index") = some i) (position : Nat) :
    indexOf item position = i := by
  rw [indexOf, h, Option.getD_some]

theorem accumulateFrom_put : ∀ (items : List Json) (parts : Dict Int Part) (position : Nat),
    (∀ item ∈ fragmentsOf (.arr items), ∃ i, asInt (item.get "index") = some i) →
      accumulateFrom E parts items position = (fragmentsOf (.arr items)).foldl (put (E := E)) parts
  | [], _, _, _ => rfl
  | .obj item :: rest, parts, position, h => by
      obtain ⟨i, hi⟩ := h item List.mem_cons_self
      have ih := accumulateFrom_put rest (put (E := E) parts item) (position + 1)
        fun x hx => h x (List.mem_cons_of_mem _ hx)
      rw [accumulateFrom, indexOf_eq hi]
      rw [put, indexOf_eq hi] at ih
      rw [ih]
      show _ = (fragmentsOf (.arr rest)).foldl _ (put (E := E) parts item)
      rw [put, indexOf_eq hi]
  | .null :: rest, parts, position, h => accumulateFrom_put rest parts (position + 1) h
  | .bool _ :: rest, parts, position, h => accumulateFrom_put rest parts (position + 1) h
  | .int _ :: rest, parts, position, h => accumulateFrom_put rest parts (position + 1) h
  | .float _ :: rest, parts, position, h => accumulateFrom_put rest parts (position + 1) h
  | .str _ :: rest, parts, position, h => accumulateFrom_put rest parts (position + 1) h
  | .arr _ :: rest, parts, position, h => accumulateFrom_put rest parts (position + 1) h

theorem accumulateToolCalls_put (raw : Json) (parts : Dict Int Part)
    (h : ∀ item ∈ fragmentsOf raw, ∃ i, asInt (item.get "index") = some i) :
    accumulateToolCalls E parts raw = (fragmentsOf raw).foldl (put (E := E)) parts := by
  cases raw with
  | arr items => exact accumulateFrom_put items parts 0 h
  | null => rfl
  | bool b => rfl
  | int n => rfl
  | float x => rfl
  | str s => rfl
  | obj fields => rfl

/-- The borders of the frames do not matter. -/
theorem foldl_accumulate (frames : List Json) (parts : Dict Int Part)
    (h : ∀ item ∈ frames.flatMap fragmentsOf, ∃ i, asInt (item.get "index") = some i) :
    frames.foldl (accumulateToolCalls E) parts = (frames.flatMap fragmentsOf).foldl (put (E := E)) parts := by
  induction frames generalizing parts with
  | nil => rfl
  | cons raw frames ih =>
      rw [List.flatMap_cons] at h ⊢
      obtain ⟨hraw, hrest⟩ := List.forall_mem_append.mp h
      rw [List.foldl_cons, accumulateToolCalls_put raw parts hraw, ih _ hrest, List.foldl_append]

section Frames
variable {calls : List Call} {frames : List Json}

/-- What an index has in the end. -/
theorem get?_folded (h : Call.Interleaved calls (frames.flatMap fragmentsOf)) (k : Int) :
    (folded E frames).get? k =
      ((frames.flatMap fragmentsOf).filter fun item => asInt (item.get "index") = some k).foldl
        (fun o item => some ((o.getD {}).take E item)) none := by
  have hindex : ∀ item ∈ frames.flatMap fragmentsOf, ∃ i, asInt (item.get "index") = some i := by
    intro item hitem
    obtain ⟨c, -, hc⟩ := h.every item hitem
    exact ⟨c.index, hc⟩
  have hput := Dict.get?_foldl_put (fun item => indexOf item 0) (Part.take E) {}
    (frames.flatMap fragmentsOf) .empty k
  have hfilter : ((frames.flatMap fragmentsOf).filter fun item => decide (indexOf item 0 = k)) =
      (frames.flatMap fragmentsOf).filter fun item => asInt (item.get "index") = some k := by
    refine List.filter_congr fun item hitem => ?_
    obtain ⟨i, hi⟩ := hindex item hitem
    rw [indexOf_eq hi, hi]
    exact decide_eq_decide.mpr Option.some_inj.symm
  rw [folded, foldl_accumulate frames .empty hindex]
  rw [hfilter] at hput
  exact hput

theorem get?_folded_call (h : Call.Interleaved calls (frames.flatMap fragmentsOf)) {c : Call} (hc : c ∈ calls) :
    (folded E frames).get? c.index = some ⟨c.id, c.name, c.arguments⟩ := by
  rw [get?_folded h]
  exact (h.each c hc).fold

/-- Only the calls' indices have anything. -/
theorem get?_folded_some (h : Call.Interleaved calls (frames.flatMap fragmentsOf)) {k : Int} {p : Part}
    (hk : (folded E frames).get? k = some p) : ∃ c ∈ calls, c.index = k := by
  by_contra hno
  rw [get?_folded h] at hk
  have hnil : ((frames.flatMap fragmentsOf).filter fun item => asInt (item.get "index") = some k) = [] := by
    refine List.filter_eq_nil_iff.mpr fun item hitem heq => hno ?_
    obtain ⟨c, hc, hindex⟩ := h.every item hitem
    exact ⟨c, hc, Option.some.inj (hindex.symm.trans (of_decide_eq_true heq))⟩
  rw [hnil] at hk
  cases hk

/-- The parts in index order are the calls in theirs. -/
theorem inOrder_folded (hsorted : calls.Pairwise fun c c' => c.index < c'.index)
    (h : Call.Interleaved calls (frames.flatMap fragmentsOf)) :
    inOrder (folded E frames) = calls.map fun c => ⟨c.id, c.name, c.arguments⟩ := by
  have hmap : (calls.map fun c => (c.index, (⟨c.id, c.name, c.arguments⟩ : Part))).Pairwise
      fun a b => a.1 < b.1 := List.pairwise_map.mpr hsorted
  have hperm : (folded E frames).items.Perm (calls.map fun c => (c.index, ⟨c.id, c.name, c.arguments⟩)) := by
    refine (List.perm_ext_iff_of_nodup (List.Nodup.of_map _ (folded E frames).nodup) ?_).mpr ?_
    · exact hmap.imp fun {a b} hlt heq => absurd hlt (by rw [heq]; exact lt_irrefl _)
    · rintro ⟨k, p⟩
      rw [Dict.mem_iff]
      constructor
      · intro hk
        obtain ⟨c, hc, rfl⟩ := get?_folded_some h hk
        rw [get?_folded_call h hc] at hk
        cases hk
        exact List.mem_map.mpr ⟨c, hc, rfl⟩
      · intro hm
        obtain ⟨c, hc, heq⟩ := List.mem_map.mp hm
        cases heq
        exact get?_folded_call h hc
  have heq : ((folded E frames).items.insertionSort fun a b => a.1 ≤ b.1) =
      calls.map fun c => (c.index, ⟨c.id, c.name, c.arguments⟩) := by
    have : Std.Total fun a b : Int × Part => a.1 ≤ b.1 := ⟨fun a b => le_total a.1 b.1⟩
    have : IsTrans (Int × Part) fun a b => a.1 ≤ b.1 := ⟨fun a b c => le_trans⟩
    refine List.Perm.eq_of_pairwise (fun a b ha hb hab hba => ?_) (List.pairwise_insertionSort _ _)
      (hmap.imp le_of_lt) ((List.perm_insertionSort _ _).trans hperm)
    have ha := Dict.mem_iff.mp ((List.mem_insertionSort _).mp ha)
    have hb := Dict.mem_iff.mp (hperm.mem_iff.mpr hb)
    have hkey := le_antisymm hab hba
    rw [hkey] at ha
    exact Prod.ext hkey (Option.some.inj (ha.symm.trans hb))
  rw [inOrder, heq, List.map_map]
  rfl

/-! ## The lists -/

/-- A named call under its own id is what it is. -/
theorem finishToolCalls_folded (hsorted : calls.Pairwise fun c c' => c.index < c'.index)
    (h : Call.Interleaved calls (frames.flatMap fragmentsOf)) (hex : Nat → Text) :
    finishToolCalls hex (folded E frames) = calls.map Call.made := by
  rw [finishToolCalls, inOrder_folded hsorted h, List.filter_eq_self.mpr]
  · refine List.ext_getElem ?_ fun i h₁ h₂ => ?_
    · rw [List.length_mapIdx, List.length_map, List.length_map]
    · rw [List.getElem_mapIdx, List.getElem_map, List.getElem_map, if_neg (Call.id_ne _)]
      rfl
  · intro p hp
    obtain ⟨c, -, rfl⟩ := List.mem_map.mp hp
    exact decide_eq_true c.name_ne

theorem orEmpty_str (E : Env) (s : Text) : E.orEmpty (.str s) = s := by
  cases s with
  | nil => rfl
  | cons c s => rfl

/-- A call of the array is read as it stands. -/
theorem callFromWire_complete {c : Call} {item : Obj} (h : c.Complete item) (hex : Text) :
    callFromWire E hex (.obj item) = if E.takes c.made then .ok (some c.made) else .error .uncaught := by
  have hid : (Json.str c.id).truthy = true := decide_eq_true c.id_ne
  have hname : (Json.str c.name).truthy = true := decide_eq_true c.name_ne
  have htakes : E.takes c.made = true ↔ E.holdsAll (some c.id) ∧ E.holds c.name ∧ E.holds c.arguments := by
    rw [Env.takes, Bool.and_eq_true, Bool.and_eq_true, and_assoc]
    rfl
  rw [callFromWire, h.name, h.id, h.arguments, if_pos hname, if_pos hid, orEmpty_str, toolCall]
  split
  · rename_i hall
    rw [if_pos (htakes.mpr hall)]
    rfl
  · rename_i hall
    rw [if_neg fun ht => hall (htakes.mp ht)]
    rfl

theorem callsFrom_complete {whole : List Obj} (h : List.Forall₂ Call.Complete calls whole) (hex : Nat → Text)
    (position : Nat) :
    callsFrom E hex (whole.map .obj) position = taken E (calls.map Call.made) := by
  induction h generalizing position with
  | nil => rfl
  | @cons c item calls whole hc _ ih =>
      rw [List.map_cons, List.map_cons, callsFrom, callFromWire_complete hc, ih, taken, taken, List.all_cons]
      cases E.takes c.made with
      | false => rfl
      | true =>
          cases (calls.map Call.made).all E.takes with
          | false => rfl
          | true => rfl

/-- **Calls put together from fragments are the calls of the whole array**,
whatever the mixing and the cutting; and the list they come to is that of
the calls. -/
theorem folded_calls {whole : List Obj} (hsorted : calls.Pairwise fun c c' => c.index < c'.index)
    (hframes : Call.Interleaved calls (frames.flatMap fragmentsOf))
    (hwhole : List.Forall₂ Call.Complete calls whole) (E : Env) (hex hex' : Nat → Text) :
    taken E (finishToolCalls hex (folded E frames)) = toolCallsFromWire E hex' (.arr (whole.map .obj)) ∧
      finishToolCalls hex (folded E frames) = calls.map Call.made := by
  have hfold := finishToolCalls_folded (E := E) hsorted hframes hex
  refine ⟨?_, hfold⟩
  rw [hfold]
  exact (callsFrom_complete hwhole hex' 0).symm

end Frames

/-- The first fragment of a call, or all of it. -/
def Call.opening (c : Call) (piece : Text) : Obj :=
  [("index".toList, .int c.index), ("id".toList, .str c.id),
    ("function".toList, .obj [("name".toList, .str c.name), ("arguments".toList, .str piece)])]

/-- A fragment that adds to a call. -/
def Call.further (c : Call) (piece : Text) : Obj :=
  [("index".toList, .int c.index), ("function".toList, .obj [("arguments".toList, .str piece)])]

theorem Call.carries_opening (c : Call) (piece : Text) : c.Carries (c.opening piece) :=
  ⟨fun _ => rfl, fun _ => rfl, fun _ => ⟨piece, rfl⟩⟩

theorem Call.carries_further (c : Call) (piece : Text) : c.Carries (c.further piece) :=
  ⟨fun h => absurd h Bool.false_ne_true, fun h => absurd h Bool.false_ne_true, fun _ => ⟨piece, rfl⟩⟩

/-- Two calls, the first in two pieces on either side of the second. -/
theorem folded_calls_mixed : ∃ a b : Call, a.index = 0 ∧ b.index = 4 ∧
    taken (.ofTable []) (finishToolCalls (fun _ => []) (folded (.ofTable [])
      [.arr [.obj (a.opening "1".toList), .obj (b.opening [])], .arr [.obj (a.further "2".toList)]])) =
    toolCallsFromWire (.ofTable []) (fun _ => [])
      (.arr [.obj (a.opening "12".toList), .obj (b.opening [])]) := by
  let a : Call := ⟨0, "a".toList, "f".toList, "12".toList, by decide, by decide⟩
  let b : Call := ⟨4, "b".toList, "g".toList, [], by decide, by decide⟩
  have hsorted : [a, b].Pairwise fun c c' => c.index < c'.index := by decide
  have ha : a.Split [a.opening "1".toList, a.further "2".toList] := by
    refine ⟨List.forall_mem_cons.mpr ⟨a.carries_opening _, List.forall_mem_singleton.mpr (a.carries_further _)⟩,
      ⟨_, _, rfl, ⟨rfl, rfl⟩⟩, rfl⟩
  have hb : b.Split [b.opening []] :=
    ⟨List.forall_mem_singleton.mpr (b.carries_opening _), ⟨_, _, rfl, ⟨rfl, rfl⟩⟩, rfl⟩
  have hframes : Call.Interleaved [a, b]
      (([.arr [.obj (a.opening "1".toList), .obj (b.opening [])], .arr [.obj (a.further "2".toList)]] :
        List Json).flatMap fragmentsOf) := by
    refine ⟨?_, List.forall_mem_cons.mpr ⟨ha, List.forall_mem_singleton.mpr hb⟩⟩
    refine List.forall_mem_cons.mpr ⟨⟨a, List.mem_cons_self, rfl⟩, List.forall_mem_cons.mpr ⟨?_, ?_⟩⟩
    · exact ⟨b, List.mem_cons_of_mem _ List.mem_cons_self, rfl⟩
    · exact List.forall_mem_singleton.mpr ⟨a, List.mem_cons_self, rfl⟩
  have hwhole : List.Forall₂ Call.Complete [a, b] [a.opening "12".toList, b.opening []] :=
    .cons ⟨⟨rfl, rfl⟩, rfl⟩ (.cons ⟨⟨rfl, rfl⟩, rfl⟩ .nil)
  exact ⟨a, b, rfl, rfl, (folded_calls hsorted hframes hwhole (.ofTable []) (fun _ => []) fun _ => []).1⟩

end InferenceDriver.OpenAi
