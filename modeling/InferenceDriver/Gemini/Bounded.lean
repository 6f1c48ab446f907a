/-
# `Gemini.Bounded` — which calls are still remembered

`SignatureCache` drops a call when it is a day old, and the oldest when
there are too many.  Two ways to lose a call, on one ordered map, and what is
left is simple: the latest call of an id, while it has not expired and fewer
others than the bound have come after it (`recall_newest`).  The calls as
they would be if none were lost are `record`; the cache holds, of those that
are still good, the newest (`Kept`).
-/
import InferenceDriver.Gemini.Signatures
import InferenceDriver.Lib.Newest
import Mathlib.Algebra.Order.Ring.Rat
import Mathlib.Data.Finset.Dedup

namespace InferenceDriver.Gemini.SignatureCache

/-! ## The cache in use -/

def used (c : SignatureCache) (u : ℚ × Use) : SignatureCache :=
  match u.2 with
  | .remember callId call => c.remember u.1 callId call
  | .lookUp callId => (c.recallCall u.1 callId).2

theorem step_uses (c : SignatureCache) (u : ℚ × Use) : uses.step c u = some (c.used u) := by
  obtain ⟨now, use⟩ := u
  cases use <;> rfl

/-- The cache after it was used. -/
def after (c : SignatureCache) (us : List (ℚ × Use)) : SignatureCache := us.foldl used c

/-- The ids of the calls that are remembered. -/
def remembered (us : List (ℚ × Use)) : List Text :=
  us.filterMap fun u =>
    match u.2 with
    | .remember callId _ => some callId
    | .lookUp _ => none

/-! ## With none lost -/

/-- An item: the id, with the time it expires and the call. -/
abbrev Item := Text × ℚ × RememberedCall

def record₁ (seconds : ℚ) (l : List Item) (u : ℚ × Use) : List Item :=
  match u.2 with
  | .remember callId call => Newest.erased Prod.fst callId l ++ [(callId, u.1 + seconds, call)]
  | .lookUp _ => l

/-- The latest call of every id, in the order they were remembered. -/
def record (seconds : ℚ) (us : List (ℚ × Use)) : List Item := us.foldl (record₁ seconds) []

variable {seconds : ℚ} {us : List (ℚ × Use)}

theorem record_concat (us : List (ℚ × Use)) (u : ℚ × Use) :
    record seconds (us ++ [u]) = record₁ seconds (record seconds us) u := List.foldl_append

theorem keys_erased (callId : Text) (l : List Item) :
    (Newest.erased Prod.fst callId l).map Prod.fst = (l.map Prod.fst).filter fun id => !(id = callId) := by
  rw [Newest.erased, List.filter_map]
  rfl

theorem erased_self {l : List Item} {callId : Text} (h : callId ∉ l.map Prod.fst) :
    Newest.erased Prod.fst callId l = l := by
  refine List.filter_eq_self.mpr fun e he => ?_
  rw [decide_eq_false fun heq => h (List.mem_map.mpr ⟨e, he, heq⟩)]
  rfl

theorem record_nodup (us : List (ℚ × Use)) : ((record seconds us).map Prod.fst).Nodup := by
  induction us using List.reverseRecOn with
  | nil => exact List.nodup_nil
  | append_singleton us u ih =>
      rw [record_concat]
      obtain ⟨now, use⟩ := u
      cases use with
      | lookUp callId => exact ih
      | remember callId call =>
          show ((Newest.erased Prod.fst callId (record seconds us) ++ [_]).map Prod.fst).Nodup
          rw [List.map_append, keys_erased]
          refine (ih.filter _).append (List.nodup_singleton _) ?_
          rintro id hid hid'
          have hne := (List.mem_filter.mp hid).2
          rw [show id = callId from List.mem_singleton.mp hid'] at hne
          simp at hne

/-- Every item was remembered. -/
theorem mem_record {e : Item} (h : e ∈ record seconds us) :
    ∃ t, (t, Use.remember e.1 e.2.2) ∈ us ∧ e.2.1 = t + seconds := by
  induction us using List.reverseRecOn with
  | nil => cases h
  | append_singleton us u ih =>
      rw [record_concat] at h
      have hold : e ∈ record seconds us → ∃ t, (t, Use.remember e.1 e.2.2) ∈ us ++ [u] ∧ e.2.1 = t + seconds := by
        intro hmem
        obtain ⟨t, ht, he⟩ := ih hmem
        exact ⟨t, List.mem_append_left _ ht, he⟩
      obtain ⟨now, use⟩ := u
      cases use with
      | lookUp callId => exact hold h
      | remember callId call =>
          rcases List.mem_append.mp h with h | h
          · exact hold (List.mem_filter.mp h).1
          · rw [List.mem_singleton] at h
            subst h
            exact ⟨now, List.mem_append_right _ List.mem_cons_self, rfl⟩

/-- The longer an item has been there, the sooner it expires. -/
theorem record_pairwise (h : us.Pairwise fun u v => u.1 ≤ v.1) :
    (record seconds us).Pairwise fun e e' => e.2.1 ≤ e'.2.1 := by
  induction us using List.reverseRecOn with
  | nil => exact List.Pairwise.nil
  | append_singleton us u ih =>
      obtain ⟨hus, -, hlast⟩ := List.pairwise_append.mp h
      rw [record_concat]
      obtain ⟨now, use⟩ := u
      cases use with
      | lookUp callId => exact ih hus
      | remember callId call =>
          refine List.pairwise_append.mpr ⟨(ih hus).filter _, List.pairwise_singleton _ _, ?_⟩
          intro e he e' he'
          rw [List.mem_singleton] at he'
          obtain ⟨t, ht, hexpires⟩ := mem_record (List.mem_filter.mp he).1
          rw [he', hexpires]
          exact add_le_add (hlast _ ht _ List.mem_cons_self) (le_refl seconds)

/-- The latest call of an id is there, and after it are the ids remembered since. -/
theorem record_latest (before : List (ℚ × Use)) (t : ℚ) (id : Text) (call : RememberedCall)
    {since : List (ℚ × Use)} (h : ∀ u ∈ since, Other [id] u) :
    ∃ older newer, record seconds (before ++ (t, .remember id call) :: since) =
        older ++ (id, t + seconds, call) :: newer ∧
      ∀ id', id' ∈ newer.map Prod.fst ↔ id' ∈ remembered since := by
  induction since using List.reverseRecOn with
  | nil =>
      refine ⟨_, [], record_concat before _, fun id' => ?_⟩
      exact Iff.rfl
  | append_singleton since u ih =>
      obtain ⟨older, newer, hrecord, hkeys⟩ := ih fun v hv => h v (List.mem_append_left _ hv)
      have hother := h u (List.mem_append_right _ List.mem_cons_self)
      rw [← List.cons_append, ← List.append_assoc, record_concat, hrecord]
      obtain ⟨now, use⟩ := u
      cases use with
      | lookUp callId =>
          have hlast : remembered (since ++ [(now, .lookUp callId)]) = remembered since :=
            List.filterMap_append.trans (List.append_nil _)
          rw [hlast]
          exact ⟨older, newer, rfl, hkeys⟩
      | remember callId call' =>
          have hne : id ≠ callId := fun heq => hother id List.mem_cons_self call' (by rw [heq])
          refine ⟨Newest.erased Prod.fst callId older,
            Newest.erased Prod.fst callId newer ++ [(callId, now + seconds, call')], ?_, fun id' => ?_⟩
          · show Newest.erased Prod.fst callId (older ++ _ :: newer) ++ _ = _
            rw [Newest.erased, List.filter_append, List.filter_cons_of_pos (by simpa using hne), List.append_assoc]
            rfl
          · have hlast : remembered (since ++ [(now, .remember callId call')]) = remembered since ++ [callId] :=
              List.filterMap_append
            rw [hlast, List.map_append, keys_erased, List.mem_append, List.mem_append, List.mem_filter, hkeys]
            rcases eq_or_ne id' callId with rfl | hid
            · simp
            · simp [hid]

/-- An id that is remembered was remembered a last time. -/
theorem exists_latest {id : Text} {call : RememberedCall} {t : ℚ} (h : (t, Use.remember id call) ∈ us) :
    ∃ before t' call' since, us = before ++ (t', .remember id call') :: since ∧ ∀ u ∈ since, Other [id] u := by
  induction us using List.reverseRecOn with
  | nil => cases h
  | append_singleton us u ih =>
      rcases Classical.em (Other [id] u) with hu | hu
      · rcases List.mem_append.mp h with h | h
        · obtain ⟨before, t', call', since, hus, hsince⟩ := ih h
          refine ⟨before, t', call', since ++ [u], ?_, ?_⟩
          · rw [hus, List.append_assoc, List.cons_append]
          · intro v hv
            rcases List.mem_append.mp hv with hv | hv
            · exact hsince v hv
            · rw [List.mem_singleton.mp hv]
              exact hu
        · rw [List.mem_singleton] at h
          exact absurd (congrArg Prod.snd h).symm (hu id List.mem_cons_self call)
      · simp only [Other, List.mem_singleton, forall_eq, not_forall, not_not] at hu
        obtain ⟨call', hcall⟩ := hu
        refine ⟨us, u.1, call', [], ?_, fun v hv => by cases hv⟩
        rw [← hcall]

/-! ## What is kept -/

/-- An item that has not expired. -/
def fresh (now : ℚ) (e : Item) : Bool := now < e.2.1

/-- Of what is still good, the newest, and no more than the bound. -/
structure Kept (n : Nat) (seconds : ℚ) (us : List (ℚ × Use)) (c : SignatureCache) : Prop where
  bound : c.entries = n
  lasts : c.seconds = seconds
  length : c.items.items.length ≤ n
  sublist : c.items.items.Sublist (record seconds us)
  newest : ∀ now, (∀ u ∈ us, u.1 ≤ now) →
    c.items.items.filter (fresh now) = ((record seconds us).filter (fresh now)).rtake n

/-- What is newer lasts longer. -/
theorem fresh_pairwise {l : List Item} (h : l.Pairwise fun e e' => e.2.1 ≤ e'.2.1) (now : ℚ) :
    l.Pairwise fun e e' => fresh now e = true → fresh now e' = true :=
  h.imp fun hle hfresh => decide_eq_true ((of_decide_eq_true hfresh).trans_le hle)

theorem filter_erased (p : Item → Bool) (callId : Text) (l : List Item) :
    (Newest.erased Prod.fst callId l).filter p = Newest.erased Prod.fst callId (l.filter p) := by
  rw [Newest.erased, Newest.erased, List.filter_filter, List.filter_filter]
  exact List.filter_congr fun e _ => Bool.and_comm _ _

variable {n : Nat} {c : SignatureCache}

/-- A call is remembered. -/
theorem Kept.remember (h : Kept n seconds us c) {now : ℚ} {callId : Text} {call : RememberedCall}
    (htimes : (us ++ [(now, Use.remember callId call)]).Pairwise fun u v => u.1 ≤ v.1) :
    Kept n seconds (us ++ [(now, .remember callId call)]) (c.remember now callId call) := by
  have hsorted := @record_pairwise seconds _ htimes
  have hrecord := @record_concat seconds us (now, .remember callId call)
  have hsub : (Newest.erased Prod.fst callId c.items.items ++ [(callId, now + seconds, call)]).Sublist
      (record seconds (us ++ [(now, .remember callId call)])) :=
    hrecord ▸ (h.sublist.filter _).append (List.Sublist.refl _)
  have hitems : (c.remember now callId call).items.items =
      (Newest.erased Prod.fst callId c.items.items ++ [(callId, now + seconds, call)]).rtake n := by
    rw [← h.bound, ← h.lasts]
    rfl
  refine ⟨h.bound, h.lasts, h.bound ▸ c.length_remember now callId call, ?_, fun now' hnow' => ?_⟩
  · rw [hitems]
    exact (Newest.rtake_suffix _ n).sublist.trans hsub
  · have hkept := h.newest now' fun u hu => hnow' u (List.mem_append_left _ hu)
    have hlast : now ≤ now' := hnow' _ (List.mem_append_right _ List.mem_cons_self)
    have hnodup : (((record seconds us).filter (fresh now')).map Prod.fst).Nodup :=
      (record_nodup us).sublist (List.filter_sublist.map _)
    rw [hitems, Newest.filter_rtake (fresh_pairwise (hsorted.sublist hsub) now'), List.filter_append, filter_erased,
      hkept, hrecord]
    show _ = ((Newest.erased Prod.fst callId _ ++ _).filter _).rtake n
    rw [List.filter_append, filter_erased]
    cases hfresh : fresh now' (callId, now + seconds, call) with
    | true =>
        rw [List.filter_cons_of_pos hfresh]
        exact Newest.rtake_erased hnodup callId _ n
    | false =>
        -- all that came before has expired as well
        have hgone : (record seconds us).filter (fresh now') = [] := by
          refine List.filter_eq_nil_iff.mpr fun e he hgood => ?_
          obtain ⟨t, ht, hexpires⟩ := mem_record he
          have hbefore : t ≤ now := (List.pairwise_append.mp htimes).2.2 _ ht _ List.mem_cons_self
          have hle : e.2.1 ≤ now + seconds := hexpires ▸ add_le_add hbefore (le_refl seconds)
          exact Bool.eq_false_iff.mp hfresh (decide_eq_true ((of_decide_eq_true hgood).trans_le hle))
        rw [hgone, List.rtake_nil]

/-- A call is looked up: what is dropped is no good. -/
theorem Kept.lookUp (h : Kept n seconds us c) (now : ℚ) (callId : Text) :
    Kept n seconds (us ++ [(now, .lookUp callId)]) (c.recallCall now callId).2 := by
  have hrecord := @record_concat seconds us (now, .lookUp callId)
  have hsame : Kept n seconds (us ++ [(now, .lookUp callId)]) c := by
    refine ⟨h.bound, h.lasts, h.length, hrecord ▸ h.sublist, fun now' hnow' => ?_⟩
    rw [h.newest now' fun u hu => hnow' u (List.mem_append_left _ hu), hrecord]
    rfl
  rw [recallCall]
  split
  · exact hsame
  · rename_i expires call hget
    split
    · rename_i hexpired
      refine ⟨hsame.bound, hsame.lasts, (List.length_filter_le _ _).trans hsame.length,
        List.filter_sublist.trans hsame.sublist, fun now' hnow' => ?_⟩
      rw [← hsame.newest now' hnow']
      have hlast : now ≤ now' := hnow' _ (List.mem_append_right _ List.mem_cons_self)
      show (Newest.erased Prod.fst callId c.items.items).filter _ = _
      rw [filter_erased]
      refine erased_self fun hmem => ?_
      obtain ⟨e, he, hid⟩ := List.mem_map.mp hmem
      obtain ⟨hitem, hgood⟩ := List.mem_filter.mp he
      have heq : c.items.get? callId = some e.2 := Dict.mem_iff.mp (hid ▸ hitem)
      rw [hget] at heq
      have hexpires : expires = e.2.1 := congrArg Prod.fst (Option.some.inj heq)
      exact absurd (hexpired.trans hlast) (not_le.mpr (hexpires ▸ of_decide_eq_true hgood))
    · exact hsame

/-- However the cache is used. -/
theorem kept_after (hnew : c.items = .empty) (htimes : us.Pairwise fun u v => u.1 ≤ v.1) :
    Kept c.entries c.seconds us (c.after us) := by
  induction us using List.reverseRecOn with
  | nil =>
      have hnil : c.items.items = [] := congrArg Dict.items hnew
      refine ⟨rfl, rfl, ?_, ?_, fun now _ => ?_⟩
      · exact (congrArg List.length hnil).trans_le (Nat.zero_le _)
      · exact hnil ▸ List.nil_sublist _
      · show c.items.items.filter _ = List.rtake [] _
        rw [hnil, List.rtake_nil]
        rfl
  | append_singleton us u ih =>
      have ih := ih (List.pairwise_append.mp htimes).1
      have hafter : c.after (us ++ [u]) = (c.after us).used u := List.foldl_append
      rw [hafter]
      obtain ⟨now, use⟩ := u
      cases use with
      | remember callId call => exact ih.remember htimes
      | lookUp callId => exact ih.lookUp now callId

/-- What is recalled is among the newest that are good. -/
theorem Kept.recall_iff (h : Kept n seconds us c) {now : ℚ} (hnow : ∀ u ∈ us, u.1 ≤ now) {id : Text}
    {call : RememberedCall} : (c.recallCall now id).1 = some call ↔
      ∃ expires, (id, expires, call) ∈ ((record seconds us).filter (fresh now)).rtake n := by
  rw [recall_eq_some, ← h.newest now hnow]
  refine exists_congr fun expires => ?_
  rw [← Dict.mem_iff, List.mem_filter]
  exact and_congr_right fun _ => decide_eq_true_iff.symm

/-- The latest call of an id is kept while it is good and few others came after it. -/
theorem latest_kept (htimes : us.Pairwise fun u v => u.1 ≤ v.1) {before since : List (ℚ × Use)} {t : ℚ} {id : Text}
    {call : RememberedCall} (hus : us = before ++ (t, .remember id call) :: since)
    (hsince : ∀ u ∈ since, Other [id] u) (now expires : ℚ) (call' : RememberedCall) :
    (id, expires, call') ∈ ((record seconds us).filter (fresh now)).rtake n ↔
      (expires = t + seconds ∧ call' = call) ∧ now < t + seconds ∧ (remembered since).toFinset.card < n := by
  obtain ⟨older, newer, hrecord, hkeys⟩ := @record_latest seconds before t id call since hsince
  have hsorted := @record_pairwise seconds _ htimes
  have hnodup := @record_nodup seconds us
  rw [hus, hrecord] at hsorted hnodup
  have hcard : (remembered since).toFinset.card = newer.length := by
    have hset : (remembered since).toFinset = (newer.map Prod.fst).toFinset := by
      ext id'
      rw [List.mem_toFinset, List.mem_toFinset, hkeys]
    have hnewer : (newer.map Prod.fst).Nodup := by
      rw [List.map_append, List.map_cons] at hnodup
      exact (List.nodup_cons.mp (List.nodup_append.mp hnodup).2.1).2
    rw [hset, List.toFinset_card_of_nodup hnewer, List.length_map]
  rw [hus, hrecord, hcard, List.filter_append]
  have hsingle : ∀ {expires call'}, (id, expires, call') ∈ older ++ (id, t + seconds, call) :: newer →
      expires = t + seconds ∧ call' = call := by
    intro expires call' hmem
    have heq := List.inj_on_of_nodup_map hnodup hmem (List.mem_append_right _ List.mem_cons_self) rfl
    cases heq
    exact ⟨rfl, rfl⟩
  have hmemOf : ∀ {e : Item}, e ∈ (older.filter (fresh now) ++
      ((id, t + seconds, call) :: newer).filter (fresh now)).rtake n →
      e ∈ older ++ (id, t + seconds, call) :: newer ∧ now < e.2.1 := by
    intro e he
    have he := (Newest.rtake_suffix _ n).subset he
    rw [← List.filter_append, List.mem_filter] at he
    exact ⟨he.1, of_decide_eq_true he.2⟩
  rcases lt_or_ge now (t + seconds) with hgood | hexpired
  · have hall : ((id, t + seconds, call) :: newer).filter (fresh now) = (id, t + seconds, call) :: newer := by
      refine List.filter_eq_self.mpr fun e he => ?_
      rcases List.mem_cons.mp he with rfl | he
      · exact decide_eq_true hgood
      · have hle := (List.pairwise_cons.mp (List.pairwise_append.mp hsorted).2.1).1 e he
        exact decide_eq_true (hgood.trans_le hle)
    have hnodup' : (older.filter (fresh now) ++ (id, t + seconds, call) :: newer).Nodup :=
      (List.Nodup.of_map _ hnodup).sublist (List.filter_sublist.append_right _)
    rw [hall]
    constructor
    · intro hmem
      have hsame := hsingle (hmemOf (by rw [hall]; exact hmem)).1
      rw [hsame.1, hsame.2] at hmem
      exact ⟨hsame, hgood, (Newest.mem_rtake hnodup').mp hmem⟩
    · rintro ⟨⟨rfl, rfl⟩, -, hfew⟩
      exact (Newest.mem_rtake hnodup').mpr hfew
  · constructor
    · intro hmem
      obtain ⟨hmem, hlt⟩ := hmemOf hmem
      have hsame := hsingle hmem
      exact absurd hexpired (not_le.mpr (hsame.1 ▸ hlt))
    · rintro ⟨-, hgood, -⟩
      exact absurd hexpired (not_le.mpr hgood)

/-- **The latest call of an id is recalled, and only that, until it expires or too many others are remembered.** -/
theorem recall_newest {c : SignatureCache} (hnew : c.items = .empty) {us : List (ℚ × Use)} {now : ℚ}
    (htimes : us.Pairwise fun u v => u.1 ≤ v.1) (hnow : ∀ u ∈ us, u.1 ≤ now) (id : Text) :
    (c.after us).items.items.length ≤ c.entries ∧
      ∀ call, ((c.after us).recallCall now id).1 = some call ↔
        ∃ before t since, us = before ++ (t, .remember id call) :: since ∧ (∀ u ∈ since, Other [id] u) ∧
          now < t + c.seconds ∧ (remembered since).toFinset.card < c.entries := by
  have hkept := kept_after hnew htimes
  refine ⟨hkept.length, fun call => ?_⟩
  rw [hkept.recall_iff hnow]
  constructor
  · rintro ⟨expires, hmem⟩
    obtain ⟨t₀, ht₀, -⟩ := mem_record (List.mem_filter.mp ((Newest.rtake_suffix _ _).subset hmem)).1
    obtain ⟨before, t, call', since, hus, hsince⟩ := exists_latest ht₀
    obtain ⟨⟨-, rfl⟩, hgood, hfew⟩ := (latest_kept htimes hus hsince now expires call).mp hmem
    exact ⟨before, t, since, hus, hsince, hgood, hfew⟩
  · rintro ⟨before, t, since, hus, hsince, hgood, hfew⟩
    exact ⟨t + c.seconds, (latest_kept htimes hus hsince now _ call).mpr ⟨⟨rfl, rfl⟩, hgood, hfew⟩⟩

/-- With room for one, the second call is recalled. -/
theorem recall_newest_one :
    (({ entries := 1 : SignatureCache }.after [(0, .remember "a".toList ⟨"f".toList, none, true⟩),
        (1, .remember "b".toList ⟨"g".toList, none, true⟩)]).recallCall 2 "b".toList).1 =
      some ⟨"g".toList, none, true⟩ := by
  refine ((recall_newest rfl ?_ ?_ "b".toList).2 _).mpr ⟨[_], 1, [], rfl, ?_, ?_, ?_⟩
  · simp
  · simp
  · simp
  · norm_num
  · exact Nat.zero_lt_one

end InferenceDriver.Gemini.SignatureCache
