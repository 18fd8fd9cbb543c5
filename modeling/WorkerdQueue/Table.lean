import Mathlib

/-! The two kj tables of a queue event's result: `kj::HashSet<kj::String>` for
the explicit acks and `kj::HashMap<kj::String, ...>` for the retries. Rows keep
the order they were added in (the code never erases one), and a key is never
stored twice; both facts are fields, so no table can be built without them. -/

namespace WorkerdQueue

theorem nodup_append_singleton {β : Type} {l : List β} {x : β} (hx : x ∉ l) (h : l.Nodup) :
    (l ++ [x]).Nodup := by
  simpa using h.concat hx

/-- `kj::HashSet<kj::String>`: the ids in insertion order, each at most once. -/
@[ext] structure IdSet where
  ids : List String
  nodup : ids.Nodup

namespace IdSet

def empty : IdSet := ⟨[], List.nodup_nil⟩

instance : EmptyCollection IdSet := ⟨empty⟩

def contains (s : IdSet) (id : String) : Bool := decide (id ∈ s.ids)

def findOrCreate (s : IdSet) (id : String) : IdSet :=
  if h : id ∈ s.ids then s else ⟨s.ids ++ [id], nodup_append_singleton h s.nodup⟩

/-- `insert` throws on a row that is already there; `none` is that exception. -/
def insert (s : IdSet) (id : String) : Option IdSet :=
  if h : id ∈ s.ids then none else some ⟨s.ids ++ [id], nodup_append_singleton h s.nodup⟩

def insertAll : IdSet → List String → Option IdSet
  | s, [] => some s
  | s, id :: rest => (s.insert id).bind (insertAll · rest)

@[simp] theorem empty_ids : (∅ : IdSet).ids = [] := rfl

@[simp] theorem contains_iff {s : IdSet} {id : String} : s.contains id = true ↔ id ∈ s.ids := by
  simp [contains]

theorem mem_findOrCreate {s : IdSet} {id x : String} :
    x ∈ (s.findOrCreate id).ids ↔ x ∈ s.ids ∨ x = id := by
  unfold findOrCreate
  split <;> rename_i h
  · exact ⟨.inl, fun hx => hx.elim (fun hm => hm) (fun he => he ▸ h)⟩
  · simp

theorem findOrCreate_of_mem {s : IdSet} {id : String} (h : id ∈ s.ids) : s.findOrCreate id = s := by
  rw [findOrCreate, dif_pos h]

theorem findOrCreate_findOrCreate (s : IdSet) (id : String) :
    (s.findOrCreate id).findOrCreate id = s.findOrCreate id :=
  findOrCreate_of_mem (mem_findOrCreate.mpr (.inr rfl))

theorem insertAll_eq_some {s : IdSet} {ids : List String} (hn : ids.Nodup)
    (hd : ∀ id ∈ ids, id ∉ s.ids) :
    ∃ h, s.insertAll ids = some ⟨s.ids ++ ids, h⟩ := by
  induction ids generalizing s with
  | nil => exact ⟨by simpa using s.nodup, by simp [insertAll]⟩
  | cons id rest ih =>
    rw [List.nodup_cons] at hn
    have hid := hd id (List.mem_cons_self _ _)
    obtain ⟨h', he⟩ := @ih ⟨s.ids ++ [id], nodup_append_singleton hid s.nodup⟩
      hn.2 (fun x hx hm => by
        rcases List.mem_append.mp hm with hm | hm
        · exact hd x (List.mem_cons_of_mem _ hx) hm
        · exact hn.1 (by simpa [List.mem_singleton.mp hm] using hx))
    refine ⟨by simpa using h', ?_⟩
    simpa [insertAll, insert, hid] using he

theorem insertAll_ids {s t : IdSet} {ids : List String} (h : s.insertAll ids = some t) :
    t.ids = s.ids ++ ids := by
  induction ids generalizing s with
  | nil => cases h; simp
  | cons id rest ih =>
    obtain ⟨s', hs', h⟩ := Option.bind_eq_some.mp h
    rw [ih h]
    unfold insert at hs'
    split at hs' <;> cases hs'
    simp

end IdSet

/-- `kj::HashMap<kj::String, α>`: entries in insertion order, no key twice. -/
@[ext] structure IdMap (α : Type) where
  entries : List (String × α)
  nodup : (entries.map Prod.fst).Nodup

namespace IdMap

variable {α : Type}

def empty : IdMap α := ⟨[], List.nodup_nil⟩

instance : EmptyCollection (IdMap α) := ⟨empty⟩

def keys (m : IdMap α) : List String := m.entries.map Prod.fst

def find (m : IdMap α) (id : String) : Option α := m.entries.lookup id

def replaceValue (entries : List (String × α)) (id : String) (v : α) : List (String × α) :=
  entries.map fun e => if e.1 = id then (id, v) else e

theorem replaceValue_keys (entries : List (String × α)) (id : String) (v : α) :
    (replaceValue entries id v).map Prod.fst = entries.map Prod.fst := by
  rw [replaceValue, List.map_map]
  refine List.map_congr_left fun e _ => ?_
  by_cases h : e.1 = id <;> simp only [Function.comp_apply, h, if_true, if_false]

def upsert (m : IdMap α) (id : String) (v : α) : IdMap α :=
  if h : id ∈ m.keys then ⟨replaceValue m.entries id v, (replaceValue_keys _ _ _).symm ▸ m.nodup⟩
  else ⟨m.entries ++ [(id, v)], by simpa using nodup_append_singleton h m.nodup⟩

def upsertAll (m : IdMap α) (entries : List (String × α)) : IdMap α :=
  entries.foldl (fun m e => m.upsert e.1 e.2) m

@[simp] theorem empty_entries : (∅ : IdMap α).entries = [] := rfl

@[simp] theorem find_empty (x : String) : (∅ : IdMap α).find x = none := rfl

theorem lookup_eq_none {entries : List (String × α)} {x : String} :
    entries.lookup x = none ↔ x ∉ entries.map Prod.fst := by
  induction entries with
  | nil => exact iff_of_true rfl (List.not_mem_nil _)
  | cons e rest ih =>
    obtain ⟨k, v⟩ := e
    by_cases hk : x = k
    · subst hk
      simp only [List.lookup, beq_self_eq_true, reduceCtorEq, List.map_cons, List.mem_cons, true_or,
        not_true_eq_false]
    · have hb : (x == k) = false := beq_false_of_ne hk
      simp only [List.lookup, hb, ih, List.map_cons, List.mem_cons, hk, false_or]

theorem find_eq_none {m : IdMap α} {x : String} : m.find x = none ↔ x ∉ m.keys :=
  lookup_eq_none

theorem replaceValue_cons (k id : String) (w v : α) (rest : List (String × α)) :
    replaceValue ((k, w) :: rest) id v =
      (if k = id then (id, v) else (k, w)) :: replaceValue rest id v := rfl

theorem lookup_replaceValue (entries : List (String × α)) (id x : String) (v : α) :
    (replaceValue entries id v).lookup x =
      if x = id then (if id ∈ entries.map Prod.fst then some v else none) else entries.lookup x := by
  induction entries with
  | nil => simp only [replaceValue, List.map_nil, List.lookup, List.not_mem_nil, if_false, ite_self]
  | cons e rest ih =>
    obtain ⟨k, w⟩ := e
    rw [replaceValue_cons]
    by_cases hk : k = id
    · subst hk
      rw [if_pos rfl]
      by_cases hx : x = k
      · subst hx
        simp only [if_true, List.lookup, beq_self_eq_true, List.map_cons, List.mem_cons, true_or]
      · have hb : (x == k) = false := beq_false_of_ne hx
        simp only [List.lookup, hb, ih, hx, if_false]
    · rw [if_neg hk]
      have hk' : id ≠ k := Ne.symm hk
      by_cases hx : x = k
      · subst hx
        simp only [hk, if_false, List.lookup, beq_self_eq_true]
      · have hb : (x == k) = false := beq_false_of_ne hx
        simp only [List.lookup, hb, ih, List.map_cons, List.mem_cons, hk', false_or]

theorem find_upsert (m : IdMap α) (id x : String) (v : α) :
    (m.upsert id v).find x = if x = id then some v else m.find x := by
  unfold upsert find
  split <;> rename_i h
  · rw [lookup_replaceValue]
    by_cases hx : x = id
    · simp only [hx, if_true, show id ∈ m.entries.map Prod.fst from h]
    · simp only [hx, if_false]
  · rw [List.lookup_append]
    by_cases hx : x = id
    · subst hx
      rw [lookup_eq_none.mpr h]
      simp only [Option.none_or, List.lookup, beq_self_eq_true, if_true]
    · have hb : (x == id) = false := beq_false_of_ne hx
      simp only [List.lookup, hb, Option.or_none, hx, if_false]

theorem mem_keys_iff {m : IdMap α} {x : String} : x ∈ m.keys ↔ m.find x ≠ none := by
  rw [ne_eq, find_eq_none, not_not]

theorem mem_keys_upsert {m : IdMap α} {id x : String} {v : α} :
    x ∈ (m.upsert id v).keys ↔ x ∈ m.keys ∨ x = id := by
  rw [mem_keys_iff, mem_keys_iff, find_upsert]
  split <;> simp_all

theorem replaceValue_of_not_mem {entries : List (String × α)} {id : String} (v : α)
    (h : id ∉ entries.map Prod.fst) : replaceValue entries id v = entries :=
  (List.map_congr_left (g := fun e => e) fun e he =>
    if_neg fun hk : e.1 = id => h (hk ▸ List.mem_map_of_mem Prod.fst he)).trans (List.map_id' entries)

theorem replaceValue_replaceValue (entries : List (String × α)) (id : String) (v : α) :
    replaceValue (replaceValue entries id v) id v = replaceValue entries id v := by
  rw [replaceValue, replaceValue, List.map_map]
  refine List.map_congr_left fun e _ => ?_
  by_cases h : e.1 = id <;> simp only [Function.comp_apply, h, if_true, if_false]

theorem upsert_of_mem {m : IdMap α} {id : String} (v : α) (h : id ∈ m.keys) :
    (m.upsert id v).entries = replaceValue m.entries id v := by
  rw [upsert, dif_pos h]

theorem upsert_of_not_mem {m : IdMap α} {id : String} (v : α) (h : id ∉ m.keys) :
    (m.upsert id v).entries = m.entries ++ [(id, v)] := by
  simp [upsert, h]

theorem upsert_upsert (m : IdMap α) (id : String) (v : α) :
    (m.upsert id v).upsert id v = m.upsert id v := by
  ext1
  rw [upsert_of_mem v (mem_keys_upsert.mpr (.inr rfl))]
  by_cases h : id ∈ m.keys
  · rw [upsert_of_mem v h, replaceValue_replaceValue]
  · rw [upsert_of_not_mem v h, replaceValue, List.map_append, ← replaceValue,
      replaceValue_of_not_mem v h, List.map_singleton, if_pos rfl]

theorem find_upsertAll (m : IdMap α) (es : List (String × α)) (x : String) :
    (m.upsertAll es).find x = (es.reverse.lookup x).or (m.find x) := by
  induction es generalizing m with
  | nil => rfl
  | cons e rest ih =>
    rw [upsertAll, List.foldl_cons, ← upsertAll, ih, find_upsert, List.reverse_cons, List.lookup_append]
    by_cases hx : x = e.1
    · subst hx
      simp only [List.lookup, beq_self_eq_true, if_true]
      cases rest.reverse.lookup e.1 <;> rfl
    · have hb : (x == e.1) = false := beq_false_of_ne hx
      simp [List.lookup, hb, hx]

theorem upsertAll_entries {m : IdMap α} {es : List (String × α)} (hn : (es.map Prod.fst).Nodup)
    (hd : ∀ e ∈ es, e.1 ∉ m.keys) : (m.upsertAll es).entries = m.entries ++ es := by
  induction es generalizing m with
  | nil => simp [upsertAll]
  | cons e rest ih =>
    rw [List.map_cons, List.nodup_cons] at hn
    have he := hd e (List.mem_cons_self _ _)
    have hrest : ∀ e' ∈ rest, e'.1 ∉ (m.upsert e.1 e.2).keys := fun e' he' hm => by
      rcases mem_keys_upsert.mp hm with hm | hm
      · exact hd e' (List.mem_cons_of_mem _ he') hm
      · exact hn.1 (hm ▸ List.mem_map_of_mem _ he')
    simp only [upsertAll, List.foldl_cons] at ih ⊢
    rw [ih hn.2 hrest, upsert_of_not_mem _ he, List.append_assoc]
    rfl

end IdMap

end WorkerdQueue
