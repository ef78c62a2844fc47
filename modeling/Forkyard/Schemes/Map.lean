import Mathlib.Data.Finmap
import Mathlib.Tactic

/-! Finite maps as a program uses its hash maps: looked up, inserted into, erased from, extended by
    a list of pairs and laid one over another. Mathlib's `Finmap` is extensional, so two maps with
    the same entries are one value; what is added here are the case forms of its lookup lemmas, the
    bulk `extend`, and what it means for a list to enumerate a map in some iteration order. -/

namespace Schemes

/-- A hash map: finitely many entries, in no order of their own. -/
abbrev Map (K V : Type) := Finmap fun _ : K => V

namespace Map

variable {K V : Type} [DecidableEq K]

theorem lookup_insert_eq (m : Map K V) (k k' : K) (v : V) :
    (m.insert k v).lookup k' = if k' = k then some v else m.lookup k' := by
  by_cases h : k' = k
  · rw [if_pos h, h, Finmap.lookup_insert]
  · rw [if_neg h, Finmap.lookup_insert_of_ne m h]

/-- Inserting at a free key adds one entry. -/
theorem lookup_insert_free {m : Map K V} {k : K} (h : m.lookup k = none) (v : V) (k' : K) :
    (m.insert k v).lookup k' = (m.lookup k').or (if k' = k then some v else none) := by
  rw [lookup_insert_eq]
  by_cases hk : k' = k
  · rw [if_pos hk, if_pos hk, hk, h, Option.none_or]
  · rw [if_neg hk, if_neg hk, Option.or_none]

theorem lookup_erase_eq (m : Map K V) (k k' : K) :
    (m.erase k).lookup k' = if k' = k then none else m.lookup k' := by
  by_cases h : k' = k
  · rw [if_pos h, h, Finmap.lookup_erase]
  · rw [if_neg h, Finmap.lookup_erase_ne h]

/-- The left map of a union wins. -/
theorem lookup_union (s t : Map K V) (k : K) : (s ∪ t).lookup k = (s.lookup k).or (t.lookup k) := by
  by_cases h : k ∈ s
  · obtain ⟨v, hv⟩ := Finmap.mem_iff.mp h
    rw [Finmap.lookup_union_left h, hv, Option.some_or]
  · rw [Finmap.lookup_union_right h, Finmap.lookup_eq_none.mpr h, Option.none_or]

/-- What is found after an insert is what was inserted, or was found before it. -/
theorem of_lookup_insert {m : Map K V} {k k' : K} {v v' : V}
    (h : (m.insert k v).lookup k' = some v') : (k' = k ∧ v' = v) ∨ m.lookup k' = some v' := by
  rw [lookup_insert_eq] at h
  by_cases hk : k' = k
  · rw [if_pos hk] at h
    exact .inl ⟨hk, (Option.some.inj h).symm⟩
  · rw [if_neg hk] at h
    exact .inr h

theorem of_lookup_erase {m : Map K V} {k k' : K} {v' : V} (h : (m.erase k).lookup k' = some v') :
    m.lookup k' = some v' := by
  rw [lookup_erase_eq] at h
  by_cases hk : k' = k
  · rw [if_pos hk] at h
    cases h
  · rwa [if_neg hk] at h

theorem of_lookup_union {s t : Map K V} {k : K} {v : V} (h : (s ∪ t).lookup k = some v) :
    s.lookup k = some v ∨ t.lookup k = some v := by
  rw [lookup_union, Option.or_eq_some_iff] at h
  exact h.imp_right And.right

/-- Erasing what was inserted at a free key leaves the map as it was. -/
theorem erase_insert {m : Map K V} {k : K} (v : V) (h : m.lookup k = none) :
    (m.insert k v).erase k = m :=
  Finmap.ext_lookup fun k' => by
    rw [lookup_erase_eq, lookup_insert_eq]
    by_cases hk : k' = k
    · rw [if_pos hk, hk, h]
    · rw [if_neg hk, if_neg hk]

/-- Rust's `retain`: only the entries whose value passes. -/
def retain (p : V → Bool) (m : Map K V) : Map K V :=
  ⟨m.entries.filter fun e => p e.2, by
    have hle := Multiset.map_le_map (f := Sigma.fst) (Multiset.filter_le (fun e => p e.2) m.entries)
    exact Multiset.nodup_keys.mp (Multiset.nodup_of_le hle m.nodupKeys.nodup_keys)⟩

theorem lookup_retain (p : V → Bool) (m : Map K V) (k : K) :
    (m.retain p).lookup k = (m.lookup k).filter p := by
  ext v
  rw [Option.filter_eq_some_iff, Finmap.lookup_eq_some_iff, Finmap.lookup_eq_some_iff, retain,
    Multiset.mem_filter]

/-- Rust's `extend`: every pair inserted in order, a later pair over an earlier one. -/
def extend (m : Map K V) (kvs : List (K × V)) : Map K V :=
  kvs.foldl (fun m kv => m.insert kv.1 kv.2) m

/-- The value the last pair for `k` carries. -/
def lastOf : List (K × V) → K → Option V
  | [], _ => none
  | kv :: kvs, k => (lastOf kvs k).or (if k = kv.1 then some kv.2 else none)

theorem lastOf_none {k : K} : ∀ {kvs : List (K × V)}, k ∉ kvs.map Prod.fst → lastOf kvs k = none
  | [], _ => rfl
  | kv :: kvs, h => by
    rw [List.map_cons, List.mem_cons, not_or] at h
    rw [lastOf, lastOf_none h.2, Option.none_or, if_neg h.1]

theorem lookup_extend (k : K) : ∀ (kvs : List (K × V)) (m : Map K V),
    (m.extend kvs).lookup k = (lastOf kvs k).or (m.lookup k)
  | [], _ => rfl
  | kv :: kvs, m => by
    have hrec := lookup_extend k kvs (m.insert kv.1 kv.2)
    simp only [extend, List.foldl_cons] at hrec ⊢
    rw [hrec, lookup_insert_eq, lastOf]
    by_cases hk : k = kv.1 <;> cases lastOf kvs k <;> simp [hk]

theorem mem_of_lastOf {k : K} {v : V} : ∀ {kvs : List (K × V)}, lastOf kvs k = some v →
    (k, v) ∈ kvs
  | [], h => by cases h
  | kv :: kvs, h => by
    rw [lastOf, Option.or_eq_some_iff] at h
    rcases h with h | ⟨-, h⟩
    · exact List.mem_cons_of_mem kv (mem_of_lastOf h)
    · by_cases hk : k = kv.1
      · rw [if_pos hk] at h
        rw [hk, ← Option.some.inj h]
        exact List.mem_cons_self
      · rw [if_neg hk] at h
        cases h

theorem lastOf_ne_none {k : K} {v : V} : ∀ {kvs : List (K × V)}, (k, v) ∈ kvs → lastOf kvs k ≠ none
  | kv :: kvs, h => by
    rw [lastOf, Ne, Option.or_eq_none_iff, not_and]
    rcases List.mem_cons.mp h with rfl | h
    · simp
    · exact fun hnone => absurd hnone (lastOf_ne_none h)

/-- And something for the key of each of them. -/
theorem lookup_extend_ne_none {k : K} {v : V} {kvs : List (K × V)} (h : (k, v) ∈ kvs) :
    (extend ∅ kvs).lookup k ≠ none := by
  rw [lookup_extend, Finmap.lookup_empty, Option.or_none]
  exact lastOf_ne_none h

/-- A map collected from pairs holds nothing but these. -/
theorem mem_of_lookup_extend {k : K} {v : V} {kvs : List (K × V)}
    (h : (extend ∅ kvs).lookup k = some v) : (k, v) ∈ kvs := by
  rw [lookup_extend, Finmap.lookup_empty, Option.or_none] at h
  exact mem_of_lastOf h

/-- `l` lists the entries of `m`, each once: one of the orders in which the map may be iterated. -/
structure Enumerates (m : Map K V) (l : List (K × V)) : Prop where
  nodup : (l.map Prod.fst).Nodup
  mem_iff : ∀ k v, (k, v) ∈ l ↔ m.lookup k = some v

theorem lastOf_eq_some_iff {k : K} {v : V} : ∀ {kvs : List (K × V)}, (kvs.map Prod.fst).Nodup →
    (lastOf kvs k = some v ↔ (k, v) ∈ kvs)
  | [], _ => by simp [lastOf]
  | kv :: kvs, h => by
    rw [List.map_cons, List.nodup_cons] at h
    refine ⟨mem_of_lastOf, fun hmem => ?_⟩
    rcases List.mem_cons.mp hmem with rfl | hmem
    · rw [lastOf, lastOf_none h.1, Option.none_or, if_pos rfl]
    · rw [lastOf, (lastOf_eq_some_iff h.2).mpr hmem, Option.some_or]

namespace Enumerates

variable {m : Map K V} {l l' : List (K × V)}

theorem perm (h : Enumerates m l) (hperm : l'.Perm l) : Enumerates m l' :=
  ⟨(hperm.map Prod.fst).nodup_iff.mpr h.nodup, fun k v => hperm.mem_iff.trans (h.mem_iff k v)⟩

/-- With `f` applied to each value, the entries are listed by the map with `f` applied to each. -/
theorem mem_map_iff {V' : Type} (h : Enumerates m l) (f : V → V') (k : K) (v' : V') :
    (k, v') ∈ l.map (fun kv => (kv.1, f kv.2)) ↔ (m.lookup k).map f = some v' := by
  rw [List.mem_map, Option.map_eq_some_iff]
  constructor
  · rintro ⟨⟨k', v⟩, hmem, heq⟩
    obtain ⟨rfl, rfl⟩ := Prod.mk.inj heq
    exact ⟨v, (h.mem_iff k' v).mp hmem, rfl⟩
  · rintro ⟨v, hget, rfl⟩
    exact ⟨(k, v), (h.mem_iff k v).mpr hget, rfl⟩

/-- Collected from its entries, whatever is done to each value, a map is the map with that done. -/
theorem lookup_extend_map {V' : Type} (h : Enumerates m l) (f : V → V') (k : K) :
    (extend ∅ (l.map fun kv => (kv.1, f kv.2))).lookup k = (m.lookup k).map f := by
  have hkeys : ((l.map fun kv => (kv.1, f kv.2)).map Prod.fst).Nodup := by
    rw [List.map_map]
    exact h.nodup
  rw [lookup_extend, Finmap.lookup_empty, Option.or_none]
  ext v'
  exact (lastOf_eq_some_iff hkeys).trans (h.mem_map_iff f k v')

/-- Collected from its entries a map is itself. -/
theorem extend_eq (h : Enumerates m l) : extend ∅ l = m :=
  Finmap.ext_lookup fun k => by
    have hmap := h.lookup_extend_map id k
    have hid : l.map (fun kv => (kv.1, id kv.2)) = l := List.map_id l
    rwa [hid, Option.map_id_fun, id_eq] at hmap

/-- CANONICAL: sorted by key, the entries of two maps with `f` applied to each value are one list iff
    the maps agree up to `f`. -/
theorem sorted_map_eq_iff {V' ι : Type} [LinearOrder ι] {m' : Map K V} (h : Enumerates m l)
    (h' : Enumerates m' l') (f : V → V') {rank : K → ι} (hrank : Function.Injective rank) :
    ((l.insertionSort fun x y => rank x.1 ≤ rank y.1).map fun kv => (kv.1, f kv.2))
        = ((l'.insertionSort fun x y => rank x.1 ≤ rank y.1).map fun kv => (kv.1, f kv.2)) ↔
      ∀ k, (m.lookup k).map f = (m'.lookup k).map f := by
  have hsorted := h.perm (List.perm_insertionSort (fun x y => rank x.1 ≤ rank y.1) l)
  have hsorted' := h'.perm (List.perm_insertionSort (fun x y => rank x.1 ≤ rank y.1) l')
  constructor
  · intro heq k
    rw [← hsorted.lookup_extend_map f k, heq, hsorted'.lookup_extend_map f k]
  · intro hagree
    have hordered : ∀ l : List (K × V),
        ((l.insertionSort fun x y => rank x.1 ≤ rank y.1).map fun kv => (kv.1, f kv.2)).Pairwise
          fun x y => rank x.1 ≤ rank y.1 := by
      intro l
      have : Std.Total fun x y : K × V => rank x.1 ≤ rank y.1 := ⟨fun x y => le_total _ _⟩
      have : IsTrans (K × V) fun x y => rank x.1 ≤ rank y.1 := ⟨fun _ _ _ => le_trans⟩
      exact List.pairwise_map.mpr (List.pairwise_insertionSort _ l)
    have hkeys : ∀ {m : Map K V} {l : List (K × V)}, Enumerates m l →
        (l.map fun kv => (kv.1, f kv.2)).Nodup := by
      intro m l h
      refine List.Nodup.of_map Prod.fst ?_
      rw [List.map_map]
      exact h.nodup
    -- two entries of equal rank have one key, and the maps agree on what it holds
    refine List.Perm.eq_of_pairwise ?_ (hordered l) (hordered l') ?_
    · rintro ⟨k, v⟩ ⟨k', v'⟩ hmem hmem' hle hle'
      obtain rfl : k = k' := hrank (le_antisymm hle hle')
      rw [hsorted.mem_map_iff f, hagree] at hmem
      rw [hsorted'.mem_map_iff f, hmem] at hmem'
      rw [Option.some.inj hmem']
    · refine (List.perm_ext_iff_of_nodup (hkeys hsorted) (hkeys hsorted')).mpr fun kv => ?_
      rw [hsorted.mem_map_iff f, hsorted'.mem_map_iff f, hagree]

/-- CANONICAL: sorted by key, the entries of two maps are one list iff the maps are one. -/
theorem sorted_eq_iff {ι : Type} [LinearOrder ι] {m' : Map K V} (h : Enumerates m l)
    (h' : Enumerates m' l') {rank : K → ι} (hrank : Function.Injective rank) :
    (l.insertionSort fun x y => rank x.1 ≤ rank y.1)
        = (l'.insertionSort fun x y => rank x.1 ≤ rank y.1) ↔ m = m' := by
  have hcanonical := h.sorted_map_eq_iff h' id hrank
  have hid : ∀ l : List (K × V), l.map (fun kv => (kv.1, id kv.2)) = l := List.map_id
  rw [hid, hid] at hcanonical
  rw [hcanonical]
  constructor
  · intro hagree
    refine Finmap.ext_lookup fun k => ?_
    simpa using hagree k
  · rintro rfl k
    rfl

end Enumerates

end Map

/-- One way of iterating every hash map. -/
structure HashOrder where
  entries : {K V : Type} → [DecidableEq K] → Map K V → List (K × V)
  enumerates : ∀ {K V : Type} [DecidableEq K] (m : Map K V), Map.Enumerates m (entries m)

namespace HashOrder

variable {K V : Type} [DecidableEq K] (order : HashOrder)

theorem entries_empty : order.entries (∅ : Map K V) = [] :=
  List.eq_nil_iff_forall_not_mem.mpr fun kv hmem => by
    have hget := ((order.enumerates (∅ : Map K V)).mem_iff kv.1 kv.2).mp hmem
    rw [Finmap.lookup_empty] at hget
    cases hget

theorem entries_singleton (k : K) (v : V) :
    order.entries (Finmap.insert k v (∅ : Map K V)) = [(k, v)] := by
  have henum := order.enumerates (Finmap.insert k v (∅ : Map K V))
  have hsingle : Map.Enumerates (Finmap.insert k v (∅ : Map K V)) [(k, v)] := by
    refine ⟨List.nodup_singleton k, fun k' v' => ?_⟩
    rw [List.mem_singleton, Map.lookup_insert_eq, Finmap.lookup_empty]
    by_cases hk : k' = k
    · simp [hk, eq_comm]
    · simp [hk]
  have hperm : List.Perm (order.entries (Finmap.insert k v (∅ : Map K V))) [(k, v)] := by
    refine (List.perm_ext_iff_of_nodup (List.Nodup.of_map _ henum.nodup)
      (List.nodup_singleton _)).mpr fun kv => ?_
    exact (henum.mem_iff kv.1 kv.2).trans (hsingle.mem_iff kv.1 kv.2).symm
  exact List.perm_singleton.mp hperm

end HashOrder

/-- There is always one. -/
noncomputable def HashOrder.some : HashOrder where
  entries m := m.entries.toList.map fun kv => (kv.1, kv.2)
  enumerates {K V} _ m := by
    have hkeys : (m.entries.toList.map Sigma.fst).Nodup := by
      have hnodup := Multiset.nodup_keys.mpr m.nodupKeys
      rw [← Multiset.coe_toList m.entries] at hnodup
      exact hnodup
    refine ⟨by rwa [List.map_map], fun k v => ?_⟩
    rw [Finmap.lookup_eq_some_iff, List.mem_map]
    constructor
    · rintro ⟨⟨k', v'⟩, hmem, heq⟩
      obtain ⟨rfl, rfl⟩ := Prod.mk.inj heq
      exact Multiset.mem_toList.mp hmem
    · exact fun hmem => ⟨⟨k, v⟩, Multiset.mem_toList.mpr hmem, rfl⟩

end Schemes
