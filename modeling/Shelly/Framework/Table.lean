import Mathlib.Data.List.AList
import Mathlib.Data.List.Sort

namespace Shelly

/-- A finite table with one value for each key, in some iteration order. -/
def Table (K V : Type*) := AList fun _ : K => V

namespace Table

variable {K V W : Type*}

def empty : Table K V := (∅ : AList fun _ : K => V)

/-- The entries in iteration order. -/
def entries (t : Table K V) : List (Sigma fun _ : K => V) := AList.entries t

def size (t : Table K V) : Nat := t.entries.length

/-- Keeps the entries that satisfy the test. -/
def retain (p : K → V → Bool) (t : Table K V) : Table K V :=
  AList.mk (t.entries.filter (fun e => p e.1 e.2)) (t.nodupKeys.sublist List.filter_sublist)

/-- Applies a function to every value. -/
def mapVal (f : V → W) (t : Table K V) : Table K W :=
  AList.mk (t.entries.map (.map id fun _ => f)) (t.nodupKeys.map₂ fun _ => f)

/-- How many entries satisfy the test. -/
def count (p : K → V → Bool) (t : Table K V) : Nat := t.entries.countP fun e => p e.1 e.2

variable [DecidableEq K]

def lookup (k : K) (t : Table K V) : Option V := AList.lookup k t

def contains (k : K) (t : Table K V) : Bool := (t.lookup k).isSome

def insert (t : Table K V) (k : K) (v : V) : Table K V := AList.insert k v t

def erase (t : Table K V) (k : K) : Table K V := AList.erase k t

/-- Changes the value at a key that is present. -/
def modify (t : Table K V) (k : K) (f : V → V) : Table K V :=
  match t.lookup k with
  | some v => t.insert k (f v)
  | none => t

/-- Reads every value through a function that may fail; one failure fails the whole. -/
def traverse (f : K → V → Option W) (t : Table K V) : Option (Table K W) :=
  t.entries.foldr (fun e r => r.bind fun u => (f e.1 e.2).map (u.insert e.1)) (some empty)

@[simp] theorem lookup_empty (k : K) : (empty : Table K V).lookup k = none :=
  AList.lookup_empty k

theorem lookup_insert (t : Table K V) (k k' : K) (v : V) :
    (t.insert k v).lookup k' = if k' = k then some v else t.lookup k' := by
  split_ifs with h
  · subst h
    exact AList.lookup_insert (β := fun _ => V) t
  · exact AList.lookup_insert_ne (β := fun _ => V) h

theorem lookup_erase (t : Table K V) (k k' : K) :
    (t.erase k).lookup k' = if k' = k then none else t.lookup k' := by
  split_ifs with h
  · subst h
    exact AList.lookup_erase (β := fun _ => V) k' t
  · exact AList.lookup_erase_ne (β := fun _ => V) h

@[simp] theorem lookup_insert_self (t : Table K V) (k : K) (v : V) :
    (t.insert k v).lookup k = some v := by simp [lookup_insert]

@[simp] theorem lookup_erase_self (t : Table K V) (k : K) : (t.erase k).lookup k = none := by
  simp [lookup_erase]

theorem lookup_insert_ne (t : Table K V) {k k' : K} (v : V) (h : k' ≠ k) :
    (t.insert k v).lookup k' = t.lookup k' := by rw [lookup_insert, if_neg h]

theorem lookup_erase_ne (t : Table K V) {k k' : K} (h : k' ≠ k) :
    (t.erase k).lookup k' = t.lookup k' := by rw [lookup_erase, if_neg h]

theorem mem_entries {t : Table K V} {k : K} {v : V} :
    ⟨k, v⟩ ∈ t.entries ↔ t.lookup k = some v := (AList.mem_lookup_iff (β := fun _ => V)).symm

theorem lookup_retain {p : K → V → Bool} {t : Table K V} {k : K} {v : V} :
    (t.retain p).lookup k = some v ↔ t.lookup k = some v ∧ p k v = true := by
  rw [← mem_entries, ← mem_entries]
  exact List.mem_filter

theorem lookup_mapVal (f : V → W) (t : Table K V) (k : K) :
    (t.mapVal f).lookup k = (t.lookup k).map f := by
  ext w
  rw [← mem_entries, Option.map_eq_some_iff]
  refine List.mem_map.trans ⟨?_, ?_⟩
  · rintro ⟨⟨k', v⟩, hm, he⟩
    obtain ⟨rfl, hw⟩ := Sigma.mk.inj he
    exact ⟨v, mem_entries.mp hm, eq_of_heq hw⟩
  · rintro ⟨v, hv, rfl⟩
    exact ⟨⟨k, v⟩, mem_entries.mpr hv, rfl⟩

theorem lookup_modify (t : Table K V) (k k' : K) (f : V → V) :
    (t.modify k f).lookup k' = if k' = k then (t.lookup k').map f else t.lookup k' := by
  unfold modify
  cases hk : t.lookup k with
  | none =>
    split_ifs with h
    · rw [h, hk]; rfl
    · rfl
  | some v =>
    simp only [lookup_insert]
    split_ifs with h
    · rw [h, hk]; rfl
    · rfl

theorem lookup_modify_ne (t : Table K V) {k k' : K} (f : V → V) (h : k' ≠ k) :
    (t.modify k f).lookup k' = t.lookup k' := by rw [lookup_modify, if_neg h]

private theorem lookup_foldr {f : K → V → Option W} {es : List (Sigma fun _ : K => V)}
    {u : Table K W} (h : es.foldr (fun e r => r.bind fun u => (f e.1 e.2).map (u.insert e.1))
      (some empty) = some u) (k : K) :
    (List.dlookup k es).map (f k) = (u.lookup k).map some := by
  induction es generalizing u with
  | nil =>
    obtain rfl := Option.some.inj h
    rw [lookup_empty]
    rfl
  | cons e es ih =>
    obtain ⟨u', hu', h⟩ := Option.bind_eq_some_iff.mp h
    obtain ⟨w, hw, rfl⟩ := Option.map_eq_some_iff.mp h
    obtain ⟨k', v⟩ := e
    rw [lookup_insert]
    by_cases hk : k = k'
    · subst hk
      rw [if_pos rfl, List.dlookup_cons_eq]
      exact congrArg some hw
    · rw [if_neg hk, List.dlookup_cons_ne _ _ hk]
      exact ih hu'

/-- When all values could be read, each could. -/
theorem map_lookup_traverse {f : K → V → Option W} {t : Table K V} {u : Table K W}
    (h : t.traverse f = some u) (k : K) : (t.lookup k).map (f k) = (u.lookup k).map some :=
  lookup_foldr h k

theorem lookup_traverse {f : K → V → Option W} {t : Table K V} {u : Table K W}
    (h : t.traverse f = some u) (k : K) : u.lookup k = (t.lookup k).bind (f k) := by
  have hmap := map_lookup_traverse h k
  cases hv : t.lookup k with
  | none =>
    rw [hv] at hmap
    exact Option.map_eq_none_iff.mp hmap.symm
  | some v =>
    rw [hv] at hmap
    obtain ⟨w, hw, hfv⟩ := Option.map_eq_some_iff.mp hmap.symm
    rw [hw, Option.bind_some, ← hfv]

/-- If every value can be read, they all can. -/
theorem exists_traverse {f : K → V → Option W} {t : Table K V}
    (h : ∀ k v, t.lookup k = some v → ∃ w, f k v = some w) : ∃ u, t.traverse f = some u := by
  suffices key : ∀ es : List (Sigma fun _ : K => V), (∀ e ∈ es, ∃ w, f e.1 e.2 = some w) →
      ∃ u, es.foldr (fun e r => r.bind fun u => (f e.1 e.2).map (u.insert e.1))
        (some (empty : Table K W)) = some u from
    key t.entries fun e he => h e.1 e.2 (mem_entries.mp he)
  intro es hes
  induction es with
  | nil => exact ⟨empty, rfl⟩
  | cons e es ih =>
    obtain ⟨u, hu⟩ := ih fun e' he' => hes e' (List.mem_cons_of_mem _ he')
    obtain ⟨w, hw⟩ := hes e List.mem_cons_self
    exact ⟨u.insert e.1 w, by rw [List.foldr_cons, hu, Option.bind_some, hw, Option.map_some]⟩

/-- Reading every value of `t` gives `u`. -/
def Reads (f : K → V → Option W) (t : Table K V) (u : Table K W) : Prop :=
  ∀ k, (t.lookup k).map (f k) = (u.lookup k).map some

theorem Reads.lookup {f : K → V → Option W} {t : Table K V} {u : Table K W} (h : t.Reads f u)
    {k : K} {w : W} (hw : u.lookup k = some w) : ∃ v, t.lookup k = some v ∧ f k v = some w := by
  have hk := h k
  rw [hw] at hk
  exact Option.map_eq_some_iff.mp hk

theorem Reads.lookup_row {f : K → V → Option W} {t : Table K V} {u : Table K W}
    (h : t.Reads f u) {k : K} {v : V} (hv : t.lookup k = some v) :
    ∃ w, u.lookup k = some w ∧ f k v = some w := by
  have hk := (h k).symm
  rw [hv] at hk
  obtain ⟨w, hw, hfv⟩ := Option.map_eq_some_iff.mp hk
  exact ⟨w, hw, hfv.symm⟩

theorem reads_iff {f : K → V → Option W} {t : Table K V} {u : Table K W} :
    t.Reads f u ↔ (∀ e ∈ t.entries, (u.lookup e.1).map some = some (f e.1 e.2)) ∧
      ∀ e ∈ u.entries, (t.lookup e.1).isSome = true := by
  constructor
  · intro h
    refine ⟨fun e he => ?_, fun e he => ?_⟩
    · rw [← h e.1, mem_entries.mp he, Option.map_some]
    · obtain ⟨v, hv, -⟩ := h.lookup (mem_entries.mp he)
      rw [hv, Option.isSome_some]
  · rintro ⟨hrows, hentries⟩ k
    cases hv : t.lookup k with
    | some v => exact (hrows ⟨k, v⟩ (mem_entries.mpr hv)).symm
    | none =>
      cases hw : u.lookup k with
      | none => rfl
      | some w =>
        have hrow := hentries ⟨k, w⟩ (mem_entries.mpr hw)
        rw [hv] at hrow
        cases hrow

instance [DecidableEq W] (f : K → V → Option W) (t : Table K V) (u : Table K W) :
    Decidable (t.Reads f u) := decidable_of_iff _ reads_iff.symm

/-- Dropping entries on both sides keeps them alike just when both drop the same. -/
theorem reads_retain_iff {f : K → V → Option W} {t : Table K V} {u : Table K W}
    (h : t.Reads f u) (p : K → V → Bool) (q : K → W → Bool) :
    (t.retain p).Reads f (u.retain q) ↔
      ∀ k v w, t.lookup k = some v → u.lookup k = some w → f k v = some w → p k v = q k w := by
  constructor
  · intro hretain k v w hv hw hfv
    have hk := congrArg Option.isSome (hretain k)
    rw [Option.isSome_map, Option.isSome_map] at hk
    have hp : ((t.retain p).lookup k).isSome = p k v := by
      rw [Bool.eq_iff_iff, Option.isSome_iff_exists]
      simp [lookup_retain, hv]
    have hq : ((u.retain q).lookup k).isSome = q k w := by
      rw [Bool.eq_iff_iff, Option.isSome_iff_exists]
      simp [lookup_retain, hw]
    rw [← hp, ← hq, hk]
  · intro hpq k
    ext r
    simp only [Option.map_eq_some_iff, lookup_retain]
    constructor
    · rintro ⟨v, ⟨hv, hp⟩, rfl⟩
      obtain ⟨w, hw, hfv⟩ := h.lookup_row hv
      exact ⟨w, ⟨hw, hpq k v w hv hw hfv ▸ hp⟩, hfv.symm⟩
    · rintro ⟨w, ⟨hw, hq⟩, rfl⟩
      obtain ⟨v, hv, hfv⟩ := h.lookup hw
      exact ⟨v, ⟨hv, (hpq k v w hv hw hfv).symm ▸ hq⟩, hfv⟩

/-- Nothing but entries of `t`. -/
def Includes (t t' : Table K V) : Prop := ∀ k v, t'.lookup k = some v → t.lookup k = some v

theorem includes_retain (t : Table K V) (p : K → V → Bool) : t.Includes (t.retain p) :=
  fun _ _ h => (lookup_retain.mp h).1

theorem includes_erase (t : Table K V) (k : K) : t.Includes (t.erase k) := by
  intro k' v h
  rw [lookup_erase] at h
  split_ifs at h
  exact h

theorem Includes.trans {t t' t'' : Table K V} (h : t.Includes t') (h' : t'.Includes t'') :
    t.Includes t'' := fun k v hv => h k v (h' k v hv)

/-- What is still there is what was there. -/
theorem Includes.lookup_eq {t t' : Table K V} (h : t.Includes t') {k : K}
    (hk : (t'.lookup k).isSome = true) : t'.lookup k = t.lookup k := by
  obtain ⟨v, hv⟩ := Option.isSome_iff_exists.mp hk
  rw [hv, h k v hv]

theorem Includes.count_le {t t' : Table K V} (h : t.Includes t') (p : K → V → Bool) :
    t'.count p ≤ t.count p := by
  have hsub : t'.entries ⊆ t.entries := by
    intro ⟨k, v⟩ hm
    exact mem_entries.mpr (h k v (mem_entries.mp hm))
  exact (List.subperm_of_subset t'.nodupKeys.nodup hsub).countP_le _

theorem contains_eq_true {t : Table K V} {k : K} :
    t.contains k = true ↔ ∃ v, t.lookup k = some v := Option.isSome_iff_exists

theorem Includes.contains {t t' : Table K V} (h : t.Includes t') {k : K}
    (hk : t'.contains k = true) : t.contains k = true := by
  obtain ⟨v, hv⟩ := contains_eq_true.mp hk
  exact contains_eq_true.mpr ⟨v, h k v hv⟩

theorem contains_eq_false {t : Table K V} {k : K} :
    t.contains k = false ↔ t.lookup k = none := by
  rw [contains, Option.isSome_eq_false_iff, Option.isNone_iff_eq_none]

/-- Replacing a value changes no key. -/
theorem contains_insert_of_contains {t : Table K V} {k : K} {v : V} (h : t.contains k = true)
    (k' : K) : (t.insert k v).contains k' = t.contains k' := by
  unfold contains at h ⊢
  rw [lookup_insert]
  split
  · rename_i heq
    rw [heq, h, Option.isSome_some]
  · rfl

/-- Every value has the property. -/
def All (P : V → Prop) (t : Table K V) : Prop := ∀ k v, t.lookup k = some v → P v

section All

variable {P : V → Prop} {t : Table K V}

theorem all_empty : (empty : Table K V).All P := fun k _ hl => by
  cases (lookup_empty k).symm.trans hl

theorem All.insert (h : t.All P) (k : K) {v : V} (hv : P v) : (t.insert k v).All P := by
  intro k' v' hl
  rw [lookup_insert] at hl
  split at hl
  · cases hl
    exact hv
  · exact h k' v' hl

theorem All.erase (h : t.All P) (k : K) : (t.erase k).All P := by
  intro k' v' hl
  rw [lookup_erase] at hl
  split at hl
  · cases hl
  · exact h k' v' hl

theorem All.modify (h : t.All P) (k : K) {f : V → V} (hf : ∀ v, P v → P (f v)) :
    (t.modify k f).All P := by
  unfold Table.modify
  split
  · rename_i v hl
    exact h.insert k (hf v (h k v hl))
  · exact h

theorem All.retain (h : t.All P) (p : K → V → Bool) : (t.retain p).All P :=
  fun k v hl => h k v (lookup_retain.mp hl).1

end All

omit [DecidableEq K] in
theorem nodup_entries (t : Table K V) : t.entries.Nodup := t.nodupKeys.nodup

omit [DecidableEq K] in
theorem size_retain_le (p : K → V → Bool) (t : Table K V) : (t.retain p).size ≤ t.size :=
  List.length_filter_le _ _

omit [DecidableEq K] in
@[simp] theorem size_mapVal (f : V → W) (t : Table K V) : (t.mapVal f).size = t.size :=
  List.length_map _

theorem size_erase_le (t : Table K V) (k : K) : (t.erase k).size ≤ t.size :=
  (List.kerase_sublist k t.entries).length_le

theorem size_insert_empty_le (k : K) (v : V) : (Table.empty.insert k v).size ≤ 1 :=
  Nat.le_refl 1

theorem entries_perm_erase {t : Table K V} {k : K} {v : V} (h : t.lookup k = some v) :
    t.entries.Perm (⟨k, v⟩ :: (t.erase k).entries) := by
  have hk : ⟨k, v⟩ ∉ (t.erase k).entries := by simp [mem_entries]
  refine (List.perm_ext_iff_of_nodup (nodup_entries t)
    (List.nodup_cons.mpr ⟨hk, nodup_entries _⟩)).mpr ?_
  rintro ⟨k', v'⟩
  rw [List.mem_cons, mem_entries, mem_entries, lookup_erase]
  split_ifs with hkk
  · subst hkk
    simp [h, eq_comm]
  · simp [hkk]

theorem lookup_foldl_erase (t : Table K V) (ks : List K) (k : K) :
    (ks.foldl erase t).lookup k = if k ∈ ks then none else t.lookup k := by
  induction ks generalizing t with
  | nil => rfl
  | cons k' ks ih =>
    rw [List.foldl_cons, ih, lookup_erase]
    by_cases hk : k = k' <;> simp [hk]

/-- Erasing different keys that are present makes the table that much smaller. -/
theorem size_foldl_erase {t : Table K V} {ks : List K} (hnodup : ks.Nodup)
    (h : ∀ k ∈ ks, t.contains k = true) : (ks.foldl erase t).size + ks.length = t.size := by
  induction ks generalizing t with
  | nil => rfl
  | cons k ks ih =>
    obtain ⟨hk, hnodup⟩ := List.nodup_cons.mp hnodup
    obtain ⟨v, hv⟩ := contains_eq_true.mp (h k List.mem_cons_self)
    have hsize : t.size = (t.erase k).size + 1 := (entries_perm_erase hv).length_eq
    have hpresent : ∀ k' ∈ ks, (t.erase k).contains k' = true := by
      intro k' hk'
      have hne : k' ≠ k := fun heq => hk (heq ▸ hk')
      rw [contains, lookup_erase, if_neg hne]
      exact h k' (List.mem_cons_of_mem k hk')
    have hrest := ih hnodup hpresent
    rw [List.foldl_cons, List.length_cons, hsize, ← hrest]
    omega

theorem count_of_lookup (p : K → V → Bool) {t : Table K V} {k : K} {v : V}
    (h : t.lookup k = some v) :
    t.count p = (t.erase k).count p + if p k v then 1 else 0 := by
  rw [count, (entries_perm_erase h).countP_eq, List.countP_cons]
  rfl

theorem erase_of_lookup_none {t : Table K V} {k : K} (h : t.lookup k = none) :
    t.erase k = t := by
  apply AList.ext
  exact List.kerase_of_notMem_keys ((AList.lookup_eq_none (β := fun _ => V)).mp h)

theorem count_erase_le (p : K → V → Bool) (t : Table K V) (k : K) :
    (t.erase k).count p ≤ t.count p := by
  cases h : t.lookup k with
  | none => rw [erase_of_lookup_none h]
  | some v => rw [count_of_lookup p h]; exact Nat.le_add_right _ _

theorem count_insert (p : K → V → Bool) (t : Table K V) (k : K) (v : V) :
    (t.insert k v).count p = (t.erase k).count p + if p k v then 1 else 0 :=
  List.countP_cons

/-- Rewriting one entry without changing what the test says leaves the count. -/
theorem count_modify (p : K → V → Bool) (t : Table K V) (k : K) (f : V → V)
    (hf : ∀ v, p k (f v) = p k v) : (t.modify k f).count p = t.count p := by
  unfold modify
  cases h : t.lookup k with
  | none => rfl
  | some v => rw [count_insert, hf, count_of_lookup p h]

omit [DecidableEq K] in
theorem count_retain_le (p q : K → V → Bool) (t : Table K V) :
    (t.retain q).count p ≤ t.count p :=
  List.filter_sublist.countP_le

/-- Different keys whose entries satisfy the test are counted. -/
theorem length_le_count {t : Table K V} {p : K → V → Bool} {ks : List K}
    (hnodup : ks.Nodup) (h : ∀ k ∈ ks, ∃ v, t.lookup k = some v ∧ p k v = true) :
    ks.length ≤ t.count p := by
  have hsub : ks ⊆ (t.retain p).entries.map (·.1) := by
    intro k hk
    obtain ⟨v, hv⟩ := h k hk
    exact List.mem_map.mpr ⟨⟨k, v⟩, mem_entries.mpr (lookup_retain.mpr hv), rfl⟩
  have hle := (List.subperm_of_subset hnodup hsub).length_le
  rw [List.length_map] at hle
  exact hle.trans_eq List.countP_eq_length_filter.symm

section Order

variable {K V V' W : Type*} [LinearOrder K]

/-- The keys in increasing order. -/
def inOrder (t : Table K V) : List K := (t.entries.map (·.1)).insertionSort (· ≤ ·)

theorem mem_inOrder {t : Table K V} {k : K} : k ∈ t.inOrder ↔ t.contains k = true := by
  rw [inOrder, List.mem_insertionSort, List.mem_map, contains_eq_true]
  constructor
  · rintro ⟨⟨k, v⟩, he, rfl⟩
    exact ⟨v, mem_entries.mp he⟩
  · rintro ⟨v, hv⟩
    exact ⟨⟨k, v⟩, mem_entries.mpr hv, rfl⟩

theorem nodup_inOrder (t : Table K V) : t.inOrder.Nodup :=
  (List.perm_insertionSort _ _).nodup_iff.mpr t.nodupKeys

/-- Which keys a table has besides those that a function is defined on does not matter for the
values of the function in the order of the keys. -/
theorem filterMap_inOrder_congr {f : K → Option W} {t : Table K V} {u : Table K V'}
    (ht : ∀ k, (f k).isSome = true → t.contains k = true)
    (hu : ∀ k, (f k).isSome = true → u.contains k = true) :
    t.inOrder.filterMap f = u.inOrder.filterMap f := by
  have hfilter (l : List K) : l.filterMap f = (l.filter fun k => (f k).isSome).filterMap f := by
    induction l with
    | nil => rfl
    | cons k l ih =>
      cases hk : f k with
      | none => simp [hk, ih]
      | some w => simp [hk, ih]
  have hkeys : (t.inOrder.filter fun k => (f k).isSome) =
      u.inOrder.filter fun k => (f k).isSome := by
    have hperm : (t.inOrder.filter fun k => (f k).isSome).Perm
        (u.inOrder.filter fun k => (f k).isSome) := by
      refine (List.perm_ext_iff_of_nodup (t.nodup_inOrder.filter _) (u.nodup_inOrder.filter _)).mpr
        fun k => ?_
      simp only [List.mem_filter, mem_inOrder]
      exact ⟨fun h => ⟨hu k h.2, h.2⟩, fun h => ⟨ht k h.2, h.2⟩⟩
    refine hperm.eq_of_pairwise' (r := (· ≤ ·)) ?_ ?_
    all_goals exact (List.pairwise_insertionSort _ _).sublist List.filter_sublist
  rw [hfilter, hkeys, ← hfilter]
end Order

end Table
end Shelly
