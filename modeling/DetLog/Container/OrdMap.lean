import Mathlib.Order.Defs.LinearOrder
import Mathlib.Data.List.Basic
import Mathlib.Tactic

/-!
# Ordered maps

A finite map kept as an association list in strictly increasing order of its keys:
the iteration order of a balanced-tree map, which is what makes a program that
walks over one deterministic. The order is part of the type, so two maps with the
same lookups are equal (`OrdMap.ext_find`), and a walk over the entries meets every
key once.
-/

/-- A finite map, as the list of its entries in increasing order of keys. -/
structure OrdMap (κ ν : Type*) [LinearOrder κ] where
  /-- The entries, in iteration order. -/
  entries : List (κ × ν)
  /-- The keys strictly increase. -/
  sorted : entries.Pairwise fun a b => a.1 < b.1

namespace OrdMap

variable {κ ν ν' : Type*} [LinearOrder κ] {m : OrdMap κ ν} {k : κ} {l : List (κ × ν)} {v : ν}

instance [DecidableEq ν] : DecidableEq (OrdMap κ ν) := fun m m' =>
  decidable_of_iff (m.entries = m'.entries) (by cases m; cases m'; simp)

/-- The map without entries. -/
def empty : OrdMap κ ν := ⟨[], List.Pairwise.nil⟩

instance : EmptyCollection (OrdMap κ ν) := ⟨empty⟩

instance : Inhabited (OrdMap κ ν) := ⟨∅⟩

/-- The number of entries. -/
def size (m : OrdMap κ ν) : ℕ := m.entries.length

/-- The value of the first entry at a key. -/
def findEntry (k : κ) : List (κ × ν) → Option ν
  | [] => none
  | e :: l => if k = e.1 then some e.2 else findEntry k l

/-- The value at a key. -/
def find (m : OrdMap κ ν) (k : κ) : Option ν := findEntry k m.entries

/-- The keys, in iteration order. -/
def keys (m : OrdMap κ ν) : List κ := m.entries.map Prod.fst

/-- Insertion in key order, replacing the entry at the same key. -/
def insertEntry (k : κ) (v : ν) : List (κ × ν) → List (κ × ν)
  | [] => [(k, v)]
  | e :: l =>
    if k < e.1 then (k, v) :: e :: l
    else if k = e.1 then (k, v) :: l
    else e :: insertEntry k v l

theorem mem_insertEntry {e : κ × ν} (h : e ∈ insertEntry k v l) : e = (k, v) ∨ e ∈ l := by
  induction l with
  | nil => exact Or.inl (by simpa [insertEntry] using h)
  | cons d l ih =>
    rw [insertEntry] at h
    split_ifs at h with h₁ h₂
    · simpa using h
    · rcases List.mem_cons.mp h with h | h
      · exact Or.inl h
      · exact Or.inr (List.mem_cons_of_mem d h)
    · rcases List.mem_cons.mp h with rfl | h
      · exact Or.inr List.mem_cons_self
      · exact (ih h).imp id (List.mem_cons_of_mem d)

theorem sorted_insertEntry (h : l.Pairwise fun a b => a.1 < b.1) :
    (insertEntry k v l).Pairwise fun a b => a.1 < b.1 := by
  induction l with
  | nil => simp [insertEntry]
  | cons d l ih =>
    obtain ⟨hd, hl⟩ := List.pairwise_cons.mp h
    rw [insertEntry]
    split_ifs with h₁ h₂
    · refine List.pairwise_cons.mpr ⟨fun e he => ?_, h⟩
      rcases List.mem_cons.mp he with rfl | he
      · exact h₁
      · exact h₁.trans (hd e he)
    · exact List.pairwise_cons.mpr ⟨fun e he => h₂ ▸ hd e he, hl⟩
    · refine List.pairwise_cons.mpr ⟨fun e he => ?_, ih hl⟩
      rcases mem_insertEntry he with rfl | he
      · exact lt_of_le_of_ne (not_lt.mp h₁) (Ne.symm h₂)
      · exact hd e he

/-- Assignment at a key. -/
def insert (m : OrdMap κ ν) (k : κ) (v : ν) : OrdMap κ ν :=
  ⟨insertEntry k v m.entries, sorted_insertEntry m.sorted⟩

/-- Insertion that leaves an entry at the key as it is. -/
def emplace (m : OrdMap κ ν) (k : κ) (v : ν) : OrdMap κ ν :=
  if (m.find k).isSome then m else m.insert k v

/-- The entries that satisfy a test. -/
def filter (m : OrdMap κ ν) (p : κ → ν → Bool) : OrdMap κ ν :=
  ⟨m.entries.filter fun e => p e.1 e.2, m.sorted.filter _⟩

/-- Removal of a key. -/
def erase (m : OrdMap κ ν) (k : κ) : OrdMap κ ν := m.filter fun k' _ => k' ≠ k

/-- A change of every value. -/
def mapValues (m : OrdMap κ ν) (f : ν → ν') : OrdMap κ ν' :=
  ⟨m.entries.map fun e => (e.1, f e.2), List.pairwise_map.mpr m.sorted⟩

/-! ### Lookups -/

@[simp] theorem entries_empty : (∅ : OrdMap κ ν).entries = [] := rfl

@[simp] theorem find_empty (k : κ) : (∅ : OrdMap κ ν).find k = none := rfl

/-- **An entry is what a lookup finds**, because no key occurs twice. -/
theorem mem_entries_iff :
    (k, v) ∈ m.entries ↔ m.find k = some v := by
  obtain ⟨l, hl⟩ := m
  simp only [find]
  induction l with
  | nil => simp [findEntry]
  | cons d l ih =>
    obtain ⟨hd, hl'⟩ := List.pairwise_cons.mp hl
    rw [List.mem_cons, findEntry, ih hl']
    split_ifs with hk
    · -- a later entry at the same key would contradict the order
      have hnot : findEntry k l ≠ some v := fun hv => by
        have := hd (k, v) ((ih hl').mpr hv)
        exact absurd hk this.ne'
      refine ⟨fun h => ?_, fun h => Or.inl ?_⟩
      · rcases h with rfl | h
        · rfl
        · exact absurd h hnot
      · exact Prod.ext hk (Option.some.inj h).symm
    · refine ⟨fun h => ?_, Or.inr⟩
      rcases h with rfl | h
      · exact absurd rfl hk
      · exact h

theorem nodup_keys (m : OrdMap κ ν) : m.keys.Nodup :=
  List.pairwise_map.mpr (m.sorted.imp fun h => ne_of_lt h)

theorem ext_entries {m m' : OrdMap κ ν} (h : m.entries = m'.entries) : m = m' := by
  cases m
  cases m'
  simpa using h

@[ext] theorem ext_find {m m' : OrdMap κ ν} (h : ∀ k, m.find k = m'.find k) : m = m' := by
  have hmem : ∀ e, e ∈ m.entries ↔ e ∈ m'.entries := fun e => by
    rw [← Prod.mk.eta (p := e), mem_entries_iff, mem_entries_iff, h]
  have hperm : m.entries.Perm m'.entries :=
    (List.perm_ext_iff_of_nodup m.nodup_keys.of_map m'.nodup_keys.of_map).mpr hmem
  exact ext_entries
    (hperm.eq_of_pairwise (fun a b _ _ hab hba => absurd hab hba.asymm) m.sorted m'.sorted)

@[simp] theorem find_insert_self (m : OrdMap κ ν) (k : κ) (v : ν) :
    (m.insert k v).find k = some v := by
  obtain ⟨l, hl⟩ := m
  simp only [find, insert]
  clear hl
  induction l with
  | nil => simp [insertEntry, findEntry]
  | cons d l ih =>
    rw [insertEntry]
    split_ifs with h₁ h₂
    · simp [findEntry]
    · simp [findEntry]
    · simpa [findEntry, h₂] using ih

@[simp] theorem find_insert_of_ne (m : OrdMap κ ν) {k k' : κ} (v : ν) (hk : k' ≠ k) :
    (m.insert k v).find k' = m.find k' := by
  obtain ⟨l, hl⟩ := m
  simp only [find, insert]
  clear hl
  induction l with
  | nil => simp [insertEntry, findEntry, hk]
  | cons d l ih =>
    rw [insertEntry]
    split_ifs with h₁ h₂
    · simp [findEntry, hk]
    · subst h₂
      simp [findEntry, hk]
    · simp [findEntry, ih]

theorem find_insert (m : OrdMap κ ν) (k k' : κ) (v : ν) :
    (m.insert k v).find k' = if k' = k then some v else m.find k' := by
  split_ifs with h
  · rw [h, find_insert_self]
  · rw [find_insert_of_ne m v h]

theorem find_insert_cases {k k' : κ} {v w : ν} (h : (m.insert k v).find k' = some w) :
    (k' = k ∧ w = v) ∨ (k' ≠ k ∧ m.find k' = some w) := by
  by_cases hk : k' = k
  · rw [hk, find_insert_self] at h
    exact Or.inl ⟨hk, (Option.some.inj h).symm⟩
  · rw [find_insert_of_ne _ _ hk] at h
    exact Or.inr ⟨hk, h⟩

theorem forall_insert {P : κ → ν → Prop} (hnew : P k v)
    (hold : ∀ k' w, m.find k' = some w → P k' w) :
    ∀ k' w, (m.insert k v).find k' = some w → P k' w := by
  intro k' w h
  rcases find_insert_cases h with ⟨rfl, rfl⟩ | ⟨-, h⟩
  · exact hnew
  · exact hold k' w h

theorem insert_insert (m : OrdMap κ ν) (k : κ) (v w : ν) :
    (m.insert k v).insert k w = m.insert k w := by
  ext k' : 1
  by_cases hk : k' = k
  · rw [hk, find_insert_self, find_insert_self]
  · rw [find_insert_of_ne _ _ hk, find_insert_of_ne _ _ hk, find_insert_of_ne _ _ hk]

/-- The keys of a list that pass a test, all inserted with one value. -/
theorem find_foldl_insert (q : κ → Prop) [DecidablePred q] (v : ν) (k : κ) (keys : List κ)
    (m : OrdMap κ ν) :
    (keys.foldl (fun m key => if q key then m.insert key v else m) m).find k =
      if k ∈ keys ∧ q k then some v else m.find k := by
  induction keys generalizing m with
  | nil => simp
  | cons key keys ih =>
    rw [List.foldl_cons, ih]
    by_cases hk : k = key
    · subst hk
      by_cases hq : q k <;> simp [hq]
    · by_cases hq : q key <;> simp [hq, hk]

/-- A key above all others goes to the end. -/
theorem entries_insert_of_lt (v : ν) (h : ∀ k' ∈ m.keys, k' < k) :
    (m.insert k v).entries = m.entries ++ [(k, v)] := by
  obtain ⟨l, hl⟩ := m
  change insertEntry k v l = l ++ [(k, v)]
  replace h : ∀ e ∈ l, e.1 < k := fun e he => h e.1 (List.mem_map.mpr ⟨e, he, rfl⟩)
  clear hl
  induction l with
  | nil => rfl
  | cons d l ih =>
    have hd : d.1 < k := h d List.mem_cons_self
    rw [insertEntry, if_neg hd.asymm, if_neg hd.ne', ih fun e he => h e (List.mem_cons_of_mem d he)]
    rfl

/-- The first entry is removed. -/
theorem entries_erase_of_head (h : m.entries = (k, v) :: l) : (m.erase k).entries = l := by
  have hsorted := m.sorted
  rw [h, List.pairwise_cons] at hsorted
  change m.entries.filter (fun e => decide (e.1 ≠ k)) = l
  rw [h, List.filter_cons_of_neg (by simp)]
  exact List.filter_eq_self.mpr fun e he => by simpa using (hsorted.1 e he).ne'

theorem find_filter {p : κ → ν → Bool} :
    (m.filter p).find k = some v ↔ m.find k = some v ∧ p k v = true := by
  rw [← mem_entries_iff, ← mem_entries_iff]
  simp [filter]

@[simp] theorem find_erase_self (m : OrdMap κ ν) (k : κ) : (m.erase k).find k = none := by
  rw [Option.eq_none_iff_forall_ne_some]
  intro v hv
  simpa using (find_filter.mp hv).2

@[simp] theorem find_erase_of_ne (m : OrdMap κ ν) {k k' : κ} (hk : k' ≠ k) :
    (m.erase k).find k' = m.find k' := by
  refine Option.ext fun v => ?_
  rw [erase, find_filter]
  simp [hk]

theorem find_erase (m : OrdMap κ ν) (k k' : κ) :
    (m.erase k).find k' = if k' = k then none else m.find k' := by
  split_ifs with h
  · rw [h, find_erase_self]
  · exact find_erase_of_ne m h

theorem find_mapValues (m : OrdMap κ ν) (f : ν → ν') (k : κ) :
    (m.mapValues f).find k = (m.find k).map f := by
  obtain ⟨l, hl⟩ := m
  simp only [find, mapValues]
  clear hl
  induction l with
  | nil => simp [findEntry]
  | cons d l ih =>
    by_cases hd : k = d.1 <;> simp [findEntry, hd, ih]

/-! ### Entries up to order -/

/-- A key that is found is one entry among the others. -/
theorem entries_perm_of_find (h : m.find k = some v) :
    m.entries.Perm ((k, v) :: (m.erase k).entries) := by
  have hnot : (k, v) ∉ (m.erase k).entries := by
    rw [mem_entries_iff, find_erase_self]
    simp
  refine (List.perm_ext_iff_of_nodup m.nodup_keys.of_map
    (List.nodup_cons.mpr ⟨hnot, (m.erase k).nodup_keys.of_map⟩)).mpr ?_
  rintro ⟨k', v'⟩
  rw [List.mem_cons, mem_entries_iff, mem_entries_iff, find_erase, Prod.mk.injEq]
  split_ifs with hk
  · subst hk
    simp [h, eq_comm]
  · simp [hk]

/-- An insertion replaces the entry at its key. -/
theorem entries_insert_perm (m : OrdMap κ ν) (k : κ) (v : ν) :
    (m.insert k v).entries.Perm ((k, v) :: (m.erase k).entries) := by
  have herase : (m.insert k v).erase k = m.erase k := by
    ext k' : 1
    rw [find_erase, find_erase, find_insert]
    split_ifs <;> rfl
  have hperm := entries_perm_of_find (m.find_insert_self k v)
  rwa [herase] at hperm

/-- A sum over the entries, with the one at a key apart. -/
theorem sum_erase (m : OrdMap κ ν) (k : κ) (f : ν → ℕ) :
    ((m.erase k).entries.map fun e => f e.2).sum + (m.find k).elim 0 f =
      (m.entries.map fun e => f e.2).sum := by
  cases h : m.find k with
  | none =>
    have hsame : m.erase k = m := by
      ext k' : 1
      rw [find_erase]
      split_ifs with hk
      · rw [hk, h]
      · rfl
    rw [hsame]
    rfl
  | some v =>
    rw [((entries_perm_of_find h).map _).sum_eq, List.map_cons, List.sum_cons, add_comm]
    rfl

theorem sum_insert (m : OrdMap κ ν) (k : κ) (v : ν) (f : ν → ℕ) :
    ((m.insert k v).entries.map fun e => f e.2).sum + (m.find k).elim 0 f =
      (m.entries.map fun e => f e.2).sum + f v := by
  rw [((m.entries_insert_perm k v).map _).sum_eq, List.map_cons, List.sum_cons, add_assoc,
    sum_erase, add_comm]

end OrdMap
