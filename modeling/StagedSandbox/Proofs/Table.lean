import Mathlib.Tactic.Common
import StagedSandbox.Table

/-!
# Tables in increasing order

What the order of the keys gives beyond the laws of `Table`: a key stands in the listing once, so
a table is determined by what it answers, and inserting, replacing, erasing and filtering keep the
order.
-/

namespace StagedSandbox.Table

variable {κ ν : Type}

/-! ### Members -/

section

variable [DecidableEq κ]

theorem mem_of_get? {t : Table κ ν} {key : κ} {value : ν} (h : t.get? key = some value) :
    (key, value) ∈ t := by
  induction t with
  | nil => simp at h
  | cons pair rest ih =>
    obtain ⟨k, v⟩ := pair
    rw [get?_cons] at h
    split at h
    · next hk =>
      obtain rfl := Option.some.inj h
      rw [hk]
      exact List.mem_cons_self
    · exact List.mem_cons_of_mem _ (ih h)

theorem get?_eq_none_iff {t : Table κ ν} {key : κ} : t.get? key = none ↔ key ∉ t.keys := by
  induction t with
  | nil => simp [keys]
  | cons pair rest ih =>
    obtain ⟨k, v⟩ := pair
    rw [get?_cons]
    by_cases hk : key = k
    · simp [hk, keys]
    · rw [if_neg hk, ih]
      simp [keys, hk]

theorem mem_keys_iff {t : Table κ ν} {key : κ} : key ∈ t.keys ↔ t.get? key ≠ none := by
  rw [ne_eq, get?_eq_none_iff, not_not]

/-- Of two tables that answer alike, each holds the first key of the other. -/
theorem mem_keys_of_first_ne {k k' : κ} {v v' : ν} {rest rest' : Table κ ν}
    (h : ∀ key, get? ((k, v) :: rest) key = get? ((k', v') :: rest') key) (hne : k ≠ k') :
    k ∈ keys rest' := by
  have hin : k ∈ keys ((k', v') :: rest') := by
    rw [mem_keys_iff, ← h k]
    simp [get?_cons]
  exact (List.mem_cons.1 hin).resolve_left hne

/-- A member of a table is what the table answers if no other key is the same. -/
theorem get?_of_mem_of_nodup {t : Table κ ν} (h : t.keys.Nodup) {pair : κ × ν} (hm : pair ∈ t) :
    t.get? pair.1 = some pair.2 := by
  induction t with
  | nil => cases hm
  | cons first rest ih =>
    obtain ⟨hfirst, hrest⟩ := List.nodup_cons.1 h
    rw [get?_cons]
    rcases List.mem_cons.1 hm with rfl | hm
    · exact if_pos rfl
    · have hne : pair.1 ≠ first.1 := fun heq => hfirst (heq ▸ List.mem_map_of_mem hm)
      rw [if_neg hne]
      exact ih hrest hm

theorem get?_set_of_none {t : Table κ ν} {key : κ} (value : ν) (h : t.get? key = none) :
    t.set key value = t := by
  induction t with
  | nil => rfl
  | cons pair rest ih =>
    obtain ⟨k, v⟩ := pair
    rw [get?_cons] at h
    split at h
    · simp at h
    · next hk => rw [set, if_neg hk, ih h]

theorem set_set (t : Table κ ν) (key : κ) (old new : ν) :
    (t.set key old).set key new = t.set key new := by
  induction t with
  | nil => rfl
  | cons pair rest ih =>
    obtain ⟨k, v⟩ := pair
    by_cases hk : key = k
    · simp [set, hk]
    · simp [set, hk, ih]

theorem erase_of_none {t : Table κ ν} {key : κ} (h : t.get? key = none) : t.erase key = t :=
  List.filter_eq_self.2 fun _ hpair => decide_eq_true fun heq =>
    get?_eq_none_iff.1 h (heq ▸ List.mem_map_of_mem hpair)

theorem keys_set (t : Table κ ν) (key : κ) (value : ν) : (t.set key value).keys = t.keys := by
  induction t with
  | nil => rfl
  | cons pair rest ih =>
    obtain ⟨k, v⟩ := pair
    rw [set]
    split
    · rfl
    · simpa [keys] using ih

/-- Entries are dropped by their keys alone. -/
theorem get?_filter (t : Table κ ν) (keep : κ → Bool) (key : κ) :
    get? (t.filter fun pair => keep pair.1) key = if keep key then t.get? key else none := by
  induction t with
  | nil => simp
  | cons pair rest ih =>
    obtain ⟨k, v⟩ := pair
    rw [List.filter_cons]
    by_cases hkey : key = k
    · subst hkey
      cases hk : keep key <;> simp [hk, ih, get?_cons]
    · cases hk : keep k <;> simp [hkey, ih, get?_cons]

end

/-! ### Order -/

theorem increasing_nil [LT κ] : Increasing ([] : Table κ ν) := List.Pairwise.nil

theorem increasing_cons [LT κ] {pair : κ × ν} {rest : Table κ ν} :
    Increasing (pair :: rest) ↔ (∀ key ∈ rest.keys, pair.1 < key) ∧ rest.Increasing := by
  simp only [Increasing, keys, List.map_cons, List.pairwise_cons]

theorem Increasing.filter [LT κ] {t : Table κ ν} (h : t.Increasing) (keep : κ × ν → Bool) :
    Increasing (List.filter keep t) :=
  List.Pairwise.sublist (List.filter_sublist.map Prod.fst) h

theorem Increasing.lt_of_mem_append [LT κ] {before after : Table κ ν} {pair : κ × ν}
    (h : Increasing (before ++ pair :: after)) {key : κ} (hkey : key ∈ keys before) :
    key < pair.1 := by
  rw [Increasing, keys, List.map_append, List.pairwise_append] at h
  exact h.2.2 key hkey pair.1 (List.mem_map_of_mem List.mem_cons_self)

section

variable [DecidableEq κ] [LT κ]

theorem Increasing.set {t : Table κ ν} (h : t.Increasing) (key : κ) (value : ν) :
    (t.set key value).Increasing := by
  rw [Increasing]
  rw [keys_set]
  exact h

theorem Increasing.erase {t : Table κ ν} (h : t.Increasing) (key : κ) :
    (t.erase key).Increasing :=
  h.filter _

omit [DecidableEq κ] in
theorem Increasing.nodup [Std.Irrefl (α := κ) (· < ·)] {t : Table κ ν} (h : t.Increasing) :
    t.keys.Nodup := by
  refine List.Pairwise.imp ?_ h
  rintro first second hlt rfl
  exact Std.Irrefl.irrefl _ hlt

/-- What is in a table in order is what it answers. -/
theorem Increasing.get?_of_mem [Std.Irrefl (α := κ) (· < ·)] {t : Table κ ν} (h : t.Increasing)
    {key : κ} {value : ν} (hm : (key, value) ∈ t) : t.get? key = some value :=
  get?_of_mem_of_nodup h.nodup hm

/-- Two tables in order that answer alike are the same. -/
theorem Increasing.ext_get? [Std.Irrefl (α := κ) (· < ·)] [Std.Asymm (α := κ) (· < ·)]
    {s t : Table κ ν} (hs : s.Increasing) (ht : t.Increasing)
    (h : ∀ key, s.get? key = t.get? key) : s = t := by
  induction s generalizing t with
  | nil =>
    cases t with
    | nil => rfl
    | cons pair rest =>
      have := h pair.1
      simp [get?] at this
  | cons pair rest ih =>
    obtain ⟨k, v⟩ := pair
    cases t with
    | nil =>
      have := h k
      simp [get?] at this
    | cons pair' rest' =>
      obtain ⟨k', v'⟩ := pair'
      obtain ⟨hfirst, hrest⟩ := increasing_cons.1 hs
      obtain ⟨hfirst', hrest'⟩ := increasing_cons.1 ht
      -- both first keys are in both tables, so neither stands behind the other
      have hk : k = k' := by
        by_contra hne
        have hmem : k ∈ keys rest' := mem_keys_of_first_ne h hne
        have hmem' : k' ∈ keys rest :=
          mem_keys_of_first_ne (fun key => (h key).symm) (Ne.symm hne)
        exact Std.Asymm.asymm (r := (· < ·)) _ _ (hfirst' k hmem) (hfirst k' hmem')
      subst hk
      have hv : v = v' := by simpa [get?_cons] using h k
      subst hv
      have hrests : rest = rest' := by
        refine ih hrest hrest' fun key => ?_
        by_cases hkey : key = k
        · subst hkey
          rw [get?_eq_none_iff.2 fun hm => Std.Irrefl.irrefl _ (hfirst _ hm),
            get?_eq_none_iff.2 fun hm => Std.Irrefl.irrefl _ (hfirst' _ hm)]
        · simpa [get?_cons, hkey] using h key
      rw [hrests]

variable [DecidableLT κ]

/-- After the same value was put at several keys. -/
theorem get?_foldl_insert (t : Table κ ν) (list : List κ) (value : ν) (key : κ) :
    (list.foldl (fun t key => t.insert key value) t).get? key =
      if key ∈ list then some value else t.get? key := by
  induction list generalizing t with
  | nil => simp
  | cons first rest ih =>
    rw [List.foldl_cons, ih]
    by_cases hrest : key ∈ rest
    · simp [hrest]
    · by_cases hkey : key = first
      · simp [hkey]
      · simp [hrest, hkey, get?_insert_of_ne t value hkey]

/-- A new key that is dropped again leaves nothing behind. -/
theorem erase_insert {t : Table κ ν} {key : κ} (value : ν) (h : t.get? key = none) :
    (t.insert key value).erase key = t := by
  induction t with
  | nil => simp [Table.insert, Table.erase]
  | cons pair rest ih =>
    obtain ⟨k, v⟩ := pair
    have hne : key ≠ k := by
      rintro rfl
      simp [get?_cons] at h
    have hrest : Table.get? rest key = none := by rwa [get?_cons, if_neg hne] at h
    have herase : ∀ others : Table κ ν, erase ((k, v) :: others) key = (k, v) :: erase others key :=
      fun others => List.filter_cons_of_pos (decide_eq_true hne.symm)
    rw [Table.insert, if_neg hne]
    split
    · have hkey : erase ((key, value) :: (k, v) :: rest) key = erase ((k, v) :: rest) key :=
        List.filter_cons_of_neg (by simp)
      rw [hkey, herase, erase_of_none hrest]
    · rw [herase, ih hrest]

theorem set_insert (t : Table κ ν) (key : κ) (value value' : ν) :
    (t.insert key value).set key value' = t.insert key value' := by
  induction t with
  | nil => simp [Table.insert, Table.set]
  | cons pair rest ih =>
    obtain ⟨k, v⟩ := pair
    by_cases hkey : key = k
    · simp [Table.insert, Table.set, hkey]
    · by_cases hlt : key < k <;> simp [Table.insert, Table.set, hkey, hlt, ih]

theorem mem_keys_insert {t : Table κ ν} {key other : κ} {value : ν} :
    other ∈ (t.insert key value).keys ↔ other = key ∨ other ∈ t.keys := by
  rw [mem_keys_iff, mem_keys_iff]
  by_cases h : other = key
  · subst h
    simp
  · simp [get?_insert_of_ne t value h, h]

theorem Increasing.insert [Std.Trichotomous (α := κ) (· < ·)] {t : Table κ ν}
    [Trans (α := κ) (· < ·) (· < ·) (· < ·)] (h : t.Increasing) (key : κ) (value : ν) :
    (t.insert key value).Increasing := by
  induction t with
  | nil => simp [Table.insert, Increasing, keys]
  | cons pair rest ih =>
    obtain ⟨k, v⟩ := pair
    obtain ⟨hfirst, hrest⟩ := increasing_cons.1 h
    rw [Table.insert]
    split
    · exact increasing_cons.2 ⟨hfirst, hrest⟩
    · next hne =>
      split
      · next hlt =>
        refine increasing_cons.2 ⟨fun other hmem => ?_, h⟩
        rcases List.mem_cons.1 hmem with rfl | hmem
        · exact hlt
        · exact Trans.trans hlt (hfirst other hmem)
      · next hnlt =>
        have hlt : k < key := by
          by_contra hkey
          exact hne (Std.Trichotomous.trichotomous (r := (· < ·)) key k hnlt hkey)
        refine increasing_cons.2 ⟨fun other hmem => ?_, ih hrest⟩
        rcases mem_keys_insert.1 hmem with rfl | hmem
        · exact hlt
        · exact hfirst other hmem

/-- A key larger than all others is put at the end. -/
theorem insert_of_lt [Std.Irrefl (α := κ) (· < ·)] [Std.Asymm (α := κ) (· < ·)] {t : Table κ ν}
    {key : κ} (value : ν) (h : ∀ other ∈ t.keys, other < key) :
    t.insert key value = t ++ [(key, value)] := by
  induction t with
  | nil => rfl
  | cons pair rest ih =>
    obtain ⟨k, v⟩ := pair
    obtain ⟨hfirst, hrest⟩ := List.forall_mem_cons.1 h
    have hne : key ≠ k := by
      rintro rfl
      exact Std.Irrefl.irrefl key hfirst
    rw [Table.insert, if_neg hne, if_neg (Std.Asymm.asymm _ _ hfirst), ih hrest]
    rfl

theorem mem_keys_alter {t : Table κ ν} {key other : κ} {f : Option ν → ν} :
    other ∈ (t.alter key f).keys → other = key ∨ other ∈ t.keys := by
  intro h
  by_cases hkey : other = key
  · exact Or.inl hkey
  · rw [mem_keys_iff, get?_alter_of_ne t f hkey] at h
    exact Or.inr (mem_keys_iff.2 h)

theorem Increasing.alter [Std.Trichotomous (α := κ) (· < ·)]
    [Trans (α := κ) (· < ·) (· < ·) (· < ·)] {t : Table κ ν} (h : t.Increasing) (key : κ)
    (f : Option ν → ν) : (t.alter key f).Increasing := by
  induction t with
  | nil => simp [Table.alter, Increasing, keys]
  | cons pair rest ih =>
    obtain ⟨k, v⟩ := pair
    obtain ⟨hfirst, hrest⟩ := increasing_cons.1 h
    rw [Table.alter]
    split
    · exact increasing_cons.2 ⟨hfirst, hrest⟩
    · next hne =>
      split
      · next hlt =>
        refine increasing_cons.2 ⟨fun other hmem => ?_, h⟩
        rcases List.mem_cons.1 hmem with rfl | hmem
        · exact hlt
        · exact Trans.trans hlt (hfirst other hmem)
      · next hnlt =>
        have hlt : k < key := by
          by_contra hkey
          exact hne (Std.Trichotomous.trichotomous (r := (· < ·)) key k hnlt hkey)
        refine increasing_cons.2 ⟨fun other hmem => ?_, ih hrest⟩
        rcases mem_keys_alter hmem with rfl | hmem
        · exact hlt
        · exact hfirst other hmem

/-- In a table in order the value at a key is altered. -/
theorem Increasing.get?_alter_self [Trans (α := κ) (· < ·) (· < ·) (· < ·)]
    [Std.Irrefl (α := κ) (· < ·)] {t : Table κ ν} (h : t.Increasing) (key : κ)
    (f : Option ν → ν) : (t.alter key f).get? key = some (f (t.get? key)) := by
  induction t with
  | nil => simp [Table.alter, get?]
  | cons pair rest ih =>
    obtain ⟨k, v⟩ := pair
    obtain ⟨hfirst, hrest⟩ := increasing_cons.1 h
    rw [Table.alter]
    split
    · next hkey => simp [get?_cons, hkey]
    · next hne =>
      split
      · next hlt =>
        have hnone : Table.get? rest key = none := by
          refine get?_eq_none_iff.2 fun hmem => ?_
          exact Std.Irrefl.irrefl (r := (· < ·)) key (Trans.trans hlt (hfirst key hmem))
        simp [get?_cons, hne, hnone]
      · rw [get?_cons, if_neg hne, get?_cons, if_neg hne, ih hrest]

theorem Increasing.foldl_insert [Std.Trichotomous (α := κ) (· < ·)]
    [Trans (α := κ) (· < ·) (· < ·) (· < ·)] {t : Table κ ν} (h : t.Increasing) (list : List κ)
    (value : ν) : (list.foldl (fun t key => t.insert key value) t).Increasing := by
  induction list generalizing t with
  | nil => exact h
  | cons first rest ih => exact ih (h.insert first value)

end

end StagedSandbox.Table
