/-!
# Tables

A finite map is kept as the list of its pairs, in increasing order of the keys. Looking up,
inserting and erasing are described by what `get?` answers afterwards; these laws hold of every
list of pairs, and the order of the keys matters only for the order of the listing.
-/

namespace StagedSandbox

/-- A finite map, listed in increasing order of its keys. -/
abbrev Table (κ ν : Type) := List (κ × ν)

namespace Table

variable {κ ν : Type}

/-- The keys, in the order of the listing. -/
def keys (t : Table κ ν) : List κ := t.map Prod.fst

/-- The keys are strictly increasing. -/
def Increasing [LT κ] (t : Table κ ν) : Prop := t.keys.Pairwise (· < ·)

variable [DecidableEq κ]

/-- The value at a key. -/
def get? : Table κ ν → κ → Option ν
  | [], _ => none
  | (k, v) :: rest, key => if key = k then some v else get? rest key

/-- Whether a key has a value. -/
def contains (t : Table κ ν) (key : κ) : Bool := (t.get? key).isSome

/-- Replace the value at a key that has one already; the keys stay as they are. -/
def set : Table κ ν → κ → ν → Table κ ν
  | [], _, _ => []
  | (k, v) :: rest, key, value =>
    if key = k then (k, value) :: rest else (k, v) :: set rest key value

/-- Drop a key and its value. -/
def erase (t : Table κ ν) (key : κ) : Table κ ν := t.filter fun pair => pair.1 ≠ key

/-- Put a value at a key, in front of the first larger key. -/
def insert [LT κ] [DecidableLT κ] : Table κ ν → κ → ν → Table κ ν
  | [], key, value => [(key, value)]
  | (k, v) :: rest, key, value =>
    if key = k then (k, value) :: rest
    else if key < k then (key, value) :: (k, v) :: rest
    else (k, v) :: insert rest key value

/-- Replace the value at a key by what is made of it, or of none. -/
def alter [LT κ] [DecidableLT κ] : Table κ ν → κ → (Option ν → ν) → Table κ ν
  | [], key, f => [(key, f none)]
  | (k, v) :: rest, key, f =>
    if key = k then (k, f (some v)) :: rest
    else if key < k then (key, f none) :: (k, v) :: rest
    else (k, v) :: alter rest key f

/-- The table of a list of pairs; of two values at one key the later one stays. -/
def ofList [LT κ] [DecidableLT κ] (pairs : List (κ × ν)) : Table κ ν :=
  pairs.foldl (fun t pair => t.insert pair.1 pair.2) []

/-! ### Looking up after a change -/

@[simp] theorem get?_nil (key : κ) : get? ([] : Table κ ν) key = none := rfl

theorem get?_cons (k : κ) (v : ν) (rest : Table κ ν) (key : κ) :
    get? ((k, v) :: rest) key = if key = k then some v else rest.get? key := rfl

@[simp] theorem get?_insert_self [LT κ] [DecidableLT κ] (t : Table κ ν) (key : κ) (value : ν) :
    (t.insert key value).get? key = some value := by
  induction t with
  | nil => simp [insert, get?]
  | cons pair rest ih =>
    obtain ⟨k, v⟩ := pair
    by_cases h : key = k
    · simp [insert, get?, h]
    · by_cases hlt : key < k <;> simp [insert, get?, h, hlt, ih]

theorem get?_insert_of_ne [LT κ] [DecidableLT κ] (t : Table κ ν) {key other : κ} (value : ν)
    (h : other ≠ key) : (t.insert key value).get? other = t.get? other := by
  induction t with
  | nil => simp [insert, get?, h]
  | cons pair rest ih =>
    obtain ⟨k, v⟩ := pair
    by_cases hk : key = k
    · subst hk
      simp [insert, get?, h]
    · by_cases hlt : key < k <;> simp [insert, get?, h, hk, hlt, ih]

theorem get?_alter_of_ne [LT κ] [DecidableLT κ] (t : Table κ ν) {key other : κ}
    (f : Option ν → ν) (h : other ≠ key) : (t.alter key f).get? other = t.get? other := by
  induction t with
  | nil => simp [alter, get?, h]
  | cons pair rest ih =>
    obtain ⟨k, v⟩ := pair
    by_cases hk : key = k
    · subst hk
      simp [alter, get?, h]
    · by_cases hlt : key < k <;> simp [alter, get?, h, hk, hlt, ih]

theorem get?_set_self (t : Table κ ν) {key : κ} (value : ν) (h : (t.get? key).isSome) :
    (t.set key value).get? key = some value := by
  induction t with
  | nil => simp [get?] at h
  | cons pair rest ih =>
    obtain ⟨k, v⟩ := pair
    by_cases hk : key = k
    · simp [set, get?, hk]
    · simp only [get?, hk, if_false] at h
      simp [set, get?, hk, ih h]

theorem get?_set_of_ne (t : Table κ ν) {key other : κ} (value : ν) (h : other ≠ key) :
    (t.set key value).get? other = t.get? other := by
  induction t with
  | nil => rfl
  | cons pair rest ih =>
    obtain ⟨k, v⟩ := pair
    by_cases hk : key = k
    · subst hk
      simp [set, get?, h]
    · simp [set, get?, hk, ih]

/-- Replacing a value by itself changes nothing. -/
theorem set_get? (t : Table κ ν) {key : κ} {value : ν} (h : t.get? key = some value) :
    t.set key value = t := by
  induction t with
  | nil => rfl
  | cons pair rest ih =>
    obtain ⟨k, v⟩ := pair
    by_cases hk : key = k
    · simp_all [set, get?]
    · simp only [get?, hk, if_false] at h
      simp [set, hk, ih h]

@[simp] theorem get?_erase_self (t : Table κ ν) (key : κ) : (t.erase key).get? key = none := by
  induction t with
  | nil => rfl
  | cons pair rest ih =>
    obtain ⟨k, v⟩ := pair
    by_cases hk : k = key
    · simpa [erase, hk] using ih
    · have : key ≠ k := fun e => hk e.symm
      simp only [erase, ne_eq, hk, not_false_eq_true, decide_true, List.filter_cons_of_pos, get?,
        this, if_false]
      exact ih

theorem get?_erase_of_ne (t : Table κ ν) {key other : κ} (h : other ≠ key) :
    (t.erase key).get? other = t.get? other := by
  induction t with
  | nil => rfl
  | cons pair rest ih =>
    obtain ⟨k, v⟩ := pair
    by_cases hk : k = key
    · subst hk
      simpa [erase, get?, h] using ih
    · simp only [erase, ne_eq, hk, not_false_eq_true, decide_true, List.filter_cons_of_pos, get?]
      split
      · rfl
      · exact ih

end Table

end StagedSandbox
