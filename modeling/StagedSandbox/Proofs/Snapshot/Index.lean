import StagedSandbox.Proofs.Path.Normal
import StagedSandbox.Proofs.Table
import StagedSandbox.Snapshot.Index

/-!
# The entries below a path

The entries below a path are found by the slash that follows its text. For a path in normal form
these are the entries that lie within it and are not the path itself
(`Index.isPrefixOf_below_iff`). The root is different: its text is a slash already, so an entry for
the root goes with all the others (`Index.dropBelow_exact`).
-/

namespace StagedSandbox.Index

variable {index : Index} {path : String}

/-! ### Which texts continue that of a path -/

theorem below_root : below "/" = ['/'] := by decide

theorem below_of_normal (h : Path.Normal path) (hroot : path ≠ "/") :
    below path = path.toList ++ ['/'] := by
  have hlast := h.ending hroot
  rw [← List.head?_reverse] at hlast
  rw [below]
  congr 1
  cases hreverse : path.toList.reverse with
  | nil =>
    rw [List.reverse_eq_nil_iff.mp hreverse]
    rfl
  | cons last rest =>
    rw [hreverse, List.head?_cons, ne_eq, Option.some.injEq] at hlast
    rw [List.dropWhile_cons_of_neg (by simpa using hlast), ← hreverse, List.reverse_reverse]

/-- A text begins like those below a path if it lies within the path and is not the path itself;
but if the path is the root, it may be the path itself. -/
theorem isPrefixOf_below_iff (h : Path.Normal path) (key : String) :
    (below path).isPrefixOf key.toList = true ↔
      Path.isWithin key path = true ∧ (key = path → path = "/") := by
  rw [Path.isWithin]
  by_cases hroot : path = "/"
  · subst hroot
    have hslash : ['/'] <+: key.toList ↔ Path.isAbsolute key = true := by
      rw [Path.isAbsolute_iff]
      exact exists_congr fun _ => eq_comm
    rw [below_root, if_pos rfl, List.isPrefixOf_iff_prefix, hslash]
    exact (and_iff_left fun _ => rfl).symm
  · rw [below_of_normal h hroot, if_neg hroot, Bool.or_eq_true, decide_eq_true_eq]
    constructor
    · intro hbegins
      refine ⟨Or.inr hbegins, fun heq => ?_⟩
      -- no text continues itself
      have hle := (List.isPrefixOf_iff_prefix.mp hbegins).length_le
      rw [heq, List.length_append, List.length_singleton] at hle
      omega
    · rintro ⟨heq | hbegins, hself⟩
      · exact absurd (hself heq) hroot
      · exact hbegins

/-! ### What is left -/

theorem get?_removeBelow (index : Index) (path key : String) :
    (removeBelow index path).get? key =
      if (below path).isPrefixOf key.toList then none else index.get? key := by
  have hfilter := Table.get?_filter index (fun key => !(below path).isPrefixOf key.toList) key
  rw [removeBelow, hfilter]
  cases (below path).isPrefixOf key.toList <;> rfl

/-- Only the root may be found below itself. -/
theorem isPrefixOf_below_iff_of_listed (h : Path.Normal path)
    (hroot : path = "/" → index.get? "/" = none) {key : String} (hkey : index.get? key ≠ none) :
    (below path).isPrefixOf key.toList = true ↔ Path.isWithin key path = true ∧ key ≠ path := by
  rw [isPrefixOf_below_iff h]
  refine and_congr_right fun _ => ⟨fun hself heq => ?_, fun hne heq => absurd heq hne⟩
  obtain rfl := heq
  rw [hself rfl] at hroot hkey
  exact hkey (hroot rfl)

@[simp] theorem snd_dropBelow (index : Index) (path : String) :
    (index.dropBelow path).2 = index.removeBelow path := rfl

/-- As many entries are counted as are found below the path. -/
theorem fst_dropBelow (index : Index) (path : String) :
    (index.dropBelow path).1 =
      (Table.keys index).countP fun key => (below path).isPrefixOf key.toList := by
  have hlength := List.length_eq_countP_add_countP
    (fun entry : String × Entry => (below path).isPrefixOf entry.1.toList) (l := index)
  have hleft : (removeBelow index path).length =
      index.countP fun entry => ¬ (below path).isPrefixOf entry.1.toList := by
    rw [removeBelow, List.countP_eq_length_filter]
    simp only [Bool.not_eq_true, Bool.decide_eq_false]
  rw [Table.keys, List.countP_map, dropBelow]
  dsimp only
  rw [hleft, hlength, Nat.add_sub_cancel]
  rfl

/-- Below the root lies whatever starts with a slash, an entry for the root included. -/
theorem removeBelow_root (hkeys : ∀ key ∈ Table.keys index, Path.isAbsolute key = true) :
    index.removeBelow "/" = [] := by
  rw [removeBelow, List.filter_eq_nil_iff]
  intro entry hentry
  obtain ⟨rest, hrest⟩ := Path.isAbsolute_iff.mp (hkeys entry.1 (List.mem_map_of_mem hentry))
  simp [below_root, hrest]

/-- Below a path in normal form an index loses exactly the entries that lie within the path and are
not the path itself, and as many are counted; all other entries stay as they are. The exception is
an index with an entry for the root: below the root nothing is left of it, not even that entry. -/
theorem dropBelow_exact (hkeys : ∀ key ∈ Table.keys index, Path.Normal key)
    (hpath : Path.Normal path) :
    ((path = "/" → index.get? "/" = none) →
      (∀ key, (index.dropBelow path).2.get? key =
        if Path.isWithin key path = true ∧ key ≠ path then none else index.get? key) ∧
      (index.dropBelow path).1 =
        (Table.keys index).countP fun key => Path.isWithin key path = true ∧ key ≠ path) ∧
    (path = "/" → index.dropBelow path = (index.length, [])) := by
  refine ⟨fun hroot => ⟨fun key => ?_, ?_⟩, ?_⟩
  · rw [snd_dropBelow, get?_removeBelow]
    by_cases hkey : index.get? key = none
    · rw [hkey, ite_self, ite_self]
    · simp only [isPrefixOf_below_iff_of_listed hpath hroot hkey]
  · rw [fst_dropBelow]
    refine List.countP_congr fun key hkey => ?_
    rw [isPrefixOf_below_iff_of_listed hpath hroot (Table.mem_keys_iff.mp hkey),
      decide_eq_true_eq]
  · rintro rfl
    have hleft := removeBelow_root fun key hkey => (hkeys key hkey).absolute
    rw [dropBelow, hleft]
    rfl

/-- What only begins alike stays, also what comes between a path and the paths below it. -/
theorem dropBelow_exact_siblings :
    let index : Index :=
      [("/a", .dir), ("/a-b", .file 0 1), ("/a/b", .dir), ("/a/b/c", .file 1 2), ("/ab", .dir)]
    (∀ key ∈ Table.keys index, Path.Normal key) ∧ Path.Normal "/a" ∧ Path.Normal "/" ∧
      (index.dropBelow "/a").2.get? "/a" = some .dir ∧
      (index.dropBelow "/a").2.get? "/a-b" = some (.file 0 1) ∧
      (index.dropBelow "/a").2.get? "/a/b/c" = none ∧ (index.dropBelow "/a").1 = 2 ∧
      index.dropBelow "/" = (5, []) := by
  intro index
  have hkeys : ∀ key ∈ Table.keys index, Path.Normal key := by
    let paths : List Path := [["a"], ["a-b"], ["a", "b"], ["a", "b", "c"], ["ab"]]
    have hnamed : ∀ path ∈ paths, ∀ name ∈ path, Path.IsName name := by decide +kernel
    intro key hkey
    have hrender : Table.keys index = paths.map Path.render := by decide +kernel
    rw [hrender, List.mem_map] at hkey
    obtain ⟨path, hpath, rfl⟩ := hkey
    exact Path.normal_render (hnamed path hpath)
  have ha : Path.Normal "/a" := hkeys "/a" (by decide +kernel)
  have hroot : Path.Normal "/" := Path.normal_render Path.Named.nil
  obtain ⟨hget, hcount⟩ := (dropBelow_exact hkeys ha).1 (by decide +kernel)
  refine ⟨hkeys, ha, hroot, ?_, ?_, ?_, ?_, (dropBelow_exact hkeys hroot).2 rfl⟩
  · rw [hget, if_neg (by decide +kernel)]
    rfl
  · rw [hget, if_neg (by decide +kernel)]
    rfl
  · rw [hget, if_pos (by decide +kernel)]
  · rw [hcount]
    decide +kernel

/-- An entry for the root is not below the root, and is dropped and counted with those that are. -/
theorem dropBelow_root_listed :
    let index : Index := [("/", .dir), ("/a", .dir)]
    (∀ key ∈ Table.keys index, Path.Normal key) ∧ Path.Normal "/" ∧
      index.get? "/" = some .dir ∧ (index.dropBelow "/").2.get? "/" = none ∧
      (index.dropBelow "/").1 = 2 ∧
      ((Table.keys index).countP fun key => Path.isWithin key "/" = true ∧ key ≠ "/") = 1 := by
  intro index
  have hroot : Path.Normal "/" := Path.normal_render Path.Named.nil
  have ha : Path.Normal "/a" := by
    have hnamed : Path.Named ["a"] := Path.named_cons.mpr ⟨by decide, Path.Named.nil⟩
    exact Path.normal_render hnamed
  refine ⟨?_, hroot, rfl, by decide +kernel, by decide +kernel, by decide +kernel⟩
  exact List.forall_mem_cons.mpr ⟨hroot, List.forall_mem_singleton.mpr ha⟩

end StagedSandbox.Index
