import Mathlib.Data.List.Pairwise
import Mathlib.Order.Interval.Set.Disjoint
import StagedSandbox.Proofs.Snapshot.Valid

/-!
# Overlapping ranges

A snapshot is sound if the range of every file lies in the blob and no byte of the blob belongs to
two files (`Snapshot.Sound`). Exactly the sound snapshots are accepted, and two files that are
named as overlapping do share a byte (`Snapshot.validate_spec`). The ranges are gone through in
the order of their starts, with the furthest end so far at hand: a range that starts before that
end shares its first byte with the range that ends there.
-/

namespace StagedSandbox.Snapshot

/-- The positions in the blob of the bytes of a file. -/
def bytesOf (s : Snapshot) (key : String) : Set Nat :=
  match s.index.get? key with
  | some (.file offset length) => Set.Ico offset (offset + length)
  | _ => ∅

/-- Every file lies in the blob, and no two files share a byte of it. -/
structure Sound (s : Snapshot) : Prop where
  inBlob : ∀ key offset length, s.index.get? key = some (.file offset length) →
    offset + length ≤ s.blob.size
  disjoint : ∀ key key', key ≠ key' → s.bytesOf key ∩ s.bytesOf key' = ∅

variable {s : Snapshot}

theorem bytesOf_eq {key : String} {offset length : Nat}
    (h : s.index.get? key = some (.file offset length)) :
    s.bytesOf key = Set.Ico offset (offset + length) := by
  rw [bytesOf, h]

theorem exists_file_of_mem_bytesOf {key : String} {position : Nat}
    (h : position ∈ s.bytesOf key) :
    ∃ offset length, s.index.get? key = some (.file offset length) := by
  rw [bytesOf] at h
  split at h
  · next offset length hget => exact ⟨offset, length, hget⟩
  · exact absurd h (Set.notMem_empty position)

/-! ### Going through the ranges -/

instance : Std.Symm Range.Apart := ⟨fun _ _ => Range.Apart.symm⟩

theorem Range.apart_iff_inter_eq {a b : Range} (ha : a.start ≤ a.stop) (hb : b.start ≤ b.stop) :
    a.Apart b ↔ Set.Ico a.start a.stop ∩ Set.Ico b.start b.stop = ∅ := by
  rw [← Set.disjoint_iff_inter_eq_empty, Set.Ico_disjoint_Ico, Range.Apart]
  omega

/-- Ranges that pass lie apart, and behind the furthest end so far. -/
theorem pairwise_of_sweep {list : List Range} (hwf : ∀ r ∈ list, r.start ≤ r.stop)
    {furthest : Option (Nat × String)} (h : sweep furthest list = .ok ()) :
    list.Pairwise Range.Apart ∧
      ∀ stop path, furthest = some (stop, path) →
        ∀ r ∈ list, r.start ≠ r.stop → stop ≤ r.start := by
  induction list generalizing furthest with
  | nil => simp
  | cons r rest ih =>
    have hwf' : ∀ other ∈ rest, other.start ≤ other.stop := fun other hother =>
      hwf other (List.mem_cons_of_mem r hother)
    unfold sweep at h
    split at h
    · next hempty =>
      obtain ⟨hapart, hbehind⟩ := ih hwf' h
      refine ⟨List.pairwise_cons.2 ⟨fun other _ => Or.inl hempty, hapart⟩, ?_⟩
      intro stop path hfurthest other hother hne
      rcases List.mem_cons.1 hother with rfl | hother
      · exact absurd hempty hne
      · exact hbehind stop path hfurthest other hother hne
    · next hne =>
      cases furthest with
      | none =>
        obtain ⟨hapart, hbehind⟩ := ih hwf' h
        refine ⟨List.pairwise_cons.2 ⟨fun other hother => ?_, hapart⟩, by simp⟩
        have hother' := hbehind r.stop r.path rfl other hother
        rw [Range.Apart]
        omega
      | some far =>
        obtain ⟨stop, path⟩ := far
        dsimp only at h
        split at h
        · cases h
        · next hstart =>
          obtain ⟨hapart, hbehind⟩ := ih hwf' h
          -- what follows lies behind both the old furthest end and the end of this range
          have hnext : ∀ other ∈ rest, other.start ≠ other.stop →
              stop ≤ other.start ∧ r.stop ≤ other.start := by
            intro other hother hne'
            split at hbehind
            · have := hbehind _ _ rfl other hother hne'
              omega
            · have := hbehind _ _ rfl other hother hne'
              omega
          refine ⟨List.pairwise_cons.2 ⟨fun other hother => ?_, hapart⟩, ?_⟩
          · have hother' := hnext other hother
            rw [Range.Apart]
            omega
          · intro stop' path' hfurthest other hother hne'
            obtain ⟨rfl, -⟩ := Prod.mk.inj (Option.some.inj hfurthest)
            rcases List.mem_cons.1 hother with rfl | hother
            · exact Nat.not_lt.1 hstart
            · exact (hnext other hother hne').1

/-- The furthest end so far is that of a range that starts before all that is still to come. -/
def ReachedBy (seen list : List Range) (furthest : Option (Nat × String)) : Prop :=
  ∀ stop path, furthest = some (stop, path) → ∃ far ∈ seen, far.stop = stop ∧ far.path = path ∧
    far.start ≠ far.stop ∧ ∀ r ∈ list, far.start ≤ r.start

theorem ReachedBy.tail {seen rest : List Range} {r : Range} {furthest : Option (Nat × String)}
    (h : ReachedBy seen (r :: rest) furthest) : ReachedBy (seen ++ [r]) rest furthest := by
  intro stop path hfurthest
  obtain ⟨far, hseen, hstop, hpath, hne, hbefore⟩ := h stop path hfurthest
  refine ⟨far, List.mem_append_left _ hseen, hstop, hpath, hne, fun other hother => ?_⟩
  exact hbefore other (List.mem_cons_of_mem r hother)

theorem reachedBy_here {seen rest : List Range} {r : Range} (hne : r.start ≠ r.stop)
    (horder : ∀ other ∈ rest, r.start ≤ other.start) :
    ReachedBy (seen ++ [r]) rest (some (r.stop, r.path)) := by
  intro stop path hfurthest
  obtain ⟨rfl, rfl⟩ := Prod.mk.inj (Option.some.inj hfurthest)
  exact ⟨r, by simp, rfl, rfl, hne, horder⟩

/-- Of two ranges that are named as overlapping the first one comes first, and they do overlap. -/
theorem overlap_of_sweep {list : List Range} (hwf : ∀ r ∈ list, r.start ≤ r.stop)
    (horder : list.Pairwise fun a b => a.start ≤ b.start) {seen : List Range}
    {furthest : Option (Nat × String)} (hreached : ReachedBy seen list furthest) {e : Corruption}
    (h : sweep furthest list = .error e) :
    ∃ far r, e = .overlap far.path r.path ∧ [far, r].Sublist (seen ++ list) ∧ ¬ far.Apart r := by
  induction list generalizing seen furthest with
  | nil => cases h
  | cons r rest ih =>
    obtain ⟨hbefore, horder'⟩ := List.pairwise_cons.1 horder
    have hwf' : ∀ other ∈ rest, other.start ≤ other.stop := fun other hother =>
      hwf other (List.mem_cons_of_mem r hother)
    rw [List.append_cons]
    unfold sweep at h
    split at h
    · exact ih hwf' horder' hreached.tail h
    · next hne =>
      cases furthest with
      | none => exact ih hwf' horder' (reachedBy_here hne hbefore) h
      | some reached =>
        obtain ⟨stop, path⟩ := reached
        dsimp only at h
        split at h
        · next hstart =>
          obtain ⟨far, hseen, rfl, rfl, hfar, hfirst⟩ := hreached stop path rfl
          refine ⟨far, r, (Except.error.inj h).symm, ?_, ?_⟩
          · have hboth := (List.singleton_sublist.2 hseen).append (List.Sublist.refl [r])
            exact hboth.trans (List.sublist_append_left _ rest)
          · have hle := hfirst r List.mem_cons_self
            have hr := hwf r List.mem_cons_self
            rw [Range.Apart]
            omega
        · split at h
          · exact ih hwf' horder' (reachedBy_here hne hbefore) h
          · exact ih hwf' horder' hreached.tail h

/-! ### The ranges of an index -/

/-- The first file that leaves the blob is reported. -/
theorem ranges_of_not_inBlob (s : Snapshot) {index : Index}
    (h : ¬ ∀ path offset length, (path, Entry.file offset length) ∈ index →
      offset + length ≤ s.blob.size) :
    ∃ path offset length, (path, Entry.file offset length) ∈ index ∧
      s.blob.size < offset + length ∧
      s.ranges index = .error (.outOfBlob path offset length s.blob.size) := by
  induction index with
  | nil => simp at h
  | cons entry rest ih =>
    obtain ⟨key, stands⟩ := entry
    cases stands with
    | dir =>
      obtain ⟨path, offset, length, hmem, hblob, hrun⟩ := ih (by simpa using h)
      exact ⟨path, offset, length, List.mem_cons_of_mem _ hmem, hblob, hrun⟩
    | file offset length =>
      by_cases hblob : offset + length ≤ s.blob.size
      · have hrest : ¬ ∀ path offset length, (path, Entry.file offset length) ∈ rest →
            offset + length ≤ s.blob.size := by
          intro hrest
          apply h
          intro path offset' length' hmem
          rcases List.mem_cons.1 hmem with heq | hmem
          · obtain ⟨rfl, rfl, rfl⟩ : path = key ∧ offset' = offset ∧ length' = length := by
              simpa using heq
            exact hblob
          · exact hrest path offset' length' hmem
        obtain ⟨path, offset', length', hmem, hleaves, hrun⟩ := ih hrest
        refine ⟨path, offset', length', List.mem_cons_of_mem _ hmem, hleaves, ?_⟩
        rw [ranges, rangeEnd, if_pos hblob, hrun]
        rfl
      · refine ⟨key, offset, length, List.mem_cons_self, Nat.not_le.1 hblob, ?_⟩
        rw [ranges, rangeEnd, if_neg hblob]
        rfl

/-- A range of an index is that of the file at its path. -/
theorem get?_of_mem_ranges (hindex : s.index.Increasing) {r : Range}
    (h : r ∈ s.index.filterMap rangeOf?) :
    ∃ length, s.index.get? r.path = some (.file r.start length) ∧ r.stop = r.start + length := by
  obtain ⟨entry, hmem, hr⟩ := List.mem_filterMap.1 h
  obtain ⟨length, hkind, hstop, hpath⟩ := rangeOf?_eq_some_iff.1 hr
  refine ⟨length, ?_, hstop⟩
  rw [hpath, ← hkind]
  exact hindex.get?_of_mem hmem

theorem start_le_of_mem_ranges (hindex : s.index.Increasing) {r : Range}
    (h : r ∈ s.index.filterMap rangeOf?) : r.start ≤ r.stop := by
  obtain ⟨length, -, hstop⟩ := get?_of_mem_ranges hindex h
  omega

theorem bytesOf_of_mem_ranges (hindex : s.index.Increasing) {r : Range}
    (h : r ∈ s.index.filterMap rangeOf?) : s.bytesOf r.path = Set.Ico r.start r.stop := by
  obtain ⟨length, hget, hstop⟩ := get?_of_mem_ranges hindex h
  rw [bytesOf_eq hget, hstop]

/-- No two ranges of an index are those of one path. -/
theorem pairwise_path_ne (hindex : s.index.Increasing) :
    (s.index.filterMap rangeOf?).Pairwise fun a b => a.path ≠ b.path := by
  rw [List.pairwise_filterMap]
  refine (List.pairwise_map.1 hindex.nodup).imp fun {a b} hne r hr r' hr' heq => ?_
  obtain ⟨-, -, -, hpath⟩ := rangeOf?_eq_some_iff.1 hr
  obtain ⟨-, -, -, hpath'⟩ := rangeOf?_eq_some_iff.1 hr'
  rw [hpath, hpath'] at heq
  exact hne heq

/-! ### Validation -/

/-- In an index whose ranges lie apart no two files share a byte. -/
theorem inter_eq_of_pairwise (hapart : (s.index.filterMap rangeOf?).Pairwise Range.Apart)
    {key key' : String} (hne : key ≠ key') : s.bytesOf key ∩ s.bytesOf key' = ∅ := by
  rw [Set.eq_empty_iff_forall_notMem]
  rintro position ⟨hkey, hkey'⟩
  obtain ⟨offset, length, hget⟩ := exists_file_of_mem_bytesOf hkey
  obtain ⟨offset', length', hget'⟩ := exists_file_of_mem_bytesOf hkey'
  have hrange : ∀ {key offset length}, s.index.get? key = some (.file offset length) →
      (⟨offset, offset + length, key⟩ : Range) ∈ s.index.filterMap rangeOf? := by
    intro key offset length hget
    exact List.mem_filterMap.2 ⟨_, Table.mem_of_get? hget, rfl⟩
  have hboth := hapart.forall (hrange hget) (hrange hget') fun heq => hne (congrArg Range.path heq)
  rw [Range.apart_iff_inter_eq (Nat.le_add_right ..) (Nat.le_add_right ..)] at hboth
  rw [bytesOf_eq hget] at hkey
  rw [bytesOf_eq hget'] at hkey'
  exact Set.eq_empty_iff_forall_notMem.1 hboth position ⟨hkey, hkey'⟩

/-- A snapshot is accepted and sound, or a file leaves the blob, or two files share a byte. -/
theorem validate_cases (hindex : s.index.Increasing) :
    s.validate = .ok () ∧ s.Sound ∨
    (∃ key offset length, s.index.get? key = some (.file offset length) ∧
      s.blob.size < offset + length ∧
      s.validate = .error (.outOfBlob key offset length s.blob.size)) ∨
    ∃ first second, first ≠ second ∧ (s.bytesOf first ∩ s.bytesOf second).Nonempty ∧
      s.validate = .error (.overlap first second) := by
  by_cases hblob : ∀ path offset length, (path, Entry.file offset length) ∈ s.index →
      offset + length ≤ s.blob.size
  · have hperm := List.mergeSort_perm (s.index.filterMap rangeOf?) Range.before
    have hwf : ∀ r ∈ (s.index.filterMap rangeOf?).mergeSort Range.before, r.start ≤ r.stop :=
      fun r hr => start_le_of_mem_ranges hindex (hperm.mem_iff.1 hr)
    have hvalidate : s.validate =
        sweep none ((s.index.filterMap rangeOf?).mergeSort Range.before) := by
      rw [validate, s.ranges_of_inBlob hblob]
      rfl
    cases hsweep : sweep none ((s.index.filterMap rangeOf?).mergeSort Range.before) with
    | ok _ =>
      refine Or.inl ⟨hvalidate.trans hsweep, fun key offset length hget => ?_, ?_⟩
      · exact hblob key offset length (Table.mem_of_get? hget)
      · intro key key' hne
        have hapart := (hperm.pairwise_iff Range.Apart.symm).1 (pairwise_of_sweep hwf hsweep).1
        exact inter_eq_of_pairwise hapart hne
    | error e =>
      have horder := (List.pairwise_mergeSort Range.before_trans Range.before_total
        (s.index.filterMap rangeOf?)).imp Range.start_le_of_before
      have hstart : ReachedBy [] ((s.index.filterMap rangeOf?).mergeSort Range.before) none := by
        simp [ReachedBy]
      obtain ⟨far, r, rfl, hsub, hshare⟩ := overlap_of_sweep hwf horder hstart hsweep
      have hpaths := ((hperm.pairwise_iff Ne.symm).2 (pairwise_path_ne hindex)).sublist hsub
      have hfar : far ∈ s.index.filterMap rangeOf? := hperm.mem_iff.1 (hsub.subset (by simp))
      have hr : r ∈ s.index.filterMap rangeOf? := hperm.mem_iff.1 (hsub.subset (by simp))
      rw [Range.apart_iff_inter_eq (start_le_of_mem_ranges hindex hfar)
        (start_le_of_mem_ranges hindex hr), ← ne_eq, ← Set.nonempty_iff_ne_empty] at hshare
      refine Or.inr (Or.inr ⟨far.path, r.path, ?_, ?_, hvalidate.trans hsweep⟩)
      · exact List.rel_of_pairwise_cons hpaths (List.mem_singleton_self r)
      · rwa [bytesOf_of_mem_ranges hindex hfar, bytesOf_of_mem_ranges hindex hr]
  · obtain ⟨key, offset, length, hmem, hleaves, hranges⟩ := s.ranges_of_not_inBlob hblob
    refine Or.inr (Or.inl ⟨key, offset, length, hindex.get?_of_mem hmem, hleaves, ?_⟩)
    rw [validate, hranges]
    rfl

/-- Exactly the sound snapshots are accepted, and two paths that are named as overlapping are those
of two files that share a byte. -/
theorem validate_spec (hindex : s.index.Increasing) :
    (s.validate = .ok () ↔ s.Sound) ∧
    ∀ first second, s.validate = .error (.overlap first second) →
      first ≠ second ∧ (s.bytesOf first ∩ s.bytesOf second).Nonempty := by
  rcases validate_cases hindex with ⟨hok, hsound⟩ | ⟨key, offset, length, hget, hleaves, herror⟩ |
    ⟨first, second, hne, hshare, herror⟩
  · refine ⟨⟨fun _ => hsound, fun _ => hok⟩, fun first second herror => ?_⟩
    rw [hok] at herror
    cases herror
  · refine ⟨⟨fun hok => ?_, fun hsound => ?_⟩, fun first second hoverlap => ?_⟩
    · rw [herror] at hok
      cases hok
    · exact absurd (hsound.inBlob key offset length hget) (Nat.not_le.2 hleaves)
    · rw [herror] at hoverlap
      cases hoverlap
  · refine ⟨⟨fun hok => ?_, fun hsound => ?_⟩, fun first' second' hoverlap => ?_⟩
    · rw [herror] at hok
      cases hok
    · exact absurd (hsound.disjoint first second hne) (Set.nonempty_iff_ne_empty.1 hshare)
    · rw [herror] at hoverlap
      cases hoverlap
      exact ⟨hne, hshare⟩

/-- An empty range within another overlaps with none, and one that lies in the middle of a longer
one shares its bytes. -/
theorem validate_spec_nested :
    let s : Snapshot :=
      ⟨[("/a", .file 0 4), ("/b", .file 1 0), ("/c", .file 1 1), ("/d", .file 4 0)],
        ⟨#[1, 2, 3, 4]⟩⟩
    s.index.Increasing ∧ s.validate = .error (.overlap "/a" "/c") ∧ ¬ s.Sound ∧
      (s.bytesOf "/a" ∩ s.bytesOf "/c").Nonempty := by
  intro s
  have hindex : s.index.Increasing := by
    simp only [s, Table.Increasing, Table.keys, List.map_cons, List.map_nil]
    decide
  have hranges : s.ranges s.index =
      .ok [⟨0, 4, "/a"⟩, ⟨1, 1, "/b"⟩, ⟨1, 2, "/c"⟩, ⟨4, 4, "/d"⟩] := rfl
  have herror : s.validate = .error (.overlap "/a" "/c") := by
    rw [validate, hranges]
    dsimp only [bind, Except.bind]
    rw [List.mergeSort_of_pairwise (by decide)]
    rfl
  obtain ⟨hsound, hoverlap⟩ := validate_spec hindex
  refine ⟨hindex, herror, fun h => ?_, (hoverlap "/a" "/c" herror).2⟩
  have hok := hsound.2 h
  rw [herror] at hok
  cases hok

end StagedSandbox.Snapshot
