import StagedSandbox.Proofs.Snapshot.Load

/-!
# Valid snapshots

Ranges that lie in the blob and apart from one another are accepted.
-/

namespace StagedSandbox.Snapshot

/-- Two ranges of which none is empty do not overlap. -/
def Range.Apart (a b : Range) : Prop :=
  a.start = a.stop ∨ b.start = b.stop ∨ a.stop ≤ b.start ∨ b.stop ≤ a.start

theorem Range.Apart.symm {a b : Range} (h : a.Apart b) : b.Apart a := by
  rw [Range.Apart] at h ⊢
  omega

theorem Range.start_le_of_before {a b : Range} (h : a.before b = true) : a.start ≤ b.start := by
  rw [Range.before] at h
  split at h
  · exact Nat.le_of_lt (of_decide_eq_true h)
  · next heq => exact Nat.le_of_eq (not_not.1 heq)

/-- Ranges are listed by start, end and path, as in a dictionary. -/
theorem Range.before_iff {a b : Range} :
    a.before b = true ↔ a.start < b.start ∨ a.start = b.start ∧
      (a.stop < b.stop ∨ a.stop = b.stop ∧ a.path ≤ b.path) := by
  rw [Range.before]
  split
  · next hstart => simp [hstart]
  · next hstart =>
    rw [not_not] at hstart
    split
    · next hstop => simp [hstart, hstop]
    · next hstop =>
      rw [not_not] at hstop
      simp [hstart, hstop]

theorem Range.before_trans (a b c : Range) (hab : a.before b = true) (hbc : b.before c = true) :
    a.before c = true := by
  rw [Range.before_iff] at *
  rcases hab with h₁ | ⟨h₁, h₁' | ⟨h₁', h₁''⟩⟩
  · rcases hbc with h₂ | ⟨h₂, -⟩
    · exact Or.inl (Nat.lt_trans h₁ h₂)
    · exact Or.inl (h₂ ▸ h₁)
  · rcases hbc with h₂ | ⟨h₂, h₂' | ⟨h₂', -⟩⟩
    · exact Or.inl (by omega)
    · exact Or.inr ⟨by omega, Or.inl (by omega)⟩
    · exact Or.inr ⟨by omega, Or.inl (by omega)⟩
  · rcases hbc with h₂ | ⟨h₂, h₂' | ⟨h₂', h₂''⟩⟩
    · exact Or.inl (h₁ ▸ h₂)
    · exact Or.inr ⟨by omega, Or.inl (by omega)⟩
    · exact Or.inr ⟨by omega, Or.inr ⟨by omega, String.le_trans h₁'' h₂''⟩⟩

theorem Range.before_total (a b : Range) : (a.before b || b.before a) = true := by
  rw [Bool.or_eq_true, Range.before_iff, Range.before_iff]
  have hpath := String.le_total a.path b.path
  rcases Nat.lt_trichotomy a.start b.start with h | h | h
  · exact Or.inl (Or.inl h)
  · rcases Nat.lt_trichotomy a.stop b.stop with h' | h' | h'
    · exact Or.inl (Or.inr ⟨h, Or.inl h'⟩)
    · rcases hpath with hle | hle
      · exact Or.inl (Or.inr ⟨h, Or.inr ⟨h', hle⟩⟩)
      · exact Or.inr (Or.inr ⟨h.symm, Or.inr ⟨h'.symm, hle⟩⟩)
    · exact Or.inr (Or.inr ⟨h.symm, Or.inl h'⟩)
  · exact Or.inr (Or.inl h)

/-- In the order of their starts, ranges that lie apart pass. -/
theorem sweep_of_pairwise {list : List Range} (hwf : ∀ r ∈ list, r.start ≤ r.stop)
    (horder : list.Pairwise fun a b => a.start ≤ b.start) (hapart : list.Pairwise Range.Apart)
    {furthest : Option (Nat × String)}
    (hfurthest : ∀ stop path, furthest = some (stop, path) →
      ∀ r ∈ list, r.start ≠ r.stop → stop ≤ r.start) :
    sweep furthest list = .ok () := by
  induction list generalizing furthest with
  | nil => rfl
  | cons r rest ih =>
    obtain ⟨hr, hrest⟩ := List.pairwise_cons.1 hapart
    obtain ⟨hbefore, horder⟩ := List.pairwise_cons.1 horder
    have hwf' := fun other hother => hwf other (List.mem_cons_of_mem r hother)
    have hrwf := hwf r (List.mem_cons_self ..)
    -- what follows a range that is not empty starts after its end
    have hnext : r.start ≠ r.stop → ∀ other ∈ rest, other.start ≠ other.stop →
        r.stop ≤ other.start := by
      intro hne other hother hother'
      have hapart := hr other hother
      have horder := hbefore other hother
      have := hwf' other hother
      rw [Range.Apart] at hapart
      omega
    unfold sweep
    split
    · refine ih hwf' horder hrest fun stop path heq other hother => ?_
      exact hfurthest stop path heq other (List.mem_cons_of_mem r hother)
    · next hne =>
      cases furthest with
      | none =>
        refine ih hwf' horder hrest fun stop path heq other hother hother' => ?_
        obtain ⟨rfl, -⟩ := Prod.mk.inj (Option.some.inj heq)
        exact hnext hne other hother hother'
      | some far =>
        obtain ⟨stop, path⟩ := far
        have hstop := hfurthest stop path rfl r (List.mem_cons_self ..) hne
        dsimp only
        rw [if_neg (Nat.not_lt.2 hstop)]
        refine ih hwf' horder hrest fun stop' path' heq other hother hother' => ?_
        have hold := hfurthest stop path rfl other (List.mem_cons_of_mem r hother) hother'
        have hnew := hnext hne other hother hother'
        split at heq
        · obtain ⟨rfl, -⟩ := Prod.mk.inj (Option.some.inj heq)
          exact hnew
        · obtain ⟨rfl, -⟩ := Prod.mk.inj (Option.some.inj heq)
          exact hold

/-- The range of a file. -/
def rangeOf? (entry : String × Entry) : Option Range :=
  match entry.2 with
  | .dir => none
  | .file offset length => some ⟨offset, offset + length, entry.1⟩

theorem rangeOf?_eq_some_iff {entry : String × Entry} {r : Range} :
    rangeOf? entry = some r ↔
      ∃ length, entry.2 = .file r.start length ∧ r.stop = r.start + length ∧ r.path = entry.1 := by
  obtain ⟨path, kind⟩ := entry
  obtain ⟨start, stop, text⟩ := r
  cases kind with
  | dir => simp [rangeOf?]
  | file offset length =>
    simp only [rangeOf?, Option.some.injEq, Range.mk.injEq, Entry.file.injEq]
    constructor
    · rintro ⟨rfl, rfl, rfl⟩
      exact ⟨length, ⟨rfl, rfl⟩, rfl, rfl⟩
    · rintro ⟨length', ⟨rfl, rfl⟩, rfl, rfl⟩
      exact ⟨rfl, rfl, rfl⟩

theorem ranges_of_inBlob (s : Snapshot) {index : Index}
    (h : ∀ path offset length, (path, Entry.file offset length) ∈ index →
      offset + length ≤ s.blob.size) :
    s.ranges index = .ok (index.filterMap rangeOf?) := by
  induction index with
  | nil => rfl
  | cons entry rest ih =>
    obtain ⟨path, kind⟩ := entry
    have hrest := ih fun path offset length hmem =>
      h path offset length (List.mem_cons_of_mem _ hmem)
    cases kind with
    | dir => exact hrest
    | file offset length =>
      rw [ranges, rangeEnd, if_pos (h path offset length (List.mem_cons_self ..)), hrest]
      rfl

/-- A snapshot that represents a file system is valid. -/
theorem Represents.validate {s : Snapshot} {fs : Fs} (h : s.Represents fs) :
    s.validate = .ok () := by
  have hget : ∀ {entry : String × Entry} {r : Range}, entry ∈ s.index → rangeOf? entry = some r →
      ∃ length, s.index.get? entry.1 = some (.file r.start length) ∧ r.stop = r.start + length := by
    intro entry r hmem hr
    obtain ⟨length, hkind, hstop, -⟩ := rangeOf?_eq_some_iff.1 hr
    have hentry := h.increasing.get?_of_mem hmem
    exact ⟨length, hentry.trans (congrArg some hkind), hstop⟩
  have hranges := s.ranges_of_inBlob fun path offset length hmem =>
    h.inBlob path offset length (h.increasing.get?_of_mem hmem)
  have hapart : (s.index.filterMap rangeOf?).Pairwise Range.Apart := by
    rw [List.pairwise_filterMap]
    refine (List.pairwise_map.1 h.increasing.nodup).imp_of_mem fun {a b} ha hb hne r hr r' hr' => ?_
    obtain ⟨length, hfile, hstop⟩ := hget ha hr
    obtain ⟨length', hfile', hstop'⟩ := hget hb hr'
    have := h.apart a.1 r.start length b.1 r'.start length' hne hfile hfile'
    rw [Range.Apart]
    omega
  have hperm := List.mergeSort_perm (s.index.filterMap rangeOf?) Range.before
  rw [Snapshot.validate, hranges]
  refine sweep_of_pairwise (fun r hr => ?_) ?_ ?_ (by simp)
  · obtain ⟨entry, hmem, hentry⟩ := List.mem_filterMap.1 (hperm.mem_iff.1 hr)
    obtain ⟨length, -, hstop⟩ := hget hmem hentry
    omega
  · exact (List.pairwise_mergeSort Range.before_trans Range.before_total _).imp
      Range.start_le_of_before
  · exact (hperm.pairwise_iff Range.Apart.symm).2 hapart

end StagedSandbox.Snapshot
