import StagedSandbox.Proofs.Guest.Descriptors
import StagedSandbox.Proofs.Path.Normal
import StagedSandbox.Proofs.Text.Utf8

/-!
# Resolving paths that a program names

An absolute path is resolved by the preopened directory, among those still open, whose path is the
longest that begins it; the rest of the path then leads down from there
(`Guest.resolve_longest_prefix`). Whether this is done on lists of names or on texts, the longest of
which is found by its number of bytes and cut off, makes no difference
(`Guest.Orderly.resolveText?_eq`).
-/

namespace StagedSandbox

namespace Path

variable {path first second : Path}

/-! ### The texts of paths that begin a path -/

/-- A name comes first where names are joined by slashes. -/
theorem dropWhile_slash_intercalate {path : Path} (h : path.Named) :
    ("/".intercalate path).toList.dropWhile (· = '/') = ("/".intercalate path).toList := by
  cases path with
  | nil => rfl
  | cons name rest =>
    obtain ⟨⟨hempty, -, -, hslash⟩, -⟩ := named_cons.mp h
    have hfront : ∃ more, ("/".intercalate (name :: rest)).toList = name.toList ++ more := by
      cases rest with
      | nil => exact ⟨[], by simp⟩
      | cons next rest =>
        rw [String.intercalate_cons_cons, String.toList_append, String.toList_append,
          List.append_assoc]
        exact ⟨_, rfl⟩
    obtain ⟨more, hmore⟩ := hfront
    apply Text.dropWhile_of_head
    intro c hc
    have hname : name.toList ≠ [] := mt String.toList_eq_nil_iff.mp hempty
    rw [hmore, List.head?_append_of_ne_nil _ hname] at hc
    apply decide_eq_false
    rintro rfl
    exact hslash (List.mem_of_head? hc)

/-- Only no names at all leave nothing when they are joined. -/
theorem toList_intercalate_eq_nil_iff (h : path.Named) :
    ("/".intercalate path).toList = [] ↔ path = [] := by
  constructor
  · intro hnil
    by_contra hne
    have hfollow := follow_intercalate h hne []
    rw [String.toList_eq_nil_iff.mp hnil] at hfollow
    exact hne hfollow.symm
  · rintro rfl
    rfl

/-- The text of a path continues that of a path above it by the names below, but for a slash. -/
theorem exists_render_append (above : Path) {below : Path} (h : below.Named) :
    ∃ rest, render (above ++ below) = above.render ++ rest ∧
      rest.toList.dropWhile (· = '/') = ("/".intercalate below).toList := by
  by_cases hne : below = []
  · rw [hne, List.append_nil]
    exact ⟨"", String.append_empty.symm, rfl⟩
  · by_cases hroot : above = []
    · refine ⟨"/".intercalate below, ?_, dropWhile_slash_intercalate h⟩
      rw [hroot, List.nil_append, ← String.toList_inj, toList_render hne, textBelow_eq_cons hne,
        String.toList_append]
      rfl
    · refine ⟨"/" ++ "/".intercalate below, ?_, ?_⟩
      · have habove : above ++ below ≠ [] := List.append_ne_nil_of_left_ne_nil hroot below
        rw [← String.toList_inj, toList_render habove, textBelow_append, textBelow_eq_cons hne,
          String.toList_append, toList_render hroot, String.toList_append]
        rfl
      · rw [String.toList_append]
        exact dropWhile_slash_intercalate h

/-- Of two paths that begin the same path, the shorter one has the text of fewer bytes. -/
theorem length_le_iff_utf8ByteSize_le (h : path.Named) (hfirst : first <+: path)
    (hsecond : second <+: path) :
    first.length ≤ second.length ↔ first.render.utf8ByteSize ≤ second.render.utf8ByteSize := by
  have hlonger {above below : Path} (hbelow : below.Named) :
      above.render.utf8ByteSize ≤ (render (above ++ below)).utf8ByteSize ∧
        (below ≠ [] → above.render.utf8ByteSize < (render (above ++ below)).utf8ByteSize) := by
    obtain ⟨rest, htext, hrest⟩ := exists_render_append above hbelow
    rw [htext, String.utf8ByteSize_append]
    refine ⟨Nat.le_add_right _ _, fun hne => Nat.lt_add_of_pos_right (Nat.pos_of_ne_zero ?_)⟩
    intro hzero
    rw [String.utf8ByteSize_eq_zero_iff.mp hzero] at hrest
    exact hne ((toList_intercalate_eq_nil_iff hbelow).mp hrest.symm)
  rcases List.prefix_or_prefix_of_prefix hfirst hsecond with ⟨below, rfl⟩ | ⟨below, rfl⟩
  · have hbelow := (named_append.mp (h.of_isPrefix hsecond)).2
    exact iff_of_true (List.length_append ▸ Nat.le_add_right _ _) (hlonger hbelow).1
  · have hbelow := (named_append.mp (h.of_isPrefix hfirst)).2
    by_cases hne : below = []
    · rw [hne, List.append_nil]
      exact iff_of_true (Nat.le_refl _) (Nat.le_refl _)
    · refine iff_of_false ?_ (Nat.not_le.mpr ((hlonger hbelow).2 hne))
      have := List.length_pos_of_ne_nil hne
      rw [List.length_append]
      omega

end Path

namespace Guest

open StagedSandbox.Action

variable {g g' : Guest} {fd : Nat} {text : String} {path guest host : Path}

/-! ### On texts -/

/-- What follows so many bytes of a text, if they end between two of its characters. -/
def behind? (text : String) (count : Nat) : Option String :=
  ((Bytes.ofText text).slice count text.utf8ByteSize).text?

theorem behind?_append (front rest : String) :
    behind? (front ++ rest) front.utf8ByteSize = some rest := by
  have hslice : (Bytes.ofText (front ++ rest)).slice front.utf8ByteSize
      (front ++ rest).utf8ByteSize = Bytes.ofText rest := by
    rw [← Bytes.list_inj, Bytes.list_slice, Bytes.ofText_append, Bytes.list_append,
      ← Bytes.size_ofText front, ← Bytes.length_list, List.drop_left, List.take_of_length_le]
    rw [Bytes.length_list, Bytes.size_ofText, String.utf8ByteSize_append]
    exact Nat.le_add_left _ _
  rw [behind?, hslice, Bytes.text?_ofText]

/-- The later of two texts unless the former has more bytes. -/
def longerText (best next : Nat × String) : Nat × String :=
  if best.2.utf8ByteSize ≤ next.2.utf8ByteSize then next else best

/-- The preopened directory that covers a path, and the text of the path beneath it, by rules on
texts alone: that of the directory is cut off by its number of bytes. There is no answer if it would
be cut within a character. -/
def resolveText? (g : Guest) (text : String) : Option (Except Errno (Nat × String)) :=
  match Path.normalize? text with
  | none => some (.error .inval)
  | some path =>
    match (g.preopens.map fun preopen => (preopen.1, preopen.2.render)).filter
        fun preopen => Path.isWithin path preopen.2 with
    | [] => some (.error .notcapable)
    | first :: rest =>
      let (fd, guest) := rest.foldl longerText first
      (behind? path guest.utf8ByteSize).map fun rest =>
        let below := rest.toList.dropWhile (· = '/')
        .ok (fd, if below = [] then "." else String.ofList below)

/-- If the paths of two directories begin the same path, comparing the texts of the directories is
comparing their paths. -/
theorem longerText_render (hpath : path.Named) {best next : Nat × Path} (hbest : best.2 <+: path)
    (hnext : next.2 <+: path) :
    longerText (best.1, best.2.render) (next.1, next.2.render) =
      ((longer best next).1, (longer best next).2.render) := by
  rw [longerText, longer]
  by_cases hle : best.2.length ≤ next.2.length
  · rw [if_pos hle, if_pos ((Path.length_le_iff_utf8ByteSize_le hpath hbest hnext).mp hle)]
  · rw [if_neg hle, if_neg (mt (Path.length_le_iff_utf8ByteSize_le hpath hbest hnext).mpr hle)]

theorem foldl_longerText_render (hpath : path.Named) {best : Nat × Path}
    {rest : List (Nat × Path)} (h : ∀ preopen ∈ best :: rest, preopen.2 <+: path) :
    (rest.map fun preopen => (preopen.1, preopen.2.render)).foldl longerText
        (best.1, best.2.render) =
      ((rest.foldl longer best).1, (rest.foldl longer best).2.render) := by
  induction rest generalizing best with
  | nil => rfl
  | cons next rest ih =>
    obtain ⟨hbest, hnext, hrest⟩ : best.2 <+: path ∧ next.2 <+: path ∧
        ∀ preopen ∈ rest, preopen.2 <+: path := by
      simpa using h
    rw [List.map_cons, List.foldl_cons, List.foldl_cons, longerText_render hpath hbest hnext]
    apply ih
    rw [List.forall_mem_cons]
    refine ⟨?_, hrest⟩
    rw [longer]
    split
    · exact hnext
    · exact hbest

theorem mem_of_foldl_longer (best : Nat × Path) (rest : List (Nat × Path)) :
    rest.foldl longer best ∈ best :: rest := by
  induction rest generalizing best with
  | nil => exact List.mem_singleton_self best
  | cons next rest ih =>
    rw [List.foldl_cons, longer]
    split
    · exact List.mem_cons_of_mem best (ih next)
    · rcases List.mem_cons.mp (ih best) with heq | hmem
      · rw [heq]
        exact List.mem_cons_self
      · exact List.mem_cons_of_mem best (List.mem_cons_of_mem next hmem)

/-- Of the candidates, the last one with the longest path is taken. -/
theorem longest_of_foldl_longer {best : Nat × Path} {rest : List (Nat × Path)}
    (h : (best :: rest).Pairwise (·.1 < ·.1)) :
    ∀ other ∈ best :: rest, other.2.length < (rest.foldl longer best).2.length ∨
      other.2.length = (rest.foldl longer best).2.length ∧
        other.1 ≤ (rest.foldl longer best).1 := by
  induction rest generalizing best with
  | nil =>
    intro other hother
    rw [List.mem_singleton.mp hother]
    exact Or.inr ⟨rfl, Nat.le_refl best.1⟩
  | cons next rest ih =>
    obtain ⟨hbest, hnext⟩ := List.pairwise_cons.mp h
    have hlt := hbest next List.mem_cons_self
    rw [List.foldl_cons, longer]
    intro other hother
    split
    · next hle =>
      rcases List.mem_cons.mp hother with rfl | hother
      · have hnext := ih hnext next List.mem_cons_self
        omega
      · exact ih hnext other hother
    · next hle =>
      have hbest' : (best :: rest).Pairwise (·.1 < ·.1) :=
        List.pairwise_cons.mpr ⟨fun other hother => hbest other (List.mem_cons_of_mem _ hother),
          (List.pairwise_cons.mp hnext).2⟩
      rcases List.mem_cons.mp hother with rfl | hother
      · exact ih hbest' _ List.mem_cons_self
      · rcases List.mem_cons.mp hother with rfl | hother
        · have hbest := ih hbest' best List.mem_cons_self
          omega
        · exact ih hbest' other (List.mem_cons_of_mem _ hother)

/-! ### Preopened directories -/

/-- The descriptors are listed by their numbers, and what is shown of preopened directories are
paths with names. -/
structure Orderly (g : Guest) : Prop where
  increasing : Table.Increasing g.descriptors
  named : ∀ fd guest path, g.descriptors.get? fd = some (.preopen guest path) → guest.Named

theorem Orderly.step (h : g.Orderly) (hstep : Step g g') : g'.Orderly := by
  constructor
  · cases hstep with
    | fs | random => exact h.increasing
    | offset => exact h.increasing.set _ _
    | opened => exact h.increasing.insert _ _
    | closed => exact h.increasing.erase _
  · intro fd guest path hget
    obtain hbefore | ⟨hopened, -⟩ := hstep.get? hget
    · exact h.named fd guest path hbefore
    · cases hopened

theorem Orderly.steps (h : g.Orderly) (hsteps : Steps g g') : g'.Orderly := by
  induction hsteps with
  | refl => exact h
  | tail _ hstep ih => exact ih.step hstep

theorem Orderly.call (h : g.Orderly) (c : SystemCall) : (g.call c).2.Orderly := by
  obtain hsteps | hshows := call_cases g c
  · exact h.steps hsteps
  · generalize (g.call c).2 = g' at hshows
    cases hshows with
    | out | err => exact ⟨h.increasing, h.named⟩

theorem Orderly.run (h : g.Orderly) (calls : List SystemCall) : (g.run calls).2.Orderly := by
  induction calls generalizing g with
  | nil => exact h
  | cons c rest ih => exact ih (h.call c)

theorem orderly_start (fs : Fs) (console : Console) (arguments : List String)
    (environment : List (String × String)) (preopens : List Preopen) (entropy : Entropy) :
    (start fs console arguments environment preopens entropy).Orderly := by
  constructor
  · rw [start, Table.Increasing, Table.keys, initialDescriptors, List.map_map]
    have hnumbers := List.zipIdx_map_snd 0
      (Descriptor.stdin :: .stdout :: .stderr :: preopened preopens)
    exact hnumbers ▸ List.pairwise_lt_range'
  · intro fd guest path hget
    have hd := mem_of_get?_initialDescriptors hget
    simp only [List.mem_cons, reduceCtorEq, false_or] at hd
    obtain ⟨preopen, -, hd⟩ := List.mem_filterMap.mp hd
    split at hd
    · next hguest hpath =>
      obtain ⟨rfl, rfl⟩ := Descriptor.preopen.inj (Option.some.inj hd)
      exact Path.named_of_parse? hguest
    · cases hd

/-- What is listed are the preopened directories that are still open. -/
theorem Orderly.mem_preopens (h : g.Orderly) :
    (fd, guest) ∈ g.preopens ↔ ∃ host, g.descriptors.get? fd = some (.preopen guest host) := by
  rw [preopens, List.mem_filterMap]
  constructor
  · rintro ⟨⟨fd', d⟩, hmem, hd⟩
    cases d with
    | preopen guest' host =>
      obtain ⟨rfl, rfl⟩ := Prod.mk.inj (Option.some.inj hd)
      exact ⟨host, h.increasing.get?_of_mem hmem⟩
    | stdin | stdout | stderr | dir | file => cases hd
  · rintro ⟨host, hget⟩
    exact ⟨(fd, .preopen guest host), Table.mem_of_get? hget, rfl⟩

/-- They are listed by their numbers. -/
theorem Orderly.pairwise_preopens (h : g.Orderly) : g.preopens.Pairwise (·.1 < ·.1) := by
  have hnumbers : g.descriptors.Pairwise (·.1 < ·.1) := List.pairwise_map.mp h.increasing
  rw [preopens]
  apply hnumbers.filterMap
  intro entry entry' hlt preopen hpreopen preopen' hpreopen'
  split at hpreopen
  · split at hpreopen'
    · rw [← Option.some.inj hpreopen, ← Option.some.inj hpreopen']
      exact hlt
    · cases hpreopen'
  · cases hpreopen

/-- A directory that is preopened at a descriptor begins a path. -/
structure Covers (g : Guest) (path : Path) (fd : Nat) (guest host : Path) : Prop where
  preopened : g.descriptors.get? fd = some (.preopen guest host)
  begins : guest <+: path

theorem Orderly.mem_candidates (h : g.Orderly) (path : Path) (fd : Nat) (guest : Path) :
    (fd, guest) ∈ g.preopens.filter (fun preopen => preopen.2.isPrefixOf path) ↔
      ∃ host, g.Covers path fd guest host := by
  rw [List.mem_filter, h.mem_preopens]
  dsimp only
  rw [List.isPrefixOf_iff_prefix]
  constructor
  · rintro ⟨⟨host, hget⟩, hbegins⟩
    exact ⟨host, hget, hbegins⟩
  · rintro ⟨host, hget, hbegins⟩
    exact ⟨⟨host, hget⟩, hbegins⟩

/-! ### The directory that is taken -/

/-- The text of what lies below a directory. -/
def textOf (below : Path) : String := if below = [] then "." else "/".intercalate below

/-- No directory begins the path, or the one with the longest path is taken, of equally long ones
that with the highest number. -/
theorem Orderly.resolve_cases (h : g.Orderly) (hpath : Path.parse? text = some path) :
    (g.resolve text = .error .notcapable ∧ ∀ fd guest host, ¬ g.Covers path fd guest host) ∨
      ∃ fd guest host, g.resolve text = .ok (fd, textOf (path.drop guest.length)) ∧
        g.Covers path fd guest host ∧
        ∀ fd' guest' host', g.Covers path fd' guest' host' →
          guest'.length < guest.length ∨ guest' = guest ∧ fd' ≤ fd := by
  have hmem := h.mem_candidates path
  have horder : (g.preopens.filter fun preopen => preopen.2.isPrefixOf path).Pairwise
      (·.1 < ·.1) := h.pairwise_preopens.filter _
  rw [resolve, hpath]
  dsimp only
  cases hcandidates : g.preopens.filter fun preopen => preopen.2.isPrefixOf path with
  | nil =>
    refine Or.inl ⟨rfl, fun fd guest host hcovers => ?_⟩
    have hnone := (hmem fd guest).mpr ⟨host, hcovers⟩
    rw [hcandidates] at hnone
    cases hnone
  | cons first rest =>
    rw [hcandidates] at hmem horder
    obtain ⟨host, hcovers⟩ := (hmem _ _).mp (mem_of_foldl_longer first rest)
    refine Or.inr ⟨_, _, host, rfl, hcovers, fun fd' guest' host' hcovers' => ?_⟩
    have hlongest := longest_of_foldl_longer horder _ ((hmem fd' guest').mpr ⟨host', hcovers'⟩)
    rcases hlongest with hshorter | ⟨hlength, hfd⟩
    · exact Or.inl hshorter
    · have hbegins := List.prefix_of_prefix_length_le hcovers'.begins hcovers.begins
        (Nat.le_of_eq hlength)
      exact Or.inr ⟨hbegins.eq_of_length hlength, hfd⟩

/-- The text of what lies below a preopened directory leads there. -/
theorem locate_textOf (hget : g.descriptors.get? fd = some (.preopen guest host)) {below : Path}
    (hbelow : below.Named) : locate fd (textOf below) g = .ok (host ++ below, host) g := by
  have hfollow : host.follow (textOf below) = host ++ below := by
    rw [textOf]
    split
    · next hempty =>
      rw [hempty, List.append_nil]
      rfl
    · next hne => exact Path.follow_intercalate hbelow hne host
  have hdir : directory fd g = .ok (host, host) g := by
    rw [directory, run_bind_of_ok (descriptor_eq hget)]
    rfl
  rw [locate, run_bind_of_ok hdir]
  dsimp only
  rw [hfollow, if_pos (List.isPrefixOf_iff_prefix.mpr (List.prefix_append host below))]
  rfl

/-- The rules on texts find the same directory, and the same text below it. -/
theorem Orderly.resolveText?_eq (h : g.Orderly) (text : String) :
    g.resolveText? text = some (g.resolve text) := by
  rw [resolveText?, resolve, Path.normalize?]
  cases hpath : Path.parse? text with
  | none => rfl
  | some path =>
    have hnamed := Path.named_of_parse? hpath
    have hfilter : (g.preopens.map fun preopen => (preopen.1, preopen.2.render)).filter
          (fun preopen => Path.isWithin path.render preopen.2) =
        (g.preopens.filter fun preopen => preopen.2.isPrefixOf path).map
          fun preopen => (preopen.1, preopen.2.render) := by
      rw [List.filter_map]
      congr 1
      apply List.filter_congr
      rintro ⟨fd, guest⟩ hmem
      obtain ⟨host, hget⟩ := h.mem_preopens.mp hmem
      rw [Bool.eq_iff_iff, List.isPrefixOf_iff_prefix]
      exact Path.isWithin_render hnamed (h.named fd guest host hget)
    rw [Option.map_some]
    dsimp only
    rw [hfilter]
    cases hcandidates : g.preopens.filter fun preopen => preopen.2.isPrefixOf path with
    | nil => rfl
    | cons first rest =>
      have hbegins : ∀ preopen ∈ first :: rest, preopen.2 <+: path := by
        rw [← hcandidates]
        intro preopen hmem
        exact List.isPrefixOf_iff_prefix.mp (List.mem_filter.mp hmem).2
      rw [List.map_cons]
      dsimp only
      rw [foldl_longerText_render hnamed hbegins]
      obtain ⟨below, rfl⟩ := hbegins _ (mem_of_foldl_longer first rest)
      generalize rest.foldl longer first = best at hnamed
      have hbelow := (Path.named_append.mp hnamed).2
      obtain ⟨after, htext, hafter⟩ := Path.exists_render_append best.2 hbelow
      rw [htext, behind?_append, Option.map_some, List.drop_left]
      dsimp only
      rw [hafter, String.ofList_toList]
      simp only [Path.toList_intercalate_eq_nil_iff hbelow]

/-- After all calls, an absolute path is refused only if no preopened directory that is still open
begins it. Otherwise the one with the longest path is taken, of equally long ones that with the
highest number, and the text that is returned leads from there to where the rest of the path leads.
The rules on texts, which count bytes and cut them off, come to the same. -/
theorem resolve_longest_prefix (fs : Fs) (console : Console) (arguments : List String)
    (environment : List (String × String)) (preopens : List Preopen)
    (entropy : Entropy) (calls : List SystemCall)
    (hpath : Path.parse? text = some path) :
    let g := ((start fs console arguments environment preopens entropy).run calls).2
    g.resolveText? text = some (g.resolve text) ∧
      (g.resolve text = .error .notcapable ↔
        ¬ ∃ fd guest host, g.Covers path fd guest host) ∧
      ((∃ fd guest host, g.Covers path fd guest host) →
        ∃ fd rel guest host, g.resolve text = .ok (fd, rel) ∧ g.Covers path fd guest host ∧
          (∀ fd' guest' host', g.Covers path fd' guest' host' →
            guest'.length < guest.length ∨ guest' = guest ∧ fd' ≤ fd) ∧
          locate fd rel g = .ok (host ++ path.drop guest.length, host) g) := by
  intro g
  have horderly : g.Orderly :=
    (orderly_start fs console arguments environment preopens entropy).run calls
  refine ⟨horderly.resolveText?_eq text, ?_⟩
  obtain ⟨hrefused, hnone⟩ | ⟨fd, guest, host, hfound, hcovers, hlongest⟩ :=
    horderly.resolve_cases hpath
  · have hnot : ¬ ∃ fd guest host, g.Covers path fd guest host :=
      fun ⟨fd, guest, host, hcovers⟩ => hnone fd guest host hcovers
    exact ⟨iff_of_true hrefused hnot, fun hsome => absurd hsome hnot⟩
  · have hsome : ∃ fd guest host, g.Covers path fd guest host := ⟨fd, guest, host, hcovers⟩
    constructor
    · rw [hfound]
      exact iff_of_false nofun (not_not_intro hsome)
    · intro _
      refine ⟨fd, _, guest, host, hfound, hcovers, hlongest, ?_⟩
      have hnamed := Path.named_of_parse? hpath
      have hbelow : Path.Named (path.drop guest.length) :=
        fun name hname => hnamed name (List.mem_of_mem_drop hname)
      exact locate_textOf hcovers.preopened hbelow

/-- Two directories are shown at a path with a letter of two bytes, and one below it that the path
only seems to lie in. The later of the two is taken, and once that is closed the other one. -/
theorem resolve_longest_prefix_nested :
    let preopens : List Preopen := [⟨"/ä", "/data"⟩, ⟨"//ä/.", "/other"⟩, ⟨"/ä/lib", "/lib"⟩]
    let g := ((start [] {} [] [] preopens .zeros).run []).2
    let closed := ((start [] {} [] [] preopens .zeros).run [.close 4]).2
    (g.resolve "/ä/x/../library" = .ok (4, "library") ∧
        g.Covers ["ä", "library"] 3 ["ä"] ["data"] ∧
        locate 4 "library" g = .ok (["other", "library"], ["other"]) g) ∧
      closed.resolveText? "/ä/x/../library" = some (.ok (3, "library")) ∧
      ((closed.resolve "/é" = .error .notcapable) ∧
        ¬ ∃ fd guest host, closed.Covers ["é"] fd guest host) := by
  intro preopens g closed
  have hpath : Path.parse? "/ä/x/../library" = some ["ä", "library"] := by decide +kernel
  have houtside : Path.parse? "/é" = some ["é"] := by decide +kernel
  have hopen : g.resolve "/ä/x/../library" = .ok (4, "library") := by decide +kernel
  have hclosed : closed.resolve "/ä/x/../library" = .ok (3, "library") := by decide +kernel
  have hrefused : closed.resolve "/é" = .error .notcapable := by decide +kernel
  have hcovers : g.Covers ["ä", "library"] 3 ["ä"] ["data"] := ⟨by decide +kernel, by decide⟩
  obtain ⟨-, -, hlands⟩ := resolve_longest_prefix [] {} [] [] preopens .zeros [] hpath
  obtain ⟨fd, rel, guest, host, hfound, hbest, -, hlocate⟩ := hlands ⟨3, _, _, hcovers⟩
  obtain ⟨rfl, rfl⟩ := Prod.mk.inj (Except.ok.inj (hopen.symm.trans hfound))
  have hother : g.descriptors.get? 4 = some (.preopen ["ä"] ["other"]) := by decide +kernel
  obtain ⟨rfl, rfl⟩ := Descriptor.preopen.inj
    (Option.some.inj (hother.symm.trans hbest.preopened))
  obtain ⟨htext, -⟩ := resolve_longest_prefix [] {} [] [] preopens .zeros [.close 4] hpath
  obtain ⟨-, hnone, -⟩ := resolve_longest_prefix [] {} [] [] preopens .zeros [.close 4] houtside
  exact ⟨⟨hopen, hcovers, hlocate⟩, htext.trans (congrArg some hclosed), hrefused,
    hnone.mp hrefused⟩

end Guest

end StagedSandbox
