import StagedSandbox.Proofs.Path

/-!
# Texts in normal form

What the rules on texts say of a text in normal form is what holds of the list of names that it
denotes: one text lies within another just if the other list begins the first, the parent of a text
has all names but the last, and a text joined to it is followed part by part from where it leads
(`Path.text_rules`). The texts in normal form are those of lists of names that a directory may hold
(`Path.Normal.exists_render`).
-/

namespace StagedSandbox.Path

/-- A text in normal form starts with a slash. But for the text of the root, a name stands behind
each of its slashes, none of them empty, `.` or `..`, and it does not end with a slash. -/
structure Normal (text : String) : Prop where
  absolute : isAbsolute text = true
  named : text ≠ "/" → ∀ part ∈ (parts text).tail, IsName part
  ending : text ≠ "/" → text.toList.getLast? ≠ some '/'

variable {path other : Path} {text : String}

/-! ### The text of a path is in normal form -/

theorem isAbsolute_iff : isAbsolute text = true ↔ ∃ rest, text.toList = '/' :: rest := by
  rw [isAbsolute, decide_eq_true_eq, List.head?_eq_some_iff]

/-- The parts of an absolute text stand behind its slashes. -/
theorem parts_of_isAbsolute {rest : List Char} (h : text.toList = '/' :: rest) :
    parts text = "" :: (Text.fields '/' rest).map String.ofList := by
  rw [parts, h, Text.fields_cons, Text.addToFields_self, List.map_cons, String.ofList_nil]

theorem isAbsolute_render (path : Path) : isAbsolute path.render = true := by
  cases path with
  | nil => decide
  | cons name rest =>
    apply isAbsolute_iff.mpr
    rw [toList_render (List.cons_ne_nil name rest), textBelow_cons]
    exact ⟨_, rfl⟩

theorem parts_render (h : path.Named) (hne : path ≠ []) : parts path.render = "" :: path := by
  rw [parts, toList_render hne, fields_textBelow h, List.map_cons, map_ofList_toList,
    String.ofList_nil]

theorem render_eq_slash_iff (h : path.Named) : path.render = "/" ↔ path = [] := by
  rw [← render_nil, render_inj h Named.nil]

theorem normal_render (h : path.Named) : Normal path.render := by
  constructor
  · exact isAbsolute_render path
  · intro hroot part hpart
    rw [parts_render h (mt (render_eq_slash_iff h).mpr hroot)] at hpart
    exact h part hpart
  · intro hroot hlast
    have hne := mt (render_eq_slash_iff h).mpr hroot
    rw [← List.dropLast_append_getLast hne] at h hlast
    obtain ⟨hempty, -, -, hslash⟩ := h (path.getLast hne) (by simp)
    rw [toList_render (by simp), textBelow_append, textBelow_cons, textBelow_nil, List.append_nil,
      List.getLast?_append_cons, List.getLast?_cons, Option.some.injEq] at hlast
    have hname : (path.getLast hne).toList ≠ [] := by
      intro hnil
      exact hempty (String.toList_eq_nil_iff.mp hnil)
    obtain ⟨last, hgetLast⟩ := Option.ne_none_iff_exists'.mp (mt List.getLast?_eq_none_iff.mp hname)
    rw [hgetLast, Option.getD_some] at hlast
    exact hslash (hlast ▸ List.mem_of_getLast? hgetLast)

/-- A text in normal form is that of a path. -/
theorem Normal.exists_render (h : Normal text) :
    ∃ path : Path, path.Named ∧ path.render = text := by
  by_cases hroot : text = "/"
  · exact ⟨[], Named.nil, hroot.symm⟩
  · obtain ⟨rest, hrest⟩ := isAbsolute_iff.mp h.absolute
    have hnamed : Named ((Text.fields '/' rest).map String.ofList) := by
      have hparts := h.named hroot
      rwa [parts_of_isAbsolute hrest] at hparts
    refine ⟨_, hnamed, ?_⟩
    have hne : (Text.fields '/' rest).map String.ofList ≠ [] := by
      rw [ne_eq, List.map_eq_nil_iff]
      exact Text.fields_ne_nil '/' rest
    apply String.toList_inj.mp
    rw [toList_render hne, textBelow_eq_cons hne, String.toList_intercalate, List.map_map]
    simpa [hrest, Function.comp_def] using Text.intercalate_fields '/' rest

/-- The text in normal form that denotes a path. -/
structure NormalForm (path : Path) (text : String) : Prop where
  normal : Normal text
  denotes : parse? text = some path

theorem normalForm_render (h : path.Named) : NormalForm path path.render :=
  ⟨normal_render h, parse?_render h⟩

/-! ### Rules on texts in normal form -/

theorem isWithin_render (h : path.Named) (hother : other.Named) :
    isWithin path.render other.render = true ↔ other <+: path := by
  rw [isWithin]
  by_cases hroot : other = []
  · rw [hroot, render_nil, if_pos rfl]
    exact iff_of_true (isAbsolute_render path) List.nil_prefix
  · rw [if_neg (mt (render_eq_slash_iff hother).mp hroot), Bool.or_eq_true, decide_eq_true_eq,
      render_inj h hother, List.isPrefixOf_iff_prefix, toList_render hroot]
    by_cases hempty : path = []
    · -- only the slash of the root is in its text
      obtain ⟨name, rest, rfl⟩ := List.exists_cons_of_ne_nil hroot
      have hlong : ¬ textBelow (name :: rest) ++ ['/'] <+: (render []).toList := by
        intro hbegins
        have hle := hbegins.length_le
        rw [textBelow_cons] at hle
        simp at hle
      rw [hempty]
      refine iff_of_false (not_or.mpr ⟨(List.cons_ne_nil name rest).symm, hlong⟩) ?_
      exact fun hbegins => List.cons_ne_nil name rest (List.prefix_nil.mp hbegins)
    · rw [toList_render hempty, textBelow_append_slash_prefix_iff hother h]
      constructor
      · rintro (rfl | ⟨hbegins, -⟩)
        · exact List.prefix_refl path
        · exact hbegins
      · intro hbegins
        by_cases heq : path = other
        · exact Or.inl heq
        · exact Or.inr ⟨hbegins, Ne.symm heq⟩

/-- A slash in front of a text is an empty part of it. -/
theorem follow_slash_append (here : Path) (text : String) :
    here.follow ("/" ++ text) = here.follow text := by
  have habsolute : ("/" ++ text).toList = '/' :: text.toList := by simp
  have hparts : parts ("/" ++ text) = "" :: parts text := by
    rw [parts_of_isAbsolute habsolute]
    rfl
  rw [follow, hparts, List.foldl_cons]
  rfl

/-- Absolute texts behave as the lists of their names. Each has a normal form, which denotes the
same list and stays as it is. Between normal forms, one lies within another just if the other list
begins the first, and the parent is the normal form of the list without its last name. A text that
is joined to a normal form is followed part by part from where that one leads, also if it starts
with a slash. -/
theorem text_rules {p q : String} (hp : isAbsolute p = true) (hq : isAbsolute q = true) :
    ∃ path other p' q',
      (parse? p = some path ∧ normalize? p = some p') ∧
      (parse? q = some other ∧ normalize? q = some q') ∧
      (NormalForm path p' ∧ normalize? p' = some p') ∧
      (isWithin p' q' = true ↔ other <+: path) ∧
      (match parentText? p' with
        | none => p' = "/" ∧ path = []
        | some above => p' ≠ "/" ∧ path ≠ [] ∧ NormalForm path.dropLast above) ∧
      ∀ base, Normal base → ∃ here, parse? base = some here ∧ ∀ rel, ∃ joined,
        join? base rel = some joined ∧ NormalForm ((parts rel).foldl enter here) joined ∧
        join? base ("/" ++ rel) = some joined := by
  have hpath : parse? p = some (follow [] p) := if_pos hp
  have hother : parse? q = some (follow [] q) := if_pos hq
  have hnamed := named_of_parse? hpath
  have hnamed' := named_of_parse? hother
  refine ⟨_, _, render (follow [] p), render (follow [] q), ⟨hpath, ?_⟩, ⟨hother, ?_⟩,
    ⟨normalForm_render hnamed, normalize?_render hnamed⟩, isWithin_render hnamed hnamed', ?_, ?_⟩
  · rw [normalize?, hpath, Option.map_some]
  · rw [normalize?, hother, Option.map_some]
  · by_cases hroot : follow [] p = []
    · rw [hroot]
      exact ⟨rfl, rfl⟩
    · rw [parentText?_render hnamed hroot]
      refine ⟨mt (render_eq_slash_iff hnamed).mp hroot, hroot, normalForm_render ?_⟩
      exact hnamed.of_isPrefix (List.dropLast_prefix _)
  · intro base hbase
    obtain ⟨here, hhere, rfl⟩ := hbase.exists_render
    have hparse := parse?_render hhere
    refine ⟨here, hparse, fun rel => ⟨_, join?_eq hparse rel, ?_, ?_⟩⟩
    · exact normalForm_render (hhere.follow rel)
    · rw [join?_eq hparse, follow_slash_append]

/-- A letter of two bytes, a detour, a text that only begins alike, and a way up beyond the root. -/
theorem text_rules_detour :
    let p := "//lib/./x/../ä/é/"
    isAbsolute p = true ∧ isAbsolute "/lib/ä/" = true ∧
      normalize? p = some "/lib/ä/é" ∧ NormalForm ["lib", "ä", "é"] "/lib/ä/é" ∧
      isWithin "/lib/ä/é" "/lib/ä" = true ∧ isWithin "/lib/ä/é" "/l" = false ∧
      NormalForm ["lib", "ä"] "/lib/ä" ∧ parentText? "/lib/ä/é" = some "/lib/ä" ∧
      ∃ joined, join? "/lib/ä/é" "/../../.././../b//c/." = some joined ∧
        NormalForm ["b", "c"] joined := by
  intro p
  have hp : isAbsolute p = true := by decide
  have hq : isAbsolute "/lib/ä/" = true := by decide
  have hsibling : isAbsolute "/l" = true := by decide
  obtain ⟨path, other, p', q', ⟨hpath, hp'⟩, ⟨hother, hq'⟩, ⟨hform, -⟩, hwithin, hparent, hjoin⟩ :=
    text_rules hp hq
  obtain rfl : ["lib", "ä", "é"] = path := Option.some.inj (.trans (by decide +kernel) hpath)
  obtain rfl : "/lib/ä/é" = p' := Option.some.inj (.trans (by decide +kernel) hp')
  obtain rfl : ["lib", "ä"] = other := Option.some.inj (.trans (by decide +kernel) hother)
  obtain rfl : "/lib/ä" = q' := Option.some.inj (.trans (by decide +kernel) hq')
  have hroot : parentText? "/lib/ä/é" = some "/lib/ä" := by decide +kernel
  rw [hroot] at hparent
  obtain ⟨here, hhere, hfollow⟩ := hjoin "/lib/ä/é" hform.normal
  obtain rfl : ["lib", "ä", "é"] = here := Option.some.inj (.trans hform.denotes.symm hhere)
  obtain ⟨joined, hjoined, hlist, -⟩ := hfollow "/../../.././../b//c/."
  have hdetour : (parts "/../../.././../b//c/.").foldl enter ["lib", "ä", "é"] = ["b", "c"] := by
    decide +kernel
  rw [hdetour] at hlist
  obtain ⟨path, other, p', q', ⟨hpath', hp''⟩, ⟨hl, hl'⟩, -, hbeside, -⟩ := text_rules hp hsibling
  obtain rfl : ["lib", "ä", "é"] = path := Option.some.inj (hpath.symm.trans hpath')
  obtain rfl : "/lib/ä/é" = p' := Option.some.inj (hp'.symm.trans hp'')
  obtain rfl : ["l"] = other := Option.some.inj (.trans (by decide +kernel) hl)
  obtain rfl : "/l" = q' := Option.some.inj (.trans (by decide +kernel) hl')
  refine ⟨hp, hq, hp', hform, hwithin.mpr ⟨["é"], rfl⟩, ?_, hparent.2.2, hroot,
    joined, hjoined, hlist⟩
  rw [← Bool.not_eq_true, hbeside]
  decide

end StagedSandbox.Path
