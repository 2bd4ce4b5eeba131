import Mathlib.Data.List.Basic
import StagedSandbox.Proofs.Fs.View
import StagedSandbox.Proofs.Text.Split

/-!
# Paths and their text

A path whose names a directory may hold is read back from its text (`Path.parse?_render`), and
every path that is read from a text is of this kind (`Path.named_of_parse?`).
-/

namespace StagedSandbox

namespace Path

/-! ### Following a text -/

theorem Named.nil : Named [] := by simp [Named]

theorem named_append {path rest : Path} : Named (path ++ rest) ↔ path.Named ∧ rest.Named := by
  simp only [Named, List.mem_append, or_imp, forall_and]

theorem named_cons {name : String} {rest : Path} :
    Named (name :: rest) ↔ IsName name ∧ Named rest := by
  simp [Named]

theorem Named.of_isPrefix {above path : Path} (h : path.Named) (hunder : above <+: path) :
    above.Named :=
  fun name hname => h name (hunder.subset hname)

theorem slash_not_mem_of_mem_parts {text part : String} (h : part ∈ parts text) :
    '/' ∉ part.toList := by
  obtain ⟨field, hfield, rfl⟩ := List.mem_map.1 h
  rw [String.toList_ofList]
  exact Text.not_mem_of_mem_fields hfield

theorem Named.enter {here : Path} (h : here.Named) {part : String} (hpart : '/' ∉ part.toList) :
    (here.enter part).Named := by
  rw [Path.enter]
  split
  · exact h
  · next hskip =>
    obtain ⟨hempty, hdot⟩ := not_or.1 hskip
    split
    · exact h.of_isPrefix (List.dropLast_prefix here)
    · next hup =>
      exact named_append.2 ⟨h, named_cons.2 ⟨⟨hempty, hdot, hup, hpart⟩, Named.nil⟩⟩

theorem Named.foldl_enter {here : Path} (h : here.Named) {list : List String}
    (hlist : ∀ part ∈ list, '/' ∉ part.toList) : (list.foldl Path.enter here).Named := by
  induction list generalizing here with
  | nil => exact h
  | cons first rest ih =>
    refine ih (h.enter (hlist first (List.mem_cons_self ..))) fun part hpart => ?_
    exact hlist part (List.mem_cons_of_mem _ hpart)

theorem Named.follow {here : Path} (h : here.Named) (text : String) : (here.follow text).Named :=
  h.foldl_enter fun _ => slash_not_mem_of_mem_parts

theorem named_of_parse? {text : String} {path : Path} (h : parse? text = some path) :
    path.Named := by
  rw [parse?] at h
  split at h
  · obtain rfl := Option.some.inj h
    exact Named.nil.follow text
  · simp at h

theorem parts_of_isName {name : String} (h : IsName name) : parts name = [name] := by
  rw [parts, Text.fields_of_not_mem h.2.2.2, List.map_singleton, String.ofList_toList]

theorem follow_of_isName {name : String} (h : IsName name) (here : Path) :
    here.follow name = here ++ [name] := by
  rw [follow, parts_of_isName h, List.foldl_cons, List.foldl_nil, enter_of_isName h]

/-! ### The text of a path -/

/-- The text of a path, with nothing for the root. -/
def textBelow (path : Path) : List Char := path.flatMap fun name => '/' :: name.toList

@[simp] theorem textBelow_nil : textBelow [] = [] := rfl

theorem textBelow_cons (name : String) (rest : Path) :
    textBelow (name :: rest) = '/' :: (name.toList ++ textBelow rest) := by
  simp [textBelow]

theorem textBelow_append (path rest : Path) :
    textBelow (path ++ rest) = textBelow path ++ textBelow rest :=
  List.flatMap_append

theorem toList_render {path : Path} (h : path ≠ []) : path.render.toList = textBelow path := by
  obtain ⟨name, rest, rfl⟩ := List.exists_cons_of_ne_nil h
  rw [render_cons, String.toList_join, List.flatMap_map]
  simp [textBelow]

theorem fields_textBelow {path : Path} (h : path.Named) :
    Text.fields '/' (textBelow path) = [] :: path.map String.toList := by
  induction path with
  | nil => rfl
  | cons name rest ih =>
    obtain ⟨hname, hrest⟩ := named_cons.1 h
    rw [textBelow_cons, Text.fields_cons, Text.addToFields_self]
    congr 1
    cases rest with
    | nil =>
      rw [textBelow_nil, List.append_nil, Text.fields_of_not_mem hname.2.2.2]
      rfl
    | cons next more =>
      have hnext := ih hrest
      rw [textBelow_cons, Text.fields_cons, Text.addToFields_self, List.cons_inj_right] at hnext
      rw [textBelow_cons, Text.fields_append_cons, Text.fields_of_not_mem hname.2.2.2, hnext]
      rfl

theorem map_ofList_toList (path : Path) : (path.map String.toList).map String.ofList = path := by
  simp

theorem foldl_enter_of_named (here : Path) {path : Path} (h : path.Named) :
    path.foldl enter here = here ++ path := by
  induction path generalizing here with
  | nil => exact (List.append_nil here).symm
  | cons name rest ih =>
    obtain ⟨hname, hrest⟩ := named_cons.1 h
    rw [List.foldl_cons, enter_of_isName hname, ih _ hrest, List.append_assoc,
      List.singleton_append]

theorem textBelow_eq_cons {path : Path} (h : path ≠ []) :
    textBelow path = '/' :: ("/".intercalate path).toList := by
  induction path with
  | nil => exact absurd rfl h
  | cons name rest ih =>
    rw [textBelow_cons]
    cases rest with
    | nil => simp
    | cons next more =>
      rw [ih (by simp), String.intercalate_cons_cons, String.toList_append, String.toList_append]
      simp

/-- Names that are joined by slashes lead down from a directory. -/
theorem follow_intercalate {path : Path} (h : path.Named) (hne : path ≠ []) (here : Path) :
    here.follow ("/".intercalate path) = here ++ path := by
  have hfields := fields_textBelow h
  rw [textBelow_eq_cons hne, Text.fields_cons, Text.addToFields_self,
    List.cons_inj_right] at hfields
  rw [follow, parts, hfields, map_ofList_toList]
  exact foldl_enter_of_named here h

/-- A path is read back from its text. -/
theorem parse?_render {path : Path} (h : path.Named) : parse? path.render = some path := by
  cases path with
  | nil => decide
  | cons name rest =>
    have htext : (render (name :: rest)).toList = textBelow (name :: rest) :=
      toList_render (by simp)
    have habsolute : isAbsolute (render (name :: rest)) = true := by
      simp [isAbsolute, htext, textBelow_cons]
    rw [parse?, if_pos habsolute, follow, parts, htext, fields_textBelow h, List.map_cons,
      map_ofList_toList]
    exact congrArg some (foldl_enter_of_named [] h)

theorem render_inj {path other : Path} (h : path.Named) (hother : other.Named) :
    path.render = other.render ↔ path = other := by
  refine ⟨fun heq => ?_, fun heq => heq ▸ rfl⟩
  have hparse := parse?_render h
  rw [heq, parse?_render hother] at hparse
  exact (Option.some.inj hparse).symm

theorem normalize?_render {path : Path} (h : path.Named) :
    normalize? path.render = some path.render := by
  rw [normalize?, parse?_render h, Option.map_some]

/-- A normalized text is that of a path whose names a directory may hold. -/
theorem exists_of_normalize?_self {text : String} (h : normalize? text = some text) :
    ∃ path : Path, path.Named ∧ path.render = text := by
  obtain ⟨path, hparse, hrender⟩ := Option.map_eq_some_iff.1 h
  exact ⟨path, named_of_parse? hparse, hrender⟩

/-- A text is followed beneath another from where that one leads. -/
theorem parse?_append_slash {base : String} {here : Path} (h : parse? base = some here)
    (text : String) : parse? (base ++ "/" ++ text) = some (here.follow text) := by
  rw [parse?] at h
  split at h
  · next habsolute =>
    obtain rfl := Option.some.inj h
    have hlist : (base ++ "/" ++ text).toList = base.toList ++ '/' :: text.toList := by simp
    have hstart : isAbsolute (base ++ "/" ++ text) = true := by
      rw [isAbsolute, decide_eq_true_eq] at habsolute ⊢
      rw [hlist, List.head?_append, habsolute]
      rfl
    rw [parse?, if_pos hstart, follow, follow, follow, parts, hlist, Text.fields_append_cons,
      List.map_append, List.foldl_append]
    rfl
  · cases h

theorem join?_eq {base : String} {here : Path} (h : parse? base = some here) (text : String) :
    join? base text = some (here.follow text).render := by
  rw [join?, normalize?, parse?_append_slash h, Option.map_some]

/-- The text of a path without its last name is the parent of its text. -/
theorem parentText?_render {path : Path} (h : path.Named) (hne : path ≠ []) :
    parentText? path.render = some (render path.dropLast) := by
  rcases List.eq_nil_or_concat' path with rfl | ⟨above, name, rfl⟩
  · exact absurd rfl hne
  have hname : ∀ c ∈ name.toList, decide (c = '/') = false := by
    intro c hc
    have hslash := (h name (by simp)).2.2.2
    exact decide_eq_false fun heq => hslash (heq ▸ hc)
  have hroot : render (above ++ [name]) ≠ "/" := by
    intro heq
    rw [← render_nil, render_inj h Named.nil] at heq
    exact hne heq
  have hsplit : Text.splitLast? (fun c => decide (c = '/'))
      (textBelow above ++ '/' :: name.toList) = some (textBelow above, name.toList) :=
    Text.splitLast?_append_cons (by decide) (textBelow above) hname
  rw [parentText?, if_neg hroot, toList_render hne, textBelow_append, textBelow_cons,
    textBelow_nil, List.append_nil, hsplit, List.dropLast_concat]
  cases above with
  | nil => rfl
  | cons first more =>
    have htext : render (first :: more) = String.ofList (textBelow (first :: more)) := by
      rw [← toList_render (by simp), String.ofList_toList]
    rw [htext, textBelow_cons]

/-- What lies above a path, and is not the path itself, lies above its directory. -/
theorem isPrefix_dropLast_iff {above path : Path} (hne : above ≠ path) :
    above <+: path.dropLast ↔ above <+: path := by
  refine ⟨fun h => h.trans (List.dropLast_prefix path), fun h => ?_⟩
  by_cases hroot : path = []
  · rw [hroot] at h hne
    exact absurd (List.prefix_nil.1 h) hne
  · rw [← List.dropLast_append_getLast hroot] at h
    rcases List.prefix_concat_iff.1 h with heq | habove
    · rw [List.dropLast_append_getLast hroot] at heq
      exact absurd heq hne
    · exact habove

/-- One path lies below another just if its text continues that of the other after a slash. -/
theorem textBelow_append_slash_prefix_iff {path other : Path} (h : path.Named)
    (hother : other.Named) :
    textBelow path ++ ['/'] <+: textBelow other ↔ path <+: other ∧ path ≠ other := by
  constructor
  · rintro ⟨rest, htext⟩
    have hfields := fields_textBelow hother
    rw [← htext, List.append_assoc, List.singleton_append, Text.fields_append_cons,
      fields_textBelow h, List.cons_append, List.cons_inj_right] at hfields
    have hpath := congrArg (List.map String.ofList) hfields
    rw [List.map_append, map_ofList_toList, map_ofList_toList] at hpath
    refine ⟨⟨_, hpath⟩, fun heq => ?_⟩
    rw [← heq, List.append_right_eq_self, List.map_eq_nil_iff] at hpath
    exact Text.fields_ne_nil _ _ hpath
  · rintro ⟨⟨rest, rfl⟩, hne⟩
    cases rest with
    | nil => simp at hne
    | cons name more =>
      rw [textBelow_append, textBelow_cons]
      exact ⟨name.toList ++ textBelow more, by simp⟩

end Path

end StagedSandbox
