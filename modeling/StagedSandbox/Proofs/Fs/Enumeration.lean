import Mathlib.Algebra.Order.BigOperators.Group.List
import Mathlib.Algebra.Order.Group.Nat
import Mathlib.Data.List.Nodup
import StagedSandbox.Proofs.Fs.FlatMap
import StagedSandbox.Proofs.Snapshot.Load
import StagedSandbox.Proofs.Text.Order

/-!
# Enumerating file systems

Names that a directory lists can be put behind its path, and lead to its children; so listing
directories one below the other comes to all that there is (`Fs.Enumerable`). This needs no more
than names that a directory may hold, in order (`Fs.WellFormed.enumerable`).
-/

namespace StagedSandbox

/-- Paths that lead to something are only so long. -/
theorem Node.WellFormed.exists_depth {node : Node} (h : node.WellFormed) :
    ∃ depth, ∀ path : Path, node.lookup path ≠ none → path.length ≤ depth := by
  induction h with
  | file content =>
    refine ⟨0, fun path hpath => ?_⟩
    cases path with
    | nil => exact Nat.le_refl 0
    | cons name rest => exact absurd (Node.lookup_file_cons content name rest) hpath
  | @dir children order names nodes ih =>
    choose! depth hdepth using ih
    refine ⟨(children.map depth).sum + 1, fun path hpath => ?_⟩
    cases path with
    | nil => exact Nat.zero_le _
    | cons name rest =>
      rw [Node.lookup_dir, Fs.lookup_cons_eq_bind] at hpath
      cases hget : Table.get? children name with
      | none => simp [hget] at hpath
      | some child =>
        have hmem := Table.mem_of_get? hget
        rw [hget] at hpath
        have hrest := hdepth _ hmem rest hpath
        have hsum := List.le_sum_of_mem (List.mem_map_of_mem (f := depth) hmem)
        rw [List.length_cons]
        omega

namespace Fs

/-- The texts of what a directory lists. -/
def childTexts (fs : Fs) (text : String) : List String :=
  match fs.query text Fs.list with
  | .ok names => names.filterMap (Path.join? text)
  | .error _ => []

/-- All texts that one comes to by listing directories, at most so many below each other. -/
def explore (fs : Fs) : Nat → String → List String
  | 0, text => [text]
  | depth + 1, text => text :: (fs.childTexts text).flatMap (fs.explore depth)

/-- All that there is has a name, and is found by it. -/
structure Enumerable (fs : Fs) : Prop where
  names : ∀ path children, fs.lookup path = some (.dir children) →
    ∀ child ∈ children, Path.IsName child.1
  list : ∀ text children, fs.query text Fs.find = .ok (.dir children) →
    fs.query text Fs.list = .ok (Table.keys children) ∧
    (Table.keys children).Pairwise (fun a b => (Bytes.ofText a).list < (Bytes.ofText b).list) ∧
    ∀ child ∈ children, ∃ below, Path.join? text child.1 = some below ∧
      fs.query below Fs.find = .ok child.2
  explore : ∃ enough, ∀ depth, enough ≤ depth → (fs.explore depth "/").Nodup ∧
    ∀ text, text ∈ fs.explore depth "/" ↔
      Path.normalize? text = some text ∧ fs.existsAt text = true

variable {fs : Fs} {path : Path} {children : Fs}

/-! ### One directory -/

theorem query_of_parse {α : Type} {text : String} {ask : Fs → Path → Except Obstacle α} {a : α}
    (htext : Path.parse? text = some path) (h : ask fs path = .ok a) :
    fs.query text ask = .ok a := by
  rw [query, htext]
  dsimp only
  rw [h]
  rfl

theorem exists_of_query {α : Type} {text : String} {ask : Fs → Path → Except Obstacle α} {a : α}
    (h : fs.query text ask = .ok a) :
    ∃ path, Path.parse? text = some path ∧ ask fs path = .ok a := by
  rw [query] at h
  cases hparse : Path.parse? text with
  | none =>
    rw [hparse] at h
    cases h
  | some path =>
    rw [hparse] at h
    cases hask : ask fs path with
    | error e =>
      simp only [hask] at h
      cases h
    | ok a' =>
      simp only [hask] at h
      obtain rfl := Except.ok.inj h
      exact ⟨path, rfl, hask⟩

/-- A name behind the text of its directory denotes what has the name. -/
theorem WellFormed.join_child (h : fs.WellFormed) (hdir : fs.lookup path = some (.dir children))
    {text : String} (htext : Path.parse? text = some path) {child : String × Node}
    (hchild : child ∈ children) :
    Path.join? text child.1 = some (path ++ [child.1]).render := by
  rw [Path.join?_eq htext, Path.follow_of_isName (h.isName hdir hchild)]

/-- What is listed are the texts of all that lies directly below a path. -/
theorem WellFormed.childTexts_eq (h : fs.WellFormed) (hview : fs.view path ≠ none) :
    ∃ names : List String, names.Nodup ∧ (∀ name, name ∈ names ↔ fs.view (path ++ [name]) ≠ none) ∧
      fs.childTexts path.render = names.map fun name => (path ++ [name]).render := by
  have hparse := Path.parse?_render (h.named_of_view hview)
  obtain ⟨node, hnode⟩ := Option.ne_none_iff_exists'.1 (mt view_eq_none_iff.2 hview)
  cases node with
  | file content =>
    refine ⟨[], List.nodup_nil, fun name => ?_, ?_⟩
    · refine iff_of_false List.not_mem_nil fun hchild => ?_
      have hdir := view_eq_dir_of_isPrefix (List.cons_ne_nil name []) hchild
      rw [view_eq_file_iff.2 hnode] at hdir
      cases hdir
    · rw [childTexts, query, hparse]
      dsimp only
      rw [list, find_eq_ok_iff.2 hnode]
      rfl
  | dir children =>
    refine ⟨Table.keys children, (h.increasing hnode).nodup, (lists_view h hnode).2, ?_⟩
    rw [childTexts, query_of_parse hparse (list_of_lookup hnode)]
    dsimp only
    rw [← List.filterMap_eq_map']
    refine List.filterMap_congr fun name hname => ?_
    obtain ⟨child, hchild, rfl⟩ := List.mem_map.1 hname
    exact h.join_child hnode hparse hchild

/-! ### All that there is -/

/-- What is come to at a path is what stands there, and below it as deep as one goes. -/
theorem WellFormed.mem_explore_iff (h : fs.WellFormed) (hview : fs.view path ≠ none)
    (depth : Nat) {text : String} :
    text ∈ fs.explore depth path.render ↔
      ∃ rest : Path, rest.length ≤ depth ∧ fs.view (path ++ rest) ≠ none ∧
        text = (path ++ rest).render := by
  induction depth generalizing path with
  | zero =>
    rw [explore, List.mem_singleton]
    constructor
    · rintro rfl
      exact ⟨[], Nat.le_refl 0, by simpa using hview, by simp⟩
    · rintro ⟨rest, hlength, -, rfl⟩
      rw [List.length_eq_zero_iff.1 (Nat.le_zero.1 hlength), List.append_nil]
  | succ depth ih =>
    obtain ⟨names, -, hnames, htexts⟩ := h.childTexts_eq hview
    rw [explore, List.mem_cons, List.mem_flatMap, htexts]
    constructor
    · rintro (rfl | ⟨_, hmem, htext⟩)
      · exact ⟨[], Nat.zero_le _, by simpa using hview, by simp⟩
      · obtain ⟨name, hname, rfl⟩ := List.mem_map.1 hmem
        obtain ⟨rest, hlength, hbelow, rfl⟩ := (ih ((hnames name).1 hname)).1 htext
        rw [List.append_assoc, List.singleton_append] at hbelow ⊢
        exact ⟨name :: rest, Nat.succ_le_succ hlength, hbelow, rfl⟩
    · rintro ⟨rest, hlength, hbelow, rfl⟩
      cases rest with
      | nil => exact Or.inl (by rw [List.append_nil])
      | cons name more =>
        have hsplit : path ++ name :: more = (path ++ [name]) ++ more := by simp
        rw [hsplit] at hbelow
        have hchild : fs.view (path ++ [name]) ≠ none := by
          cases more with
          | nil => rwa [List.append_nil] at hbelow
          | cons next rest => simp [view_eq_dir_of_isPrefix (List.cons_ne_nil _ _) hbelow]
        refine Or.inr ⟨_, List.mem_map_of_mem ((hnames name).2 hchild), (ih hchild).2 ?_⟩
        exact ⟨more, Nat.le_of_succ_le_succ hlength, hbelow, by rw [hsplit]⟩

theorem WellFormed.nodup_explore (h : fs.WellFormed) (hview : fs.view path ≠ none) (depth : Nat) :
    (fs.explore depth path.render).Nodup := by
  induction depth generalizing path with
  | zero => exact List.nodup_singleton _
  | succ depth ih =>
    obtain ⟨names, hnodup, hnames, htexts⟩ := h.childTexts_eq hview
    rw [explore, htexts, List.nodup_cons, List.nodup_flatMap]
    refine ⟨?_, ?_, ?_⟩
    · -- what lies below a path is not the path itself
      intro hmem
      obtain ⟨_, htext, hhere⟩ := List.mem_flatMap.1 hmem
      obtain ⟨name, hname, rfl⟩ := List.mem_map.1 htext
      obtain ⟨rest, -, hbelow, heq⟩ := (h.mem_explore_iff ((hnames name).1 hname) depth).1 hhere
      have hlength := congrArg List.length
        ((Path.render_inj (h.named_of_view hview) (h.named_of_view hbelow)).1 heq)
      simp at hlength
    · intro text htext
      obtain ⟨name, hname, rfl⟩ := List.mem_map.1 htext
      exact ih ((hnames name).1 hname)
    · -- what two different names lead to is different
      refine List.pairwise_map.2 (hnodup.imp_of_mem fun {a b} ha hb hne => ?_)
      intro text hina hinb
      obtain ⟨resta, -, hbelowa, heqa⟩ := (h.mem_explore_iff ((hnames a).1 ha) depth).1 hina
      obtain ⟨restb, -, hbelowb, heqb⟩ := (h.mem_explore_iff ((hnames b).1 hb) depth).1 hinb
      have heq := (Path.render_inj (h.named_of_view hbelowa) (h.named_of_view hbelowb)).1
        (heqa.symm.trans heqb)
      simp only [List.append_assoc, List.append_cancel_left_eq, List.singleton_append,
        List.cons.injEq] at heq
      exact hne heq.1

theorem existsAt_render (hnamed : path.Named) :
    fs.existsAt path.render = true ↔ fs.view path ≠ none := by
  rw [existsAt, query, Path.parse?_render hnamed]
  dsimp only
  rw [ne_eq, view_eq_none_iff, ← toOption_find]
  cases fs.find path <;> simp [Except.mapError, Except.toBool, Except.toOption]

/-- A file system whose names may stand in a directory, and are in order, can be enumerated. -/
theorem WellFormed.enumerable (h : fs.WellFormed) : fs.Enumerable where
  names path children hdir child hchild := h.isName hdir hchild
  list text children hfind := by
    obtain ⟨path, hparse, hask⟩ := exists_of_query hfind
    have hdir := find_eq_ok_iff.1 hask
    refine ⟨query_of_parse hparse (list_of_lookup hdir), ?_, fun child hchild => ?_⟩
    · exact (h.increasing hdir).imp Bytes.list_ofText_lt
    · have hnode := h.lookup_child hdir hchild
      refine ⟨_, h.join_child hdir hparse hchild, query_of_parse (Path.parse?_render ?_)
        (find_eq_ok_iff.2 hnode)⟩
      exact h.named_of_view (by simp [view, hnode])
  explore := by
    obtain ⟨enough, henough⟩ := Node.WellFormed.exists_depth h
    have hroot : fs.view [] ≠ none := by simp
    refine ⟨enough, fun depth hdepth => ⟨h.nodup_explore hroot depth, fun text => ?_⟩⟩
    rw [← Path.render_nil, h.mem_explore_iff hroot depth]
    constructor
    · rintro ⟨path, -, hview, rfl⟩
      rw [List.nil_append] at hview ⊢
      have hnamed := h.named_of_view hview
      exact ⟨Path.normalize?_render hnamed, (existsAt_render hnamed).2 hview⟩
    · rintro ⟨hnormal, hexists⟩
      obtain ⟨path, hnamed, rfl⟩ := Path.exists_of_normalize?_self hnormal
      have hview := (existsAt_render hnamed).1 hexists
      refine ⟨path, Nat.le_trans ?_ hdepth, hview, rfl⟩
      exact henough path (mt view_eq_none_iff.2 hview)

end Fs

end StagedSandbox
