import StagedSandbox.Fs.Basic
import StagedSandbox.Proofs.Table

/-!
# The view of a file system

What stands at a path is absent, a directory, or a file with its content; `Fs.view` tells which,
for all paths at once. A file system whose directories are listed in order is determined by its
view (`Fs.WellFormed.ext_view`).
-/

namespace StagedSandbox

/-- A node without what lies below it. -/
inductive Surface where
  | dir
  | file (content : Bytes)
  deriving DecidableEq

/-- Whether a surface is that of a directory. -/
def Surface.isDir : Surface → Bool
  | .dir => true
  | .file _ => false

/-- All names on a path are names that a directory may hold. -/
def Path.Named (path : Path) : Prop := ∀ name ∈ path, Path.IsName name

namespace Node

def surface : Node → Surface
  | .dir _ => .dir
  | .file content => .file content

/-- The node at a path below a node. -/
def lookup : Node → Path → Option Node
  | .dir children, path => Fs.lookup children path
  | .file content, [] => some (.file content)
  | .file _, _ :: _ => none

/-- In every directory the names are in order and may stand in a directory. -/
inductive WellFormed : Node → Prop
  | file (content : Bytes) : WellFormed (.file content)
  | dir {children : Fs} (order : Table.Increasing children)
      (names : ∀ entry ∈ children, Path.IsName entry.1)
      (nodes : ∀ entry ∈ children, WellFormed entry.2) : WellFormed (.dir children)

@[simp] theorem surface_dir (children : Fs) : (Node.dir children).surface = .dir := rfl

@[simp] theorem surface_file (content : Bytes) : (Node.file content).surface = .file content := rfl

@[simp] theorem lookup_nil (node : Node) : node.lookup [] = some node := by cases node <;> rfl

@[simp] theorem lookup_dir (children : Fs) (path : Path) :
    (Node.dir children).lookup path = Fs.lookup children path := rfl

@[simp] theorem lookup_file_cons (content : Bytes) (name : String) (rest : Path) :
    (Node.file content).lookup (name :: rest) = none := rfl

theorem isDir_surface (node : Node) : node.surface.isDir = node.isDir := by cases node <;> rfl

end Node

namespace Fs

/-- What stands at a path, if anything. -/
def view (fs : Fs) (path : Path) : Option Surface := (fs.lookup path).map Node.surface

/-- Whether a directory stands at a path, if anything does. -/
def kind (fs : Fs) (path : Path) : Option Bool := (fs.view path).map Surface.isDir

/-- In every directory the names are in order and may stand in a directory. -/
def WellFormed (fs : Fs) : Prop := Node.WellFormed (.dir fs)

variable {fs : Fs}

/-! ### Looking further on -/

theorem lookup_cons_eq_bind (fs : Fs) (name : String) (rest : Path) :
    fs.lookup (name :: rest) = (fs.get? name).bind (·.lookup rest) := by
  rw [lookup_cons]
  cases fs.get? name with
  | none => rfl
  | some node =>
    cases node with
    | dir children => rfl
    | file content => cases rest <;> rfl

theorem lookup_append (fs : Fs) (path rest : Path) :
    fs.lookup (path ++ rest) = (fs.lookup path).bind (·.lookup rest) := by
  induction path generalizing fs with
  | nil => rfl
  | cons name more ih =>
    rw [List.cons_append, lookup_cons_eq_bind, lookup_cons_eq_bind]
    cases fs.get? name with
    | none => rfl
    | some node =>
      cases node with
      | dir children => exact ih children
      | file content => cases more <;> rfl

theorem lookup_append_of_dir {path : Path} {children : Fs}
    (h : fs.lookup path = some (.dir children)) (rest : Path) :
    fs.lookup (path ++ rest) = Fs.lookup children rest := by
  rw [lookup_append, h]
  rfl

theorem lookup_concat_of_dir {path : Path} {children : Fs}
    (h : fs.lookup path = some (.dir children)) (name : String) :
    fs.lookup (path ++ [name]) = Table.get? children name :=
  lookup_append_of_dir h [name]

@[simp] theorem view_nil (fs : Fs) : fs.view [] = some .dir := rfl

theorem view_append (fs : Fs) (path rest : Path) :
    fs.view (path ++ rest) =
      (fs.lookup path).bind fun node => (node.lookup rest).map Node.surface := by
  rw [view, lookup_append, Option.map_bind]
  rfl

theorem view_cons_of_dir {name : String} {children : Fs}
    (h : fs.get? name = some (.dir children)) (rest : Path) :
    fs.view (name :: rest) = Fs.view children rest := by
  rw [view, lookup_cons_eq_bind, h]
  rfl

theorem view_singleton (fs : Fs) (name : String) :
    fs.view [name] = (fs.get? name).map Node.surface := rfl

theorem view_eq_dir_iff {path : Path} :
    fs.view path = some .dir ↔ ∃ children, fs.lookup path = some (.dir children) := by
  rw [view]
  cases fs.lookup path with
  | none => simp
  | some node => cases node <;> simp

theorem view_eq_file_iff {path : Path} {content : Bytes} :
    fs.view path = some (.file content) ↔ fs.lookup path = some (.file content) := by
  rw [view]
  cases fs.lookup path with
  | none => simp
  | some node => cases node <;> simp

theorem read_of_lookup {content : Bytes} (h : fs.lookup path = some (.file content)) :
    fs.read path = .ok content := by
  rw [read, find_eq_ok_iff.2 h]
  rfl

theorem lookup_of_read {content : Bytes} (h : fs.read path = .ok content) :
    fs.lookup path = some (.file content) := by
  rw [read] at h
  cases hfind : fs.find path with
  | error e =>
    rw [hfind] at h
    cases h
  | ok node =>
    rw [hfind] at h
    cases node with
    | file old =>
      obtain rfl := Except.ok.inj h
      exact find_eq_ok_iff.1 hfind
    | dir children => cases h

theorem stat_of_lookup {content : Bytes} (h : fs.lookup path = some (.file content)) :
    fs.stat path = .ok ⟨false, content.size⟩ := by
  rw [stat, find_eq_ok_iff.2 h]
  rfl

theorem list_of_lookup {path : Path} {children : Fs} (h : fs.lookup path = some (.dir children)) :
    fs.list path = .ok (Table.keys children) := by
  rw [list, find_eq_ok_iff.2 h]
  rfl

theorem view_eq_none_iff {path : Path} : fs.view path = none ↔ fs.lookup path = none := by
  simp [view]

/-- Whatever stands somewhere stands in directories. -/
theorem view_eq_dir_of_isPrefix {path rest : Path} (hne : rest ≠ [])
    (h : fs.view (path ++ rest) ≠ none) : fs.view path = some .dir := by
  rw [view_append] at h
  rw [view]
  cases hl : fs.lookup path with
  | none => simp [hl] at h
  | some node =>
    cases node with
    | dir children => rfl
    | file content =>
      obtain ⟨name, more, rfl⟩ := List.exists_cons_of_ne_nil hne
      simp [hl] at h

theorem kind_eq_of_view_eq {fs₁ fs₂ : Fs} {path : Path} (h : fs₁.view path = fs₂.view path) :
    fs₁.kind path = fs₂.kind path := by
  rw [kind, kind, h]

/-! ### Why nothing is found -/

/-- The obstacle on the way to a path depends only on what is a directory and what is a file. -/
theorem find_eq_error_congr {fs₁ fs₂ : Fs} {path : Path} {e : Obstacle}
    (h : ∀ above, above <+: path → fs₁.kind above = fs₂.kind above)
    (he : fs₁.find path = .error e) : fs₂.find path = .error e := by
  induction path generalizing fs₁ fs₂ with
  | nil => simp [find] at he
  | cons name rest ih =>
    have hname := h [name] (by simp)
    rw [kind, kind, view_singleton, view_singleton] at hname
    rw [find] at he ⊢
    cases h₁ : fs₁.get? name with
    | none =>
      cases h₂ : fs₂.get? name with
      | none => rwa [h₁] at he
      | some node => simp [h₁, h₂] at hname
    | some node₁ =>
      cases h₂ : fs₂.get? name with
      | none => simp [h₁, h₂] at hname
      | some node₂ =>
        rw [h₁] at he
        cases node₁ with
        | file content₁ =>
          cases node₂ with
          | file content₂ =>
            dsimp only at he ⊢
            split at he
            · simp at he
            · next hrest => rwa [if_neg hrest]
          | dir children₂ => simp [h₁, h₂, Surface.isDir] at hname
        | dir children₁ =>
          cases node₂ with
          | file content₂ => simp [h₁, h₂, Surface.isDir] at hname
          | dir children₂ =>
            refine ih (fun above habove => ?_) he
            have := h (name :: above) (List.cons_prefix_cons.2 ⟨rfl, habove⟩)
            rwa [kind, kind, view_cons_of_dir h₁, view_cons_of_dir h₂] at this

end Fs

/-! ### A file system is determined by its view -/

namespace Node.WellFormed

theorem of_get? {children : Fs} (h : Node.WellFormed (.dir children)) {name : String} {node : Node}
    (hget : children.get? name = some node) : node.WellFormed := by
  cases h with
  | dir order names nodes => exact nodes (name, node) (Table.mem_of_get? hget)

/-- Well-formed nodes are the same if at every path below them the same is seen. -/
theorem ext_view {m n : Node} (hm : m.WellFormed) (hn : n.WellFormed)
    (h : ∀ path, (m.lookup path).map surface = (n.lookup path).map surface) : m = n := by
  induction hm generalizing n with
  | file content =>
    have hroot := h []
    cases n with
    | file other => simpa using hroot
    | dir children => simp at hroot
  | @dir children order names nodes ih =>
    have hroot := h []
    cases n with
    | file other => simp at hroot
    | dir others =>
      have hother : Table.Increasing others := by cases hn; assumption
      congr 1
      refine order.ext_get? hother fun name => ?_
      have hname := h [name]
      simp only [lookup_dir, Fs.lookup_singleton] at hname
      cases h₁ : Table.get? children name with
      | none =>
        cases h₂ : Table.get? others name with
        | none => rfl
        | some node => simp [h₁, h₂] at hname
      | some node₁ =>
        cases h₂ : Table.get? others name with
        | none => simp [h₁, h₂] at hname
        | some node₂ =>
          congr 1
          refine ih (name, node₁) (Table.mem_of_get? h₁) (hn.of_get? h₂) fun path => ?_
          have hpath := h (name :: path)
          simpa [Fs.lookup_cons_eq_bind, h₁, h₂] using hpath

end Node.WellFormed

namespace Fs.WellFormed

theorem empty : WellFormed [] := .dir List.Pairwise.nil (by simp) (by simp)

theorem of_lookup {fs : Fs} (h : fs.WellFormed) {path : Path} {node : Node}
    (hlook : fs.lookup path = some node) : node.WellFormed := by
  induction path generalizing fs with
  | nil =>
    obtain rfl := Option.some.inj hlook
    exact h
  | cons name rest ih =>
    rw [lookup_cons_eq_bind, Option.bind_eq_some_iff] at hlook
    obtain ⟨child, hchild, hrest⟩ := hlook
    have hwf := Node.WellFormed.of_get? h hchild
    cases child with
    | dir children => exact ih hwf hrest
    | file content =>
      cases rest with
      | nil =>
        obtain rfl := Option.some.inj hrest
        exact hwf
      | cons next more => simp at hrest

section

variable {fs : Fs} {path : Path} {children : Fs}

theorem increasing (h : fs.WellFormed) (hdir : fs.lookup path = some (.dir children)) :
    Table.Increasing children := by
  cases h.of_lookup hdir with
  | dir order names nodes => exact order

theorem isName (h : fs.WellFormed) (hdir : fs.lookup path = some (.dir children))
    {child : String × Node} (hchild : child ∈ children) : Path.IsName child.1 := by
  cases h.of_lookup hdir with
  | dir order names nodes => exact names child hchild

theorem lookup_child (h : fs.WellFormed) (hdir : fs.lookup path = some (.dir children))
    {child : String × Node} (hchild : child ∈ children) :
    fs.lookup (path ++ [child.1]) = some child.2 :=
  (lookup_concat_of_dir hdir child.1).trans ((h.increasing hdir).get?_of_mem hchild)

end

/-- Below a path at which two well-formed file systems show the same everywhere, they hold the
same nodes. -/
theorem lookup_eq_of_view_eq {fs₁ fs₂ : Fs} (h₁ : fs₁.WellFormed) (h₂ : fs₂.WellFormed)
    {path : Path} (h : ∀ rest, fs₁.view (path ++ rest) = fs₂.view (path ++ rest)) :
    fs₁.lookup path = fs₂.lookup path := by
  have hroot := h []
  rw [List.append_nil, view, view] at hroot
  cases hm : fs₁.lookup path with
  | none =>
    rw [hm, Option.map_none, eq_comm, Option.map_eq_none_iff] at hroot
    exact hroot.symm
  | some m =>
    cases hn : fs₂.lookup path with
    | none => simp [hm, hn] at hroot
    | some n =>
      congr 1
      refine Node.WellFormed.ext_view (h₁.of_lookup hm) (h₂.of_lookup hn) fun rest => ?_
      simpa [view_append, hm, hn] using h rest

theorem ext_view {fs₁ fs₂ : Fs} (h₁ : fs₁.WellFormed) (h₂ : fs₂.WellFormed)
    (h : ∀ path, fs₁.view path = fs₂.view path) : fs₁ = fs₂ := by
  have := Node.WellFormed.ext_view h₁ h₂ h
  exact Node.dir.inj this

end Fs.WellFormed

end StagedSandbox
