import Mathlib.Data.List.Infix
import Mathlib.Logic.Function.Basic
import StagedSandbox.Proofs.Bytes
import StagedSandbox.Proofs.Fs.Change
import StagedSandbox.Proofs.Fs.Force

/-!
# Flat maps

A flat map tells for each path at once what stands there. It knows of no directory within another
one: all questions and changes are said again in terms of single paths. The view of a file system
answers every question as the file system does (`Fs.Answers`).
-/

namespace StagedSandbox

/-- What stands at each path, if anything. -/
abbrev FlatMap := Path → Option Surface

/-- What is known about a surface without opening it. -/
def Surface.metadata : Surface → Metadata
  | .dir => ⟨true, 0⟩
  | .file content => ⟨false, content.size⟩

namespace FlatMap

/-! ### Questions -/

/-- Whether a file stands at a path or on the way to it. -/
def barred (m : FlatMap) (path : Path) : Bool :=
  path.inits.any fun above => (m above).any fun stands => !stands.isDir

/-- What stands at a path, or why there is nothing. -/
def find (m : FlatMap) (path : Path) : Except Obstacle Surface :=
  match m path with
  | some stands => .ok stands
  | none => .error (if m.barred path then .notDirectory else .notFound)

/-- What is known about what stands at a path. -/
def stat (m : FlatMap) (path : Path) : Except Obstacle Metadata :=
  (m.find path).map Surface.metadata

/-- The content of the file at a path. -/
def read (m : FlatMap) (path : Path) : Except Obstacle Bytes :=
  match m.find path with
  | .ok (.file content) => .ok content
  | .ok .dir => .error .isDirectory
  | .error e => .error e

/-- At most `length` bytes of the file at a path, from position `start` on. -/
def readAt (m : FlatMap) (path : Path) (start length : Nat) : Except Obstacle Bytes :=
  (m.read path).map fun content => Bytes.ofList ((content.list.drop start).take length)

/-- A path at which a directory stands. -/
def opened (m : FlatMap) (path : Path) : Except Obstacle Path :=
  match m.find path with
  | .ok .dir => .ok path
  | .ok (.file _) => .error .notDirectory
  | .error e => .error e

/-- The names under which something stands in a directory, in order. -/
def Lists (m : FlatMap) (path : Path) (names : List String) : Prop :=
  names.Pairwise (· < ·) ∧ ∀ name, name ∈ names ↔ m (path ++ [name]) ≠ none

/-- Nothing stands in a directory. -/
def EmptyAt (m : FlatMap) (path : Path) : Prop := ∀ name, m (path ++ [name]) = none

/-- Ask about the path that a text denotes; errors speak of the text. -/
def query {α : Type} (m : FlatMap) (text : String) (ask : FlatMap → Path → Except Obstacle α) :
    Except FsError α :=
  match Path.parse? text with
  | none => .error ⟨.invalidPath, text⟩
  | some path => (ask m path).mapError (⟨·, text⟩)

theorem query_of_parse {α : Type} {text : String} {path : Path}
    (h : Path.parse? text = some path) (m : FlatMap) (ask : FlatMap → Path → Except Obstacle α) :
    m.query text ask = (ask m path).mapError (⟨·, text⟩) := by
  rw [query, h]

theorem exists_of_query {α : Type} {m : FlatMap} {text : String}
    {ask : FlatMap → Path → Except Obstacle α} {a : α} (h : m.query text ask = .ok a) :
    ∃ path, Path.parse? text = some path ∧ ask m path = .ok a := by
  rw [query] at h
  cases hparse : Path.parse? text with
  | none => simp [hparse] at h
  | some path =>
    rw [hparse] at h
    dsimp only at h
    cases hask : ask m path with
    | error e => simp [hask, Except.mapError] at h
    | ok a' =>
      rw [hask] at h
      obtain rfl : a' = a := Except.ok.inj h
      exact ⟨path, rfl, hask⟩

/-- Whether a text denotes a path at which something stands. -/
def existsAt (m : FlatMap) (text : String) : Bool :=
  match Path.parse? text with
  | none => false
  | some path => (m path).isSome

/-! ### Contents -/

/-- At least so many bytes, zeros being added at the end. -/
def padded (bytes : List UInt8) (size : Nat) : List UInt8 :=
  bytes ++ List.replicate (size - bytes.length) 0

/-- Bytes with others laid over them from a position on, zeros being added as far as needed. -/
def overlaid (bytes : List UInt8) (start : Nat) (data : List UInt8) : List UInt8 :=
  let all := padded bytes (start + data.length)
  all.take start ++ data ++ all.drop (start + data.length)

/-- Exactly so many bytes, cut or with zeros added. -/
def resized (bytes : List UInt8) (size : Nat) : List UInt8 := (padded bytes size).take size

/-! ### Changes -/

/-- What stands at a path, or why there is no directory that could hold it. -/
def reach (m : FlatMap) (path : Path) : Except Obstacle (Option Surface) :=
  if path = [] then .error .invalidPath
  else
    match m.find path.dropLast with
    | .ok .dir => .ok (m path)
    | .ok (.file _) => .error .notDirectory
    | .error e => .error e

/-- Put something or nothing at one path, as is decided by what stands there. -/
def replace (m : FlatMap) (path : Path)
    (decision : Option Surface → Except Obstacle (Option Surface)) : Except Obstacle FlatMap :=
  ((m.reach path).bind decision).map (Function.update m path)

/-- A replacement that succeeds is decided by what stands at its path, and seen there alone. -/
theorem eq_of_replace {m m' : FlatMap} {path : Path}
    {decision : Option Surface → Except Obstacle (Option Surface)}
    (h : m.replace path decision = .ok m') :
    ∃ new, decision (m path) = .ok new ∧ m' = Function.update m path new := by
  have hreached : ∀ found, m.reach path = .ok found → found = m path := by
    intro found hreach
    rw [reach] at hreach
    split at hreach
    · cases hreach
    · split at hreach <;> cases hreach
      rfl
  rw [replace] at h
  cases hreach : m.reach path with
  | error e =>
    rw [hreach] at h
    cases h
  | ok found =>
    rw [hreach, hreached found hreach] at h
    cases hdecision : decision (m path) with
    | error e =>
      simp [Except.bind, hdecision, Except.map] at h
    | ok new =>
      simp only [Except.bind, hdecision, Except.map] at h
      exact ⟨new, rfl, (Except.ok.inj h).symm⟩

/-- A file, unless it is too large. -/
def sized (content : Bytes) : Except Obstacle (Option Surface) :=
  if content.size ≤ Fs.maxFileSize then .ok (some (.file content)) else .error .tooLarge

/-- Make a path and all above it directories. -/
def makeDirs (m : FlatMap) (path : Path) : Except Obstacle FlatMap :=
  if m.barred path then .error .notDirectory
  else .ok fun other => if other <+: path then some .dir else m other

/-- Make one directory where nothing stands. -/
def makeDir (m : FlatMap) (path : Path) : Except Obstacle FlatMap :=
  m.replace path fun
    | none => .ok (some .dir)
    | some _ => .error .alreadyExists

/-- Give a file new content, or make it. -/
def write (m : FlatMap) (path : Path) (data : Bytes) (mode : WriteMode) :
    Except Obstacle FlatMap :=
  m.replace path fun
    | none => sized data
    | some (.file old) =>
      match mode with
      | .overwrite => sized data
      | .append => sized (old ++ data)
    | some .dir => .error .isDirectory

/-- Put a file of any size at a path, in the place of a file that stands there. -/
def place (m : FlatMap) (path : Path) (data : Bytes) : Except Obstacle FlatMap :=
  m.replace path fun
    | some .dir => .error .isDirectory
    | _ => .ok (some (.file data))

/-- Edit the content of a file. -/
def edit (m : FlatMap) (path : Path) (change : List UInt8 → List UInt8) :
    Except Obstacle FlatMap :=
  m.replace path fun
    | some (.file old) => .ok (some (.file (Bytes.ofList (change old.list))))
    | some .dir => .error .isDirectory
    | none => .error .notFound

/-- Remove a file. -/
def removeFile (m : FlatMap) (path : Path) : Except Obstacle FlatMap :=
  m.replace path fun
    | some (.file _) => .ok none
    | some .dir => .error .isDirectory
    | none => .error .notFound

open Classical in
/-- Remove a directory in which nothing stands. -/
noncomputable def removeDir (m : FlatMap) (path : Path) : Except Obstacle FlatMap :=
  m.replace path fun
    | some .dir => if m.EmptyAt path then .ok none else .error .notEmpty
    | some (.file _) => .error .notDirectory
    | none => .error .notFound

open Classical in
/-- Whether something may take the place of what stands at the goal of a move. -/
noncomputable def checkGoal (m : FlatMap) (moves : Surface) (goal : Path) :
    Except Obstacle Unit :=
  match m goal, moves with
  | some .dir, .dir => if m.EmptyAt goal then .ok () else .error .notEmpty
  | some .dir, .file _ => .error .isDirectory
  | some (.file _), .dir => .error .notDirectory
  | _, _ => .ok ()

/-- Why a move is refused, if it is; errors speak of the normalized paths. -/
noncomputable def checkMove (m : FlatMap) (source goal : Path) : Except FsError Unit :=
  if source = [] ∨ goal = [] then .error ⟨.invalidPath, source.render⟩
  else
    match m.find source with
    | .error e => .error ⟨e, source.render⟩
    | .ok moves =>
      if source = goal then .ok ()
      else if source <+: goal then .error ⟨.invalidPath, goal.render⟩
      else
        match m.find goal.dropLast with
        | .error e => .error ⟨e, Path.render goal.dropLast⟩
        | .ok (.file _) => .error ⟨.notDirectory, goal.render⟩
        | .ok .dir => (m.checkGoal moves goal).mapError (⟨·, goal.render⟩)

/-- Move what stands at the source, and all below it, to the goal. -/
noncomputable def move (m : FlatMap) (source goal : Path) : Except FsError FlatMap :=
  (m.checkMove source goal).map fun _ other =>
    if goal <+: other then m (source ++ other.drop goal.length)
    else if source <+: other then none
    else m other

end FlatMap

namespace Fs

/-! ### The view answers -/

theorem barred_view_cons (fs : Fs) (name : String) (rest : Path) :
    FlatMap.barred fs.view (name :: rest) =
      FlatMap.barred (fun below => fs.view (name :: below)) rest := by
  simp [FlatMap.barred, List.inits, List.any_map, Function.comp_def, Surface.isDir]

/-- The view tells why nothing is found. -/
theorem find_view (fs : Fs) (path : Path) :
    FlatMap.find fs.view path = (fs.find path).map Node.surface := by
  induction path generalizing fs with
  | nil => rfl
  | cons name rest ih =>
    rw [find]
    cases hget : fs.get? name with
    | none =>
      have hclear : FlatMap.barred fs.view (name :: rest) = false := by
        rw [barred_view_cons]
        simp [FlatMap.barred, view_cons_of_none hget]
      simp [FlatMap.find, view_cons_of_none hget, hclear, Except.map]
    | some node =>
      cases node with
      | dir children =>
        have hview : (fun below => fs.view (name :: below)) = Fs.view children :=
          funext fun below => view_cons_of_dir hget below
        rw [FlatMap.find, barred_view_cons, hview, view_cons_of_dir hget]
        exact ih children
      | file content =>
        by_cases hrest : rest = []
        · subst hrest
          simp [FlatMap.find, view_singleton, hget, Except.map]
        · have hbarred : FlatMap.barred fs.view (name :: rest) = true := by
            rw [barred_view_cons, FlatMap.barred, List.any_eq_true]
            refine ⟨[], (List.mem_inits [] rest).2 List.nil_prefix, ?_⟩
            simp [view_singleton, hget, Surface.isDir]
          simp [FlatMap.find, view_cons_of_file hget hrest, hbarred, hrest, Except.map]

theorem reach_view (fs : Fs) (path : Path) :
    FlatMap.reach fs.view path = (fs.reach path).map (Option.map Node.surface) := by
  rw [FlatMap.reach, reach]
  split
  · rfl
  · rw [find_view]
    cases fs.find path.dropLast with
    | error e => rfl
    | ok node => cases node <;> rfl

theorem query_view {α : Type} (fs : Fs) (text : String) {ask : Fs → Path → Except Obstacle α}
    {askView : FlatMap → Path → Except Obstacle α}
    (h : ∀ path, askView fs.view path = ask fs path) :
    fs.query text ask = FlatMap.query fs.view text askView := by
  rw [query, FlatMap.query]
  cases Path.parse? text with
  | none => rfl
  | some path =>
    dsimp only
    rw [h]

theorem stat_view (fs : Fs) (path : Path) : FlatMap.stat fs.view path = fs.stat path := by
  rw [FlatMap.stat, find_view, stat]
  cases fs.find path with
  | error e => rfl
  | ok node => cases node <;> rfl

theorem read_view (fs : Fs) (path : Path) : FlatMap.read fs.view path = fs.read path := by
  rw [FlatMap.read, find_view, read]
  cases fs.find path with
  | error e => rfl
  | ok node => cases node <;> rfl

theorem readAt_view (fs : Fs) (path : Path) (start length : Nat) :
    FlatMap.readAt fs.view path start length = fs.readAt path start length := by
  rw [FlatMap.readAt, read_view, readAt]
  cases fs.read path with
  | error e => rfl
  | ok content =>
    have hslice := congrArg Bytes.ofList (Bytes.list_slice content start length)
    rw [Bytes.ofList_list] at hslice
    exact congrArg Except.ok hslice.symm

/-- The names in a directory, as it lists them, are those under which something is in view. -/
theorem lists_view {fs : Fs} (h : fs.WellFormed) {path : Path} {children : Fs}
    (hdir : fs.lookup path = some (.dir children)) :
    FlatMap.Lists fs.view path (Table.keys children) := by
  refine ⟨h.increasing hdir, fun name => ?_⟩
  rw [Table.mem_keys_iff, ne_eq, ne_eq, view_eq_none_iff, lookup_concat_of_dir hdir]

theorem list_view {fs : Fs} (h : fs.WellFormed) (path : Path) :
    match FlatMap.opened fs.view path with
    | .error e => fs.list path = .error e
    | .ok dir => ∃ names, fs.list path = .ok names ∧ FlatMap.Lists fs.view dir names := by
  rw [FlatMap.opened, find_view, list]
  cases hfind : fs.find path with
  | error e => rfl
  | ok node =>
    cases node with
    | file content => rfl
    | dir children => exact ⟨_, rfl, lists_view h (find_eq_ok_iff.1 hfind)⟩

/-- A map answers all questions about a file system. -/
structure Answers (fs : Fs) (m : FlatMap) : Prop where
  stat (text : String) : fs.query text Fs.stat = m.query text FlatMap.stat
  existsAt (text : String) : fs.existsAt text = m.existsAt text
  read (text : String) : fs.query text Fs.read = m.query text FlatMap.read
  readAt (text : String) (start length : Nat) :
    fs.query text (·.readAt · start length) = m.query text (·.readAt · start length)
  list (text : String) :
    match m.query text FlatMap.opened with
    | .error e => fs.query text Fs.list = .error e
    | .ok dir => ∃ names, fs.query text Fs.list = .ok names ∧ m.Lists dir names

/-- The view answers all questions, whatever text a path is given by. -/
theorem WellFormed.answers {fs : Fs} (h : fs.WellFormed) : fs.Answers fs.view where
  stat text := fs.query_view text (stat_view fs)
  existsAt text := by
    rw [existsAt, query, FlatMap.existsAt]
    cases Path.parse? text with
    | none => rfl
    | some path =>
      dsimp only
      rw [view, ← toOption_find]
      cases fs.find path <;> rfl
  read text := fs.query_view text (read_view fs)
  readAt text start length := fs.query_view text fun path => readAt_view fs path start length
  list text := by
    rw [query, FlatMap.query]
    cases Path.parse? text with
    | none => rfl
    | some path =>
      have hlist := list_view h path
      dsimp only
      cases hopened : FlatMap.opened fs.view path with
      | error e =>
        rw [hopened] at hlist
        exact congrArg (Except.mapError _) hlist
      | ok dir =>
        rw [hopened] at hlist
        obtain ⟨names, hnames, hlists⟩ := hlist
        exact ⟨names, congrArg (Except.mapError _) hnames, hlists⟩

end Fs

end StagedSandbox
