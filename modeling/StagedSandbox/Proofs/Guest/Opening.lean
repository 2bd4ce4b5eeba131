import StagedSandbox.Proofs.Fs.FlatChange
import StagedSandbox.Proofs.Guest.Descriptors
import StagedSandbox.Proofs.Wasi.Listing

/-!
# Opening a path

Whether a path can be opened depends on the flags and on what stands there (`Guest.Openable`). If it
can, the file system is changed at that path alone, and only where a file is made or emptied
(`Fs.Touched`); if it cannot, nothing is changed. What is known about the new descriptor is what is
known about the path (`Guest.open_touches_target`).
-/

namespace StagedSandbox

/-- What opening a path makes of a file system: a file that is missing is made, one that is there is
emptied or kept, and all other paths stay as they are. -/
inductive Fs.Touched (flags : OpenFlags) (path : Path) (fs : Fs) : Fs → Prop where
  | made (habsent : fs.view path = none) (hparent : fs.view path.dropLast = some .dir)
    (hcreate : flags.create = true) (hfile : flags.directory = false) {fs' : Fs}
    (hview : fs'.view = Function.update fs.view path (some (.file ByteArray.empty))) :
    Touched flags path fs fs'
  | emptied {old : Bytes} (hold : fs.view path = some (.file old))
    (htruncate : flags.truncate = true) {fs' : Fs}
    (hview : fs'.view = Function.update fs.view path (some (.file ByteArray.empty))) :
    Touched flags path fs fs'
  | kept (hstands : fs.view path ≠ none) (htruncate : flags.truncate = false) :
    Touched flags path fs fs

theorem Fs.Touched.exists_lookup {flags : OpenFlags} {path : Path} {fs fs' : Fs}
    (h : fs.Touched flags path fs') : ∃ node, fs'.lookup path = some node := by
  have hstands : fs'.view path ≠ none := by
    cases h with
    | made _ _ _ _ hview | emptied _ _ hview => simp [hview]
    | kept hstands => exact hstands
  exact Option.ne_none_iff_exists'.mp fun hnone => hstands (Fs.view_eq_none_iff.mpr hnone)

namespace Guest

open StagedSandbox.Action

variable {g g' : Guest} {dirFd fd : Nat} {text : String} {path scope : Path} {flags : OpenFlags}

/-- Whether a path may be opened, by what stands there: a directory for reading alone, a file unless
a directory is asked for, and where nothing stands a file that is made in a directory. What is there
is not opened as something new. -/
def Openable (flags : OpenFlags) (fs : Fs) (path : Path) : Prop :=
  match fs.view path with
  | some .dir =>
    (flags.create && flags.exclusive) = false ∧ (flags.write || flags.truncate) = false
  | some (.file _) => (flags.create && flags.exclusive) = false ∧ flags.directory = false
  | none => (flags.create && !flags.directory) = true ∧ fs.view path.dropLast = some .dir

/-! ### With a number left -/

theorem Free.of_not_taken {n : Nat} (h : g.descriptors.get? n = none) (hn : 3 ≤ n)
    (hword : n < UInt32.size) : ∃ fd, g.Free fd := by
  obtain ⟨fd, hlowest⟩ := exists_lowestFree g.descriptors
  obtain ⟨-, -, hbelow⟩ := List.find?_range'_eq_some.1 hlowest
  refine ⟨fd, hlowest, Nat.lt_of_le_of_lt (Nat.not_lt.mp fun hlt => ?_) hword⟩
  have htaken := hbelow n hn hlt
  simp [Table.contains, h] at htaken

/-- How opening a path ends if there is a number left: the path is opened, and the file system
touched there, or it is refused and nothing is changed. -/
inductive Opening (flags : OpenFlags) (path : Path) (fd : Nat) (g : Guest) :
    EStateM.Result Errno Guest Nat → Prop where
  | opened (hopen : Openable flags g.fs path) {d : Descriptor} (hd : d.path? = some path) {fs : Fs}
    (htouched : Fs.Touched flags path g.fs fs) :
    Opening flags path fd g (.ok fd (Guest.opened { g with fs } fd d))
  | refused (hnot : ¬ Openable flags g.fs path) (e : Errno) : Opening flags path fd g (.error e g)

theorem opening_of_dir {children : Fs} (hlocate : locate dirFd text g = .ok (path, scope) g)
    (hfree : g.Free fd) (hdir : g.fs.lookup path = some (.dir children)) :
    Opening flags path fd g (openPath dirFd text flags g) := by
  have hview : g.fs.view path = some .dir := Fs.view_eq_dir_iff.mpr ⟨children, hdir⟩
  have hopenable : Openable flags g.fs path ↔
      (flags.create && flags.exclusive) = false ∧ (flags.write || flags.truncate) = false := by
    rw [Openable, hview]
  rw [openPath_of_dir hlocate hdir]
  split
  · next hnew => exact .refused (fun h => by simp [(hopenable.mp h).1] at hnew) _
  · next hold =>
    split
    · next hwrite => exact .refused (fun h => by simp [(hopenable.mp h).2] at hwrite) _
    · next hread =>
      rw [Bool.not_eq_true] at hold hread
      rw [allocate_eq hfree]
      refine .opened (hopenable.mpr ⟨hold, hread⟩) rfl (.kept ?_ (Bool.or_eq_false_iff.mp hread).2)
      simp [hview]

theorem opening_of_file {content : Bytes} (hlocate : locate dirFd text g = .ok (path, scope) g)
    (hfree : g.Free fd) (hfile : g.fs.lookup path = some (.file content)) :
    Opening flags path fd g (openPath dirFd text flags g) := by
  have hview : g.fs.view path = some (.file content) := Fs.view_eq_file_iff.mpr hfile
  have hopenable : Openable flags g.fs path ↔
      (flags.create && flags.exclusive) = false ∧ flags.directory = false := by
    rw [Openable, hview]
  rw [openPath_of_file hlocate hfile]
  split
  · next hnew => exact .refused (fun h => by simp [(hopenable.mp h).1] at hnew) _
  · next hold =>
    split
    · next hdirectory => exact .refused (fun h => by simp [(hopenable.mp h).2] at hdirectory) _
    · next hplain =>
      rw [Bool.not_eq_true] at hold hplain
      have hopen := hopenable.mpr ⟨hold, hplain⟩
      split
      · next htruncate =>
        have hne : path ≠ [] := by
          rintro rfl
          cases hfile
        have hfollows := Fs.follows_truncate path 0 g.fs
        rw [Fs.reach_of_lookup hne hfile] at hfollows
        obtain ⟨fs, hcut, hreplaced⟩ := hfollows
        have hempty : g.fs.Replaced path (some (.file (content.resize 0))) fs := hreplaced
        rw [Bytes.resize_zero] at hempty
        rw [onFs_allocate_eq hcut hfree]
        refine .opened hopen rfl (.emptied hview htruncate (hempty.view_eq_update_file ?_))
        simp [hview]
      · next hkeep =>
        rw [allocate_eq hfree]
        refine .opened hopen rfl (.kept ?_ (Bool.eq_false_iff.mpr hkeep))
        simp [hview]

theorem opening_of_error {e : Obstacle} (hlocate : locate dirFd text g = .ok (path, scope) g)
    (hfree : g.Free fd) (hfind : g.fs.find path = .error e) :
    Opening flags path fd g (openPath dirFd text flags g) := by
  have hview : g.fs.view path = none := by
    rw [Fs.view_eq_none_iff, ← Fs.toOption_find, hfind]
    rfl
  have hopenable : Openable flags g.fs path ↔
      (flags.create && !flags.directory) = true ∧ g.fs.reach path = .ok none := by
    rw [Openable, hview, Fs.reach_eq_ok_none_iff]
    exact and_congr_right fun _ => ⟨fun hparent => ⟨hview, hparent⟩, And.right⟩
  rw [openPath_of_error hlocate hfind]
  have hfollows := Fs.follows_write path ByteArray.empty .overwrite g.fs
  cases hreach : g.fs.reach path with
  | ok found =>
    obtain rfl : found = none := by
      rw [← Fs.lookup_of_reach hreach]
      exact Fs.view_eq_none_iff.mp hview
    have hmissing : e = .notFound :=
      Except.error.inj (hfind.symm.trans (Fs.find_of_reach_none hreach))
    split
    · next hmake =>
      rw [hreach] at hfollows
      obtain ⟨fs, hwrite, hreplaced⟩ := hfollows
      have hmade : g.fs.Replaced path (some (.file ByteArray.empty)) fs := hreplaced
      rw [onFs_allocate_eq hwrite hfree]
      obtain ⟨hcreate, hfile⟩ := Bool.and_eq_true_iff.mp hmake.2
      refine .opened (hopenable.mpr ⟨hmake.2, hreach⟩) rfl (.made hview
        (Fs.reach_eq_ok_none_iff.mp hreach).2 hcreate ?_ (hmade.view_eq_update_file ?_))
      · simpa using hfile
      · simp [hview]
    · next hmake => exact .refused (fun h => hmake ⟨hmissing, (hopenable.mp h).1⟩) _
  | error e' =>
    have hnot : ¬ Openable flags g.fs path := by
      intro h
      rw [hreach] at hopenable
      exact absurd (hopenable.mp h).2 nofun
    split
    · rw [hreach] at hfollows
      have hwrite : onFs (Fs.write path ByteArray.empty .overwrite) g =
          .error (.ofObstacle e') g := by
        rw [onFs, hfollows]
      rw [run_bind_of_error hwrite]
      exact .refused hnot _
    · exact .refused hnot _

/-- However a path is opened, it ends in one of the two ways. -/
theorem opening (hlocate : locate dirFd text g = .ok (path, scope) g) (hfree : g.Free fd) :
    Opening flags path fd g (openPath dirFd text flags g) := by
  cases hfind : g.fs.find path with
  | error e => exact opening_of_error hlocate hfree hfind
  | ok node =>
    cases node with
    | dir children => exact opening_of_dir hlocate hfree (Fs.find_eq_ok_iff.mp hfind)
    | file content => exact opening_of_file hlocate hfree (Fs.find_eq_ok_iff.mp hfind)

/-! ### What is known about the new descriptor -/

/-- A path is read beneath a directory by what the descriptor of the directory stands for. -/
theorem locate_congr (h : g'.descriptors.get? dirFd = g.descriptors.get? dirFd)
    {found : Path × Path} (hlocate : locate dirFd text g = .ok found g) :
    locate dirFd text g' = .ok found g' := by
  obtain ⟨⟨base, scope⟩, hdir, hrest⟩ := (asks_directory dirFd).keeps.ok_of_bind hlocate
  obtain ⟨d, hd, hbase⟩ := (asks_descriptor dirFd).keeps.ok_of_bind hdir
  have hd' : descriptor dirFd g' = .ok d g' := descriptor_eq (h.trans (get?_of_descriptor hd))
  have hdir' : directory dirFd g' = .ok (base, scope) g' := by
    rw [directory, run_bind_of_ok hd']
    cases d with
    | preopen | dir =>
      obtain ⟨hfound, -⟩ := EStateM.Result.ok.inj hbase
      exact congrArg (EStateM.Result.ok · g') hfound
    | stdin | stdout | stderr | file => cases hbase
  rw [locate, run_bind_of_ok hdir']
  dsimp only at hrest ⊢
  split at hrest
  · next hwithin =>
    obtain ⟨hfound, -⟩ := EStateM.Result.ok.inj hrest
    rw [if_pos hwithin]
    exact congrArg (EStateM.Result.ok · g') hfound
  · cases hrest

theorem fdStatus_eq {d : Descriptor} (h : g.descriptors.get? fd = some d)
    (hd : d.path? = some path) : fdStatus fd g = statusAt path g := by
  rw [fdStatus, run_bind_of_ok (descriptor_eq h)]
  cases d with
  | preopen | dir | file =>
    obtain rfl := Option.some.inj hd
    rfl
  | stdin | stdout | stderr => cases hd

/-- What is known about a path that has been opened is known about its descriptor as well. -/
theorem status_opened {d : Descriptor} {fs : Fs}
    (hlocate : locate dirFd text g = .ok (path, scope) g) (hfree : g.Free fd)
    (hd : d.path? = some path) (htouched : g.fs.Touched flags path fs) :
    ∃ status, let g' := Guest.opened { g with fs } fd d
      g'.call (.fdStatus fd) = (.ok (.status status), g') ∧
      g'.call (.pathStatus dirFd text) = (.ok (.status status), g') := by
  obtain ⟨node, hnode⟩ := htouched.exists_lookup
  have hstatus := statusAt_eq (g := Guest.opened { g with fs } fd d) hnode
  have hne : dirFd ≠ fd := by
    rintro rfl
    obtain ⟨_, hdir, -⟩ := (asks_directory dirFd).keeps.ok_of_bind hlocate
    obtain ⟨_, hopen, -⟩ := (asks_descriptor dirFd).keeps.ok_of_bind hdir
    cases hfree.get?.symm.trans (get?_of_descriptor hopen)
  refine ⟨_, call_of_ok .status rfl ((fdStatus_eq (get?_opened _ fd d) hd).trans hstatus),
    call_of_ok .status rfl ?_⟩
  have hsame : (Guest.opened { g with fs } fd d).descriptors.get? dirFd =
      g.descriptors.get? dirFd := Table.get?_insert_of_ne _ _ hne
  rw [pathStatus, run_bind_of_ok (locate_congr hsame hlocate)]
  exact hstatus

/-! ### The call -/

/-- A path has been opened at a descriptor: it was free to be opened as the flags say, and nothing
but the path and the descriptor is touched. -/
structure OpenedAt (g : Guest) (dirFd : Nat) (text : String) (flags : OpenFlags) (fd : Nat)
    (path : Path) (g' : Guest) : Prop where
  located : ∃ scope, locate dirFd text g = .ok (path, scope) g
  openable : Openable flags g.fs path
  exclusive : flags.create = true → flags.exclusive = true →
    g.fs.view path = none ∧ g'.fs.view path = some (.file ByteArray.empty)
  directory : flags.directory = true → g.fs.view path = some .dir
  status : ∃ status, g'.call (.fdStatus fd) = (.ok (.status status), g') ∧
    g'.call (.pathStatus dirFd text) = (.ok (.status status), g')
  touched : g.fs.Touched flags path g'.fs
  fresh : g.descriptors.get? fd = none
  rest : ∃ d, g' = Guest.opened { g with fs := g'.fs } fd d

theorem Openable.new {fs : Fs} (h : Openable flags fs path)
    (hnew : (flags.create && flags.exclusive) = true) : fs.view path = none := by
  rw [Openable] at h
  split at h
  · exact absurd (h.1.symm.trans hnew) nofun
  · exact absurd (h.1.symm.trans hnew) nofun
  · next hnone => exact hnone

theorem Openable.directory {fs : Fs} (h : Openable flags fs path)
    (hdirectory : flags.directory = true) : fs.view path = some .dir := by
  rw [Openable] at h
  split at h
  · next hdir => exact hdir
  · exact absurd (h.2.symm.trans hdirectory) nofun
  · simp [hdirectory] at h

theorem openedAt_of_opened {d : Descriptor} {fs : Fs}
    (hlocate : locate dirFd text g = .ok (path, scope) g) (hfree : g.Free fd)
    (hopen : Openable flags g.fs path) (hd : d.path? = some path)
    (htouched : g.fs.Touched flags path fs) :
    OpenedAt g dirFd text flags fd path (Guest.opened { g with fs } fd d) where
  located := ⟨scope, hlocate⟩
  openable := hopen
  exclusive := by
    intro hcreate hexclusive
    have habsent := hopen.new (by rw [hcreate, hexclusive]; rfl)
    refine ⟨habsent, ?_⟩
    cases htouched with
    | made _ _ _ _ hview => exact (congrFun hview path).trans (Function.update_self ..)
    | emptied hold => cases habsent.symm.trans hold
    | kept hstands => exact absurd habsent hstands
  directory := hopen.directory
  status := status_opened hlocate hfree hd htouched
  touched := htouched
  fresh := hfree.get?
  rest := ⟨d, rfl⟩

/-- If there is a number left, opening a path succeeds exactly where the path may be opened. Then
the descriptor matches the path, and the file system is touched there alone; otherwise nothing has
changed. -/
theorem open_touches_target
    (hfree : ∃ n, 3 ≤ n ∧ n < UInt32.size ∧ g.descriptors.get? n = none) (dirFd : Nat)
    (text : String) (flags : OpenFlags) :
    match g.call (.openPath dirFd text flags) with
    | (.ok reply, g') =>
      ∃ fd path, reply = .descriptor fd ∧ OpenedAt g dirFd text flags fd path g'
    | (.error _, g') =>
      g' = g ∧ ∀ path scope, locate dirFd text g = .ok (path, scope) g →
        ¬ Openable flags g.fs path := by
  obtain ⟨n, hn, hword, hnone⟩ := hfree
  obtain ⟨fd, hfree⟩ := Free.of_not_taken hnone hn hword
  cases hlocate : locate dirFd text g with
  | error e t =>
    obtain rfl : t = g := (asks_locate dirFd text).keeps.of_error hlocate
    have hrun : openPath dirFd text flags t = .error e t := run_bind_of_error hlocate _
    rw [call_of_error .descriptor rfl hrun]
    exact ⟨rfl, nofun⟩
  | ok found t =>
    obtain rfl : t = g := (asks_locate dirFd text).of_ok hlocate
    obtain ⟨path, scope⟩ := found
    have hopening : Opening flags path fd t (openPath dirFd text flags t) :=
      opening hlocate hfree
    generalize hrun : openPath dirFd text flags t = outcome at hopening
    cases hopening with
    | opened hopen hd htouched =>
      rw [call_of_ok .descriptor rfl hrun]
      exact ⟨fd, path, rfl, openedAt_of_opened hlocate hfree hopen hd htouched⟩
    | refused hnot e =>
      rw [call_of_error .descriptor rfl hrun]
      refine ⟨rfl, fun path' scope' heq => ?_⟩
      obtain ⟨hfound, -⟩ := EStateM.Result.ok.inj heq
      obtain ⟨rfl, rfl⟩ := Prod.mk.inj hfound
      exact hnot

/-- A new file is made by a crooked text, an old one is emptied, and neither is opened as new when
it is there. -/
theorem open_touches_target_crooked :
    let g := start [("d", .dir [("log", .file ⟨#[1]⟩)])] {} [] [] [Preopen.root] .zeros
    let making : OpenFlags := { create := true, exclusive := true, write := true }
    let emptying : OpenFlags := { truncate := true, write := true }
    (∃ path, OpenedAt g 3 "d/../d/./new" making 4 path
        (g.call (.openPath 3 "d/../d/./new" making)).2) ∧
      (∃ path, OpenedAt g 3 "d/log" emptying 4 path (g.call (.openPath 3 "d/log" emptying)).2) ∧
      (g.call (.openPath 3 "d/log" making)).2 = g ∧ ¬ Openable making g.fs ["d", "log"] := by
  intro g making emptying
  have hfree : ∃ n, 3 ≤ n ∧ n < UInt32.size ∧ g.descriptors.get? n = none :=
    ⟨4, by decide, by decide, by decide⟩
  have hmade := open_touches_target hfree 3 "d/../d/./new" making
  have hemptied := open_touches_target hfree 3 "d/log" emptying
  have hrefused := open_touches_target hfree 3 "d/log" making
  obtain ⟨_, path, hreply, hopened⟩ := hmade
  obtain ⟨_, path', hreply', hopened'⟩ := hemptied
  obtain rfl := Reply.descriptor.inj hreply
  obtain rfl := Reply.descriptor.inj hreply'
  exact ⟨⟨path, hopened⟩, ⟨path', hopened'⟩, hrefused.1, hrefused.2 ["d", "log"] [] rfl⟩

end Guest

end StagedSandbox
