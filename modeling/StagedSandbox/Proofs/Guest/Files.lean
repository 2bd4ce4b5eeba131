import StagedSandbox.Guest.Calls
import StagedSandbox.Proofs.Action
import StagedSandbox.Proofs.Bytes
import StagedSandbox.Proofs.Fs.Change
import StagedSandbox.Proofs.Path
import StagedSandbox.Proofs.Table

/-!
# Open files

What the calls on one open file do, as equations: opening takes a free descriptor, reading and
writing move its offset, and closing gives the descriptor back.
-/

namespace StagedSandbox.Guest

open StagedSandbox.Action

variable {g g' : Guest}

/-! ### Calls and their actions -/

section

variable {α : Type} {action : Action α} {c : SystemCall}

theorem call_of_ok {a : α} (reply : α → Reply) (hc : perform c = do return reply (← action))
    (h : action g = .ok a g') : g.call c = (.ok (reply a), g') := by
  rw [call, hc, run_bind_of_ok h]
  rfl

theorem call_of_error {e : Errno} (reply : α → Reply) (hc : perform c = do return reply (← action))
    (h : action g = .error e g') : g.call c = (.error e, g') := by
  rw [call, hc, run_bind_of_error h]

theorem ok_of_call {reply : α → Reply} {answer : Reply}
    (hc : perform c = do return reply (← action)) (h : g.call c = (.ok answer, g')) :
    ∃ a, action g = .ok a g' ∧ answer = reply a := by
  cases hrun : action g with
  | ok a t =>
    rw [call_of_ok reply hc hrun] at h
    obtain ⟨hanswer, rfl⟩ := Prod.mk.inj h
    exact ⟨a, rfl, (Except.ok.inj hanswer).symm⟩
  | error e t =>
    rw [call_of_error reply hc hrun] at h
    cases h

end

/-! ### Descriptors -/

theorem mem_of_get?_initialDescriptors {preopens : List Preopen} {fd : Nat} {d : Descriptor}
    (h : (initialDescriptors preopens).get? fd = some d) :
    d ∈ Descriptor.stdin :: .stdout :: .stderr :: preopened preopens := by
  obtain ⟨entry, hentry, heq⟩ := List.mem_map.1 (Table.mem_of_get? h)
  obtain rfl : entry.1 = d := congrArg Prod.snd heq
  exact List.fst_mem_of_mem_zipIdx hentry

theorem descriptor_eq {fd : Nat} {d : Descriptor} (h : g.descriptors.get? fd = some d) :
    descriptor fd g = .ok d g := by
  rw [descriptor, h]

/-- The next descriptor that is taken. -/
structure Free (g : Guest) (fd : Nat) : Prop where
  lowest : lowestFree g.descriptors = some fd
  word : fd < UInt32.size

theorem Free.get? {fd : Nat} (h : g.Free fd) : g.descriptors.get? fd = none := by
  have := List.find?_some h.lowest
  simpa [Table.contains] using this

theorem Free.with_fs {fd : Nat} (h : g.Free fd) (fs : Fs) : ({ g with fs } : Guest).Free fd :=
  ⟨h.lowest, h.word⟩

/-- The guest with one more open descriptor. -/
def opened (g : Guest) (fd : Nat) (d : Descriptor) : Guest :=
  { g with descriptors := g.descriptors.insert fd d }

theorem allocate_eq {fd : Nat} (h : g.Free fd) (d : Descriptor) :
    allocate d g = .ok fd (g.opened fd d) := by
  simp only [allocate, run_bind, run_get, h.lowest]
  rw [if_pos h.word]
  rfl

theorem free_of_allocate {fd : Nat} {d : Descriptor} (h : allocate d g = .ok fd g') :
    g.Free fd := by
  simp only [allocate, run_bind, run_get] at h
  cases hlowest : lowestFree g.descriptors with
  | none => simp [hlowest] at h
  | some lowest =>
    simp only [hlowest] at h
    by_cases hword : lowest < UInt32.size
    · rw [if_pos hword] at h
      obtain rfl : lowest = fd := (EStateM.Result.ok.inj h).1
      exact ⟨hlowest, hword⟩
    · rw [if_neg hword] at h
      cases h

@[simp] theorem get?_opened (g : Guest) (fd : Nat) (d : Descriptor) :
    (g.opened fd d).descriptors.get? fd = some d := Table.get?_insert_self _ _ _

theorem setDescriptor_opened (g : Guest) (fd : Nat) (d d' : Descriptor) :
    setDescriptor fd d' (g.opened fd d) = .ok () (g.opened fd d') := by
  rw [setDescriptor, run_modify]
  simp only [opened, Table.set_insert]

/-- Closing a descriptor that was free before leaves no trace of it. -/
theorem close_opened {fd : Nat} (h : g.Free fd) (d : Descriptor) :
    close fd (g.opened fd d) = .ok () g := by
  rw [close, run_bind_of_ok (descriptor_eq (get?_opened g fd d)), run_modify]
  simp only [opened, Table.erase_insert d h.get?]

/-- The guest with an open descriptor that stands for something else. -/
def rebound (g : Guest) (fd : Nat) (d : Descriptor) : Guest :=
  { g with descriptors := g.descriptors.set fd d }

theorem setDescriptor_eq (g : Guest) (fd : Nat) (d : Descriptor) :
    setDescriptor fd d g = .ok () (g.rebound fd d) := rfl

theorem get?_rebound {fd : Nat} {d : Descriptor} (h : g.descriptors.get? fd = some d)
    (d' : Descriptor) : (g.rebound fd d').descriptors.get? fd = some d' :=
  Table.get?_set_self _ _ (by rw [h]; rfl)

@[simp] theorem rebound_rebound (g : Guest) (fd : Nat) (d d' : Descriptor) :
    (g.rebound fd d).rebound fd d' = g.rebound fd d' := by
  simp only [rebound, Table.set_set]

theorem rebound_self {fd : Nat} {d : Descriptor} (h : g.descriptors.get? fd = some d) :
    g.rebound fd d = g := by
  rw [rebound, Table.set_get? _ h]

@[simp] theorem rebound_opened (g : Guest) (fd : Nat) (d d' : Descriptor) :
    (g.opened fd d).rebound fd d' = g.opened fd d' := by
  simp only [rebound, opened, Table.set_insert]

/-! ### Reading -/

/-- Reading an open file gives a part of its content, and moves the offset behind it. -/
theorem read_file {fd : Nat} {path : Path} {offset : UInt64} {append : Bool} {content : Bytes}
    (hfd : g.descriptors.get? fd = some (.file path offset append))
    (hfile : g.fs.read path = .ok content) (length : Nat) :
    read fd length g =
      .ok (content.slice offset.toNat length)
        (g.rebound fd (.file path
          (offset + UInt64.ofNat (content.slice offset.toNat length).size) append)) := by
  have hask : askFs (·.readAt path offset.toNat length) g =
      .ok (content.slice offset.toNat length) g := by
    rw [askFs]
    simp only [Fs.readAt, hfile]
    rfl
  rw [read, run_bind_of_ok (descriptor_eq hfd)]
  simp only
  rw [run_bind_of_ok hask, run_bind_of_ok (setDescriptor_eq ..)]
  rfl

theorem read_opened {path : Path} {content : Bytes} (hfile : g.fs.read path = .ok content)
    (fd : Nat) (offset : UInt64) (append : Bool) (length : Nat) :
    read fd length (g.opened fd (.file path offset append)) =
      .ok (content.slice offset.toNat length)
        (g.opened fd (.file path
          (offset + UInt64.ofNat (content.slice offset.toNat length).size) append)) := by
  rw [read_file (get?_opened g fd _) hfile, rebound_opened]

theorem onFs_eq {α : Type} {change : Fs.Change α} {a : α} {fs : Fs}
    (h : change g.fs = .ok a fs) : onFs change g = .ok a { g with fs } := by
  rw [onFs, h]

theorem onFs_ok {α : Type} {change : Fs.Change α} {a : α} (h : onFs change g = .ok a g') :
    ∃ fs, change g.fs = .ok a fs ∧ g' = { g with fs } := by
  rw [onFs] at h
  cases hrun : change g.fs with
  | error e fs => simp [hrun] at h
  | ok b fs =>
    rw [hrun] at h
    obtain ⟨rfl, rfl⟩ := EStateM.Result.ok.inj h
    exact ⟨fs, rfl, rfl⟩

/-! ### Writing -/

/-- Write bytes to a file at a position, and move the offset on. -/
def writeFrom (fd : Nat) (path : Path) (append : Bool) (data : Bytes) (start : UInt64) :
    Action Nat := do
  onFs (Fs.writeAt path start.toNat data)
  setDescriptor fd (.file path (start + UInt64.ofNat data.size) append)
  return data.size

/-- Move the offset of a file to its end, and write bytes there. -/
def writeAtEnd (fd : Nat) (path : Path) (data : Bytes) : Action Nat := do
  let found ← askFs (·.stat path)
  setDescriptor fd (.file path (UInt64.ofNat found.length) true)
  writeFrom fd path true data (UInt64.ofNat found.length)

/-- A write to a file begins at the offset or, in appending, at the end of the file. -/
theorem write_file {fd : Nat} {path : Path} {offset : UInt64} {append : Bool}
    (hfd : g.descriptors.get? fd = some (.file path offset append)) (data : Bytes) :
    write fd data g =
      if append then writeAtEnd fd path data g else writeFrom fd path append data offset g := by
  rw [write, run_bind_of_ok (descriptor_eq hfd)]
  cases append with
  | false => rfl
  | true => rfl

/-- Writing to a file that was just opened lays the bytes over its beginning. -/
theorem write_opened {path : Path} {data : Bytes} {fs : Fs}
    (h : Fs.writeAt path 0 data g.fs = .ok () fs) (fd : Nat) :
    write fd data (g.opened fd (.file path 0 false)) =
      .ok data.size
        (Guest.opened { g with fs } fd (.file path (UInt64.ofNat data.size) false)) := by
  have hfs : onFs (Fs.writeAt path (0 : UInt64).toNat data) (g.opened fd (.file path 0 false)) =
      .ok () (Guest.opened { g with fs } fd (.file path 0 false)) := onFs_eq h
  have hset := setDescriptor_opened { g with fs } fd (.file path 0 false)
    (.file path (0 + UInt64.ofNat data.size) false)
  rw [write_file (get?_opened g fd _), if_neg Bool.false_ne_true, writeFrom,
    run_bind_of_ok hfs, run_bind_of_ok hset, UInt64.zero_add]
  rfl

/-! ### Seeking -/

/-- Move the offset of a file so far from a base. -/
def seekFrom (fd : Nat) (path : Path) (append : Bool) (delta base : Int64) : Action UInt64 :=
  let target := base.toInt + delta.toInt
  if 0 ≤ target ∧ target ≤ Int64.maxValue.toInt then do
    let moved := UInt64.ofNat target.toNat
    setDescriptor fd (.file path moved append)
    return moved
  else throw .inval

/-! ### Opening -/

variable {dirFd fd : Nat} {below : String} {path scope : Path} {content : Bytes}
  {flags : OpenFlags}

theorem openPath_of_dir {children : Fs} (hlocate : locate dirFd below g = .ok (path, scope) g)
    (hdir : g.fs.lookup path = some (.dir children)) :
    openPath dirFd below flags g =
      if flags.create && flags.exclusive then .error .exist g
      else if flags.write || flags.truncate then .error .isdir g
      else allocate (.dir path scope) g := by
  have hstat : g.fs.stat path = .ok ⟨true, 0⟩ := by
    rw [Fs.stat, Fs.find_eq_ok_iff.2 hdir]
    rfl
  rw [openPath, run_bind_of_ok hlocate]
  simp only [run_bind, run_get, hstat, if_true, run_ite, run_throw]

theorem openPath_of_file (hlocate : locate dirFd below g = .ok (path, scope) g)
    (hfile : g.fs.lookup path = some (.file content)) :
    openPath dirFd below flags g =
      if flags.create && flags.exclusive then .error .exist g
      else if flags.directory then .error .notdir g
      else if flags.truncate then
        (do onFs (Fs.truncate path 0); allocate (.file path 0 flags.append) : Action Nat) g
      else allocate (.file path 0 flags.append) g := by
  have hstat := Fs.stat_of_lookup hfile
  rw [openPath, run_bind_of_ok hlocate]
  simp only [run_bind, run_get, hstat, Bool.false_eq_true, if_false, run_ite, run_throw]

theorem openPath_of_error {e : Obstacle} (hlocate : locate dirFd below g = .ok (path, scope) g)
    (hfind : g.fs.find path = .error e) :
    openPath dirFd below flags g =
      if e = .notFound ∧ (flags.create && !flags.directory) = true then
        (do onFs (Fs.write path ByteArray.empty .overwrite)
            allocate (.file path 0 flags.append) : Action Nat) g
      else .error (.ofObstacle e) g := by
  have hstat : g.fs.stat path = .error e := by
    rw [Fs.stat, hfind]
    rfl
  rw [openPath, run_bind_of_ok hlocate]
  cases e with
  | notFound => simp only [run_bind, run_get, hstat, run_ite, run_throw, true_and, Errno.ofObstacle]
  | _ => simp only [run_bind, run_get, hstat, run_throw, reduceCtorEq, false_and, if_false]

/-- A file is made or emptied, and then opened. -/
theorem onFs_allocate_eq {change : Fs.Change Unit} {fs : Fs} (hchange : change g.fs = .ok () fs)
    (hfree : g.Free fd) (d : Descriptor) :
    (do onFs change; allocate d : Action Nat) g =
      .ok fd (Guest.opened { g with fs } fd d) := by
  rw [run_bind_of_ok (onFs_eq hchange)]
  exact allocate_eq (hfree.with_fs fs) d

/-- An existing file is opened. -/
theorem openPath_file (hlocate : locate dirFd below g = .ok (path, scope) g)
    (hfile : g.fs.find path = .ok (.file content)) (hfree : g.Free fd) :
    openPath dirFd below {} g = .ok fd (g.opened fd (.file path 0 false)) := by
  rw [openPath_of_file hlocate (Fs.find_eq_ok_iff.1 hfile)]
  exact allocate_eq hfree _

/-- A file is made or emptied, and opened. -/
theorem openPath_write {found : Option Node}
    (hlocate : locate dirFd below g = .ok (path, scope) g) (hreach : g.fs.reach path = .ok found)
    (hfound : ∀ children, found ≠ some (.dir children)) (hfree : g.Free fd) :
    ∃ fs, g.fs.Replaced path (some (.file ByteArray.empty)) fs ∧
      openPath dirFd below { create := true, truncate := true, write := true } g =
        .ok fd (Guest.opened { g with fs } fd (.file path 0 false)) := by
  rcases found with _ | ⟨old⟩ | ⟨children⟩
  · have hwrite := Fs.follows_write path ByteArray.empty .overwrite g.fs
    simp only [hreach] at hwrite
    obtain ⟨fs, hwrite, hfs⟩ := hwrite
    refine ⟨fs, hfs, ?_⟩
    rw [openPath_of_error hlocate (Fs.find_of_reach_none hreach)]
    exact onFs_allocate_eq hwrite hfree _
  · have htruncate := Fs.follows_truncate path 0 g.fs
    simp only [hreach] at htruncate
    obtain ⟨fs, htruncate, hfs⟩ := htruncate
    have hfs : g.fs.Replaced path (some (.file (old.resize 0))) fs := hfs
    rw [Bytes.resize_zero] at hfs
    refine ⟨fs, hfs, ?_⟩
    rw [openPath_of_file hlocate (Fs.lookup_of_reach hreach)]
    exact onFs_allocate_eq htruncate hfree _
  · exact absurd rfl (hfound children)

/-! ### Reaching files by their paths -/

/-- An absolute path as text leads, through the preopened directories, to a path of the file
system. -/
def Reaches (g : Guest) (text : String) (path : Path) : Prop :=
  ∃ dirFd below scope,
    target text g = .ok (dirFd, below) g ∧ locate dirFd below g = .ok (path, scope) g

/-- The descriptors of a program that is shown the whole file system. -/
def rootDescriptors : Table Nat Descriptor := initialDescriptors [Preopen.root]

theorem free_root (h : g.descriptors = rootDescriptors) : g.Free 4 := by
  constructor
  · rw [h]
    decide
  · decide

/-- A program that is shown the whole file system reaches what a path says. -/
theorem reaches_root (h : g.descriptors = rootDescriptors) {text : String} {path : Path}
    (hpath : Path.parse? text = some path) : g.Reaches text path := by
  have hfollow : Path.follow [] (if path = [] then "." else "/".intercalate path) = path := by
    split
    · next hempty => rw [hempty]; decide
    · next hne => exact Path.follow_intercalate (Path.named_of_parse? hpath) hne []
  have hpreopens : g.preopens = [(3, [])] := by
    rw [preopens, h]
    decide
  refine ⟨3, if path = [] then "." else "/".intercalate path, [], ?_, ?_⟩
  · simp only [target, resolve, hpath, hpreopens]
    simp
  · have hfd : descriptor 3 g = .ok (.preopen [] []) g := descriptor_eq (by rw [h]; decide)
    have hdir : directory 3 g = .ok ([], []) g := by
      rw [directory, run_bind_of_ok hfd]
      rfl
    rw [locate, run_bind_of_ok hdir]
    simp only [hfollow]
    rfl

end StagedSandbox.Guest
