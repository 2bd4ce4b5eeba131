import StagedSandbox.Proofs.Fs.Size
import StagedSandbox.Proofs.Guest.Sequential
import StagedSandbox.Proofs.Guest.Streams

/-!
# Offsets of open files

An offset is kept in an unsigned word of 64 bits and moved in a signed one. If a program starts
with files that a signed word can measure, both say the same at all times: no call makes a file
longer than that, or leaves an offset beyond it (`Guest.Measured.run`). So a read and a write move
the offset by exactly what they have transferred, and a seek is a sum of integers, refused if it
leaves the range (`Guest.seek_exact`).
-/

namespace StagedSandbox.Guest

open StagedSandbox.Action

variable {α : Type} {limit : Nat} {g g' : Guest} {fd : Nat} {path : Path} {offset : UInt64}
  {append : Bool}

/-- The greatest offset that a signed word of 64 bits can count. -/
def maxOffset : Nat := 2 ^ 63 - 1

theorem toInt_maxValue : Int64.maxValue.toInt = maxOffset := rfl

/-- A number within the range is the same in both kinds of words. -/
theorem toInt_ofNat {n : Nat} (h : n ≤ maxOffset) : (UInt64.ofNat n).toInt64.toInt = n := by
  rw [UInt64.toInt64_ofNat']
  apply Int64.toInt_ofNat_of_lt
  exact Nat.lt_of_le_of_lt h (by decide)

theorem toNat_ofNat {n : Nat} (h : n ≤ maxOffset) : (UInt64.ofNat n).toNat = n :=
  UInt64.toNat_ofNat_of_lt' (Nat.lt_of_le_of_lt h (by decide))

/-- All files hold no more than so many bytes, and a signed word can count them and all offsets. -/
structure Measured (limit : Nat) (g : Guest) : Prop where
  least : Fs.maxFileSize ≤ limit
  most : limit ≤ maxOffset
  files : g.fs.FilesWithin limit
  offsets : ∀ fd path offset append,
    g.descriptors.get? fd = some (.file path offset append) → offset.toNat ≤ maxOffset

/-- One guest is measured if another one is. -/
def Upholds (limit : Nat) (g g' : Guest) : Prop := g.Measured limit → g'.Measured limit

instance : Std.Refl (Upholds limit) := ⟨fun _ => id⟩

instance : Trans (Upholds limit) (Upholds limit) (Upholds limit) := ⟨fun h h' hg => h' (h hg)⟩

/-! ### Parts of a call -/

namespace Measured

theorem with_fs (h : g.Measured limit) {fs : Fs} (hfs : fs.FilesWithin limit) :
    ({ g with fs } : Guest).Measured limit :=
  ⟨h.least, h.most, hfs, h.offsets⟩

theorem length_le (h : g.Measured limit) {found : Metadata} (hstat : g.fs.stat path = .ok found) :
    found.length ≤ maxOffset :=
  Nat.le_trans (h.files.length_le hstat) h.most

theorem rebound (h : g.Measured limit) (hoffset : offset.toNat ≤ maxOffset) :
    (g.rebound fd (.file path offset append)).Measured limit := by
  refine ⟨h.least, h.most, h.files, fun other path' offset' append' hget => ?_⟩
  by_cases hother : other = fd
  · subst hother
    cases hold : g.descriptors.get? other with
    | none =>
      rw [Guest.rebound, Table.get?_set_of_none _ hold] at hget
      exact h.offsets other path' offset' append' hget
    | some old =>
      rw [get?_rebound hold] at hget
      obtain ⟨-, rfl, -⟩ := Descriptor.file.inj (Option.some.inj hget)
      exact hoffset
  · rw [Guest.rebound, Table.get?_set_of_ne _ _ hother] at hget
    exact h.offsets other path' offset' append' hget

theorem opened (h : g.Measured limit) {d : Descriptor}
    (hd : ∀ path offset append, d = .file path offset append → offset = 0) :
    (g.opened fd d).Measured limit := by
  refine ⟨h.least, h.most, h.files, fun other path' offset' append' hget => ?_⟩
  by_cases hother : other = fd
  · subst hother
    rw [get?_opened] at hget
    rw [hd path' offset' append' (Option.some.inj hget)]
    exact Nat.zero_le maxOffset
  · rw [Guest.opened, Table.get?_insert_of_ne _ _ hother] at hget
    exact h.offsets other path' offset' append' hget

theorem openFile (h : g.Measured limit)
    (hfd : g.descriptors.get? fd = some (.file path offset append)) {content : Bytes}
    (hfile : g.fs.lookup path = some (.file content)) :
    g.OpenFile fd path offset append content := by
  refine ⟨hfd, hfile, ?_⟩
  have hle := Nat.le_trans (h.files path content hfile) h.most
  exact Nat.lt_of_le_of_lt hle (by decide)

end Measured

theorem upholds_onFs {change : Fs.Change α}
    (h : Fs.maxFileSize ≤ limit → Fs.Change.Limited limit change) :
    Leads (Upholds limit) (onFs change) := by
  intro g hg
  rw [left, onFs]
  cases hrun : change g.fs with
  | ok a fs => exact hg.with_fs ((h hg.least).of_ok hg.files hrun)
  | error e fs => exact hg.with_fs ((h hg.least).of_error hg.files hrun)

theorem upholds_allocate {d : Descriptor}
    (hd : ∀ path offset append, d = .file path offset append → offset = 0) :
    Leads (Upholds limit) (allocate d) := by
  intro g hg
  rw [left]
  cases hrun : allocate d g with
  | ok fd g' =>
    rw [allocate_eq (free_of_allocate hrun)] at hrun
    obtain ⟨-, rfl⟩ := EStateM.Result.ok.inj hrun
    exact hg.opened hd
  | error e g' =>
    obtain rfl : g' = g := (refuses_allocate d g e g' hrun).1
    exact hg

/-! ### Reading -/

/-- What is read from was there, and the offset ends no farther than it. -/
theorem read_ok (hg : g.Measured limit)
    (hfd : g.descriptors.get? fd = some (.file path offset append)) {length : Nat} {data : Bytes}
    (h : read fd length g = .ok data g') :
    ∃ offset', g' = g.rebound fd (.file path offset' append) ∧
      offset'.toNat = offset.toNat + data.size ∧ offset'.toNat ≤ maxOffset := by
  have hfound : ∃ content, g.fs.lookup path = some (.file content) := by
    rw [read, run_bind_of_ok (descriptor_eq hfd)] at h
    obtain ⟨_, hask, -⟩ := (asks_askFs _).keeps.ok_of_bind h
    cases hread : g.fs.read path with
    | error o => simp [askFs, Fs.readAt, hread, bind, Except.bind] at hask
    | ok content => exact ⟨content, Fs.lookup_of_read hread⟩
  obtain ⟨content, hfile⟩ := hfound
  have hopen := hg.openFile hfd hfile
  rw [hopen.read_eq] at h
  obtain ⟨rfl, rfl⟩ := EStateM.Result.ok.inj h
  refine ⟨_, rfl, hopen.toNat_add_slice length, ?_⟩
  rw [hopen.toNat_add_slice, Bytes.size_slice]
  have hoffset := hg.offsets fd path offset append hfd
  have hcontent := Nat.le_trans (hg.files path content hfile) hg.most
  omega

theorem upholds_read (fd length : Nat) : Leads (Upholds limit) (read fd length) := by
  intro g hg
  rw [left]
  cases hrun : read fd length g with
  | error e t =>
    obtain rfl : t = g := (refuses_read fd length g e t hrun).1
    exact hg
  | ok data t =>
    obtain ⟨d, hd, hrest⟩ := (asks_descriptor fd).keeps.ok_of_bind hrun
    have hfd := get?_of_descriptor hd
    cases d with
    | stdin =>
      obtain ⟨-, rfl⟩ := EStateM.Result.ok.inj hrest
      exact hg
    | file path offset append =>
      obtain ⟨offset', rfl, -, hle⟩ := read_ok hg hfd hrun
      exact hg.rebound hle
    | preopen | dir | stdout | stderr => cases hrest

/-! ### Writing -/

/-- What is written to was there. -/
theorem exists_file_of_write (hfd : g.descriptors.get? fd = some (.file path offset append))
    {data : Bytes} {n : Nat} (h : write fd data g = .ok n g') :
    ∃ content, g.fs.lookup path = some (.file content) := by
  have hfrom {t : Guest} {start : UInt64}
      (hrun : writeFrom fd path append data start t = .ok n g') :
      ∃ content, t.fs.lookup path = some (.file content) := by
    obtain ⟨_, _, hwrite, -⟩ := exists_of_bind hrun
    obtain ⟨fs, hfs, -⟩ := onFs_ok hwrite
    exact exists_file_of_writeAt hfs
  rw [write_file hfd] at h
  cases append with
  | false => exact hfrom h
  | true =>
    obtain ⟨found, -, hrest⟩ := (asks_askFs _).keeps.ok_of_bind h
    obtain ⟨_, _, hset, hrest⟩ := exists_of_bind hrest
    obtain ⟨-, rfl⟩ := EStateM.Result.ok.inj hset
    obtain ⟨content, hfile⟩ := hfrom hrest
    exact ⟨content, hfile⟩

/-- The offset ends behind what has been written, at the old offset or, in appending, at the end
of the file. -/
theorem write_ok (hg : g.Measured limit)
    (hfd : g.descriptors.get? fd = some (.file path offset append)) {data : Bytes} {n : Nat}
    (h : write fd data g = .ok n g') :
    ∃ content offset' fs, g.fs.lookup path = some (.file content) ∧ fs.FilesWithin limit ∧
      g' = Guest.rebound { g with fs } fd (.file path offset' append) ∧
      offset'.toNat = (if append then content.size else offset.toNat) + data.size ∧
      offset'.toNat ≤ maxOffset := by
  obtain ⟨content, hfile⟩ := exists_file_of_write hfd h
  have hopen := hg.openFile hfd hfile
  obtain ⟨fs, hwrite, -, rfl⟩ := hopen.write_ok_iff.mp h
  obtain ⟨hexact, -⟩ := hopen.of_write h
  obtain ⟨hend, -⟩ := lookup_of_writeAt hfile hwrite
  refine ⟨content, _, fs, hfile, ?_, rfl, ?_, ?_⟩
  · exact (Fs.limited_writeAt hg.least path _ data).of_ok hg.files hwrite
  · rw [hexact, hopen.toNat_writeStart]
  · rw [hexact]
    exact Nat.le_trans hend (Nat.le_trans hg.least hg.most)

theorem upholds_write (fd : Nat) (data : Bytes) : Leads (Upholds limit) (write fd data) := by
  intro g hg
  rw [left]
  cases hrun : write fd data g with
  | error e t =>
    obtain ⟨rfl, -⟩ | ⟨path, offset, found, o, hget, hstat, -, -, rfl⟩ :=
      fails_write fd data g e t hrun
    · exact hg
    · have hle := hg.length_le hstat
      rw [← toNat_ofNat hle] at hle
      exact hg.rebound hle
  | ok n t =>
    obtain ⟨d, hd, hrest⟩ := (asks_descriptor fd).keeps.ok_of_bind hrun
    have hfd := get?_of_descriptor hd
    cases d with
    | stdout | stderr =>
      obtain ⟨-, rfl⟩ := EStateM.Result.ok.inj hrest
      exact ⟨hg.least, hg.most, hg.files, hg.offsets⟩
    | file path offset append =>
      obtain ⟨content, offset', fs, -, hfs, rfl, -, hle⟩ := write_ok hg hfd hrun
      exact (hg.with_fs hfs).rebound hle
    | stdin | preopen | dir => cases hrest

/-! ### Seeking -/

/-- Where a seek in a file counts from, if that can be told. -/
def seekBase (g : Guest) (path : Path) (offset : UInt64) : Whence → Except Obstacle Nat
  | .fromStart => .ok 0
  | .fromCurrent => .ok offset.toNat
  | .fromEnd => (g.fs.stat path).map Metadata.length

/-- A seek finds its base, and moves the offset from there. -/
theorem seek_eq (hfd : g.descriptors.get? fd = some (.file path offset append)) (delta : Int64)
    (whence : Whence) :
    seek fd delta whence g =
      match g.seekBase path offset whence with
      | .ok base => seekFrom fd path append delta (UInt64.ofNat base).toInt64 g
      | .error o => .error (.ofObstacle o) g := by
  rw [seek, run_bind_of_ok (descriptor_eq hfd)]
  cases whence with
  | fromStart => rfl
  | fromCurrent =>
    rw [seekBase]
    dsimp only
    rw [UInt64.ofNat_toNat]
    rfl
  | fromEnd =>
    rw [seekBase]
    cases hstat : g.fs.stat path with
    | ok found =>
      simp only [run_bind, askFs, hstat]
      rfl
    | error o =>
      simp only [run_bind, askFs, hstat]
      rfl

theorem Measured.base_le (hg : g.Measured limit)
    (hfd : g.descriptors.get? fd = some (.file path offset append)) {whence : Whence} {base : Nat}
    (h : g.seekBase path offset whence = .ok base) : base ≤ maxOffset := by
  cases whence with
  | fromStart =>
    obtain rfl := Except.ok.inj h
    exact Nat.zero_le maxOffset
  | fromCurrent =>
    obtain rfl := Except.ok.inj h
    exact hg.offsets fd path offset append hfd
  | fromEnd =>
    rw [seekBase] at h
    cases hstat : g.fs.stat path with
    | error o => simp [hstat, Except.map] at h
    | ok found =>
      rw [hstat] at h
      obtain rfl := Except.ok.inj h
      exact hg.length_le hstat

/-- From a base within the range, a seek is a sum of integers. -/
theorem seekFrom_eq (g : Guest) (fd : Nat) (path : Path) (append : Bool) (delta : Int64)
    {base : Nat} (hbase : base ≤ maxOffset) :
    if 0 ≤ (base : Int) + delta.toInt ∧ (base : Int) + delta.toInt ≤ maxOffset then
      ∃ moved : UInt64, (moved.toNat : Int) = base + delta.toInt ∧
        seekFrom fd path append delta (UInt64.ofNat base).toInt64 g =
          .ok moved (g.rebound fd (.file path moved append))
    else seekFrom fd path append delta (UInt64.ofNat base).toInt64 g = .error .inval g := by
  rw [seekFrom, toInt_ofNat hbase, toInt_maxValue]
  dsimp only
  split
  · next hrange =>
    have hle : ((base : Int) + delta.toInt).toNat ≤ maxOffset := Int.toNat_le.mpr hrange.2
    refine ⟨UInt64.ofNat ((base : Int) + delta.toInt).toNat, ?_, rfl⟩
    rw [toNat_ofNat hle, Int.toNat_of_nonneg hrange.1]
  · rfl

/-- Wherever it counts from, a seek leaves an offset within the range. -/
theorem upholds_seekFrom (delta base : Int64) :
    Leads (Upholds limit) (seekFrom fd path append delta base) := by
  intro g hg
  rw [seekFrom]
  dsimp only
  split
  · next hrange =>
    have hle : (base.toInt + delta.toInt).toNat ≤ maxOffset := Int.toNat_le.mpr hrange.2
    rw [← toNat_ofNat hle] at hle
    exact hg.rebound hle
  · exact hg

theorem upholds_seek (fd : Nat) (delta : Int64) (whence : Whence) :
    Leads (Upholds limit) (seek fd delta whence) := by
  intro g
  rw [left]
  cases hfd : g.descriptors.get? fd with
  | none =>
    rw [seek, run_bind, descriptor, hfd]
    exact id
  | some d =>
    cases d with
    | file path offset append =>
      rw [seek_eq hfd]
      cases g.seekBase path offset whence with
      | ok base => exact upholds_seekFrom delta _ g
      | error o => exact id
    | stdin | stdout | stderr | preopen | dir =>
      rw [seek, run_bind_of_ok (descriptor_eq hfd)]
      exact id

/-! ### The other calls -/

theorem upholds_writeAt (fd : Nat) (data : Bytes) (start : Nat) :
    Leads (Upholds limit) (writeAt fd data start) := by
  apply leads_descriptor
  intro g d _
  cases d with
  | file path offset append =>
    have hwrite : Leads (Upholds limit) (onFs (Fs.writeAt path start data)) :=
      upholds_onFs fun hmax => Fs.limited_writeAt hmax path start data
    exact hwrite.bind (fun _ => Leads.pure data.size) g
  | stdin | stdout | stderr | preopen | dir => exact id

theorem upholds_truncate (fd size : Nat) : Leads (Upholds limit) (truncate fd size) := by
  apply leads_descriptor
  intro g d _
  cases d with
  | file path offset append => exact upholds_onFs (fun hmax => Fs.limited_truncate hmax path size) g
  | stdin | stdout | stderr | preopen | dir => exact id

theorem upholds_close (fd : Nat) : Leads (Upholds limit) (close fd) := by
  refine (asks_descriptor fd).leads.bind fun _ g hg => ?_
  refine ⟨hg.least, hg.most, hg.files, fun other path offset append hget => ?_⟩
  by_cases hother : other = fd
  · subst hother
    cases (Table.get?_erase_self g.descriptors other).symm.trans hget
  · exact hg.offsets other path offset append
      ((Table.get?_erase_of_ne g.descriptors hother).symm.trans hget)

/-- What is changed at a path beneath an open directory. -/
theorem upholds_changeAt (dirFd : Nat) (text : String) {change : Path → Fs.Change α}
    (h : ∀ path, Fs.Change.Limited limit (change path)) :
    Leads (Upholds limit) (do
      let (path, _) ← locate dirFd text
      onFs (change path) : Action α) :=
  (asks_locate dirFd text).leads.bind fun found => upholds_onFs fun _ => h found.1

theorem upholds_move (fromFd : Nat) (source : String) (toFd : Nat) (goal : String) :
    Leads (Upholds limit) (move fromFd source toFd goal) := by
  refine (asks_locate fromFd source).leads.bind fun from' => ?_
  refine (asks_locate toFd goal).leads.bind fun to' g hg => ?_
  have hmove : Fs.Change.Limited limit (Fs.move from'.1 to'.1) := Fs.limited_move from'.1 to'.1
  rw [left]
  dsimp only
  cases hrun : Fs.move from'.1 to'.1 g.fs with
  | ok a fs => exact hg.with_fs (hmove.of_ok hg.files hrun)
  | error e fs => exact hg.with_fs (hmove.of_error hg.files hrun)

theorem upholds_openPath (dirFd : Nat) (text : String) (flags : OpenFlags) :
    Leads (Upholds limit) (openPath dirFd text flags) := by
  have hdir (path scope : Path) : Leads (Upholds limit) (allocate (.dir path scope)) := by
    apply upholds_allocate
    nofun
  have hfile (path : Path) : Leads (Upholds limit) (allocate (.file path 0 flags.append)) := by
    apply upholds_allocate
    rintro _ _ _ ⟨⟩
    rfl
  have hrefuse (e : Errno) : Leads (Upholds limit) (throw e : Action PUnit) := Leads.throw e
  refine (asks_locate dirFd text).leads.bind fun ⟨path, scope⟩ => ?_
  refine Leads.get.bind fun p => ?_
  dsimp only
  split
  · refine (hrefuse .exist).guard ?_
    split
    · exact (hrefuse .isdir).guard (hdir path scope)
    · refine (hrefuse .notdir).guard ?_
      exact (upholds_onFs fun hmax => Fs.limited_truncate hmax path 0).guard (hfile path)
  · split
    · have hmade : Leads (Upholds limit) (onFs (Fs.write path ByteArray.empty .overwrite)) :=
        upholds_onFs fun hmax => Fs.limited_write hmax path ByteArray.empty .overwrite
      exact hmade.bind fun _ => hfile path
    · exact Leads.throw _
  · exact Leads.throw _

/-! ### Whole runs -/

namespace Measured

theorem call (h : g.Measured limit) (c : SystemCall) : (g.call c).2.Measured limit := by
  have hreply {α : Type} {c : SystemCall} {x : Action α} (hx : Leads (Upholds limit) x)
      (reply : α → Reply) (hc : perform c = do return reply (← x)) :
      (g.call c).2.Measured limit := by
    rw [call_snd_of_reply x reply hc]
    exact hx g h
  cases c with
  | arguments | environment | preopens | clock | isTerminal | stop => exact h
  | resolve path =>
    exact hreply (asks_target path).leads (fun found => .target found.1 found.2) rfl
  | openPath dirFd path flags => exact hreply (upholds_openPath dirFd path flags) .descriptor rfl
  | read fd length => exact hreply (upholds_read fd length) .data rfl
  | write fd data => exact hreply (upholds_write fd data) .count rfl
  | readAt fd length start => exact hreply (asks_readAt fd length start).leads .data rfl
  | writeAt fd data start => exact hreply (upholds_writeAt fd data start) .count rfl
  | seek fd delta whence => exact hreply (upholds_seek fd delta whence) .position rfl
  | close fd => exact hreply (upholds_close fd) (fun _ => .done) rfl
  | truncate fd size => exact hreply (upholds_truncate fd size) (fun _ => .done) rfl
  | makeDir dirFd path =>
    exact hreply (upholds_changeAt dirFd path Fs.limited_makeDir) (fun _ => .done) rfl
  | removeFile dirFd path =>
    exact hreply (upholds_changeAt dirFd path Fs.limited_removeFile) (fun _ => .done) rfl
  | removeDir dirFd path =>
    exact hreply (upholds_changeAt dirFd path Fs.limited_removeDir) (fun _ => .done) rfl
  | move fromFd source toFd goal =>
    exact hreply (upholds_move fromFd source toFd goal) (fun _ => .done) rfl
  | fdStatus fd => exact hreply (asks_fdStatus fd).leads .status rfl
  | pathStatus dirFd path => exact hreply (asks_pathStatus dirFd path).leads .status rfl
  | readDir fd => exact hreply (asks_readDir fd).leads .entries rfl
  | random length => exact ⟨h.least, h.most, h.files, h.offsets⟩

theorem run (h : g.Measured limit) (calls : List SystemCall) :
    (g.run calls).2.Measured limit := by
  induction calls generalizing g with
  | nil => exact h
  | cons c rest ih => exact ih (h.call c)

end Measured

/-- A program starts without open files. -/
theorem measured_start {fs : Fs} (hleast : Fs.maxFileSize ≤ limit) (hmost : limit ≤ maxOffset)
    (hfs : fs.FilesWithin limit) (console : Console) (arguments : List String)
    (environment : List (String × String)) (preopens : List Preopen) (entropy : Entropy) :
    (start fs console arguments environment preopens entropy).Measured limit := by
  refine ⟨hleast, hmost, hfs, fun fd path offset append hget => ?_⟩
  have hd := mem_of_get?_initialDescriptors hget
  simp only [List.mem_cons, reduceCtorEq, false_or] at hd
  obtain ⟨guest, path, hpreopen⟩ := exists_of_mem_preopened hd
  cases hpreopen

/-- How the offset of an open file moves: it stays in the range of a signed word, so that nothing is
lost between words, a transfer moves it by as many bytes, and a seek is a sum of integers. -/
structure Exact (g : Guest) (fd : Nat) (path : Path) (offset : UInt64) (append : Bool) : Prop where
  bound : offset.toNat ≤ maxOffset
  signed : offset.toInt64.toInt = offset.toNat
  length : ∀ found, g.fs.stat path = .ok found →
    (UInt64.ofNat found.length).toNat = found.length ∧
      (UInt64.ofNat found.length).toInt64.toInt = found.length
  reads : ∀ length data g', g.call (.read fd length) = (.ok (.data data), g') →
    ∃ offset', g' = g.rebound fd (.file path offset' append) ∧
      offset'.toNat = offset.toNat + data.size
  writes : ∀ data n g', g.call (.write fd data) = (.ok (.count n), g') →
    ∃ content offset' fs, g.fs.lookup path = some (.file content) ∧
      g' = Guest.rebound { g with fs } fd (.file path offset' append) ∧
      offset'.toNat = (if append then content.size else offset.toNat) + data.size
  seeks : ∀ delta whence,
    match g.seekBase path offset whence with
    | .error o => g.call (.seek fd delta whence) = (.error (.ofObstacle o), g)
    | .ok base =>
      if 0 ≤ (base : Int) + delta.toInt ∧ (base : Int) + delta.toInt ≤ maxOffset then
        ∃ moved : UInt64, (moved.toNat : Int) = base + delta.toInt ∧
          g.call (.seek fd delta whence) =
            (.ok (.position moved), g.rebound fd (.file path moved append))
      else g.call (.seek fd delta whence) = (.error .inval, g)

theorem Measured.exact (hg : g.Measured limit)
    (hfd : g.descriptors.get? fd = some (.file path offset append)) :
    g.Exact fd path offset append where
  bound := hg.offsets fd path offset append hfd
  signed := by
    have hbound := toInt_ofNat (hg.offsets fd path offset append hfd)
    rwa [UInt64.ofNat_toNat] at hbound
  length := fun found hstat =>
    ⟨toNat_ofNat (hg.length_le hstat), toInt_ofNat (hg.length_le hstat)⟩
  reads := by
    intro length data g' hcall
    obtain ⟨found, hrun, hdata⟩ := ok_of_call rfl hcall
    obtain rfl := Reply.data.inj hdata
    obtain ⟨offset', hg', hexact, -⟩ := read_ok hg hfd hrun
    exact ⟨offset', hg', hexact⟩
  writes := by
    intro data n g' hcall
    obtain ⟨m, hrun, -⟩ := ok_of_call rfl hcall
    obtain ⟨content, offset', fs, hfile, -, hg', hexact, -⟩ := write_ok hg hfd hrun
    exact ⟨content, offset', fs, hfile, hg', hexact⟩
  seeks := by
    intro delta whence
    have hseek := seek_eq hfd delta whence
    cases hbase : g.seekBase path offset whence with
    | error o =>
      rw [hbase] at hseek
      exact call_of_error .position rfl hseek
    | ok base =>
      rw [hbase] at hseek
      have hfrom := seekFrom_eq g fd path append delta (hg.base_le hfd hbase)
      dsimp only at hseek ⊢
      rw [← hseek] at hfrom
      split at hfrom
      · next hrange =>
        obtain ⟨moved, hmoved, hrun⟩ := hfrom
        rw [if_pos hrange]
        exact ⟨moved, hmoved, call_of_ok .position rfl hrun⟩
      · next hrange =>
        rw [if_neg hrange]
        exact call_of_error .position rfl hfrom

/-- If no file is as long as a signed word of 64 bits can count, then after all calls the offsets
stay in its range, and are moved by exactly what is transferred and by what a seek says. -/
theorem seek_exact {fs : Fs}
    (hfs : ∀ path content, fs.view path = some (.file content) → content.size < 2 ^ 63)
    (console : Console) (arguments : List String) (environment : List (String × String))
    (preopens : List Preopen) (entropy : Entropy) (calls : List SystemCall) :
    let g := ((start fs console arguments environment preopens entropy).run calls).2
    ∀ fd path offset append, g.descriptors.get? fd = some (.file path offset append) →
      g.Exact fd path offset append := by
  intro g fd path offset append hfd
  have hlimit : fs.FilesWithin maxOffset := by
    intro path content hcontent
    exact Nat.le_pred_of_lt (hfs path content (Fs.view_eq_file_iff.mpr hcontent))
  have hstart := measured_start (by decide) (Nat.le_refl maxOffset) hlimit console arguments
    environment preopens entropy
  exact (hstart.run calls).exact hfd

/-- A descriptor that appends is moved far behind the end of its file. -/
theorem seek_exact_appended :
    let g := ((start [] {} [] [] [Preopen.root] .zeros).run
      [.openPath 3 "log" { create := true, append := true, write := true },
        .write 4 ⟨#[97, 98, 99]⟩, .seek 4 Int64.maxValue .fromStart]).2
    g.Exact 4 ["log"] 9223372036854775807 true ∧
      g.call (.seek 4 1 .fromCurrent) = (.error .inval, g) ∧
      (g.call (.seek 4 (-2) .fromEnd)).1 = .ok (.position 1) ∧
      (g.call (.write 4 ⟨#[100]⟩)).2.descriptors.get? 4 = some (.file ["log"] 4 true) := by
  intro g
  have hfiles : ∀ path content, Fs.view [] path = some (.file content) → content.size < 2 ^ 63 := by
    intro path content h
    rcases path with _ | ⟨name, _ | ⟨next, rest⟩⟩ <;> cases h
  have hexact : g.Exact 4 ["log"] 9223372036854775807 true :=
    seek_exact hfiles {} [] [] [Preopen.root] .zeros _ 4 ["log"] _ true rfl
  have hbeyond := hexact.seeks 1 .fromCurrent
  dsimp only [seekBase] at hbeyond
  rw [if_neg (by decide)] at hbeyond
  exact ⟨hexact, hbeyond, rfl, rfl⟩

end StagedSandbox.Guest
