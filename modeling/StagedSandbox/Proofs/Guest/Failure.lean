import Mathlib.Data.List.Perm.Subperm
import StagedSandbox.Proofs.Fs.Frame
import StagedSandbox.Proofs.Fs.Move
import StagedSandbox.Proofs.Guest.Files

/-!
# Failing calls

A system call that fails leaves the guest as it was, with two exceptions (`Guest.call_error`). A
write through a descriptor that appends moves the offset to the end of the file before the bytes
are refused (`Guest.AppendRefused`). And a file is made or emptied before it turns out that there
is no number left for its descriptor (`Guest.OpenRefused`).

No system call reports a bad address: these are found where memory is read.
-/

namespace StagedSandbox

theorem Fs.Change.Confined.eq_of_error {α : Type} {change : Fs.Change α} {path : Path}
    (h : change.Confined path) {fs fs' : Fs} {e : Obstacle} (hrun : change fs = .error e fs') :
    fs' = fs := by
  refine Action.eq_of_error ?_ hrun
  obtain ⟨decision, hfollows, -⟩ := h
  have hfs := hfollows fs
  split at hfs
  · exact Or.inl ⟨_, hfs⟩
  · obtain ⟨left, hok, -⟩ := hfs
    exact Or.inr ⟨_, left, hok⟩

theorem Fs.eq_of_move_error {source goal : Path} {fs fs' : Fs} {e : FsError}
    (hrun : Fs.move source goal fs = .error e fs') : fs' = fs := by
  refine Action.eq_of_error ?_ hrun
  have hmove := Fs.move_cases fs source goal
  split at hmove
  · exact Or.inl ⟨_, hmove⟩
  · split at hmove
    · exact Or.inr ⟨_, _, hmove⟩
    · obtain ⟨left, hok, -⟩ := hmove
      exact Or.inr ⟨_, left, hok⟩

theorem Errno.ofObstacle_ne_fault (o : Obstacle) : Errno.ofObstacle o ≠ .fault := by
  cases o <;> decide

namespace Guest

open StagedSandbox.Action

variable {α β : Type} {g g' : Guest} {e : Errno}

/-- A call that fails leaves the guest as it was. -/
def Refused (g : Guest) (e : Errno) (g' : Guest) : Prop := g' = g ∧ e ≠ .fault

/-- An action that only asks leaves the guest as it was, whether it succeeds or fails. -/
structure Asks (x : Action α) : Prop where
  keeps : Keeps id x
  refuses : Fails id Refused x

namespace Asks

variable {x : Action α} {f : α → Action β}

theorem pure (a : α) : Asks (pure a : Action α) := ⟨Keeps.pure a, Fails.of_total (Total.pure a)⟩

theorem throw (h : e ≠ .fault) : Asks (throw e : Action α) :=
  ⟨Keeps.throw e, Fails.throw fun _ => ⟨rfl, h⟩⟩

theorem bind (hx : Asks x) (hf : ∀ a, Asks (f a)) : Asks (x >>= f) :=
  ⟨hx.keeps.bind fun a => (hf a).keeps,
    hx.keeps.bind_fails hx.refuses fun a => (hf a).refuses⟩

theorem bind_refuses (hx : Asks x) (hf : ∀ a, Fails id Refused (f a)) :
    Fails id Refused (x >>= f) := hx.keeps.bind_fails hx.refuses hf

theorem mapM {f : α → Action β} (h : ∀ a, Asks (f a)) (list : List α) : Asks (list.mapM f) := by
  induction list with
  | nil => exact Asks.pure []
  | cons first rest ih =>
    rw [List.mapM_cons]
    exact (h first).bind fun b => ih.bind fun bs => Asks.pure (b :: bs)

theorem of_ok (hx : Asks x) {a : α} (h : x g = .ok a g') : g' = g := hx.keeps.of_ok h

theorem ok_or_error (hx : Asks x) (g : Guest) : (∃ a, x g = .ok a g) ∨ ∃ e, x g = .error e g := by
  cases hrun : x g with
  | ok a g' =>
    obtain rfl : g' = g := hx.of_ok hrun
    exact Or.inl ⟨a, rfl⟩
  | error e g' =>
    obtain rfl : g' = g := hx.keeps.of_error hrun
    exact Or.inr ⟨e, rfl⟩

end Asks

/-! ### Questions -/

/-- An action that answers a question about the guest. -/
theorem Asks.of_question {x : Action α} (question : Guest → Except Errno α)
    (hx : ∀ g, x g = match question g with | .ok a => .ok a g | .error e => .error e g)
    (hquestion : ∀ g e, question g = .error e → e ≠ .fault) : Asks x := by
  constructor
  · intro g
    rw [left, hx]
    cases question g <;> rfl
  · intro g e g' h
    rw [hx] at h
    cases hask : question g with
    | ok a => simp [hask] at h
    | error e' =>
      rw [hask] at h
      obtain ⟨rfl, rfl⟩ := EStateM.Result.error.inj h
      exact ⟨rfl, hquestion g e' hask⟩

theorem asks_descriptor (fd : Nat) : Asks (descriptor fd) := by
  refine Asks.of_question (fun g => (g.descriptors.get? fd).elim (.error .badf) .ok)
    (fun g => ?_) fun g e h => ?_
  · rw [descriptor]
    cases g.descriptors.get? fd <;> rfl
  · cases hfd : g.descriptors.get? fd with
    | none =>
      rw [hfd] at h
      obtain rfl := Except.error.inj h
      decide
    | some d => simp [hfd] at h

theorem get?_of_descriptor {fd : Nat} {d : Descriptor} (h : descriptor fd g = .ok d g') :
    g.descriptors.get? fd = some d := by
  rw [descriptor] at h
  cases hfd : g.descriptors.get? fd with
  | none => simp [hfd] at h
  | some d' =>
    rw [hfd] at h
    rw [(EStateM.Result.ok.inj h).1]

theorem asks_askFs (question : Fs → Except Obstacle α) : Asks (askFs question) := by
  refine Asks.of_question (fun g => (question g.fs).mapError Errno.ofObstacle)
    (fun g => ?_) fun g e h => ?_
  · rw [askFs]
    cases question g.fs <;> rfl
  · cases hask : question g.fs with
    | ok a => simp [hask, Except.mapError] at h
    | error o =>
      rw [hask] at h
      exact Except.error.inj h ▸ Errno.ofObstacle_ne_fault o

theorem asks_target (text : String) : Asks (target text) := by
  refine Asks.of_question (·.resolve text) (fun g => ?_) fun g e h => ?_
  · rw [target]
    cases g.resolve text <;> rfl
  · dsimp only [resolve] at h
    split at h
    · obtain rfl := Except.error.inj h
      decide
    · split at h
      · obtain rfl := Except.error.inj h
        decide
      · simp at h

theorem asks_directory (fd : Nat) : Asks (directory fd) := by
  refine (asks_descriptor fd).bind fun d => ?_
  cases d with
  | preopen guest path => exact Asks.pure _
  | dir path scope => exact Asks.pure _
  | stdin | stdout | stderr | file => exact Asks.throw (by decide)

theorem asks_locate (fd : Nat) (text : String) : Asks (locate fd text) := by
  refine (asks_directory fd).bind fun found => ?_
  dsimp only
  split
  · exact Asks.pure _
  · exact Asks.throw (by decide)

theorem asks_statusAt (path : Path) : Asks (statusAt path) :=
  (asks_askFs _).bind fun _ => Asks.pure _

theorem asks_fdStatus (fd : Nat) : Asks (fdStatus fd) := by
  refine (asks_descriptor fd).bind fun d => ?_
  cases d with
  | stdin | stdout | stderr => exact Asks.pure _
  | preopen _ path | dir path _ | file path _ _ => exact asks_statusAt path

theorem asks_pathStatus (dirFd : Nat) (text : String) : Asks (pathStatus dirFd text) :=
  (asks_locate dirFd text).bind fun found => asks_statusAt found.1

theorem asks_readDir (fd : Nat) : Asks (readDir fd) := by
  refine (asks_directory fd).bind fun found => (asks_askFs _).bind fun names => ?_
  exact Asks.mapM (fun name => (asks_statusAt _).bind fun _ => Asks.pure _) names

theorem asks_readAt (fd length start : Nat) : Asks (readAt fd length start) := by
  refine (asks_descriptor fd).bind fun d => ?_
  cases d with
  | file path offset append => exact asks_askFs _
  | stdin | stdout | stderr | preopen | dir => exact Asks.throw (by decide)

theorem ofNat_toInt64_of_nonneg {offset : UInt64} (h : 0 ≤ offset.toInt64.toInt) :
    UInt64.ofNat offset.toInt64.toInt.toNat = offset := by
  rw [← UInt64.toNat_inj]
  have hlt := offset.toNat_lt
  have hint : offset.toInt64.toInt = offset.toBitVec.toInt := rfl
  rw [hint, BitVec.toInt_eq_toNat_cond] at h ⊢
  simp at h ⊢
  omega

/-- Telling the offset of a descriptor sets it to what it is. -/
theorem keeps_tell (fd : Nat) : Keeps id (seek fd 0 .fromCurrent) := by
  intro g
  cases hfd : g.descriptors.get? fd with
  | none => rw [left, seek, run_bind, descriptor, hfd]
  | some d =>
    rw [left, seek, run_bind_of_ok (descriptor_eq hfd)]
    cases d with
    | file path offset append =>
      have hzero : offset.toInt64.toInt + Int64.toInt 0 = offset.toInt64.toInt := Int.add_zero _
      simp only [pure_bind, hzero]
      by_cases hrange : 0 ≤ offset.toInt64.toInt ∧ offset.toInt64.toInt ≤ Int64.maxValue.toInt
      · have hset : setDescriptor fd (.file path offset append) g = .ok () g := by
          rw [setDescriptor, run_modify, Table.set_get? _ hfd]
        rw [if_pos hrange, ofNat_toInt64_of_nonneg hrange.1, run_bind_of_ok hset]
        rfl
      · rw [if_neg hrange]
        rfl
    | stdin | stdout | stderr | preopen | dir => rfl

/-! ### Changes -/

theorem onFs_error {change : Fs.Change α} (h : onFs change g = .error e g') :
    ∃ o fs, change g.fs = .error o fs ∧ e = .ofObstacle o ∧ g' = { g with fs } := by
  rw [onFs] at h
  cases hfs : change g.fs with
  | ok a fs => simp [hfs] at h
  | error o fs =>
    rw [hfs] at h
    obtain ⟨rfl, rfl⟩ := EStateM.Result.error.inj h
    exact ⟨o, fs, rfl, rfl, rfl⟩

theorem refuses_onFs {change : Fs.Change α} {path : Path} (h : change.Confined path) :
    Fails id Refused (onFs change) := by
  intro g e g' hrun
  obtain ⟨o, fs, hfs, rfl, rfl⟩ := onFs_error hrun
  obtain rfl := h.eq_of_error hfs
  exact ⟨rfl, Errno.ofObstacle_ne_fault o⟩

theorem total_setDescriptor (fd : Nat) (d : Descriptor) : Total (setDescriptor fd d) :=
  Total.modify _

theorem refuses_read (fd length : Nat) : Fails id Refused (read fd length) := by
  refine (asks_descriptor fd).bind_refuses fun d => ?_
  cases d with
  | stdin => exact (Asks.pure _).refuses
  | file path offset append =>
    refine (asks_askFs _).bind_refuses fun data => Fails.of_total ?_
    exact (total_setDescriptor fd _).bind fun _ => Total.pure data
  | preopen | dir | stdout | stderr => exact (Asks.throw (by decide)).refuses

theorem refuses_writeAt (fd : Nat) (data : Bytes) (start : Nat) :
    Fails id Refused (writeAt fd data start) := by
  refine (asks_descriptor fd).bind_refuses fun d => ?_
  cases d with
  | file path offset append =>
    exact (refuses_onFs (Fs.confined_writeAt path start data)).bind_total fun _ => Total.pure _
  | stdin | stdout | stderr | preopen | dir => exact (Asks.throw (by decide)).refuses

theorem refuses_seekFrom (fd : Nat) (path : Path) (append : Bool) (delta base : Int64) :
    Fails id Refused (seekFrom fd path append delta base) := by
  rw [seekFrom]
  dsimp only
  split
  · exact Fails.of_total ((total_setDescriptor fd _).bind fun _ => Total.pure _)
  · exact (Asks.throw (by decide)).refuses

theorem refuses_seek (fd : Nat) (delta : Int64) (whence : Whence) :
    Fails id Refused (seek fd delta whence) := by
  refine (asks_descriptor fd).bind_refuses fun d => ?_
  cases d with
  | file path offset append =>
    cases whence with
    | fromStart => exact refuses_seekFrom fd path append delta 0
    | fromCurrent => exact refuses_seekFrom fd path append delta offset.toInt64
    | fromEnd =>
      exact (asks_askFs _).bind_refuses fun found => refuses_seekFrom fd path append delta _
  | stdin | stdout | stderr | preopen | dir => exact (Asks.throw (by decide)).refuses

theorem refuses_close (fd : Nat) : Fails id Refused (close fd) :=
  (asks_descriptor fd).bind_refuses fun _ => Fails.of_total (Total.modify _)

theorem refuses_truncate (fd size : Nat) : Fails id Refused (truncate fd size) := by
  refine (asks_descriptor fd).bind_refuses fun d => ?_
  cases d with
  | file path offset append => exact refuses_onFs (Fs.confined_truncate path size)
  | stdin | stdout | stderr | preopen | dir => exact (Asks.throw (by decide)).refuses

theorem refuses_makeDir (dirFd : Nat) (text : String) : Fails id Refused (makeDir dirFd text) :=
  (asks_locate dirFd text).bind_refuses fun found => refuses_onFs (Fs.confined_makeDir found.1)

theorem refuses_removeFile (dirFd : Nat) (text : String) :
    Fails id Refused (removeFile dirFd text) :=
  (asks_locate dirFd text).bind_refuses fun found => refuses_onFs (Fs.confined_removeFile found.1)

theorem refuses_removeDir (dirFd : Nat) (text : String) :
    Fails id Refused (removeDir dirFd text) :=
  (asks_locate dirFd text).bind_refuses fun found => refuses_onFs (Fs.confined_removeDir found.1)

theorem refuses_move (fromFd : Nat) (source : String) (toFd : Nat) (goal : String) :
    Fails id Refused (move fromFd source toFd goal) := by
  refine (asks_locate fromFd source).bind_refuses fun from' => ?_
  refine (asks_locate toFd goal).bind_refuses fun to' => ?_
  intro g e g' hrun
  dsimp only at hrun
  cases hfs : Fs.move from'.1 to'.1 g.fs with
  | ok a fs => simp [hfs] at hrun
  | error o fs =>
    rw [hfs] at hrun
    obtain ⟨rfl, rfl⟩ := EStateM.Result.error.inj hrun
    obtain rfl := Fs.eq_of_move_error hfs
    exact ⟨rfl, Errno.ofObstacle_ne_fault o.obstacle⟩

theorem total_random (length : Nat) : Total (random length) := fun _ => ⟨_, _, rfl⟩

theorem size_of_random {length : Nat} {data : Bytes} (h : random length g = .ok data g') :
    data.size = length := by
  rw [random] at h
  obtain ⟨rfl, -⟩ := EStateM.Result.ok.inj h
  simp [Entropy.take, Bytes.size_ofList]

/-- No more bytes are read of a file than were asked for. -/
theorem size_of_askFs_readAt {path : Path} {start length : Nat} {data : Bytes}
    (h : askFs (·.readAt path start length) g = .ok data g') : data.size ≤ length := by
  rw [askFs, Fs.readAt] at h
  cases hread : g.fs.read path with
  | error o => simp [hread, bind, Except.bind] at h
  | ok content =>
    rw [hread] at h
    obtain ⟨rfl, -⟩ := EStateM.Result.ok.inj h
    rw [Bytes.size_slice]
    exact Nat.min_le_left ..

theorem size_of_read {fd length : Nat} {data : Bytes} (h : read fd length g = .ok data g') :
    data.size ≤ length := by
  obtain ⟨d, t, -, h⟩ := exists_of_bind h
  cases d with
  | stdin =>
    obtain ⟨rfl, -⟩ := EStateM.Result.ok.inj h
    exact Nat.zero_le length
  | file path offset append =>
    obtain ⟨found, t', hask, h⟩ := exists_of_bind h
    obtain ⟨rfl, -⟩ := EStateM.Result.ok.inj h
    exact size_of_askFs_readAt hask
  | preopen | dir | stdout | stderr => cases h

theorem size_of_readAt {fd length start : Nat} {data : Bytes}
    (h : readAt fd length start g = .ok data g') : data.size ≤ length := by
  obtain ⟨d, t, -, h⟩ := exists_of_bind h
  cases d with
  | file path offset append => exact size_of_askFs_readAt h
  | stdin | stdout | stderr | preopen | dir => cases h

/-! ### Writing at the end of a file -/

/-- Bytes that were to be appended to a file are refused, and the offset is at its end. -/
def AppendRefused (fd : Nat) (data : Bytes) (g : Guest) (e : Errno) (g' : Guest) : Prop :=
  ∃ path offset found o,
    g.descriptors.get? fd = some (.file path offset true) ∧
    g.fs.stat path = .ok found ∧
    Fs.writeAt path (UInt64.ofNat found.length).toNat data g.fs = .error o g.fs ∧
    e = .ofObstacle o ∧
    g' = { g with
      descriptors := g.descriptors.set fd (.file path (UInt64.ofNat found.length) true) }

theorem writeFrom_error {fd : Nat} {path : Path} {append : Bool} {data : Bytes} {start : UInt64}
    (h : writeFrom fd path append data start g = .error e g') :
    g' = g ∧ ∃ o, Fs.writeAt path start.toNat data g.fs = .error o g.fs ∧ e = .ofObstacle o := by
  have htail (_ : Unit) : Total (do
      setDescriptor fd (.file path (start + UInt64.ofNat data.size) append)
      return data.size) := (total_setDescriptor fd _).bind fun _ => Total.pure _
  obtain ⟨o, fs, hfs, rfl, rfl⟩ := onFs_error (Total.error_of_bind htail h)
  obtain rfl := (Fs.confined_writeAt path _ data).eq_of_error hfs
  exact ⟨rfl, o, hfs, rfl⟩

/-- The offset is moved to the end of the file before the bytes are written. -/
theorem writeAtEnd_error {fd : Nat} {path : Path} {data : Bytes}
    (h : writeAtEnd fd path data g = .error e g') :
    Refused g e g' ∨ ∃ found o, g.fs.stat path = .ok found ∧
      Fs.writeAt path (UInt64.ofNat found.length).toNat data g.fs = .error o g.fs ∧
      e = .ofObstacle o ∧ g' = g.rebound fd (.file path (UInt64.ofNat found.length) true) := by
  rw [writeAtEnd, run_bind, askFs] at h
  cases hstat : g.fs.stat path with
  | error o =>
    rw [hstat] at h
    obtain ⟨rfl, rfl⟩ := EStateM.Result.error.inj h
    exact Or.inl ⟨rfl, Errno.ofObstacle_ne_fault o⟩
  | ok found =>
    rw [hstat] at h
    obtain ⟨rfl, o, hfs, rfl⟩ := writeFrom_error h
    exact Or.inr ⟨found, o, rfl, hfs, rfl, rfl⟩

theorem fails_write (fd : Nat) (data : Bytes) :
    Fails id (fun g e g' => Refused g e g' ∨ AppendRefused fd data g e g') (write fd data) := by
  refine Fails.bind ((asks_descriptor fd).refuses.mono fun _ _ _ => Or.inl) ?_
  intro g d t hfd e g' h
  obtain rfl : g = t := ((asks_descriptor fd).of_ok hfd).symm
  cases d with
  | stdout | stderr => exact absurd h nofun
  | stdin | preopen | dir => exact Or.inl ((Asks.throw (by decide)).refuses g e g' h)
  | file path offset append =>
    cases append with
    | false =>
      have hwrite : writeFrom fd path false data offset g = .error e g' := h
      obtain ⟨rfl, o, -, rfl⟩ := writeFrom_error hwrite
      exact Or.inl ⟨rfl, Errno.ofObstacle_ne_fault o⟩
    | true =>
      have hwrite : writeAtEnd fd path data g = .error e g' := h
      obtain hrefused | ⟨found, o, hstat, hfs, he, hleft⟩ := writeAtEnd_error hwrite
      · exact Or.inl hrefused
      · exact Or.inr ⟨path, offset, found, o, get?_of_descriptor hfd, hstat, hfs, he, hleft⟩

/-! ### Opening without a number left -/

/-- All numbers that a descriptor may get are taken. -/
def Full (g : Guest) : Prop :=
  ∀ fd, 3 ≤ fd → fd < UInt32.size → g.descriptors.contains fd = true

/-- A file was made or emptied, and no number was left for its descriptor. -/
def OpenRefused (dirFd : Nat) (text : String) (g : Guest) (e : Errno) (g' : Guest) : Prop :=
  e = .mfile ∧ g.Full ∧ ∃ path scope fs,
    locate dirFd text g = .ok (path, scope) g ∧
    (Fs.truncate path 0 g.fs = .ok () fs ∨
      Fs.write path ByteArray.empty .overwrite g.fs = .ok () fs) ∧
    g' = { g with fs }

/-- There are more numbers than descriptors. -/
theorem exists_lowestFree (descriptors : Table Nat Descriptor) :
    ∃ fd, lowestFree descriptors = some fd := by
  refine Option.ne_none_iff_exists'.1 fun hnone => ?_
  rw [lowestFree, List.find?_eq_none] at hnone
  have hsub : List.range' 3 (descriptors.length + 1) ⊆ Table.keys descriptors := by
    intro fd hfd
    rw [Table.mem_keys_iff]
    simpa [Table.contains] using hnone fd hfd
  have hnodup : (List.range' 3 (descriptors.length + 1)).Nodup := List.nodup_range'
  have hle := (hnodup.subperm hsub).length_le
  rw [List.length_range', Table.keys, List.length_map] at hle
  omega

theorem allocate_error {d : Descriptor} (h : allocate d g = .error e g') :
    g' = g ∧ e = .mfile ∧ g.Full := by
  obtain ⟨free, hfree⟩ := exists_lowestFree g.descriptors
  simp only [allocate, run_bind, run_get, hfree] at h
  split at h
  · cases h
  · next hlarge =>
    obtain ⟨rfl, rfl⟩ := EStateM.Result.error.inj h
    refine ⟨rfl, rfl, fun fd hfd hsize => ?_⟩
    obtain ⟨-, -, hbelow⟩ := List.find?_range'_eq_some.1 hfree
    simpa using hbelow fd hfd (by omega)

theorem refuses_allocate (d : Descriptor) : Fails id Refused (allocate d) := by
  intro g e g' h
  obtain ⟨hg, rfl, -⟩ := allocate_error h
  exact ⟨hg, by decide⟩

/-- A change comes before the number is looked for. -/
theorem change_allocate_error {change : Fs.Change Unit} {path : Path}
    (hchange : change.Confined path) {d : Descriptor}
    (h : (do onFs change; allocate d : Action Nat) g = .error e g') :
    Refused g e g' ∨
      e = .mfile ∧ g.Full ∧ ∃ fs, change g.fs = .ok () fs ∧ g' = { g with fs } := by
  rw [run_bind] at h
  cases hfs : change g.fs with
  | error o fs =>
    have hrun : onFs change g = .error (.ofObstacle o) { g with fs } := by rw [onFs, hfs]
    rw [hrun] at h
    obtain ⟨rfl, rfl⟩ := EStateM.Result.error.inj h
    exact Or.inl (refuses_onFs hchange g _ _ hrun)
  | ok a fs =>
    rw [onFs_eq hfs] at h
    obtain ⟨rfl, rfl, hfull⟩ := allocate_error h
    exact Or.inr ⟨rfl, hfull, fs, rfl, rfl⟩

theorem fails_openPath (dirFd : Nat) (text : String) (flags : OpenFlags) :
    Fails id (fun g e g' => Refused g e g' ∨ OpenRefused dirFd text g e g')
      (openPath dirFd text flags) := by
  refine Fails.bind ((asks_locate dirFd text).refuses.mono fun _ _ _ => Or.inl) ?_
  rintro g ⟨path, scope⟩ t hlocate
  obtain rfl : g = t := ((asks_locate dirFd text).of_ok hlocate).symm
  have hrefused {x : Action Nat} (hx : Fails id Refused x) (e : Errno) (g' : Guest)
      (h : x g = .error e g') : Refused g e g' ∨ OpenRefused dirFd text g e g' :=
    Or.inl (hx g e g' h)
  have hmade {change : Fs.Change Unit} (hchange : change.Confined path) (d : Descriptor)
      (hhow : ∀ fs, change g.fs = .ok () fs → Fs.truncate path 0 g.fs = .ok () fs ∨
        Fs.write path ByteArray.empty .overwrite g.fs = .ok () fs) (e : Errno) (g' : Guest)
      (h : (do onFs change; allocate d : Action Nat) g = .error e g') :
      Refused g e g' ∨ OpenRefused dirFd text g e g' := by
    refine (change_allocate_error hchange h).imp_right ?_
    rintro ⟨he, hfull, fs, hfs, hg⟩
    exact ⟨he, hfull, path, scope, fs, hlocate, hhow fs hfs, hg⟩
  simp only [run_bind, run_get, id]
  generalize g.fs.stat path = answer
  split
  · split
    · exact hrefused (Asks.throw (by decide)).refuses
    · split
      · split
        · exact hrefused (Asks.throw (by decide)).refuses
        · exact hrefused (refuses_allocate _)
      · split
        · exact hrefused (Asks.throw (by decide)).refuses
        · split
          · exact hmade (Fs.confined_truncate path 0) _ fun fs => Or.inl
          · exact hrefused (refuses_allocate _)
  · split
    · exact hmade (Fs.confined_write path _ _) _ fun fs => Or.inr
    · exact hrefused (Asks.throw (by decide)).refuses
  · exact hrefused (Asks.throw (Errno.ofObstacle_ne_fault _)).refuses

/-! ### No bad address -/

theorem ne_fault_of_write {fd : Nat} {data : Bytes} (h : write fd data g = .error e g') :
    e ≠ .fault := by
  obtain ⟨-, he⟩ | ⟨-, -, -, o, -, -, -, rfl, -⟩ := fails_write fd data g e g' h
  · exact he
  · exact Errno.ofObstacle_ne_fault o

theorem ne_fault_of_openPath {dirFd : Nat} {text : String} {flags : OpenFlags}
    (h : openPath dirFd text flags g = .error e g') : e ≠ .fault := by
  obtain ⟨-, he⟩ | ⟨rfl, -⟩ := fails_openPath dirFd text flags g e g' h
  · exact he
  · decide

/-! ### All calls -/

/-- What a call that fails may leave behind. -/
def Trace : SystemCall → Guest → Errno → Guest → Prop
  | .write fd data, g, e, g' => AppendRefused fd data g e g'
  | .openPath dirFd text _, g, e, g' => OpenRefused dirFd text g e g'
  | _, _, _, _ => False

theorem fails_perform (c : SystemCall) :
    Fails id (fun g e g' => Refused g e g' ∨ Trace c g e g') (perform c) := by
  have hreply {α : Type} {x : Action α} (hx : Fails id Refused x) (reply : α → Reply) :
      Fails id (fun g e g' => Refused g e g' ∨ Trace c g e g') (do return reply (← x)) :=
    (hx.mono fun _ _ _ => Or.inl).bind_total fun a => Total.pure (reply a)
  have htotal {x : Action Reply} (hx : Total x) :
      Fails id (fun g e g' => Refused g e g' ∨ Trace c g e g') x := Fails.of_total hx
  cases c with
  | arguments | environment | preopens => exact htotal fun g => ⟨_, g, rfl⟩
  | clock | isTerminal | stop => exact htotal (Total.pure _)
  | resolve path => exact hreply (asks_target path).refuses fun found => .target found.1 found.2
  | openPath dirFd path flags =>
    exact (fails_openPath dirFd path flags).bind_total fun fd => Total.pure (Reply.descriptor fd)
  | read fd length => exact hreply (refuses_read fd length) .data
  | write fd data => exact (fails_write fd data).bind_total fun n => Total.pure (Reply.count n)
  | readAt fd length start => exact hreply (asks_readAt fd length start).refuses .data
  | writeAt fd data start => exact hreply (refuses_writeAt fd data start) .count
  | seek fd delta whence => exact hreply (refuses_seek fd delta whence) .position
  | close fd => exact hreply (refuses_close fd) fun _ => .done
  | truncate fd size => exact hreply (refuses_truncate fd size) fun _ => .done
  | makeDir dirFd path => exact hreply (refuses_makeDir dirFd path) fun _ => .done
  | removeFile dirFd path => exact hreply (refuses_removeFile dirFd path) fun _ => .done
  | removeDir dirFd path => exact hreply (refuses_removeDir dirFd path) fun _ => .done
  | move fromFd source toFd goal =>
    exact hreply (refuses_move fromFd source toFd goal) fun _ => .done
  | fdStatus fd => exact hreply (asks_fdStatus fd).refuses .status
  | pathStatus dirFd path => exact hreply (asks_pathStatus dirFd path).refuses .status
  | readDir fd => exact hreply (asks_readDir fd).refuses .entries
  | random length =>
    exact hreply (Fails.of_total (total_random length)) fun data => .count data.size

/-- A call that fails leaves the guest as it was, but for an offset moved to the end of a file, or
for a file made or emptied while no number is left. -/
theorem call_error {c : SystemCall} (h : g.call c = (.error e, g')) : g' = g ∨ Trace c g e g' := by
  rw [call] at h
  cases hrun : perform c g with
  | ok reply left => simp [hrun] at h
  | error e' left =>
    rw [hrun] at h
    obtain ⟨he, rfl⟩ := Prod.mk.inj h
    obtain rfl := Except.error.inj he
    exact (fails_perform c g e' left hrun).imp_left And.left

/-- A directory that is not empty stays, and so does all else. -/
theorem call_error_notempty :
    let g := start [("d", .dir [("f", .file ⟨#[1]⟩)])] {} [] [] [Preopen.root] .zeros
    ∃ g', g.call (.removeDir 3 "d") = (.error .notempty, g') ∧ g' = g := by
  intro g
  have hcall : g.call (.removeDir 3 "d") = (.error .notempty, g) := rfl
  exact ⟨g, hcall, (call_error hcall).resolve_right id⟩

/-- The offset of a descriptor that appends is lost when a directory has taken the place of its
file. -/
theorem call_append_refused :
    let g := ((start [("log", .file ⟨#[97, 98, 99]⟩)] {} [] [] [Preopen.root] .zeros).run
      [.openPath 3 "log" { append := true, write := true }, .seek 4 2 .fromStart,
        .removeFile 3 "log", .makeDir 3 "log"]).2
    (g.call (.write 4 ⟨#[120]⟩)).1 = .error .isdir ∧
      g.descriptors.get? 4 = some (.file ["log"] 2 true) ∧
      (g.call (.write 4 ⟨#[120]⟩)).2.descriptors.get? 4 = some (.file ["log"] 0 true) :=
  ⟨rfl, rfl, rfl⟩

end Guest

end StagedSandbox
