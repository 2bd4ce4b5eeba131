import StagedSandbox.Proofs.Fs.Move
import StagedSandbox.Proofs.Guest.Files

/-!
# Two runs of a guest

All that a guest reaches lies beneath the directories that were opened for it, its roots. A bond is
a relation of file systems that no question and no change beneath the roots can tell apart or break
(`Fs.Bond`). Two guests that differ only in bonded file systems answer every system call alike and
stay so (`Guest.alike_perform`), hence any number of calls (`Guest.Bonded.run`).
-/

namespace StagedSandbox

/-- A path lies within one of several directories. -/
def Path.Beneath (roots : List Path) (path : Path) : Prop := ∃ root ∈ roots, root <+: path

/-- The directories of the file system that are shown to a program. -/
def Preopen.roots (preopens : List Preopen) : List Path :=
  preopens.filterMap fun preopen => Path.parse? preopen.path

/-- All that a descriptor refers to lies within the roots. -/
def Descriptor.Within (roots : List Path) : Descriptor → Prop
  | .preopen _ path => path.Beneath roots ∧ path.Named
  | .dir path scope => scope.Beneath roots ∧ scope <+: path ∧ path.Named
  | .file path _ _ => path.Beneath roots ∧ path.Named
  | .stdin | .stdout | .stderr => True

/-- A relation of file systems that look alike within the roots, and still do after every question
and every change there. -/
structure Fs.Bond (roots : List Path) (F : Fs → Fs → Prop) : Prop where
  find {fs₁ fs₂ : Fs} {path : Path} : F fs₁ fs₂ → path.Beneath roots → fs₁.find path = fs₂.find path
  child {fs₁ fs₂ : Fs} {path : Path} {names : List String} : F fs₁ fs₂ → path.Beneath roots →
    fs₁.list path = .ok names →
    ∀ name ∈ names, fs₁.find (path.follow name) = fs₂.find (path.follow name)
  change {α : Type} {change : Change α} {fs₁ fs₂ : Fs} {path : Path} : change.Confined path →
    F fs₁ fs₂ → path.Beneath roots → path.Named →
    Action.Related F (fun _ => True) (change fs₁) (change fs₂)
  move {fs₁ fs₂ : Fs} {source goal : Path} : F fs₁ fs₂ →
    source.Beneath roots → source.Named → goal.Beneath roots → goal.Named →
    Action.Related F (fun _ => True) (move source goal fs₁) (move source goal fs₂)

namespace Fs.Bond

variable {roots : List Path} {F : Fs → Fs → Prop} {fs₁ fs₂ : Fs} {path : Path}

theorem stat (hF : Bond roots F) (h : F fs₁ fs₂) (hpath : path.Beneath roots) :
    fs₁.stat path = fs₂.stat path := by
  rw [Fs.stat, Fs.stat, hF.find h hpath]

theorem readAt (hF : Bond roots F) (h : F fs₁ fs₂) (hpath : path.Beneath roots)
    (start length : Nat) : fs₁.readAt path start length = fs₂.readAt path start length := by
  rw [Fs.readAt, Fs.readAt, Fs.read, Fs.read, hF.find h hpath]

theorem list (hF : Bond roots F) (h : F fs₁ fs₂) (hpath : path.Beneath roots) :
    fs₁.list path = fs₂.list path := by
  rw [Fs.list, Fs.list, hF.find h hpath]

end Fs.Bond

namespace Guest

/-- Two guests that differ only in bonded file systems and refer to nothing outside the roots. -/
structure Bonded (roots : List Path) (F : Fs → Fs → Prop) (p q : Guest) : Prop where
  fs : F p.fs q.fs
  rest : q = { p with fs := q.fs }
  within : ∀ fd d, p.descriptors.get? fd = some d → d.Within roots

open StagedSandbox.Action

variable {roots : List Path} {F : Fs → Fs → Prop} {α : Type} {P : α → Prop}

/-! ### Parts of a call -/

theorem Bonded.descriptors {p q : Guest} (h : p.Bonded roots F q) :
    q.descriptors = p.descriptors := by
  rw [h.rest]

/-- A step that changes only the open descriptors, and keeps them within the roots. -/
theorem Bonded.with_descriptors {p q : Guest} (h : p.Bonded roots F q)
    (change : Table Nat Descriptor → Table Nat Descriptor)
    (hwithin : ∀ fd d, (change p.descriptors).get? fd = some d → d.Within roots) :
    ({ p with descriptors := change p.descriptors } : Guest).Bonded roots F
      { q with descriptors := change q.descriptors } := by
  refine ⟨h.fs, ?_, hwithin⟩
  rw [h.rest]

theorem alike_descriptor (fd : Nat) :
    Alike (Bonded roots F) (descriptor fd) (Descriptor.Within roots) := by
  intro p q h
  unfold descriptor
  rw [h.descriptors]
  cases hget : p.descriptors.get? fd with
  | none => exact ⟨rfl, h⟩
  | some d => exact ⟨rfl, h.within fd d hget, h⟩

theorem alike_setDescriptor (fd : Nat) {d : Descriptor} (hd : d.Within roots) :
    Alike (Bonded roots F) (setDescriptor fd d) fun _ => True := by
  refine Alike.modify fun p q h => h.with_descriptors (·.set fd d) fun other d' hget => ?_
  by_cases hother : other = fd
  · subst hother
    cases hold : p.descriptors.get? other with
    | none =>
      rw [Table.get?_set_of_none d hold] at hget
      exact h.within other d' hget
    | some old =>
      rw [Table.get?_set_self _ d (by simp [hold])] at hget
      exact Option.some.inj hget ▸ hd
  · rw [Table.get?_set_of_ne _ d hother] at hget
    exact h.within other d' hget

/-- A descriptor keeps its file when it is moved to another offset. -/
theorem alike_setOffset (fd : Nat) {path : Path} (hpath : path.Beneath roots ∧ path.Named)
    (offset : UInt64) (append : Bool) :
    Alike (Bonded roots F) (setDescriptor fd (.file path offset append)) fun _ => True :=
  alike_setDescriptor fd hpath

theorem alike_allocate {d : Descriptor} (hd : d.Within roots) :
    Alike (Bonded roots F) (allocate d) fun _ => True := by
  intro p q h
  rw [allocate]
  simp only [run_bind, run_get, h.descriptors]
  cases lowestFree p.descriptors with
  | none => exact ⟨rfl, h⟩
  | some fd =>
    dsimp only
    split
    · refine ⟨rfl, trivial, ?_⟩
      refine h.with_descriptors (·.insert fd d) fun other d' hget => ?_
      by_cases hother : other = fd
      · subst hother
        rw [Table.get?_insert_self] at hget
        exact Option.some.inj hget ▸ hd
      · rw [Table.get?_insert_of_ne _ d hother] at hget
        exact h.within other d' hget
    · exact ⟨rfl, h⟩

/-- The path and the scope that a descriptor or a text stands for. -/
def Reachable (roots : List Path) (found : Path × Path) : Prop :=
  found.2.Beneath roots ∧ found.2 <+: found.1 ∧ found.1.Named

theorem Reachable.beneath {found : Path × Path} (h : Reachable roots found) :
    found.1.Beneath roots := by
  obtain ⟨⟨root, hroot, hscope⟩, hpath, -⟩ := h
  exact ⟨root, hroot, hscope.trans hpath⟩

theorem alike_directory (fd : Nat) :
    Alike (Bonded roots F) (directory fd) (Reachable roots) := by
  refine (alike_descriptor fd).bind fun d hd => ?_
  cases d with
  | preopen guest path => exact Alike.pure ⟨hd.1, List.prefix_refl path, hd.2⟩
  | dir path scope => exact Alike.pure hd
  | stdin | stdout | stderr | file => exact Alike.throw _

/-- A text that leads out of its scope is refused. -/
theorem alike_locate (fd : Nat) (text : String) :
    Alike (Bonded roots F) (locate fd text) (Reachable roots) := by
  refine (alike_directory fd).bind fun found hfound => ?_
  obtain ⟨base, scope⟩ := found
  obtain ⟨hbeneath, -, hnamed⟩ := hfound
  dsimp only
  split
  · next hscope =>
    exact Alike.pure ⟨hbeneath, List.isPrefixOf_iff_prefix.1 hscope, hnamed.follow text⟩
  · exact Alike.throw _

/-- A question about the file system whose answer the bond fixes. -/
theorem alike_askFs {question : Fs → Except Obstacle α}
    (h : ∀ fs₁ fs₂, F fs₁ fs₂ → question fs₁ = question fs₂) :
    Alike (Bonded roots F) (askFs question) fun _ => True := by
  intro p q hpq
  unfold askFs
  rw [h p.fs q.fs hpq.fs]
  cases question q.fs with
  | ok a => exact ⟨rfl, trivial, hpq⟩
  | error e => exact ⟨rfl, hpq⟩

theorem alike_stat (hF : Fs.Bond roots F) {path : Path} (hpath : path.Beneath roots) :
    Alike (Bonded roots F) (askFs (·.stat path)) fun _ => True :=
  alike_askFs fun _ _ h => hF.stat h hpath

theorem Bonded.with_fs {p q : Guest} (h : p.Bonded roots F q) {fs₁ fs₂ : Fs} (hfs : F fs₁ fs₂) :
    ({ p with fs := fs₁ } : Guest).Bonded roots F { q with fs := fs₂ } := by
  refine ⟨hfs, ?_, h.within⟩
  rw [h.rest]

/-- A step that only changes the file system, in a way that the bond survives. -/
theorem alike_change {ε : Type} {x : Action α} {change : EStateM ε Fs α} (errno : ε → Errno)
    (h : ∀ fs₁ fs₂, F fs₁ fs₂ → Related F (fun _ => True) (change fs₁) (change fs₂))
    (hok : ∀ p a fs, change p.fs = .ok a fs → x p = .ok a { p with fs })
    (herror : ∀ p e fs, change p.fs = .error e fs → x p = .error (errno e) { p with fs }) :
    Alike (Bonded roots F) x fun _ => True := by
  intro p q hpq
  have hrel := h p.fs q.fs hpq.fs
  cases h₁ : change p.fs with
  | ok a fs₁ =>
    cases h₂ : change q.fs with
    | ok b fs₂ =>
      rw [h₁, h₂] at hrel
      rw [hok p a fs₁ h₁, hok q b fs₂ h₂]
      exact ⟨hrel.1, trivial, hpq.with_fs hrel.2.2⟩
    | error e fs₂ =>
      rw [h₁, h₂] at hrel
      exact hrel.elim
  | error e fs₁ =>
    cases h₂ : change q.fs with
    | ok b fs₂ =>
      rw [h₁, h₂] at hrel
      exact hrel.elim
    | error f fs₂ =>
      rw [h₁, h₂] at hrel
      rw [herror p e fs₁ h₁, herror q f fs₂ h₂]
      exact ⟨congrArg errno hrel.1, hpq.with_fs hrel.2⟩

theorem alike_onFs {change : Fs.Change α}
    (h : ∀ fs₁ fs₂, F fs₁ fs₂ → Related F (fun _ => True) (change fs₁) (change fs₂)) :
    Alike (Bonded roots F) (onFs change) fun _ => True := by
  refine alike_change .ofObstacle h (fun p a fs hrun => ?_) fun p e fs hrun => ?_
  · rw [onFs, hrun]
  · rw [onFs, hrun]

/-! ### The calls -/

theorem alike_read (hF : Fs.Bond roots F) (fd length : Nat) :
    Alike (Bonded roots F) (read fd length) fun _ => True := by
  refine (alike_descriptor fd).bind fun d hd => ?_
  cases d with
  | stdin => exact Alike.pure trivial
  | file path offset append =>
    have hask : Alike (Bonded roots F) (askFs (·.readAt path offset.toNat length)) fun _ => True :=
      alike_askFs fun fs₁ fs₂ h => hF.readAt h hd.1 _ _
    refine hask.bind fun data _ => ?_
    exact (alike_setOffset fd hd _ _).bind fun _ _ => Alike.pure trivial
  | preopen | dir | stdout | stderr => exact Alike.throw _

theorem alike_readAt (hF : Fs.Bond roots F) (fd length start : Nat) :
    Alike (Bonded roots F) (readAt fd length start) fun _ => True := by
  refine (alike_descriptor fd).bind fun d hd => ?_
  cases d with
  | file path offset append => exact alike_askFs fun fs₁ fs₂ h => hF.readAt h hd.1 _ _
  | stdin | stdout | stderr | preopen | dir => exact Alike.throw _

theorem alike_writeOut (data : Bytes) :
    Alike (Bonded roots F) (writeOut data) fun _ => True := by
  refine Alike.modify fun p q h => ?_
  rw [h.rest]
  exact ⟨h.fs, rfl, h.within⟩

theorem alike_writeErr (data : Bytes) :
    Alike (Bonded roots F) (writeErr data) fun _ => True := by
  refine Alike.modify fun p q h => ?_
  rw [h.rest]
  exact ⟨h.fs, rfl, h.within⟩

theorem alike_writeFrom (hF : Fs.Bond roots F) (fd : Nat) {path : Path} {append : Bool}
    (hpath : path.Beneath roots ∧ path.Named) (data : Bytes) (start : UInt64) :
    Alike (Bonded roots F) (writeFrom fd path append data start) fun _ => True := by
  refine (alike_onFs fun fs₁ fs₂ h => ?_).bind fun _ _ => ?_
  · exact hF.change (Fs.confined_writeAt path _ data) h hpath.1 hpath.2
  · exact (alike_setOffset fd hpath _ _).bind fun _ _ => Alike.pure trivial

theorem alike_write (hF : Fs.Bond roots F) (fd : Nat) (data : Bytes) :
    Alike (Bonded roots F) (write fd data) fun _ => True := by
  refine (alike_descriptor fd).bind fun d hd => ?_
  cases d with
  | stdout => exact (alike_writeOut data).bind fun _ _ => Alike.pure trivial
  | stderr => exact (alike_writeErr data).bind fun _ _ => Alike.pure trivial
  | file path offset append =>
    dsimp only
    split
    · refine (alike_stat hF hd.1).bind fun found _ => ?_
      refine (alike_setOffset fd hd _ _).bind fun _ _ => ?_
      exact alike_writeFrom hF fd hd data (UInt64.ofNat found.length)
    · exact alike_writeFrom hF fd hd data offset
  | preopen | dir | stdin => exact Alike.throw _

theorem alike_writeAt (hF : Fs.Bond roots F) (fd : Nat) (data : Bytes) (start : Nat) :
    Alike (Bonded roots F) (writeAt fd data start) fun _ => True := by
  refine (alike_descriptor fd).bind fun d hd => ?_
  cases d with
  | file path offset append =>
    refine (alike_onFs fun fs₁ fs₂ h => ?_).bind fun _ _ => Alike.pure trivial
    exact hF.change (Fs.confined_writeAt path start data) h hd.1 hd.2
  | stdin | stdout | stderr | preopen | dir => exact Alike.throw _

theorem alike_seekFrom (fd : Nat) {path : Path} (append : Bool)
    (hpath : path.Beneath roots ∧ path.Named) (delta base : Int64) :
    Alike (Bonded roots F) (seekFrom fd path append delta base) fun _ => True := by
  rw [seekFrom]
  dsimp only
  split
  · exact (alike_setOffset fd hpath _ _).bind fun _ _ => Alike.pure trivial
  · exact Alike.throw _

theorem alike_seek (hF : Fs.Bond roots F) (fd : Nat) (delta : Int64) (whence : Whence) :
    Alike (Bonded roots F) (seek fd delta whence) fun _ => True := by
  refine (alike_descriptor fd).bind fun d hd => ?_
  cases d with
  | file path offset append =>
    cases whence with
    | fromStart => exact alike_seekFrom fd append hd delta 0
    | fromCurrent => exact alike_seekFrom fd append hd delta offset.toInt64
    | fromEnd =>
      exact (alike_stat hF hd.1).bind fun found _ => alike_seekFrom fd append hd delta _
  | stdin | stdout | stderr | preopen | dir => exact Alike.throw _

theorem alike_close (fd : Nat) : Alike (Bonded roots F) (close fd) fun _ => True := by
  refine (alike_descriptor fd).bind fun _ _ => ?_
  refine Alike.modify fun p q h => h.with_descriptors (·.erase fd) fun other d hget => ?_
  by_cases hother : other = fd
  · rw [hother, Table.get?_erase_self] at hget
    simp at hget
  · rw [Table.get?_erase_of_ne _ hother] at hget
    exact h.within other d hget

theorem alike_truncate (hF : Fs.Bond roots F) (fd size : Nat) :
    Alike (Bonded roots F) (truncate fd size) fun _ => True := by
  refine (alike_descriptor fd).bind fun d hd => ?_
  cases d with
  | file path offset append =>
    exact alike_onFs fun fs₁ fs₂ h => hF.change (Fs.confined_truncate path size) h hd.1 hd.2
  | stdin | stdout | stderr | preopen | dir => exact Alike.throw _

theorem alike_statusAt (hF : Fs.Bond roots F) {path : Path} (hpath : path.Beneath roots) :
    Alike (Bonded roots F) (statusAt path) fun _ => True :=
  (alike_stat hF hpath).bind fun _ _ => Alike.pure trivial

theorem alike_fdStatus (hF : Fs.Bond roots F) (fd : Nat) :
    Alike (Bonded roots F) (fdStatus fd) fun _ => True := by
  refine (alike_descriptor fd).bind fun d hd => ?_
  cases d with
  | stdin | stdout | stderr => exact Alike.pure trivial
  | preopen guest path => exact alike_statusAt hF hd.1
  | dir path scope =>
    have hfound : Reachable roots (path, scope) := hd
    exact alike_statusAt hF hfound.beneath
  | file path offset append => exact alike_statusAt hF hd.1

theorem alike_pathStatus (hF : Fs.Bond roots F) (dirFd : Nat) (text : String) :
    Alike (Bonded roots F) (pathStatus dirFd text) fun _ => True :=
  (alike_locate dirFd text).bind fun _ hfound => alike_statusAt hF hfound.beneath

theorem alike_readDir (hF : Fs.Bond roots F) (fd : Nat) :
    Alike (Bonded roots F) (readDir fd) fun _ => True := by
  refine (alike_directory fd).bind fun found hfound => ?_
  obtain ⟨path, scope⟩ := found
  intro p q h
  simp only [run_bind, askFs]
  rw [← hF.list h.fs hfound.beneath]
  cases hlist : p.fs.list path with
  | error e => exact ⟨rfl, h⟩
  | ok names =>
    -- while the names are looked up, the two file systems stay as they are
    have hnames : Alike (fun p' q' => p = p' ∧ q = q' ∧ p'.Bonded roots F q')
        (names.mapM fun name => do
          let status ← statusAt (path.follow name)
          return (name, status.fileType)) fun _ => True := by
      refine Alike.mapM fun name hname => ?_
      rintro _ _ ⟨rfl, rfl, -⟩
      have hfind := hF.child h.fs hfound.beneath hlist name hname
      simp only [run_bind, statusAt, askFs, Fs.stat]
      rw [hfind]
      cases q.fs.find (path.follow name) with
      | error e => exact ⟨rfl, rfl, rfl, h⟩
      | ok node => exact ⟨rfl, trivial, rfl, rfl, h⟩
    exact (hnames p q ⟨rfl, rfl, h⟩).mono (fun _ _ h => h.2.2) fun _ => id

theorem alike_get (part : Guest → α) (hfs : ∀ p fs, part { p with fs } = part p) :
    Alike (Bonded roots F) (do return part (← get) : Action α) fun _ => True := by
  intro p q h
  refine ⟨?_, trivial, h⟩
  rw [h.rest]
  exact (hfs p q.fs).symm

theorem alike_target (text : String) : Alike (Bonded roots F) (target text) fun _ => True := by
  intro p q h
  have hresolve : q.resolve text = p.resolve text := by
    rw [h.rest]
    rfl
  unfold target
  rw [hresolve]
  cases p.resolve text with
  | ok found => exact ⟨rfl, trivial, h⟩
  | error e => exact ⟨rfl, h⟩

theorem alike_random (length : Nat) :
    Alike (Bonded roots F) (random length) fun _ => True := by
  intro p q h
  rw [h.rest]
  exact ⟨rfl, trivial, h.fs, rfl, h.within⟩

/-- A change of the path that a text denotes beneath a directory. -/
theorem alike_changeAt (hF : Fs.Bond roots F) (dirFd : Nat) (text : String)
    {change : Path → Fs.Change α} (h : ∀ path, (change path).Confined path) :
    Alike (Bonded roots F) (do
      let (path, _) ← locate dirFd text
      onFs (change path)) fun _ => True := by
  refine (alike_locate dirFd text).bind fun found hfound => ?_
  exact alike_onFs fun fs₁ fs₂ hfs =>
    hF.change (h found.1) hfs hfound.beneath hfound.2.2

theorem alike_move (hF : Fs.Bond roots F) (fromFd : Nat) (source : String) (toFd : Nat)
    (goal : String) : Alike (Bonded roots F) (move fromFd source toFd goal) fun _ => True := by
  refine (alike_locate fromFd source).bind fun found₁ h₁ => ?_
  refine (alike_locate toFd goal).bind fun found₂ h₂ => ?_
  have hmove : ∀ fs₁ fs₂, F fs₁ fs₂ →
      Related F (fun _ => True) (Fs.move found₁.1 found₂.1 fs₁) (Fs.move found₁.1 found₂.1 fs₂) :=
    fun fs₁ fs₂ h => hF.move h h₁.beneath h₁.2.2 h₂.beneath h₂.2.2
  refine alike_change (fun e => .ofObstacle e.obstacle) hmove (fun p a fs hrun => ?_)
    fun p e fs hrun => ?_
  · dsimp only
    rw [hrun]
  · dsimp only
    rw [hrun]

theorem alike_openPath (hF : Fs.Bond roots F) (dirFd : Nat) (text : String) (flags : OpenFlags) :
    Alike (Bonded roots F) (openPath dirFd text flags) fun _ => True := by
  refine (alike_locate dirFd text).bind fun found hfound => ?_
  obtain ⟨path, scope⟩ := found
  have hfile : ∀ append, (Descriptor.file path 0 append).Within roots :=
    fun append => ⟨hfound.beneath, hfound.2.2⟩
  intro p q h
  simp only [run_bind, run_get]
  rw [← hF.stat h.fs hfound.beneath]
  generalize p.fs.stat path = answer
  revert p q
  change Alike (Bonded roots F) _ _
  split
  · next stands =>
    split
    · exact Alike.throw _
    · split
      · split
        · exact Alike.throw _
        · exact alike_allocate hfound
      · split
        · exact Alike.throw _
        · split
          · refine (alike_onFs fun fs₁ fs₂ hfs => ?_).bind fun _ _ => alike_allocate (hfile _)
            exact hF.change (Fs.confined_truncate path 0) hfs hfound.beneath hfound.2.2
          · exact alike_allocate (hfile _)
  · split
    · refine (alike_onFs fun fs₁ fs₂ hfs => ?_).bind fun _ _ => alike_allocate (hfile _)
      exact hF.change (Fs.confined_write path _ _) hfs hfound.beneath hfound.2.2
    · exact Alike.throw _
  · exact Alike.throw _

/-! ### Programs -/

theorem alike_perform (hF : Fs.Bond roots F) (c : SystemCall) :
    Alike (Bonded roots F) (perform c) fun _ => True := by
  have hmap : ∀ {β : Type} {x : Action β}, Alike (Bonded roots F) x (fun _ => True) →
      ∀ reply : β → Reply, Alike (Bonded roots F) (do return reply (← x)) fun _ => True :=
    fun hx reply => hx.bind fun _ _ => Alike.pure trivial
  cases c with
  | arguments => exact hmap (alike_get Guest.arguments fun _ _ => rfl) .arguments
  | environment => exact hmap (alike_get Guest.environment fun _ _ => rfl) .environment
  | preopens => exact hmap (alike_get Guest.preopens fun _ _ => rfl) .preopens
  | resolve path => exact hmap (alike_target path) fun found => .target found.1 found.2
  | openPath dirFd path flags => exact hmap (alike_openPath hF dirFd path flags) .descriptor
  | read fd length => exact hmap (alike_read hF fd length) .data
  | write fd data => exact hmap (alike_write hF fd data) .count
  | readAt fd length start => exact hmap (alike_readAt hF fd length start) .data
  | writeAt fd data start => exact hmap (alike_writeAt hF fd data start) .count
  | seek fd delta whence => exact hmap (alike_seek hF fd delta whence) .position
  | close fd => exact hmap (alike_close fd) fun _ => .done
  | truncate fd size => exact hmap (alike_truncate hF fd size) fun _ => .done
  | makeDir dirFd path =>
    exact hmap (alike_changeAt hF dirFd path Fs.confined_makeDir) fun _ => .done
  | removeFile dirFd path =>
    exact hmap (alike_changeAt hF dirFd path Fs.confined_removeFile) fun _ => .done
  | removeDir dirFd path =>
    exact hmap (alike_changeAt hF dirFd path Fs.confined_removeDir) fun _ => .done
  | move fromFd source toFd goal =>
    exact hmap (alike_move hF fromFd source toFd goal) fun _ => .done
  | fdStatus fd => exact hmap (alike_fdStatus hF fd) .status
  | pathStatus dirFd path => exact hmap (alike_pathStatus hF dirFd path) .status
  | readDir fd => exact hmap (alike_readDir hF fd) .entries
  | random length => exact hmap (alike_random length) fun data => .count data.size
  | clock id => exact Alike.pure trivial
  | isTerminal fd => exact Alike.pure trivial
  | stop stop => exact Alike.pure trivial

/-- A system call has the same outcome on bonded guests and leaves them bonded. -/
theorem Bonded.call (hF : Fs.Bond roots F) {p q : Guest} (h : p.Bonded roots F q)
    (c : SystemCall) : (p.call c).1 = (q.call c).1 ∧ (p.call c).2.Bonded roots F (q.call c).2 := by
  have hc := alike_perform hF c p q h
  unfold Guest.call
  cases hp : perform c p with
  | ok reply p' =>
    cases hq : perform c q with
    | ok reply' q' =>
      rw [hp, hq] at hc
      exact ⟨congrArg Except.ok hc.1, hc.2.2⟩
    | error e q' =>
      rw [hp, hq] at hc
      exact hc.elim
  | error e p' =>
    cases hq : perform c q with
    | ok reply q' =>
      rw [hp, hq] at hc
      exact hc.elim
    | error f q' =>
      rw [hp, hq] at hc
      exact ⟨congrArg Except.error hc.1, hc.2⟩

/-- So does any number of them. -/
theorem Bonded.run (hF : Fs.Bond roots F) {p q : Guest} (h : p.Bonded roots F q)
    (calls : List SystemCall) :
    (p.run calls).1 = (q.run calls).1 ∧ (p.run calls).2.Bonded roots F (q.run calls).2 := by
  induction calls generalizing p q with
  | nil => exact ⟨rfl, h⟩
  | cons c rest ih =>
    obtain ⟨hreply, hcall⟩ := h.call hF c
    obtain ⟨hreplies, hrun⟩ := ih hcall
    exact ⟨congrArg₂ List.cons hreply hreplies, hrun⟩

/-- A program starts with nothing but the directories that are shown to it. -/
theorem within_initialDescriptors (preopens : List Preopen) (fd : Nat) (d : Descriptor)
    (h : (initialDescriptors preopens).get? fd = some d) :
    d.Within (Preopen.roots preopens) := by
  have hd := mem_of_get?_initialDescriptors h
  simp only [List.mem_cons, preopened, List.mem_filterMap] at hd
  rcases hd with hd | hd | hd | ⟨preopen, hpreopen, hd⟩
  · exact hd ▸ trivial
  · exact hd ▸ trivial
  · exact hd ▸ trivial
  · split at hd
    · next guest path hguest hpath =>
      obtain hd := Option.some.inj hd
      rw [← hd]
      refine ⟨⟨path, ?_, List.prefix_refl path⟩, Path.named_of_parse? hpath⟩
      exact List.mem_filterMap.2 ⟨preopen, hpreopen, hpath⟩
    · simp at hd

theorem bonded_start {fs₁ fs₂ : Fs} (h : F fs₁ fs₂) (console : Console) (arguments : List String)
    (environment : List (String × String)) (preopens : List Preopen) (entropy : Entropy) :
    (start fs₁ console arguments environment preopens entropy).Bonded (Preopen.roots preopens) F
      (start fs₂ console arguments environment preopens entropy) :=
  ⟨h, rfl, within_initialDescriptors preopens⟩

/-- What is still held on the streams is written out alike. -/
theorem Bonded.finish {p q : Guest} (h : p.Bonded roots F q) :
    p.finish.Bonded roots F q.finish := by
  rw [h.rest]
  exact ⟨h.fs, rfl, h.within⟩

theorem Bonded.console {p q : Guest} (h : p.Bonded roots F q) : p.console = q.console := by
  rw [h.rest]

end Guest

end StagedSandbox
