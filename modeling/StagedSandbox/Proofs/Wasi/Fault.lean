import Mathlib.Logic.Relation
import StagedSandbox.Proofs.Guest.Failure
import StagedSandbox.Proofs.Wasi.Step

/-!
# Faults

A call faults when an address leads out of the memory. Arguments are read before the system call
is made, and the fault then leaves the guest as it was. Results are stored afterwards: a call that
finds no place for its result has done its work all the same, and one that fills several buffers
may have filled some of them (`Wasi.Spent`). There are no other traces of a fault
(`Wasi.guest_of_fault`).
-/

namespace StagedSandbox.Wasi

open StagedSandbox.Action

variable {α β : Type} {m m' : Machine}

/-! ### Steps that read -/

theorem keeps_askGuest (question : Guest → α) : Keeps id (askGuest question) := fun _ => rfl

theorem keeps_load (start length : Nat) : Keeps id (load start length) := by
  intro m
  rw [left, load]
  cases m.memory.read? start length <;> rfl

theorem keeps_checkRange (start length : Nat) : Keeps id (checkRange start length) := by
  intro m
  by_cases h : start + length ≤ m.memory.size
  · rw [left, checkRange, if_pos h]
  · rw [left, checkRange, if_neg h]

theorem keeps_loadWord (start : Nat) : Keeps id (loadWord start) :=
  (keeps_load start 4).bind fun _ => Keeps.pure _

theorem keeps_advance (start distance : Nat) : Keeps id (advance start distance) := by
  rw [advance]
  split
  · exact Keeps.pure _
  · exact Keeps.throw _

theorem keeps_word (n : Nat) : Keeps id (word n) := by
  rw [word]
  split
  · exact Keeps.pure _
  · exact Keeps.throw _

theorem keeps_loadText (start length : Nat) : Keeps id (loadText start length) := by
  refine (keeps_load start length).bind fun data => ?_
  split
  · exact Keeps.pure _
  · exact Keeps.throw _

theorem keeps_buffers (array index count : Nat) : Keeps id (buffers array index count) := by
  induction count generalizing index with
  | zero => exact Keeps.pure []
  | succ count ih =>
    refine (keeps_advance _ _).bind fun entry => (keeps_loadWord entry).bind fun start => ?_
    refine (keeps_advance entry 4).bind fun next => (keeps_loadWord next).bind fun length => ?_
    exact (ih (index + 1)).bind fun rest => Keeps.pure _

theorem keeps_gather (soFar : Bytes) (list : List (Nat × Nat)) : Keeps id (gather soFar list) := by
  induction list generalizing soFar with
  | nil => exact Keeps.pure soFar
  | cons buffer rest ih => exact (keeps_load buffer.1 buffer.2).bind fun data => ih (soFar ++ data)

theorem keeps_filePosition (n : Int64) : Keeps id (filePosition n) := by
  rw [filePosition]
  split
  · exact Keeps.pure _
  · exact Keeps.throw _

theorem keeps_whence (n : UInt32) : Keeps id (whence n) := by
  rw [whence]
  repeat' split
  all_goals first | exact Keeps.pure _ | exact Keeps.throw _

theorem keeps_preopenPath (fd : Nat) : Keeps id (preopenPath fd) := by
  refine (keeps_askGuest _).bind fun preopens => ?_
  split
  · exact Keeps.pure _
  · exact Keeps.throw _

theorem keeps_listing (length : Nat) (soFar : Bytes) (entries : List ((String × FileType) × Nat)) :
    Keeps id (listing length soFar entries) := by
  induction entries generalizing soFar with
  | nil => exact Keeps.pure soFar
  | cons entry rest ih =>
    refine (keeps_word _).bind fun _ => ?_
    dsimp only
    split
    · exact Keeps.pure _
    · exact ih _

/-! ### Steps that store -/

/-- Steps before that only read do not matter. -/
theorem keeps_after {x : Step α} {f : α → Step β} (hx : Keeps id x)
    (hf : ∀ a, Keeps Machine.guest (f a)) : Keeps Machine.guest (x >>= f) :=
  (hx.map Machine.guest).bind hf

theorem store_error {start : Nat} {data : Bytes} {e : Errno}
    (h : store start data m = .error e m') :
    m' = m ∧ m.memory.size < start + data.size := by
  by_cases hrange : start + data.size ≤ m.memory.size
  · simp [store_eq hrange] at h
  · rw [store, run_bind, checkRange, if_neg hrange] at h
    exact ⟨(EStateM.Result.error.inj h).2.symm, not_le.1 hrange⟩

theorem keeps_store (start : Nat) (data : Bytes) :
    Keeps Machine.guest (store start data) :=
  keeps_after (keeps_checkRange start data.size) fun _ _ => rfl

theorem keeps_storeTexts (table index buffer : Nat) (texts : List String) :
    Keeps Machine.guest (storeTexts table index buffer texts) := by
  induction texts generalizing index buffer with
  | nil => exact Keeps.pure ()
  | cons text rest ih =>
    refine keeps_after (keeps_advance _ _) fun entry => (keeps_store entry _).bind fun _ => ?_
    refine keeps_after (keeps_word _) fun _ => (keeps_store buffer _).bind fun _ => ?_
    exact keeps_after (keeps_advance _ _) fun next => ih (index + 1) next

theorem keeps_storeTextSizes (countAt sizeAt : Nat) (texts : List String) :
    Keeps Machine.guest (storeTextSizes countAt sizeAt texts) := by
  refine keeps_after (keeps_word _) fun count => (keeps_store countAt _).bind fun _ => ?_
  exact keeps_after (keeps_word _) fun size => keeps_store sizeAt _

/-! ### Steps that act on the guest -/

/-- A step that faults leaves the guest as it was. -/
def Spares (x : Step α) : Prop := Fails Machine.guest (fun g e g' => e = .fault → g' = g) x

theorem Spares.of_keeps {x : Step α} (h : Keeps Machine.guest x) : Spares x :=
  fun _ _ _ hrun _ => h.of_error hrun

theorem spares_after {x : Step α} {f : α → Step β} (hx : Keeps id x)
    (hf : ∀ a, Spares (f a)) : Spares (x >>= f) :=
  (hx.map Machine.guest).bind_fails (Spares.of_keeps (hx.map Machine.guest)) hf

theorem keeps_onGuest {action : Guest.Action α} (h : Keeps id action) :
    Keeps Machine.guest (onGuest action) := by
  intro m
  rw [left, onGuest]
  cases hrun : action m.guest with
  | ok a guest => exact h.of_ok hrun
  | error e guest => exact h.of_error hrun

theorem onGuest_ok {action : Guest.Action α} {a : α} (h : onGuest action m = .ok a m') :
    ∃ guest, action m.guest = .ok a guest ∧ m' = { m with guest } := by
  rw [onGuest] at h
  cases hrun : action m.guest with
  | error e guest => simp [hrun] at h
  | ok b guest =>
    rw [hrun] at h
    obtain ⟨rfl, rfl⟩ := EStateM.Result.ok.inj h
    exact ⟨guest, rfl, rfl⟩

theorem onGuest_error {action : Guest.Action α} {e : Errno}
    (h : onGuest action m = .error e m') : action m.guest = .error e m'.guest := by
  rw [onGuest] at h
  cases hrun : action m.guest with
  | ok a guest => simp [hrun] at h
  | error e' guest =>
    rw [hrun] at h
    obtain ⟨rfl, rfl⟩ := EStateM.Result.error.inj h
    rfl

theorem spares_onGuest {action : Guest.Action α} (h : Fails id Guest.Refused action) :
    Spares (onGuest action) :=
  fun m e m' hrun _ => (h m.guest e m'.guest (onGuest_error hrun)).1

/-! ### Buffers -/

/-- A guest becomes another one by reads from one descriptor. -/
def Reads (fd : Nat) : Guest → Guest → Prop :=
  Relation.ReflTransGen fun g g' => ∃ length data, Guest.read fd length g = .ok data g'

theorem keeps_scatter {reader : Nat → Nat → Guest.Action Bytes}
    (h : ∀ total length, Keeps id (reader total length)) (total : Nat) (list : List (Nat × Nat)) :
    Keeps Machine.guest (scatter reader total list) := by
  induction list generalizing total with
  | nil => exact Keeps.pure total
  | cons buffer rest ih =>
    obtain ⟨start, length⟩ := buffer
    refine keeps_after (keeps_checkRange start length) fun _ => ?_
    refine (keeps_onGuest (h total length)).bind fun data => ?_
    refine (keeps_store start data).bind fun _ => ?_
    split
    · exact Keeps.pure _
    · exact ih _

/-- Buffers are filled one after the other up to the first that leaves the memory. -/
theorem scatter_read (fd total : Nat) (list : List (Nat × Nat)) (m : Machine) :
    match scatter (fun _ length => Guest.read fd length) total list m with
    | .ok _ m' => m'.memory.size = m.memory.size ∧ Reads fd m.guest m'.guest
    | .error e m' => e = .fault →
      Reads fd m.guest m'.guest ∧ ∃ buffer ∈ list, m.memory.size < buffer.1 + buffer.2 := by
  induction list generalizing total m with
  | nil => exact ⟨rfl, .refl⟩
  | cons buffer rest ih =>
    obtain ⟨start, length⟩ := buffer
    rw [scatter]
    by_cases hrange : start + length ≤ m.memory.size
    · rw [run_bind_of_ok (checkRange_eq hrange)]
      cases hread : Guest.read fd length m.guest with
      | error e g =>
        have hrun : onGuest (Guest.read fd length) m = .error e { m with guest := g } := by
          rw [onGuest, hread]
        rw [run_bind_of_error hrun]
        intro he
        exact absurd he (Guest.refuses_read fd length m.guest e g hread).2
      | ok data g =>
        have hrun : onGuest (Guest.read fd length) m = .ok data { m with guest := g } := by
          rw [onGuest, hread]
        -- a buffer within the memory has room for what is read, so storing it cannot fault
        have hfits : start + data.size ≤ m.memory.size :=
          (Nat.add_le_add_left (Guest.size_of_read hread) start).trans hrange
        have hstore : store start data { m with guest := g } =
            .ok () ⟨m.memory.put start data, g⟩ := store_eq hfits
        have hstep : Reads fd m.guest g := .single ⟨length, data, hread⟩
        rw [run_bind_of_ok hrun, run_bind_of_ok hstore]
        by_cases hshort : data.size < length
        · rw [if_pos hshort]
          exact ⟨rfl, hstep⟩
        rw [if_neg hshort]
        have hrest := ih (total + data.size) ⟨m.memory.put start data, g⟩
        cases hscatter : scatter (fun _ length => Guest.read fd length) (total + data.size) rest
            ⟨m.memory.put start data, g⟩ with
        | ok n m' =>
          rw [hscatter] at hrest
          exact ⟨hrest.1, hstep.trans hrest.2⟩
        | error e m' =>
          rw [hscatter] at hrest
          intro he
          obtain ⟨hreads, beyond, hmem, hout⟩ := hrest he
          exact ⟨hstep.trans hreads, beyond, List.mem_cons_of_mem _ hmem, hout⟩
    · have hrun : checkRange start length m = .error .fault m := if_neg hrange
      rw [run_bind_of_error hrun]
      exact fun _ => ⟨.refl, (start, length), List.mem_cons_self .., not_le.1 hrange⟩

/-! ### Calls that fault -/

/-- The bytes that the buffers of an array hold together. -/
def Gathered (array count : UInt32) (m : Machine) (data : Bytes) : Prop :=
  ∃ list, buffers array.toNat 0 count.toNat m = .ok list m ∧
    gather ByteArray.empty list m = .ok data m

/-- A call that faults after it has acted on the guest: there is no place for its result, or for
what is to be read into a later buffer. -/
def Spent : Call → Machine → Machine → Prop
  | .fdWrite fd array count resultAt, m, m' =>
    ∃ data, Gathered array count m data ∧
      (∃ n, Guest.write fd.toNat data m.guest = .ok n m'.guest) ∧
      m.memory.size < resultAt.toNat + 4
  | .fdPwrite fd array count start resultAt, m, m' =>
    ∃ data, Gathered array count m data ∧
      (∃ n, Guest.writeAt fd.toNat data start.toInt.toNat m.guest = .ok n m'.guest) ∧
      m.memory.size < resultAt.toNat + 4
  | .fdRead fd array count resultAt, m, m' =>
    ∃ list, buffers array.toNat 0 count.toNat m = .ok list m ∧
      Reads fd.toNat m.guest m'.guest ∧
      ((∃ buffer ∈ list, m.memory.size < buffer.1 + buffer.2) ∨
        m.memory.size < resultAt.toNat + 4)
  | .fdSeek fd delta origin resultAt, m, m' =>
    ∃ from', whence origin m = .ok from' m ∧
      (∃ position, Guest.seek fd.toNat delta from' m.guest = .ok position m'.guest) ∧
      m.memory.size < resultAt.toNat + 8
  | .pathOpen dirFd path length flags rights fdFlags resultAt, m, m' =>
    ∃ text, loadText path.toNat length.toNat m = .ok text m ∧
      (∃ fd, Guest.openPath dirFd.toNat text (openFlags flags rights fdFlags) m.guest =
        .ok fd m'.guest) ∧
      m.memory.size < resultAt.toNat + 4
  | _, _, _ => False

/-- An action that cannot fault is done before its result is stored. -/
theorem done_of_fault {action : Guest.Action α} {result : α → Step Unit} {bound : Nat}
    (haction : ∀ g e g', action g = .error e g' → e ≠ .fault)
    (hresult : ∀ a m m', result a m = .error .fault m' → m' = m ∧ m.memory.size < bound)
    (h : (onGuest action >>= result) m = .error .fault m') :
    (∃ a, action m.guest = .ok a m'.guest) ∧ m.memory.size < bound := by
  rw [run_bind] at h
  cases hrun : action m.guest with
  | error e g =>
    rw [onGuest, hrun] at h
    obtain ⟨rfl, -⟩ := EStateM.Result.error.inj h
    exact absurd rfl (haction m.guest _ g hrun)
  | ok a g =>
    rw [onGuest, hrun] at h
    obtain ⟨rfl, hsize⟩ := hresult a _ m' h
    exact ⟨⟨a, rfl⟩, hsize⟩

theorem storeWord_error {start n : Nat} {e : Errno} (h : storeWord start n m = .error e m') :
    m' = m ∧ m.memory.size < start + 4 := by
  have hstore := store_error h
  rwa [Memory.size_word] at hstore

theorem storeLong_error {start n : Nat} {e : Errno} (h : storeLong start n m = .error e m') :
    m' = m ∧ m.memory.size < start + 8 := by
  have hstore := store_error h
  rwa [Bytes.size_ofList, Bytes.length_littleEndian] at hstore

theorem word_storeWord_fault {start n : Nat}
    (h : (do storeWord start (← word n)) m = .error .fault m') :
    m' = m ∧ m.memory.size < start + 4 := by
  by_cases hn : n < UInt32.size
  · rw [word, if_pos hn, pure_bind] at h
    exact storeWord_error h
  · rw [word, if_neg hn] at h
    exact absurd (EStateM.Result.error.inj h).1 (by decide)

theorem eq_of_filePosition {n : Int64} {position : Nat} (h : filePosition n m = .ok position m') :
    position = n.toInt.toNat := by
  rw [filePosition] at h
  by_cases hn : 0 ≤ n.toInt
  · rw [if_pos hn] at h
    exact (EStateM.Result.ok.inj h).1.symm
  · rw [if_neg hn] at h
    cases h

/-- Random bytes fit the range that was checked for them. -/
theorem random_store_ne_fault {start length : Nat} (hrange : checkRange start length m = .ok () m) :
    (do store start (← onGuest (Guest.random length)) : Step Unit) m ≠ .error .fault m' := by
  intro h
  obtain ⟨data, g, hrandom⟩ := Guest.total_random length m.guest
  rw [run_bind, onGuest, hrandom] at h
  obtain ⟨-, hsize⟩ := store_error h
  rw [Guest.size_of_random hrandom] at hsize
  rw [checkRange, if_neg (not_le.2 hsize)] at hrange
  cases hrange

/-- What the buffers hold is handed on before the number of bytes that were taken is stored. -/
theorem gathered_of_fault {array count resultAt : UInt32} {action : Bytes → Guest.Action Nat}
    (haction : ∀ data g e g', action data g = .error e g' → e ≠ .fault)
    (h : (do
      let data ← gather ByteArray.empty (← buffers array.toNat 0 count.toNat)
      let n ← onGuest (action data)
      storeWord resultAt.toNat (← word n)) m = .error .fault m') :
    m'.guest = m.guest ∨ ∃ data, Gathered array count m data ∧
      (∃ n, action data m.guest = .ok n m'.guest) ∧ m.memory.size < resultAt.toNat + 4 := by
  rcases (keeps_buffers _ _ _).error_of_bind h with rfl | ⟨list, hlist, h⟩
  · exact Or.inl rfl
  rcases (keeps_gather _ _).error_of_bind h with rfl | ⟨data, hdata, h⟩
  · exact Or.inl rfl
  obtain ⟨hdone, hsize⟩ := done_of_fault (haction data) (fun _ _ _ => word_storeWord_fault) h
  exact Or.inr ⟨data, ⟨list, hlist, hdata⟩, hdone, hsize⟩

/-- Buffers are filled before the number of bytes that were read is stored. -/
theorem filled_of_fault {fd array count resultAt : UInt32}
    (h : (do
      let n ← scatter (fun _ length => Guest.read fd.toNat length) 0
        (← buffers array.toNat 0 count.toNat)
      storeWord resultAt.toNat (← word n)) m = .error .fault m') :
    m'.guest = m.guest ∨ ∃ list, buffers array.toNat 0 count.toNat m = .ok list m ∧
      Reads fd.toNat m.guest m'.guest ∧
      ((∃ buffer ∈ list, m.memory.size < buffer.1 + buffer.2) ∨
        m.memory.size < resultAt.toNat + 4) := by
  rcases (keeps_buffers _ _ _).error_of_bind h with rfl | ⟨list, hlist, h⟩
  · exact Or.inl rfl
  have hscatter := scatter_read fd.toNat 0 list m
  rw [run_bind] at h
  cases hrun : scatter (fun _ length => Guest.read fd.toNat length) 0 list m with
  | error e m₁ =>
    rw [hrun] at h hscatter
    obtain ⟨rfl, rfl⟩ := EStateM.Result.error.inj h
    obtain ⟨hreads, hout⟩ := hscatter rfl
    exact Or.inr ⟨list, hlist, hreads, Or.inl hout⟩
  | ok n m₁ =>
    rw [hrun] at h hscatter
    obtain ⟨rfl, hsize⟩ := word_storeWord_fault h
    exact Or.inr ⟨list, hlist, hscatter.2, Or.inr (hscatter.1 ▸ hsize)⟩

theorem memoryStep_fault {c : Call} (h : memoryStep c m = .error .fault m') :
    m'.guest = m.guest ∨ Spent c m m' := by
  have hkeeps {x : Step Unit} (hx : Keeps Machine.guest x) (h : x m = .error .fault m') :
      m'.guest = m.guest ∨ Spent c m m' := Or.inl (hx.of_error h)
  have hspares {x : Step Unit} (hx : Spares x) (h : x m = .error .fault m') :
      m'.guest = m.guest ∨ Spent c m m' := Or.inl (hx m _ m' h rfl)
  cases c with
  | argsGet table buffer | environGet table buffer =>
    exact hkeeps (keeps_after (keeps_askGuest _) fun texts => keeps_storeTexts _ 0 _ texts) h
  | argsSizesGet countAt sizeAt | environSizesGet countAt sizeAt =>
    exact hkeeps (keeps_after (keeps_askGuest _) fun texts => keeps_storeTextSizes _ _ texts) h
  | clockResGet resultAt | clockTimeGet resultAt => exact hkeeps (keeps_store _ _) h
  | fdTell fd resultAt =>
    exact hkeeps ((keeps_onGuest (Guest.keeps_tell _)).bind fun _ => keeps_store _ _) h
  | fdSync fd =>
    exact hkeeps ((keeps_onGuest (Guest.asks_fdStatus _).keeps).bind fun _ => Keeps.pure ()) h
  | fdFdstatGet fd resultAt | fdFilestatGet fd resultAt =>
    exact hkeeps ((keeps_onGuest (Guest.asks_fdStatus _).keeps).bind fun _ => keeps_store _ _) h
  | fdPrestatGet fd resultAt =>
    refine hkeeps (keeps_after (keeps_preopenPath _) fun path => ?_) h
    refine (keeps_store _ _).bind fun _ => ?_
    exact keeps_after (keeps_word _) fun length => keeps_store _ _
  | fdPrestatDirName fd buffer length =>
    exact hkeeps (keeps_after (keeps_preopenPath _) fun path => keeps_store _ _) h
  | fdReaddir fd buffer length cookie usedAt =>
    refine hkeeps (keeps_after (keeps_filePosition _) fun index => ?_) h
    refine (keeps_onGuest (Guest.asks_readDir _).keeps).bind fun entries => ?_
    refine keeps_after (keeps_listing _ _ _) fun records => ?_
    exact (keeps_store _ _).bind fun _ => keeps_store _ _
  | pathFilestatGet dirFd path length resultAt =>
    refine hkeeps (keeps_after (keeps_loadText _ _) fun text => ?_) h
    exact (keeps_onGuest (Guest.asks_pathStatus _ _).keeps).bind fun _ => keeps_store _ _
  | fdPread fd array count start resultAt =>
    refine hkeeps (keeps_after (keeps_filePosition _) fun position => ?_) h
    refine keeps_after (keeps_buffers _ _ _) fun list => ?_
    refine (keeps_scatter (fun _ _ => (Guest.asks_readAt _ _ _).keeps) _ _).bind fun n => ?_
    exact keeps_after (keeps_word _) fun n => keeps_store _ _
  | fdClose fd => exact hspares (spares_onGuest (Guest.refuses_close _)) h
  | fdFilestatSetSize fd size =>
    refine hspares (spares_after (keeps_filePosition _) fun size => ?_) h
    exact spares_onGuest (Guest.refuses_truncate _ _)
  | pathCreateDirectory dirFd path length =>
    refine hspares (spares_after (keeps_loadText _ _) fun text => ?_) h
    exact spares_onGuest (Guest.refuses_makeDir _ _)
  | pathUnlinkFile dirFd path length =>
    refine hspares (spares_after (keeps_loadText _ _) fun text => ?_) h
    exact spares_onGuest (Guest.refuses_removeFile _ _)
  | pathRemoveDirectory dirFd path length =>
    refine hspares (spares_after (keeps_loadText _ _) fun text => ?_) h
    exact spares_onGuest (Guest.refuses_removeDir _ _)
  | pathRename fromFd source sourceLength toFd goal goalLength =>
    refine hspares (spares_after (keeps_loadText _ _) fun source => ?_) h
    refine spares_after (keeps_loadText _ _) fun goal => ?_
    exact spares_onGuest (Guest.refuses_move _ _ _ _)
  | procExit | procRaise | schedYield | pollOneoff => exact hkeeps (Keeps.pure ()) h
  -- the range is checked before the generator moves on
  | randomGet buffer length =>
    rcases (keeps_checkRange _ _).error_of_bind h with rfl | ⟨⟨⟩, hrange, h⟩
    · exact Or.inl rfl
    exact absurd h (random_store_ne_fault hrange)
  -- the calls that act on the guest and have a result to store
  | fdWrite fd array count resultAt =>
    exact gathered_of_fault (fun _ _ _ _ => Guest.ne_fault_of_write) h
  | fdPwrite fd array count start resultAt =>
    rcases (keeps_filePosition _).error_of_bind h with rfl | ⟨position, hposition, h⟩
    · exact Or.inl rfl
    obtain rfl := eq_of_filePosition hposition
    exact gathered_of_fault (fun _ g e g' h => (Guest.refuses_writeAt _ _ _ g e g' h).2) h
  | fdRead fd array count resultAt => exact filled_of_fault h
  | fdSeek fd delta origin resultAt =>
    rcases (keeps_whence _).error_of_bind h with rfl | ⟨from', hfrom, h⟩
    · exact Or.inl rfl
    obtain ⟨hdone, hsize⟩ := done_of_fault
      (fun g e g' h => (Guest.refuses_seek _ _ _ g e g' h).2) (fun _ _ _ => storeLong_error) h
    exact Or.inr ⟨from', hfrom, hdone, hsize⟩
  | pathOpen dirFd path length flags rights fdFlags resultAt =>
    rcases (keeps_loadText _ _).error_of_bind h with rfl | ⟨text, htext, h⟩
    · exact Or.inl rfl
    obtain ⟨hdone, hsize⟩ := done_of_fault (fun _ _ _ => Guest.ne_fault_of_openPath)
      (fun _ _ _ => storeWord_error) h
    exact Or.inr ⟨text, htext, hdone, hsize⟩

theorem memoryStep_of_fault {c : Call}
    (h : perform c m = (.returned Errno.fault.number, m')) :
    memoryStep c m = .error .fault m' := by
  cases c with
  | procExit | procRaise | schedYield | pollOneoff => cases h
  | _ =>
    rw [perform.eq_def] at h
    dsimp only at h
    split at h
    · cases h
    · next hrun =>
      obtain ⟨hcode, rfl⟩ := Prod.mk.inj h
      rw [hrun, Errno.number_injective (Outcome.returned.inj hcode)]

/-- A call that faults has left the guest as it was, or has acted on it and then not found the
place for what it is to store. -/
theorem guest_of_fault {c : Call} (h : perform c m = (.returned Errno.fault.number, m')) :
    m'.guest = m.guest ∨ Spent c m m' :=
  memoryStep_fault (memoryStep_of_fault h)

/-- Nothing is written if the array of buffers leaves the memory. -/
theorem guest_of_fault_fdWrite :
    let m : Machine := ⟨.ofPages 1, Guest.start [] {} [] [] [Preopen.root] .zeros⟩
    ∃ m', perform (.fdWrite 1 65533 1 0) m = (.returned Errno.fault.number, m') ∧
      m'.guest = m.guest := by
  intro m
  have hfault : perform (.fdWrite 1 65533 1 0) m = (.returned Errno.fault.number, m) := rfl
  refine ⟨m, hfault, (guest_of_fault hfault).resolve_right ?_⟩
  rintro ⟨data, ⟨list, hlist, -⟩, -⟩
  cases hlist

/-- An offset is moved and a directory opened although there is no place to tell of it. -/
theorem fault_of_spent :
    let g := ((Guest.start [("a", .file ⟨#[1]⟩)] {} [] [] [Preopen.root] .zeros).run
      [.openPath 3 "a" {}]).2
    let m : Machine := ⟨.ofPages 1, g⟩
    let moved := perform (.fdSeek 4 5 0 65533) m
    let opened := perform (.pathOpen 3 0 0 0 0 0 65533) m
    g.descriptors.get? 4 = some (.file ["a"] 0 false) ∧ g.descriptors.get? 5 = none ∧
      moved.1 = .returned Errno.fault.number ∧
      moved.2.guest.descriptors.get? 4 = some (.file ["a"] 5 false) ∧
      opened.1 = .returned Errno.fault.number ∧
      opened.2.guest.descriptors.get? 5 = some (.dir [] []) :=
  ⟨rfl, rfl, rfl, rfl, rfl, rfl⟩

end StagedSandbox.Wasi
