import StagedSandbox.Proofs.Wasi.Fault
import StagedSandbox.Proofs.Wasi.Texts

/-!
# What calls leave of the memory

The arguments of a call designate ranges of memory for its results (`Wasi.Call.outputs`). Whatever
the call returns, and however much of its work it has done when it fails, the memory keeps its
size, and every byte outside these ranges stays (`Wasi.perform_frame`).
-/

namespace StagedSandbox.Wasi

open StagedSandbox.Action

variable {α β : Type} {m : Machine} {ranges : List (Nat × Nat)}

/-! ### Ranges for results -/

/-- The buffers in an array of so many, each given by its address and its length. An array that
leaves the memory has none. -/
def bufferRanges (memory : Memory) (array count : Nat) : List (Nat × Nat) :=
  if array + 8 * count ≤ memory.size then
    (List.range count).map fun i =>
      (memory.word (array + 8 * i), memory.word (array + 8 * i + 4))
  else []

/-- The table and the buffer for texts. -/
def textRanges (table buffer : Nat) (texts : List String) : List (Nat × Nat) :=
  [(table, 4 * texts.length), (buffer, joinedSize texts)]

/-- How many bytes the name takes that a program sees for a preopened directory. -/
def preopenSize (g : Guest) (fd : Nat) : Nat :=
  match g.preopens.lookup fd with
  | some guest => guest.render.utf8ByteSize
  | none => 0

/-- How many bytes the records of a directory take from an index on. -/
def recordsSize (g : Guest) (fd index : Nat) : Nat :=
  match Guest.readDir fd g with
  | .ok entries _ => (records index (entries.drop index)).size
  | .error .. => 0

/-- The ranges, each given by its start and its length, in which a call stores what it answers. -/
def Call.outputs (m : Machine) : Call → List (Nat × Nat)
  | .argsGet table buffer => textRanges table.toNat buffer.toNat m.guest.arguments
  | .environGet table buffer => textRanges table.toNat buffer.toNat (environTexts m.guest)
  | .argsSizesGet countAt sizeAt | .environSizesGet countAt sizeAt =>
    [(countAt.toNat, 4), (sizeAt.toNat, 4)]
  | .clockResGet resultAt | .clockTimeGet resultAt => [(resultAt.toNat, 8)]
  | .randomGet buffer length => [(buffer.toNat, length.toNat)]
  | .fdWrite _ _ _ resultAt | .fdPwrite _ _ _ _ resultAt => [(resultAt.toNat, 4)]
  | .fdRead _ array count resultAt | .fdPread _ array count _ resultAt =>
    (resultAt.toNat, 4) :: bufferRanges m.memory array.toNat count.toNat
  | .fdSeek _ _ _ resultAt | .fdTell _ resultAt => [(resultAt.toNat, 8)]
  | .fdFdstatGet _ resultAt => [(resultAt.toNat, 24)]
  | .fdFilestatGet _ resultAt | .pathFilestatGet _ _ _ resultAt => [(resultAt.toNat, 64)]
  | .fdPrestatGet _ resultAt => [(resultAt.toNat, 8)]
  | .fdPrestatDirName fd buffer length =>
    [(buffer.toNat, min length.toNat (preopenSize m.guest fd.toNat))]
  | .fdReaddir fd buffer length cookie usedAt =>
    [(buffer.toNat, min length.toNat (recordsSize m.guest fd.toNat cookie.toInt.toNat)),
      (usedAt.toNat, 4)]
  | .pathOpen _ _ _ _ _ _ resultAt => [(resultAt.toNat, 4)]
  | .fdClose _ | .fdSync _ | .fdFilestatSetSize _ _ | .pathCreateDirectory _ _ _
  | .pathUnlinkFile _ _ _ | .pathRemoveDirectory _ _ _ | .pathRename _ _ _ _ _ _
  | .procExit _ | .procRaise _ | .schedYield | .pollOneoff => []

/-- An address lies in one of several ranges. -/
def Covers (ranges : List (Nat × Nat)) (address : Nat) : Prop :=
  ∃ range ∈ ranges, range.1 ≤ address ∧ address < range.1 + range.2

/-- The memory has changed at most within some ranges. -/
def Frame (ranges : List (Nat × Nat)) (m m' : Machine) : Prop :=
  m.memory.WellFormed → m'.memory.WellFormed ∧ m'.memory.size = m.memory.size ∧
    ∀ address, ¬ Covers ranges address → m'.memory.byte address = m.memory.byte address

instance : Std.Refl (Frame ranges) := ⟨fun _ hm => ⟨hm, rfl, fun _ _ => rfl⟩⟩

instance : Trans (Frame ranges) (Frame ranges) (Frame ranges) where
  trans h h' hm := by
    obtain ⟨hwf, hsize, hbyte⟩ := h hm
    obtain ⟨hwf', hsize', hbyte'⟩ := h' hwf
    refine ⟨hwf', hsize'.trans hsize, fun address hout => ?_⟩
    rw [hbyte' address hout, hbyte address hout]

/-! ### Steps -/

/-- What a step stores after another one that only reads, it stores from the same machine. -/
theorem frame_after {x : Step α} {f : α → Step β} (hx : Keeps id x)
    (hf : ∀ a, x m = .ok a m → Frame ranges m (left (f a) m)) :
    Frame ranges m (left (x >>= f) m) := by
  refine left_bind (Leads.of_keeps hx m) fun a t hrun => ?_
  obtain rfl : t = m := hx.of_ok hrun
  exact hf a hrun

theorem frame_onGuest (action : Guest.Action α) : Leads (Frame ranges) (onGuest action) := by
  intro m hm
  rw [left, onGuest]
  cases action m.guest <;> exact ⟨hm, rfl, fun _ _ => rfl⟩

/-- What comes after an action on the guest starts from the same memory. -/
theorem frame_afterGuest {action : Guest.Action α} {f : α → Step β}
    (hf : ∀ a g, action m.guest = .ok a g →
      Frame ranges { m with guest := g } (left (f a) { m with guest := g })) :
    Frame ranges m (left (onGuest action >>= f) m) := by
  refine left_bind (frame_onGuest action m) fun a t hrun => ?_
  obtain ⟨g, haction, rfl⟩ := onGuest_ok hrun
  exact hf _ _ haction

theorem frame_store {start : Nat} {data : Bytes} {range : Nat × Nat} (hrange : range ∈ ranges)
    (hstart : range.1 ≤ start) (hstop : start + data.size ≤ range.1 + range.2) :
    Leads (Frame ranges) (store start data) := by
  refine (Leads.of_keeps (keeps_checkRange start data.size)).bind fun _ m hm => ?_
  refine ⟨hm.put start data, rfl, fun address hout => ?_⟩
  refine (hm.byte_put start data address).trans (if_neg fun hin => hout ⟨range, hrange, ?_⟩)
  omega

/-- A result of a known size is stored where its range starts. -/
theorem frame_result {start length : Nat} {data : Bytes} (hrange : (start, length) ∈ ranges)
    (hsize : data.size ≤ length) : Leads (Frame ranges) (store start data) :=
  frame_store hrange (Nat.le_refl start) (Nat.add_le_add_left hsize start)

theorem frame_storeWord {start : Nat} (hrange : (start, 4) ∈ ranges) (n : Nat) :
    Leads (Frame ranges) (storeWord start n) :=
  frame_result hrange (Nat.le_of_eq (Memory.size_word n))

theorem frame_storeLong {start : Nat} (hrange : (start, 8) ∈ ranges) (n : Nat) :
    Leads (Frame ranges) (storeLong start n) :=
  frame_result hrange (by rw [Bytes.size_ofList, Bytes.length_littleEndian])

theorem frame_word_storeWord {start : Nat} (hrange : (start, 4) ∈ ranges) (n : Nat) :
    Leads (Frame ranges) (do storeWord start (← word n)) :=
  (Leads.of_keeps (keeps_word n)).bind fun n => frame_storeWord hrange n

theorem eq_of_advance {start distance n : Nat} {m' : Machine}
    (h : advance start distance m = .ok n m') : n = start + distance := by
  rw [advance] at h
  split at h
  · exact (EStateM.Result.ok.inj h).1.symm
  · cases h

/-- Entries are stored in the rest of the table, and texts in the rest of the buffer. -/
theorem frame_storeTexts {table count base size : Nat} (htable : (table, 4 * count) ∈ ranges)
    (hbase : (base, size) ∈ ranges) {texts : List String} {index buffer : Nat}
    (hcount : index + texts.length ≤ count) (hlow : base ≤ buffer)
    (hhigh : buffer + joinedSize texts ≤ base + size) :
    Leads (Frame ranges) (storeTexts table index buffer texts) := by
  induction texts generalizing index buffer with
  | nil => exact Leads.pure ()
  | cons text rest ih =>
    rw [joinedSize_cons] at hhigh
    rw [List.length_cons] at hcount
    have hentry : Leads (Frame ranges) (storeWord (table + 4 * index) buffer) := by
      refine frame_store htable (Nat.le_add_right ..) ?_
      rw [Memory.size_word]
      dsimp only
      omega
    have htext : Leads (Frame ranges) (store buffer (terminated text)) :=
      frame_store hbase hlow (by dsimp only; omega)
    have hsize := size_terminated text
    refine fun m => frame_after (keeps_advance _ _) fun entry hadvance => ?_
    obtain rfl := eq_of_advance hadvance
    refine left_bind (hentry m) fun _ m₁ _ => ?_
    refine frame_after (keeps_word _) fun _ _ => ?_
    refine left_bind (htext m₁) fun _ m₂ _ => ?_
    refine frame_after (keeps_advance _ _) fun next hadvance => ?_
    obtain rfl := eq_of_advance hadvance
    refine ih (by omega) (by omega) ?_ m₂
    rw [Bytes.size_ofText]
    omega

theorem frame_storeTextSizes {countAt sizeAt : Nat} (hcount : (countAt, 4) ∈ ranges)
    (hsize : (sizeAt, 4) ∈ ranges) (texts : List String) :
    Leads (Frame ranges) (storeTextSizes countAt sizeAt texts) := by
  refine (Leads.of_keeps (keeps_word _)).bind fun count => ?_
  exact (frame_storeWord hcount count).bind fun _ => frame_word_storeWord hsize _

/-- A reader gives no more bytes than it is asked for. -/
def Bounded (reader : Nat → Nat → Guest.Action Bytes) : Prop :=
  ∀ total length g data g', reader total length g = .ok data g' → data.size ≤ length

/-- What is read is stored in the buffers alone, however far that goes. -/
theorem frame_scatter {reader : Nat → Nat → Guest.Action Bytes} (hreader : Bounded reader)
    {list : List (Nat × Nat)} (hlist : ∀ buffer ∈ list, buffer ∈ ranges) (total : Nat) :
    Leads (Frame ranges) (scatter reader total list) := by
  induction list generalizing total with
  | nil => exact Leads.pure total
  | cons buffer rest ih =>
    obtain ⟨start, length⟩ := buffer
    obtain ⟨hbuffer, hrest⟩ := List.forall_mem_cons.1 hlist
    refine (Leads.of_keeps (keeps_checkRange start length)).bind fun _ m => ?_
    refine frame_afterGuest fun data g hread => ?_
    have hstore := frame_result hbuffer (hreader _ _ _ _ _ hread)
    refine left_bind (hstore _) fun _ m₂ _ => ?_
    split
    · exact Leads.pure _ m₂
    · exact ih hrest _ m₂

/-! ### Arguments read from memory -/

theorem loadWord_ok {start n : Nat} {m' : Machine} (h : loadWord start m = .ok n m') :
    start + 4 ≤ m.memory.size ∧ n = m.memory.word start := by
  obtain ⟨data, t, hload, hn⟩ := exists_of_bind h
  by_cases hrange : start + 4 ≤ m.memory.size
  · rw [load_eq hrange] at hload
    refine ⟨hrange, ?_⟩
    rw [← (EStateM.Result.ok.inj hn).1, ← (EStateM.Result.ok.inj hload).1]
    rfl
  · rw [load, Memory.read?, if_neg hrange] at hload
    cases hload

/-- What is read from an array of buffers, and where its last entry ends. -/
theorem buffers_ok {array index count : Nat} {list : List (Nat × Nat)} {m' : Machine}
    (h : buffers array index count m = .ok list m') :
    (count ≠ 0 → array + 8 * (index + count) ≤ m.memory.size) ∧
      list = (List.range' index count).map fun i =>
        (m.memory.word (array + 8 * i), m.memory.word (array + 8 * i + 4)) := by
  induction count generalizing index list m' with
  | zero => exact ⟨fun hne => absurd rfl hne, (EStateM.Result.ok.inj h).1.symm⟩
  | succ count ih =>
    obtain ⟨entry, hentry, h⟩ := (keeps_advance _ _).ok_of_bind h
    obtain rfl := eq_of_advance hentry
    obtain ⟨start, hstart, h⟩ := (keeps_loadWord _).ok_of_bind h
    obtain ⟨-, rfl⟩ := loadWord_ok hstart
    obtain ⟨next, hnext, h⟩ := (keeps_advance _ _).ok_of_bind h
    obtain rfl := eq_of_advance hnext
    obtain ⟨length, hlength, h⟩ := (keeps_loadWord _).ok_of_bind h
    obtain ⟨hrange, rfl⟩ := loadWord_ok hlength
    obtain ⟨rest, m₁, hrest, h⟩ := exists_of_bind h
    obtain ⟨hlast, rfl⟩ := ih hrest
    refine ⟨fun _ => ?_, ?_⟩
    · by_cases hcount : count = 0
      · omega
      · have := hlast hcount
        omega
    · rw [← (EStateM.Result.ok.inj h).1, List.range'_succ, List.map_cons]

theorem eq_bufferRanges {array count : Nat} {list : List (Nat × Nat)} {m' : Machine}
    (h : buffers array 0 count m = .ok list m') : list = bufferRanges m.memory array count := by
  obtain ⟨hlast, rfl⟩ := buffers_ok h
  rw [bufferRanges, List.range_eq_range']
  by_cases hcount : count = 0
  · subst hcount
    simp
  · rw [if_pos (Nat.zero_add count ▸ hlast hcount)]

/-- A step that fills the buffers of an array and then tells how many bytes that were. -/
theorem frame_fill {reader : Nat → Nat → Guest.Action Bytes} (hreader : Bounded reader)
    {array count resultAt : Nat} (hresult : (resultAt, 4) ∈ ranges)
    (hbuffers : ∀ buffer ∈ bufferRanges m.memory array count, buffer ∈ ranges) :
    Frame ranges m (left (do
      let n ← scatter reader 0 (← buffers array 0 count)
      storeWord resultAt (← word n)) m) := by
  refine frame_after (keeps_buffers array 0 count) fun list hlist => ?_
  obtain rfl := eq_bufferRanges hlist
  exact ((frame_scatter hreader hbuffers 0).bind fun n => frame_word_storeWord hresult n) m

/-! ### The calls -/

theorem bounded_read (fd : Nat) : Bounded fun _ length => Guest.read fd length :=
  fun _ _ _ _ _ h => Guest.size_of_read h

theorem bounded_readAt (fd start : Nat) :
    Bounded fun total length => Guest.readAt fd length (start + total) :=
  fun _ _ _ _ _ h => Guest.size_of_readAt h

theorem size_listing {length index : Nat} {entries : List (String × FileType)} {data : Bytes}
    {m' : Machine}
    (h : listing length ByteArray.empty (entries.zipIdx index) m = .ok data m') :
    (data.slice 0 length).size = min length (records index entries).size := by
  obtain ⟨listed, hrun, hslice⟩ | ⟨hrun, -⟩ :=
    listing_cases length index ByteArray.empty entries m
  · rw [hrun] at h
    rw [← (EStateM.Result.ok.inj h).1, hslice, ByteArray.empty_append, Bytes.size_slice]
    rfl
  · rw [hrun] at h
    cases h

theorem recordsSize_of_readDir {g g' : Guest} {fd : Nat} {entries : List (String × FileType)}
    (h : Guest.readDir fd g = .ok entries g') (index : Nat) :
    recordsSize g fd index = (records index (entries.drop index)).size := by
  rw [recordsSize, h]

theorem preopenSize_of_preopenPath {fd : Nat} {path : String} {m' : Machine}
    (h : preopenPath fd m = .ok path m') : preopenSize m.guest fd = path.utf8ByteSize := by
  obtain ⟨preopens, hask, h⟩ := (keeps_askGuest _).ok_of_bind h
  obtain rfl := (EStateM.Result.ok.inj hask).1
  rw [preopenSize]
  cases hlookup : m.guest.preopens.lookup fd with
  | none => simp [hlookup] at h
  | some guest =>
    rw [hlookup] at h
    rw [← (EStateM.Result.ok.inj h).1]

theorem size_descriptorRecord (status : FileStatus) : (descriptorRecord status).size = 24 := by
  simp [descriptorRecord, Bytes.size_ofList]

theorem size_fileRecord (status : FileStatus) : (fileRecord status).size = 64 := by
  simp [fileRecord, Bytes.size_ofList, Bytes.length_littleEndian]

theorem size_preopenRecord (length : Nat) : (preopenRecord length).size = 8 := by
  simp [preopenRecord, Bytes.size_ofList, Bytes.length_littleEndian]

theorem frame_memoryStep (c : Call) (m : Machine) :
    Frame (c.outputs m) m (left (memoryStep c) m) := by
  have hkeeps {x : Step Unit} (hx : Keeps id x) : Frame (c.outputs m) m (left x m) :=
    Leads.of_keeps hx m
  have hguest {α : Type} (action : Guest.Action α) {f : α → Step Unit}
      (hf : ∀ a, Leads (Frame (c.outputs m)) (f a)) :
      Frame (c.outputs m) m (left (onGuest action >>= f) m) :=
    (frame_onGuest action).bind hf m
  cases c with
  | argsGet table buffer | environGet table buffer =>
    refine frame_after (keeps_askGuest _) fun texts htexts => ?_
    obtain rfl := (EStateM.Result.ok.inj htexts).1
    exact frame_storeTexts (List.mem_cons_self ..)
      (List.mem_cons_of_mem _ (List.mem_cons_self ..)) (by omega) (Nat.le_refl _)
      (Nat.le_refl _) m
  | argsSizesGet countAt sizeAt | environSizesGet countAt sizeAt =>
    refine frame_after (keeps_askGuest _) fun texts _ => ?_
    exact frame_storeTextSizes (List.mem_cons_self ..)
      (List.mem_cons_of_mem _ (List.mem_cons_self ..)) texts m
  | clockResGet resultAt | clockTimeGet resultAt =>
    exact frame_storeLong (List.mem_cons_self ..) _ m
  | randomGet buffer length =>
    refine frame_after (keeps_checkRange _ _) fun _ _ => ?_
    refine frame_afterGuest fun data g hrandom => ?_
    exact frame_result (List.mem_cons_self ..) (Nat.le_of_eq (Guest.size_of_random hrandom)) _
  | fdWrite fd array count resultAt =>
    refine frame_after (keeps_buffers _ _ _) fun list _ => ?_
    refine frame_after (keeps_gather _ _) fun data _ => ?_
    exact hguest _ fun n => frame_word_storeWord (List.mem_cons_self ..) n
  | fdPwrite fd array count start resultAt =>
    refine frame_after (keeps_filePosition _) fun position _ => ?_
    refine frame_after (keeps_buffers _ _ _) fun list _ => ?_
    refine frame_after (keeps_gather _ _) fun data _ => ?_
    exact hguest _ fun n => frame_word_storeWord (List.mem_cons_self ..) n
  | fdRead fd array count resultAt =>
    exact frame_fill (bounded_read _) (List.mem_cons_self ..) fun _ => List.mem_cons_of_mem _
  | fdPread fd array count start resultAt =>
    refine frame_after (keeps_filePosition _) fun position _ => ?_
    exact frame_fill (bounded_readAt _ _) (List.mem_cons_self ..) fun _ => List.mem_cons_of_mem _
  | fdSeek fd delta origin resultAt =>
    refine frame_after (keeps_whence _) fun origin _ => ?_
    exact hguest _ fun position => frame_storeLong (List.mem_cons_self ..) _
  | fdTell fd resultAt =>
    exact hguest _ fun position => frame_storeLong (List.mem_cons_self ..) _
  | fdClose fd => exact frame_onGuest _ m
  | fdSync fd => exact hguest _ fun _ => Leads.pure ()
  | fdFdstatGet fd resultAt =>
    exact hguest _ fun status =>
      frame_result (List.mem_cons_self ..) (Nat.le_of_eq (size_descriptorRecord status))
  | fdFilestatGet fd resultAt =>
    exact hguest _ fun status =>
      frame_result (List.mem_cons_self ..) (Nat.le_of_eq (size_fileRecord status))
  | fdFilestatSetSize fd size =>
    exact frame_after (keeps_filePosition _) fun size _ => frame_onGuest _ m
  | fdPrestatGet fd resultAt =>
    refine frame_after (keeps_preopenPath _) fun path _ => ?_
    refine left_bind (frame_result (List.mem_cons_self ..) ?_ m) fun _ cleared _ => ?_
    · rw [Bytes.size_zeros]
    · refine frame_after (keeps_word _) fun length _ => ?_
      exact frame_result (List.mem_cons_self ..) (Nat.le_of_eq (size_preopenRecord length)) cleared
  | fdPrestatDirName fd buffer length =>
    refine frame_after (keeps_preopenPath _) fun path hpath => ?_
    refine frame_result (List.mem_cons_self ..) ?_ m
    rw [Bytes.size_slice, Bytes.size_ofText, Nat.sub_zero, preopenSize_of_preopenPath hpath]
  | fdReaddir fd buffer length cookie usedAt =>
    refine frame_after (keeps_filePosition _) fun index hindex => ?_
    obtain rfl := eq_of_filePosition hindex
    refine frame_afterGuest fun entries g hentries => ?_
    rw [drop_zipIdx, Nat.zero_add]
    refine frame_after (keeps_listing _ _ _) fun listed hlisted => ?_
    have hsize := size_listing hlisted
    rw [← recordsSize_of_readDir hentries] at hsize
    refine ((frame_result (List.mem_cons_self ..) (Nat.le_of_eq hsize)).bind fun _ => ?_) _
    exact frame_storeWord (List.mem_cons_of_mem _ (List.mem_cons_self ..)) _
  | pathOpen dirFd path length flags rights fdFlags resultAt =>
    refine frame_after (keeps_loadText _ _) fun text _ => ?_
    exact hguest _ fun fd => frame_storeWord (List.mem_cons_self ..) fd
  | pathFilestatGet dirFd path length resultAt =>
    refine frame_after (keeps_loadText _ _) fun text _ => ?_
    exact hguest _ fun status =>
      frame_result (List.mem_cons_self ..) (Nat.le_of_eq (size_fileRecord status))
  | pathCreateDirectory dirFd path length | pathUnlinkFile dirFd path length
  | pathRemoveDirectory dirFd path length =>
    exact frame_after (keeps_loadText _ _) fun text _ => frame_onGuest _ m
  | pathRename fromFd source sourceLength toFd goal goalLength =>
    refine frame_after (keeps_loadText _ _) fun source _ => ?_
    exact frame_after (keeps_loadText _ _) fun goal _ => frame_onGuest _ m
  | procExit | procRaise | schedYield | pollOneoff => exact hkeeps (Keeps.pure ())

theorem perform_snd (c : Call) (m : Machine) : (perform c m).2 = left (memoryStep c) m := by
  cases c with
  | procExit | procRaise | schedYield | pollOneoff => rfl
  | _ =>
    rw [perform.eq_def, left]
    dsimp only
    split <;> next hrun => rw [hrun]

/-- Whatever a call returns, the memory keeps its size, and so does every byte outside the ranges
that the call designates for its results. -/
theorem perform_frame (c : Call) {m : Machine} (hm : m.memory.WellFormed) :
    (perform c m).2.memory.WellFormed ∧ (perform c m).2.memory.size = m.memory.size ∧
      ∀ address, ¬ Covers (c.outputs m) address →
        (perform c m).2.memory.byte address = m.memory.byte address := by
  rw [perform_snd]
  exact frame_memoryStep c m hm

/-- A call that has filled one buffer finds that the next one leaves the memory. -/
theorem perform_frame_partial :
    let c : Call := .fdRead 4 0 2 100
    let m : Machine :=
      ⟨((((Memory.ofPages 1).putWord 0 64).putWord 4 2).putWord 8 70000).putWord 12 4,
        ((Guest.start [("a", .file ⟨#[1, 2, 3]⟩)] {} [] [] [Preopen.root] .zeros).run
          [.openPath 3 "a" {}]).2⟩
    m.memory.WellFormed ∧ c.outputs m = [(100, 4), (64, 2), (70000, 4)] ∧
      (perform c m).1 = .returned Errno.fault.number ∧
      (perform c m).2.memory.byte 65 = 2 ∧ (perform c m).2.memory.size = m.memory.size ∧
      ∀ address, ¬ Covers (c.outputs m) address →
        (perform c m).2.memory.byte address = m.memory.byte address := by
  intro c m
  have hm : m.memory.WellFormed :=
    ((((Memory.wellFormed_ofPages 1).putWord 0 64).putWord 4 2).putWord 8 70000).putWord 12 4
  obtain ⟨-, hsize, hbyte⟩ := perform_frame c hm
  exact ⟨hm, by decide +kernel, by decide +kernel, by decide +kernel, hsize, hbyte⟩

end StagedSandbox.Wasi
