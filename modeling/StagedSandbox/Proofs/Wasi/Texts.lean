import StagedSandbox.Proofs.Wasi.Listing
import StagedSandbox.Wasm.Code

/-!
# Tables of texts

A module asks for its arguments, or for its environment, in two steps. One call announces how many
texts there are and how many bytes they take. The other one lays the texts out back to back in a
buffer of that size, and stores in a table where each of them begins; all other bytes stay
(`Wasi.texts_laid_out`). After each text it works out where the next one would begin, also after
the last one: if the buffer ends where the addresses end, that is no address, and the call reports
a fault although everything has been stored.
-/

namespace StagedSandbox.Wasi

open StagedSandbox.Action

/-! ### Texts back to back -/

/-- A text with the zero byte that ends it. -/
def terminated (text : String) : Bytes := (Bytes.ofText text).push 0

/-- Texts back to back, each with its zero byte. -/
def joined : List String → Bytes
  | [] => ByteArray.empty
  | text :: rest => terminated text ++ joined rest

/-- The number of bytes of texts back to back. -/
def joinedSize (texts : List String) : Nat := totalSize (fun text => text.utf8ByteSize + 1) texts

theorem size_terminated (text : String) : (terminated text).size = text.utf8ByteSize + 1 := by
  rw [terminated, ByteArray.size_push, Bytes.size_ofText]

theorem joinedSize_cons (text : String) (rest : List String) :
    joinedSize (text :: rest) = (terminated text).size + joinedSize rest := by
  rw [size_terminated]
  rfl

theorem eq_nil_of_joinedSize {texts : List String} (h : joinedSize texts = 0) : texts = [] := by
  cases texts with
  | nil => rfl
  | cons text rest =>
    rw [joinedSize_cons, size_terminated] at h
    omega

/-! ### Memories in which texts are laid out -/

/-- Texts lie back to back in a buffer, a table holds where each of them begins, and the memory is
otherwise as it was before. -/
structure LaidOut (texts : List String) (table buffer : Nat) (before after : Memory) : Prop where
  size_eq : after.size = before.size
  joined_eq : after.read buffer (joinedSize texts) = joined texts
  /-- A text begins where those before it end. -/
  entry_eq : ∀ i < texts.length,
    after.word (table + 4 * i) = buffer + joinedSize (texts.take i)
  /-- Each entry of the table leads to its text. -/
  text_eq : ∀ i (h : i < texts.length),
    after.read (after.word (table + 4 * i)) (terminated texts[i]).size = terminated texts[i]
  byte_eq : ∀ address, (address < table ∨ table + 4 * texts.length ≤ address) →
    (address < buffer ∨ buffer + joinedSize texts ≤ address) →
    after.byte address = before.byte address

theorem LaidOut.read_eq {texts : List String} {table buffer : Nat} {before after : Memory}
    (h : LaidOut texts table buffer before after) {start length : Nat}
    (htable : start + length ≤ table ∨ table + 4 * texts.length ≤ start)
    (hbuffer : start + length ≤ buffer ∨ buffer + joinedSize texts ≤ start) :
    after.read start length = before.read start length :=
  Memory.read_congr fun i hi => h.byte_eq (start + i) (by omega) (by omega)

/-- The memory after texts were stored, each with its entry of the table. -/
def layTexts (table buffer : Nat) : List String → Memory → Memory
  | [], memory => memory
  | text :: rest, memory =>
    layTexts (table + 4) (buffer + (terminated text).size) rest
      ((memory.putWord table buffer).put buffer (terminated text))

theorem laidOut_nil (table buffer : Nat) (memory : Memory) :
    LaidOut [] table buffer memory memory where
  size_eq := rfl
  joined_eq := by
    rw [joinedSize, totalSize, joined, Memory.read, Memory.pieces_zero]
    rfl
  entry_eq := nofun
  text_eq := nofun
  byte_eq _ _ _ := rfl

/-- A text in front of others that are laid out behind it. -/
theorem LaidOut.cons {text : String} {rest : List String} {table buffer : Nat}
    {before after : Memory} (hwf : before.WellFormed)
    (hfits : buffer + joinedSize (text :: rest) ≤ UInt32.size)
    (hapart : table + 4 * (text :: rest).length ≤ buffer ∨
      buffer + joinedSize (text :: rest) ≤ table)
    (h : LaidOut rest (table + 4) (buffer + (terminated text).size)
      ((before.putWord table buffer).put buffer (terminated text)) after) :
    LaidOut (text :: rest) table buffer before after := by
  rw [joinedSize_cons] at hfits hapart
  rw [List.length_cons] at hapart
  have hpos := size_terminated text
  have hwf' := hwf.putWord table buffer
  -- what comes later is stored neither over the first entry nor over the first text
  have hword : after.word table = buffer := by
    rw [Memory.word, h.read_eq (by omega) (by omega), hwf'.read_put_of_apart (by omega)]
    exact hwf.word_putWord_self table (by omega)
  have htext : after.read buffer (terminated text).size = terminated text := by
    rw [h.read_eq (by omega) (by omega), hwf'.read_put_self]
  constructor
  case size_eq => exact h.size_eq
  case joined_eq =>
    rw [joinedSize_cons, Memory.read_add, htext, h.joined_eq]
    rfl
  case entry_eq =>
    intro i hi
    cases i with
    | zero => exact hword
    | succ i =>
      have hentry := h.entry_eq i (Nat.lt_of_succ_lt_succ hi)
      rw [List.take_succ_cons, joinedSize_cons, ← Nat.add_assoc, ← hentry]
      congr 1
      omega
  case text_eq =>
    intro i hi
    cases i with
    | zero =>
      rw [show table + 4 * 0 = table from rfl, hword]
      exact htext
    | succ i =>
      rw [show table + 4 * (i + 1) = table + 4 + 4 * i by omega]
      exact h.text_eq i (Nat.lt_of_succ_lt_succ hi)
  case byte_eq =>
    intro address htable hbuffer
    rw [joinedSize_cons] at hbuffer
    rw [List.length_cons] at htable
    rw [h.byte_eq address (by omega) (by omega), hwf'.byte_put, if_neg (by omega),
      Memory.putWord, hwf.byte_put, Memory.size_word, if_neg (by omega)]

theorem laidOut_layTexts {texts : List String} {table buffer : Nat} {memory : Memory}
    (hwf : memory.WellFormed) (hfits : buffer + joinedSize texts ≤ UInt32.size)
    (hapart : table + 4 * texts.length ≤ buffer ∨ buffer + joinedSize texts ≤ table) :
    LaidOut texts table buffer memory (layTexts table buffer texts memory) := by
  induction texts generalizing table buffer memory with
  | nil => exact laidOut_nil table buffer memory
  | cons text rest ih =>
    refine .cons hwf hfits hapart (ih ((hwf.putWord table buffer).put _ _) ?_ ?_)
    · rw [joinedSize_cons] at hfits
      omega
    · rw [joinedSize_cons, List.length_cons] at hapart
      omega

/-! ### Storing texts -/

/-- Texts for which there is room are stored; it is a fault if no address follows the last one. -/
theorem storeTexts_eq {table index buffer : Nat} {texts : List String} {m : Machine}
    (hpages : m.memory.size ≤ UInt32.size)
    (htable : table + 4 * (index + texts.length) ≤ m.memory.size)
    (hbuffer : buffer + joinedSize texts ≤ m.memory.size) :
    storeTexts table index buffer texts m =
      if texts = [] ∨ buffer + joinedSize texts < UInt32.size then
        .ok () { m with memory := layTexts (table + 4 * index) buffer texts m.memory }
      else
        .error .fault { m with memory := layTexts (table + 4 * index) buffer texts m.memory } := by
  induction texts generalizing index buffer m with
  | nil => exact (if_pos (Or.inl rfl)).symm
  | cons text rest ih =>
    have hsize := size_terminated text
    rw [joinedSize_cons] at hbuffer ⊢
    rw [List.length_cons] at htable
    have hstore : store buffer (terminated text)
        { m with memory := m.memory.putWord (table + 4 * index) buffer } =
          .ok () { m with memory :=
            (m.memory.putWord (table + 4 * index) buffer).put buffer (terminated text) } :=
      store_eq (by rw [Memory.size_putWord]; omega)
    have hrun : storeTexts table index buffer (text :: rest) m =
        (do storeTexts table (index + 1) (← advance buffer (terminated text).size) rest)
          { m with memory :=
            (m.memory.putWord (table + 4 * index) buffer).put buffer (terminated text) } := by
      rw [storeTexts, advance_eq (by omega), pure_bind, run_bind_of_ok (storeWord_eq (by omega)),
        Bytes.size_ofText, word_eq (by omega), pure_bind, ← terminated, run_bind_of_ok hstore,
        hsize]
    rw [hrun]
    by_cases hend : buffer + (terminated text).size < UInt32.size
    · have hnext := @ih (index + 1) (buffer + (terminated text).size)
        { m with memory :=
          (m.memory.putWord (table + 4 * index) buffer).put buffer (terminated text) }
        hpages (by rw [Memory.size_put, Memory.size_putWord]; omega)
        (by rw [Memory.size_put, Memory.size_putWord]; omega)
      rw [advance_eq hend, pure_bind, hnext, layTexts]
      refine if_congr ?_ rfl rfl
      rw [Nat.add_assoc]
      refine ⟨fun h => .inr (h.elim (fun hnil => ?_) id), fun h => .inr (h.resolve_left nofun)⟩
      rw [hnil]
      exact hend
    · -- the text ends where the addresses end, so it is the last one
      obtain rfl : rest = [] := eq_nil_of_joinedSize (by omega)
      have hlast : ¬ ([text] = [] ∨
          buffer + ((terminated text).size + joinedSize []) < UInt32.size) := by
        rintro (hnil | hlt)
        · cases hnil
        · omega
      rw [advance, if_neg hend, if_neg hlast]
      rfl

/-! ### The calls -/

/-- The texts that a module may ask for. -/
inductive TextSource where
  | arguments
  | environment

namespace TextSource

/-- What a guest offers: its arguments, or the entries of its environment, each as a key, an equals
sign and a value. -/
def texts : TextSource → Guest → List String
  | arguments, g => g.arguments
  | environment, g => g.environment.map fun (key, value) => key ++ "=" ++ value

/-- The call that announces the texts. -/
def sizesCall (countAt sizeAt : UInt32) : TextSource → Call
  | arguments => .argsSizesGet countAt sizeAt
  | environment => .environSizesGet countAt sizeAt

/-- The call that lays the texts out. -/
def getCall (table buffer : UInt32) : TextSource → Call
  | arguments => .argsGet table buffer
  | environment => .environGet table buffer

section Answers

variable (source : TextSource) {countAt sizeAt table buffer : UInt32} {m m' : Machine} {e : Errno}

theorem memoryStep_sizesCall : memoryStep (source.sizesCall countAt sizeAt) m =
    storeTextSizes countAt.toNat sizeAt.toNat (source.texts m.guest) m := by
  cases source <;> rfl

theorem memoryStep_getCall : memoryStep (source.getCall table buffer) m =
    storeTexts table.toNat 0 buffer.toNat (source.texts m.guest) m := by
  cases source <;> rfl

theorem outcomeWithoutMemory_sizesCall :
    outcomeWithoutMemory (source.sizesCall countAt sizeAt) = none := by
  cases source <;> rfl

theorem outcomeWithoutMemory_getCall :
    outcomeWithoutMemory (source.getCall table buffer) = none := by
  cases source <;> rfl

theorem perform_getCall_of_ok
    (h : storeTexts table.toNat 0 buffer.toNat (source.texts m.guest) m = .ok () m') :
    perform (source.getCall table buffer) m = (.returned 0, m') :=
  perform_of_ok source.outcomeWithoutMemory_getCall (source.memoryStep_getCall.trans h)

theorem sizesCall_ok_iff :
    perform (source.sizesCall countAt sizeAt) m = (.returned 0, m') ↔
      storeTextSizes countAt.toNat sizeAt.toNat (source.texts m.guest) m = .ok () m' := by
  constructor
  · intro h
    rw [← memoryStep_sizesCall]
    exact ok_of_perform source.outcomeWithoutMemory_sizesCall h
  · intro h
    rw [← memoryStep_sizesCall] at h
    exact perform_of_ok source.outcomeWithoutMemory_sizesCall h

end Answers

end TextSource

/-- A machine in which texts have been announced. -/
def Machine.announcing (m : Machine) (countAt sizeAt : Nat) (texts : List String) : Machine :=
  { m with memory := (m.memory.putWord countAt texts.length).putWord sizeAt (joinedSize texts) }

theorem word_ok {n k : Nat} {m m' : Machine} (h : word n m = .ok k m') :
    n < UInt32.size ∧ n = k ∧ m = m' := by
  by_cases hn : n < UInt32.size
  · rw [word_eq hn] at h
    obtain ⟨rfl, rfl⟩ := EStateM.Result.ok.inj h
    exact ⟨hn, rfl, rfl⟩
  · rw [word, if_neg hn] at h
    cases h

theorem le_of_storeWord_ok {start n : Nat} {u : Unit} {m m' : Machine}
    (h : storeWord start n m = .ok u m') : start + 4 ≤ m.memory.size := by
  by_contra hrange
  rw [storeWord, store, run_bind, checkRange, Memory.size_word, if_neg hrange] at h
  cases h

/-- Texts are announced as far as the numbers fit into words, which the memory has to have. -/
theorem storeTextSizes_ok_iff {countAt sizeAt : Nat} {texts : List String} {m m' : Machine} :
    storeTextSizes countAt sizeAt texts m = .ok () m' ↔
      (texts.length < UInt32.size ∧ joinedSize texts < UInt32.size ∧
        countAt + 4 ≤ m.memory.size ∧ sizeAt + 4 ≤ m.memory.size) ∧
      m' = m.announcing countAt sizeAt texts := by
  have hsame : totalSize (fun text => text.utf8ByteSize + 1) texts = joinedSize texts := rfl
  rw [storeTextSizes, hsame]
  constructor
  · intro h
    obtain ⟨count, _, hword, hthen⟩ := exists_of_bind h
    obtain ⟨hcount, rfl, rfl⟩ := word_ok hword
    obtain ⟨_, _, hstore, hrest⟩ := exists_of_bind hthen
    have hcountAt := le_of_storeWord_ok hstore
    obtain rfl := storeWord_ok hstore
    obtain ⟨size, _, hword', hlast⟩ := exists_of_bind hrest
    obtain ⟨hsize, rfl, rfl⟩ := word_ok hword'
    have hsizeAt := le_of_storeWord_ok hlast
    rw [Memory.size_putWord] at hsizeAt
    exact ⟨⟨hcount, hsize, hcountAt, hsizeAt⟩, storeWord_ok hlast⟩
  · rintro ⟨⟨hcount, hsize, hcountAt, hsizeAt⟩, rfl⟩
    rw [word_eq hcount, pure_bind, run_bind_of_ok (storeWord_eq hcountAt), word_eq hsize, pure_bind]
    exact storeWord_eq hsizeAt

/-- A memory has room for a table of so many entries and for a buffer of so many bytes, which lie
apart from each other. It has no more bytes than there are addresses. -/
structure HasRoom (memory : Memory) (table count buffer size : Nat) : Prop where
  wellFormed : memory.WellFormed
  addresses : memory.size ≤ UInt32.size
  table_le : table + 4 * count ≤ memory.size
  buffer_le : buffer + size ≤ memory.size
  apart : table + 4 * count ≤ buffer ∨ buffer + size ≤ table

/-- The code that a call returns which lays texts out: zero, unless there are texts and no address
follows the last one. -/
def layoutCode (texts : List String) (buffer : Nat) : Nat :=
  if texts = [] ∨ buffer + joinedSize texts < UInt32.size then 0 else Errno.fault.number

theorem perform_layout (source : TextSource) {m : Machine} {table buffer : UInt32}
    (h : HasRoom m.memory table.toNat (source.texts m.guest).length buffer.toNat
      (joinedSize (source.texts m.guest))) :
    perform (source.getCall table buffer) m =
      (.returned (layoutCode (source.texts m.guest) buffer.toNat),
        { m with memory :=
          layTexts table.toNat buffer.toNat (source.texts m.guest) m.memory }) := by
  have htable : table.toNat + 4 * (0 + (source.texts m.guest).length) ≤ m.memory.size := by
    rw [Nat.zero_add]
    exact h.table_le
  have hrun := storeTexts_eq h.addresses htable h.buffer_le
  rw [layoutCode]
  by_cases hend : source.texts m.guest = [] ∨
      buffer.toNat + joinedSize (source.texts m.guest) < UInt32.size
  · rw [if_pos hend] at hrun ⊢
    exact source.perform_getCall_of_ok hrun
  · rw [if_neg hend] at hrun ⊢
    exact perform_of_error (source.memoryStep_getCall.trans hrun)

/-- If a module is told how many texts there are and how many bytes they take, then these are the
numbers it needs: as long as its guest offers the same texts, they are laid out wherever there is
room for a table with so many entries and for a buffer of so many bytes. The call returns zero,
except that it reports a fault for a buffer that ends where the addresses end. -/
theorem texts_laid_out (source : TextSource) {m announced : Machine} {countAt sizeAt : UInt32}
    (hm : m.memory.WellFormed)
    (hsizes : perform (source.sizesCall countAt sizeAt) m = (.returned 0, announced)) :
    let texts := source.texts m.guest
    announced = m.announcing countAt.toNat sizeAt.toNat texts ∧
      announced.memory.word sizeAt.toNat = joinedSize texts ∧
      (countAt.toNat + 4 ≤ sizeAt.toNat ∨ sizeAt.toNat + 4 ≤ countAt.toNat →
        announced.memory.word countAt.toNat = texts.length) ∧
      ∀ (later : Machine) (table buffer : UInt32), source.texts later.guest = texts →
        HasRoom later.memory table.toNat texts.length buffer.toNat (joinedSize texts) →
        ∃ memory, LaidOut texts table.toNat buffer.toNat later.memory memory ∧
          perform (source.getCall table buffer) later =
            (.returned (layoutCode texts buffer.toNat), ⟨memory, later.guest⟩) := by
  intro texts
  obtain ⟨⟨hcount, hsize, -⟩, rfl⟩ := storeTextSizes_ok_iff.1 (source.sizesCall_ok_iff.1 hsizes)
  have hwf := hm.putWord countAt.toNat texts.length
  refine ⟨rfl, hwf.word_putWord_self _ hsize, ?_, ?_⟩
  · intro hapart
    rw [Machine.announcing, hwf.word_putWord_of_apart hapart.symm, hm.word_putWord_self _ hcount]
  · intro later table buffer hsame h
    refine ⟨_, laidOut_layTexts h.wellFormed (h.buffer_le.trans h.addresses) h.apart, ?_⟩
    rw [← hsame] at h ⊢
    exact perform_layout source h

/-- An environment of one entry is laid out at the very end of a memory of one page. -/
theorem texts_laid_out_environment :
    let m : Machine := ⟨.ofPages 1, .start [] {} [] [("k", "v")] [] .zeros⟩
    let announced := m.announcing 0 4 ["k=v"]
    perform (.environSizesGet 0 4) m = (.returned 0, announced) ∧
      HasRoom announced.memory 8 1 65532 4 ∧
      ∃ memory, LaidOut ["k=v"] 8 65532 announced.memory memory ∧
        perform (.environGet 8 65532) announced = (.returned 0, ⟨memory, m.guest⟩) := by
  intro m announced
  have hm : m.memory.WellFormed := Memory.wellFormed_ofPages 1
  have hsizes : perform (TextSource.environment.sizesCall 0 4) m = (.returned 0, announced) :=
    TextSource.environment.sizesCall_ok_iff.2 (storeTextSizes_ok_iff.2 ⟨by decide, rfl⟩)
  have hroom : HasRoom announced.memory 8 1 65532 4 :=
    ⟨(hm.putWord 0 1).putWord 4 4, by decide, by decide, by decide, by decide⟩
  obtain ⟨-, -, -, hlaid⟩ := texts_laid_out .environment hm hsizes
  obtain ⟨memory, hmemory, hget⟩ := hlaid announced 8 65532 rfl hroom
  exact ⟨hsizes, hroom, memory, hmemory, hget⟩

/-- In a memory that has all addresses there is room for a text at their end, in as many bytes as
were announced, and yet laying it out is a fault. -/
theorem layout_fault_at_last_address :
    let m : Machine := ⟨.ofPages Wasm.maxPages, .start [] {} ["a"] [] [] .zeros⟩
    let announced := m.announcing 0 4 ["a"]
    perform (.argsSizesGet 0 4) m = (.returned 0, announced) ∧
      announced.memory.word 0 = 1 ∧ announced.memory.word 4 = 2 ∧
      HasRoom announced.memory 8 1 4294967294 2 ∧
      (perform (.argsGet 8 4294967294) announced).1 = .returned Errno.fault.number := by
  intro m announced
  have hm : m.memory.WellFormed := Memory.wellFormed_ofPages Wasm.maxPages
  have hsizes : perform (TextSource.arguments.sizesCall 0 4) m = (.returned 0, announced) :=
    TextSource.arguments.sizesCall_ok_iff.2 (storeTextSizes_ok_iff.2 ⟨by decide, rfl⟩)
  have hroom : HasRoom announced.memory 8 1 4294967294 2 :=
    ⟨(hm.putWord 0 1).putWord 4 2, by decide, by decide, by decide, by decide⟩
  have hget := @perform_layout .arguments announced 8 4294967294 hroom
  refine ⟨hsizes, ?_, (hm.putWord 0 1).word_putWord_self 4 (by decide), hroom, ?_⟩
  · exact ((hm.putWord 0 1).word_putWord_of_apart (.inr (by decide))).trans
      (hm.word_putWord_self 0 (by decide))
  · exact congrArg Prod.fst hget

end StagedSandbox.Wasi
