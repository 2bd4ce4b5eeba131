import StagedSandbox.Memory
import StagedSandbox.Proofs.Bytes
import StagedSandbox.Proofs.Table

/-!
# Linear memory by address

What is read from a memory is its bytes at the addresses of the range (`Memory.byteAt_read`), and
storing changes the bytes in the range alone (`Memory.WellFormed.byte_put`).
-/

namespace StagedSandbox.Memory

/-- The pages that are kept are in order. -/
def WellFormed (m : Memory) : Prop := m.stored.Increasing

theorem wellFormed_ofPages (n : Nat) : (ofPages n).WellFormed := Table.increasing_nil

theorem pageSize_pos : 0 < pageSize := by decide

/-! ### The parts of a range -/

/-- Parts that follow one another from one address to another, each within its page. Positions are
counted from the start of the range. -/
def Chained (start address stop : Nat) : List Piece → Prop
  | [] => address = stop
  | p :: rest =>
    p.position + start = address ∧ p.page * pageSize + p.offset = address ∧
      p.offset + p.length ≤ pageSize ∧ Chained start (address + p.length) stop rest

theorem Chained.le {start address stop : Nat} {list : List Piece}
    (h : Chained start address stop list) : address ≤ stop := by
  induction list generalizing address with
  | nil => exact Nat.le_of_eq h
  | cons p rest ih =>
    have := ih h.2.2.2
    omega

/-- What a range has of the pages up to one of them. -/
def reached (start length page : Nat) : Nat := min (start + length) (max start (page * pageSize))

theorem chained_piece {start length page : Nat} (hfirst : start / pageSize ≤ page)
    (hlast : page * pageSize < start + length) :
    (piece start length page).position + start = reached start length page ∧
      (piece start length page).page * pageSize + (piece start length page).offset =
        reached start length page ∧
      (piece start length page).offset + (piece start length page).length ≤ pageSize ∧
      reached start length page + (piece start length page).length =
        reached start length (page + 1) := by
  have hp : pageSize = 65536 := rfl
  simp only [piece, reached]
  rw [hp] at hfirst hlast ⊢
  omega

theorem reached_first (start length : Nat) : reached start length (start / pageSize) = start := by
  have hp : pageSize = 65536 := rfl
  rw [reached]
  rw [hp]
  omega

theorem reached_last (start length : Nat) :
    reached start length (start / pageSize + pageCount start length) = start + length := by
  have hp : pageSize = 65536 := rfl
  rw [reached, pageCount]
  rw [hp]
  split <;> omega

/-- The last page of a range holds some of it. -/
theorem lastPage_lt {start length : Nat} (h : pageCount start length ≠ 0) :
    (start / pageSize + pageCount start length - 1) * pageSize < start + length := by
  have hp : pageSize = 65536 := rfl
  rw [pageCount] at h ⊢
  simp only [hp] at h ⊢
  split at h
  · exact absurd rfl h
  · next hlength =>
    simp only [hlength, if_false]
    omega

theorem chained_range' (start length count page : Nat) (hpage : start / pageSize ≤ page)
    (hlast : count ≠ 0 → (page + count - 1) * pageSize < start + length) :
    Chained start (reached start length page) (reached start length (page + count))
      ((List.range' page count).map (piece start length)) := by
  induction count generalizing page with
  | zero => rfl
  | succ count ih =>
    have hlast := hlast (Nat.succ_ne_zero count)
    have hmul : page * pageSize ≤ (page + (count + 1) - 1) * pageSize :=
      Nat.mul_le_mul_right pageSize (by omega)
    obtain ⟨hposition, hoffset, hwithin, hnext⟩ :=
      chained_piece hpage (Nat.lt_of_le_of_lt hmul hlast)
    rw [List.range'_succ, List.map_cons]
    refine ⟨hposition, hoffset, hwithin, ?_⟩
    rw [hnext, ← Nat.add_assoc, Nat.add_right_comm]
    refine ih (page + 1) (Nat.le_succ_of_le hpage) fun _ => ?_
    have hsame : page + 1 + count - 1 = page + (count + 1) - 1 := by omega
    rwa [hsame]

/-- The parts of a range cover it from its start to its end. -/
theorem chained_pieces (start length : Nat) :
    Chained start start (start + length) (pieces start length) := by
  have h := chained_range' start length (pageCount start length) (start / pageSize)
    (Nat.le_refl _) lastPage_lt
  rwa [reached_first, reached_last] at h

/-- An address within a part lies in its page. -/
theorem address_of_offset (page : Nat) {offset : Nat} (h : offset < pageSize) :
    (page * pageSize + offset) / pageSize = page ∧
      (page * pageSize + offset) % pageSize = offset := by
  have hp : pageSize = 65536 := rfl
  rw [hp] at h ⊢
  omega

/-! ### Reading -/

theorem byte_eq_byteAt (m : Memory) {page offset : Nat} (h : offset < pageSize) :
    m.byte (page * pageSize + offset) = (m.page page).byteAt offset := by
  obtain ⟨hpage, hoffset⟩ := address_of_offset page h
  rw [byte, hpage, hoffset]
  rfl

theorem read_pieces (m : Memory) {start address stop : Nat} {list : List Piece}
    (h : Chained start address stop list) (soFar : Bytes) (hsize : start + soFar.size = address)
    (hbyte : ∀ i, i < soFar.size → soFar.byteAt i = m.byte (start + i)) :
    let data := list.foldl
      (fun data p => data ++ ((m.page p.page).slice p.offset p.length).resize p.length) soFar
    start + data.size = stop ∧ ∀ i, i < data.size → data.byteAt i = m.byte (start + i) := by
  induction list generalizing address soFar with
  | nil => exact ⟨hsize.trans h, hbyte⟩
  | cons p rest ih =>
    obtain ⟨hposition, hoffset, hwithin, hrest⟩ := h
    refine ih hrest _ ?_ fun i hi => ?_
    · rw [ByteArray.size_append, Bytes.size_resize]
      omega
    · rw [ByteArray.size_append, Bytes.size_resize] at hi
      rw [Bytes.byteAt_append]
      split
      · next hold => exact hbyte i hold
      · next hnew =>
        have haddress : start + i = p.page * pageSize + (p.offset + (i - soFar.size)) := by omega
        rw [Bytes.byteAt_resize, if_pos (by omega), Bytes.byteAt_slice, if_pos (by omega), haddress,
          byte_eq_byteAt m (by omega)]

theorem size_read (m : Memory) (start length : Nat) : (m.read start length).size = length := by
  have h := (m.read_pieces (chained_pieces start length) ByteArray.empty rfl (by simp)).1
  rw [read]
  omega

theorem byteAt_read (m : Memory) {start length i : Nat} (h : i < length) :
    (m.read start length).byteAt i = m.byte (start + i) := by
  refine (m.read_pieces (chained_pieces start length) ByteArray.empty rfl (by simp)).2 i ?_
  have := m.size_read start length
  rw [read] at this
  omega

theorem list_read (m : Memory) (start length : Nat) :
    (m.read start length).list = (List.range' start length).map m.byte := by
  apply List.ext_getElem
  · rw [Bytes.length_list, size_read, List.length_map, List.length_range']
  · intro i hi hi'
    have hbyte := @byteAt_read m start length i (by rwa [Bytes.length_list, size_read] at hi)
    rw [Bytes.byteAt, List.getD_eq_getElem _ _ hi] at hbyte
    rw [hbyte, List.getElem_map, List.getElem_range', Nat.one_mul]

/-- What is read depends on the bytes in the range alone. -/
theorem read_congr {m m' : Memory} {start length : Nat}
    (h : ∀ i, i < length → m'.byte (start + i) = m.byte (start + i)) :
    m'.read start length = m.read start length := by
  refine Bytes.ext_byteAt (by rw [size_read, size_read]) fun i hi => ?_
  rw [size_read] at hi
  rw [byteAt_read _ hi, byteAt_read _ hi, h i hi]

/-- A range is read as its first part and the rest. -/
theorem read_add (m : Memory) (start first rest : Nat) :
    m.read start (first + rest) = m.read start first ++ m.read (start + first) rest := by
  refine Bytes.ext_byteAt (by simp only [ByteArray.size_append, size_read]) fun i hi => ?_
  rw [size_read] at hi
  rw [byteAt_read _ hi, Bytes.byteAt_append, size_read]
  split
  · next hfirst => rw [byteAt_read _ hfirst]
  · next hrest =>
    rw [byteAt_read _ (by omega)]
    congr 1
    omega

/-! ### Storing -/

theorem page_storePiece_self {m : Memory} (h : m.WellFormed) (data : Bytes) (p : Piece) :
    ({ m with stored := storePiece data m.stored p } : Memory).page p.page =
      (m.page p.page).overlay p.offset (data.slice p.position p.length) := by
  rw [page, storePiece]
  rw [Table.Increasing.get?_alter_self h]
  rfl

theorem page_storePiece_of_ne (m : Memory) (data : Bytes) {p : Piece} {number : Nat}
    (h : number ≠ p.page) :
    ({ m with stored := storePiece data m.stored p } : Memory).page number = m.page number := by
  unfold page storePiece
  rw [Table.get?_alter_of_ne _ _ h]

/-- Storing a part changes its addresses alone. -/
theorem byte_storePiece {m : Memory} (h : m.WellFormed) {data : Bytes} {p : Piece}
    (hwithin : p.offset + p.length ≤ pageSize) (hdata : p.position + p.length ≤ data.size)
    (address : Nat) :
    ({ m with stored := storePiece data m.stored p } : Memory).byte address =
      if p.page * pageSize + p.offset ≤ address ∧
          address < p.page * pageSize + p.offset + p.length then
        data.byteAt (p.position + (address - (p.page * pageSize + p.offset)))
      else m.byte address := by
  have haddress := Nat.div_add_mod' address pageSize
  have hmod := Nat.mod_lt address pageSize_pos
  have hsize : (data.slice p.position p.length).size = p.length := by
    rw [Bytes.size_slice]
    omega
  by_cases hpage : address / pageSize = p.page
  · have hleft : ({ m with stored := storePiece data m.stored p } : Memory).byte address =
        (({ m with stored := storePiece data m.stored p } : Memory).page p.page).byteAt
          (address % pageSize) := by rw [← hpage]; rfl
    have hright : m.byte address = (m.page p.page).byteAt (address % pageSize) := by
      rw [← hpage]
      rfl
    rw [hpage] at haddress
    rw [hleft, hright, page_storePiece_self h, Bytes.byteAt_overlay, hsize]
    by_cases hin : p.offset ≤ address % pageSize ∧ address % pageSize < p.offset + p.length
    · rw [if_pos hin, if_pos (by omega), Bytes.byteAt_slice, if_pos (by omega)]
      congr 2
      omega
    · rw [if_neg hin, if_neg (by omega)]
  · have hout : ¬ (p.page * pageSize + p.offset ≤ address ∧
        address < p.page * pageSize + p.offset + p.length) := by
      intro hin
      have hoffset : address - p.page * pageSize < pageSize := by omega
      have hsum : p.page * pageSize + (address - p.page * pageSize) = address := by omega
      have hdiv := (address_of_offset p.page hoffset).1
      rw [hsum] at hdiv
      exact hpage hdiv
    rw [if_neg hout]
    have hsame := page_storePiece_of_ne m data hpage
    unfold byte
    rw [hsame]

theorem put_pieces {m : Memory} (h : m.WellFormed) {data : Bytes} {start address : Nat}
    {list : List Piece} (hchain : Chained start address (start + data.size) list)
    (haddress : start ≤ address) :
    let left : Memory := { m with stored := list.foldl (storePiece data) m.stored }
    left.WellFormed ∧ ∀ x, left.byte x =
      if address ≤ x ∧ x < start + data.size then data.byteAt (x - start) else m.byte x := by
  induction list generalizing m address with
  | nil =>
    obtain rfl : address = start + data.size := hchain
    refine ⟨h, fun x => ?_⟩
    rw [if_neg (by omega)]
    rfl
  | cons p rest ih =>
    obtain ⟨hposition, hoffset, hwithin, hrest⟩ := hchain
    have hle := hrest.le
    have hwf : ({ m with stored := storePiece data m.stored p } : Memory).WellFormed :=
      Table.Increasing.alter h _ _
    obtain ⟨hleft, hbyte⟩ := ih hwf hrest (by omega)
    refine ⟨hleft, fun x => (hbyte x).trans ?_⟩
    rw [byte_storePiece h hwithin (by omega), hoffset]
    by_cases hlater : address + p.length ≤ x ∧ x < start + data.size
    · rw [if_pos hlater, if_pos (by omega)]
    · rw [if_neg hlater]
      by_cases hnow : address ≤ x ∧ x < address + p.length
      · rw [if_pos hnow, if_pos (by omega)]
        congr 1
        omega
      · rw [if_neg hnow, if_neg (by omega)]

theorem WellFormed.put {m : Memory} (h : m.WellFormed) (start : Nat) (data : Bytes) :
    (m.put start data).WellFormed :=
  (put_pieces h (chained_pieces start data.size) (Nat.le_refl start)).1

/-- Storing changes the bytes in the range alone. -/
theorem WellFormed.byte_put {m : Memory} (h : m.WellFormed) (start : Nat) (data : Bytes)
    (address : Nat) :
    (m.put start data).byte address =
      if start ≤ address ∧ address < start + data.size then data.byteAt (address - start)
      else m.byte address :=
  (put_pieces h (chained_pieces start data.size) (Nat.le_refl start)).2 address

/-- What was stored is read back. -/
theorem WellFormed.read_put_self {m : Memory} (h : m.WellFormed) (start : Nat) (data : Bytes) :
    (m.put start data).read start data.size = data := by
  refine Bytes.ext_byteAt (size_read _ _ _) fun i hi => ?_
  rw [size_read] at hi
  rw [byteAt_read _ hi, h.byte_put, if_pos (by omega)]
  congr 1
  omega

/-- What lies beside the range is read as before. -/
theorem WellFormed.read_put_of_apart {m : Memory} (h : m.WellFormed) {start : Nat} {data : Bytes}
    {start' length : Nat} (hapart : start + data.size ≤ start' ∨ start' + length ≤ start) :
    (m.put start data).read start' length = m.read start' length := by
  refine Bytes.ext_byteAt (by rw [size_read, size_read]) fun i hi => ?_
  rw [size_read] at hi
  rw [byteAt_read _ hi, byteAt_read _ hi, h.byte_put, if_neg (by omega)]

end StagedSandbox.Memory
