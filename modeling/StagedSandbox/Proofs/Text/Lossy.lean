import Mathlib.Data.List.Basic
import StagedSandbox.Proofs.Text.Form

/-!
# Lossy reading and streams

A byte sequence is read one encoding after the other, and one replacement character stands for
each maximal ill-formed part (`Utf8.Reads`). `Utf8.lossy` is the only such reading
(`reads_iff`). A stream that is decoded in chunks is read as the whole sequence is, whatever the
chunks, and between chunks no more than the beginning of one character is held back
(`decodeChunks_finish`).
-/

namespace StagedSandbox.Text.Utf8

/-! ### Readings -/

/-- The longest part at the start of a sequence that begins a character which the sequence does not
complete, or a single byte that begins none. -/
structure IllFormedPart (part rest : List UInt8) : Prop where
  /-- No character is encoded at the start of the sequence. -/
  unreadable : ∀ c, ¬ String.utf8EncodeChar c <+: part ++ rest
  begins : Begins part ∨ part.length = 1
  maximal : ∀ longer, longer <+: part ++ rest → Begins longer → longer.length ≤ part.length

/-- The text that a byte sequence stands for. -/
inductive Reads : List UInt8 → List Char → Prop where
  | nil : Reads [] []
  | char (c : Char) {rest : List UInt8} {text : List Char} :
    Reads rest text → Reads (String.utf8EncodeChar c ++ rest) (c :: text)
  | illFormed {part rest : List UInt8} {text : List Char} :
    IllFormedPart part rest → Reads rest text → Reads (part ++ rest) (replacement :: text)

theorem IllFormedPart.ne_nil {part rest : List UInt8} (h : IllFormedPart part rest) :
    part ≠ [] := by
  rcases h.begins with hbegins | hlength
  · exact hbegins.1
  · rintro rfl
    simp at hlength

/-! ### Taking in bytes -/

theorem extend_of_start {taken : List UInt8} {b : UInt8} (h : form (taken ++ [b]) = .start)
    (rest : List UInt8) : extend taken (b :: rest) = extend (taken ++ [b]) rest := by
  rw [extend, h]

theorem extend_of_char {taken : List UInt8} {b : UInt8} {c : Char}
    (h : form (taken ++ [b]) = .char c) (rest : List UInt8) :
    extend taken (b :: rest) = (taken.length + 1, c) := by
  rw [extend, h]

theorem extend_of_illFormed {taken : List UInt8} {b : UInt8}
    (h : form (taken ++ [b]) = .illFormed) (rest : List UInt8) :
    extend taken (b :: rest) = (max 1 taken.length, replacement) := by
  rw [extend, h]

/-- All bytes of a beginning are taken in. -/
theorem extend_append {taken more : List UInt8} (h : more ≠ [] → Begins (taken ++ more))
    (rest : List UInt8) : extend taken (more ++ rest) = extend (taken ++ more) rest := by
  induction more generalizing taken with
  | nil => simp
  | cons b more ih =>
    have hbegins : Begins ((taken ++ [b]) ++ more) := by
      simpa using h (by simp)
    have hstart : form (taken ++ [b]) = .start :=
      form_eq_start_iff.2 (hbegins.of_append (by simp))
    rw [List.cons_append, extend_of_start hstart, ih fun _ => hbegins]
    simp

theorem lossy_nil : lossy [] = [] := by
  rw [lossy]

theorem lossy_of_extend {part : List UInt8} {c : Char} (rest : List UInt8) (hne : part ≠ [])
    (h : extend [] (part ++ rest) = (part.length, c)) : lossy (part ++ rest) = c :: lossy rest := by
  obtain ⟨b, more, rfl⟩ := List.exists_cons_of_ne_nil hne
  rw [List.cons_append] at h ⊢
  rw [lossy, h]
  simp

theorem lossy_encode_append (c : Char) (rest : List UInt8) :
    lossy (String.utf8EncodeChar c ++ rest) = c :: lossy rest := by
  have hne : String.utf8EncodeChar c ≠ [] := String.utf8EncodeChar_ne_nil
  apply lossy_of_extend rest hne
  have hsplit := List.dropLast_append_getLast hne
  generalize (String.utf8EncodeChar c).dropLast = before at hsplit
  generalize (String.utf8EncodeChar c).getLast hne = last at hsplit
  have hchar : form (before ++ [last]) = .char c := form_eq_char_iff.2 hsplit
  rw [← hsplit, List.append_assoc, extend_append, List.nil_append, List.singleton_append,
    extend_of_char hchar]
  · simp
  · intro hbefore
    exact ⟨hbefore, c, [last], by simp, hsplit⟩

/-- Neither an encoding nor a longer beginning stands where a maximal part ends. -/
theorem IllFormedPart.form_concat {part rest : List UInt8} {b : UInt8}
    (h : IllFormedPart part (b :: rest)) : form (part ++ [b]) = .illFormed := by
  have hprefix : part ++ [b] <+: part ++ b :: rest := ⟨rest, by simp⟩
  cases hform : form (part ++ [b]) with
  | char c => exact absurd (form_eq_char_iff.1 hform ▸ hprefix) (h.unreadable c)
  | start =>
    have hlonger := h.maximal _ hprefix (form_eq_start_iff.1 hform)
    rw [List.length_append] at hlonger
    exact absurd hlonger (Nat.not_succ_le_self _)
  | illFormed => rfl

theorem lossy_of_illFormedPart {part rest : List UInt8} (h : IllFormedPart part rest) :
    lossy (part ++ rest) = replacement :: lossy rest := by
  apply lossy_of_extend rest h.ne_nil
  by_cases hbegins : Begins part
  · rw [extend_append (by simpa using fun _ => hbegins), List.nil_append]
    cases rest with
    | nil => rfl
    | cons b rest =>
      have hpos := List.length_pos_of_ne_nil h.ne_nil
      rw [extend_of_illFormed h.form_concat, Nat.max_eq_right hpos]
  · obtain ⟨b, rfl⟩ := List.length_eq_one_iff.1 (h.begins.resolve_left hbegins)
    cases hform : form [b] with
    | char c =>
      have hprefix : [b] <+: [b] ++ rest := List.prefix_append [b] rest
      exact absurd (form_eq_char_iff.1 hform ▸ hprefix) (h.unreadable c)
    | start => exact absurd (form_eq_start_iff.1 hform) hbegins
    | illFormed => exact extend_of_illFormed hform rest

/-! ### Ill-formed parts -/

/-- A beginning is a maximal ill-formed part if the next byte, if any, breaks its form. -/
theorem illFormedPart_of_begins {taken rest : List UInt8} (htaken : Begins taken)
    (h : ∀ b more, rest = b :: more → form (taken ++ [b]) = .illFormed) :
    IllFormedPart taken rest := by
  have hwithin : ∀ longer, longer <+: taken ++ rest → form longer ≠ .illFormed →
      longer <+: taken := by
    intro longer hprefix hform
    rcases Nat.lt_or_ge taken.length longer.length with hlength | hlength
    · cases rest with
      | nil => simpa using hprefix
      | cons b more =>
        have hnext : taken ++ [b] <+: taken ++ b :: more := ⟨more, by simp⟩
        have hbreak : taken ++ [b] <+: longer := by
          apply List.prefix_of_prefix_length_le hnext hprefix
          rw [List.length_append]
          exact hlength
        exact absurd (h b more rfl) (form_of_isPrefix hbreak (by simp) hform)
    · exact List.prefix_of_prefix_length_le hprefix (List.prefix_append taken rest) hlength
  refine ⟨?_, Or.inl htaken, ?_⟩
  · intro c hprefix
    obtain ⟨more, rfl⟩ := hwithin _ hprefix (by simp [(form_utf8EncodeChar c).1])
    exact not_begins_encode c (htaken.of_append String.utf8EncodeChar_ne_nil)
  · intro longer hprefix hlonger
    exact (hwithin longer hprefix (by simp [form_eq_start_iff.2 hlonger])).length_le

/-- A byte that begins no character is a maximal ill-formed part. -/
theorem illFormedPart_singleton {b : UInt8} (h : form [b] = .illFormed) (rest : List UInt8) :
    IllFormedPart [b] rest := by
  have hbroken : ∀ longer, longer ≠ [] → longer <+: [b] ++ rest → form longer = .illFormed := by
    intro longer hne hprefix
    have hbreak : [b] <+: longer := by
      apply List.prefix_of_prefix_length_le (List.prefix_append [b] rest) hprefix
      exact List.length_pos_of_ne_nil hne
    by_contra hform
    exact form_of_isPrefix hbreak (by simp) hform h
  refine ⟨?_, Or.inr rfl, ?_⟩
  · intro c hprefix
    have hform := hbroken _ String.utf8EncodeChar_ne_nil hprefix
    rw [(form_utf8EncodeChar c).1] at hform
    cases hform
  · intro longer hprefix hlonger
    have hform := hbroken longer hlonger.1 hprefix
    rw [form_eq_start_iff.2 hlonger] at hform
    cases hform

/-! ### The only reading -/

theorem lossy_of_reads {bytes : List UInt8} {text : List Char} (h : Reads bytes text) :
    lossy bytes = text := by
  induction h with
  | nil => exact lossy_nil
  | char c _ ih => rw [lossy_encode_append, ih]
  | illFormed hpart _ ih => rw [lossy_of_illFormedPart hpart, ih]

/-- A beginning is continued to the encoding of a character, or it starts an ill-formed part. -/
theorem exists_part_of_begins {taken : List UInt8} (h : Begins taken) (rest : List UInt8) :
    (∃ c after, String.utf8EncodeChar c ++ after = taken ++ rest) ∨
      ∃ part after, part ++ after = taken ++ rest ∧ IllFormedPart part after := by
  induction rest generalizing taken with
  | nil =>
    refine Or.inr ⟨taken, [], rfl, illFormedPart_of_begins h ?_⟩
    intro b more hrest
    cases hrest
  | cons b rest ih =>
    have happend : (taken ++ [b]) ++ rest = taken ++ b :: rest := by simp
    cases hform : form (taken ++ [b]) with
    | char c =>
      rw [form_eq_char_iff.1 hform] at happend
      exact Or.inl ⟨c, rest, happend⟩
    | start =>
      rw [← happend]
      exact ih (form_eq_start_iff.1 hform)
    | illFormed =>
      refine Or.inr ⟨taken, b :: rest, rfl, illFormedPart_of_begins h ?_⟩
      intro b' more hrest
      obtain ⟨rfl, -⟩ := List.cons.inj hrest
      exact hform

theorem exists_part (b : UInt8) (rest : List UInt8) :
    (∃ c after, String.utf8EncodeChar c ++ after = b :: rest) ∨
      ∃ part after, part ++ after = b :: rest ∧ IllFormedPart part after := by
  cases hform : form [b] with
  | char c => exact Or.inl ⟨c, rest, by rw [← form_eq_char_iff.1 hform]; rfl⟩
  | start => exact exists_part_of_begins (form_eq_start_iff.1 hform) rest
  | illFormed => exact Or.inr ⟨[b], rest, rfl, illFormedPart_singleton hform rest⟩

/-- Every byte sequence can be read. -/
theorem reads_lossy (bytes : List UInt8) : Reads bytes (lossy bytes) := by
  induction hlength : bytes.length using Nat.strongRecOn generalizing bytes with
  | _ n ih =>
    cases bytes with
    | nil =>
      rw [lossy_nil]
      exact .nil
    | cons b rest =>
      rcases exists_part b rest with ⟨c, after, happend⟩ | ⟨part, after, happend, hpart⟩
      · have hpos := List.length_pos_of_ne_nil (String.utf8EncodeChar_ne_nil (c := c))
        rw [← happend, List.length_append] at hlength
        rw [← happend, lossy_encode_append]
        exact .char c (ih after.length (by omega) after rfl)
      · have hpos := List.length_pos_of_ne_nil hpart.ne_nil
        rw [← happend, List.length_append] at hlength
        rw [← happend, lossy_of_illFormedPart hpart]
        exact .illFormed hpart (ih after.length (by omega) after rfl)

theorem reads_iff {bytes : List UInt8} {text : List Char} :
    Reads bytes text ↔ text = lossy bytes := by
  constructor
  · intro h
    exact (lossy_of_reads h).symm
  · rintro rfl
    exact reads_lossy bytes

/-! ### Streams -/

/-- What may be held back: nothing, or the beginning of a character. -/
def Holds (held : List UInt8) : Prop := held = [] ∨ Begins held

/-- What is held back is short, and a proper beginning of the encoding of a character that takes
more than one byte. -/
theorem Holds.proper {held : List UInt8} (h : Holds held) :
    held.length ≤ 3 ∧ ∃ c, 1 < (String.utf8EncodeChar c).length ∧
      held <+: String.utf8EncodeChar c ∧ held ≠ String.utf8EncodeChar c := by
  rcases h with rfl | hbegins
  · exact ⟨by simp, replacement, by decide, List.nil_prefix, by decide⟩
  · refine ⟨hbegins.length_le, ?_⟩
    obtain ⟨hne, c, more, hmore, happend⟩ := hbegins
    have hpos := List.length_pos_of_ne_nil hne
    have hpos' := List.length_pos_of_ne_nil hmore
    refine ⟨c, ?_, ⟨more, happend⟩, ?_⟩
    · rw [← happend, List.length_append]
      omega
    · intro heq
      rw [heq] at happend
      exact hmore (List.append_cancel_left (happend.trans (List.append_nil _).symm))

/-- A byte is read together with those held back, or is held back itself. -/
theorem lossy_feed {held : List UInt8} (h : Holds held) (b : UInt8) (rest : List UInt8) :
    Holds (Decoder.feed ⟨[], held⟩ b).held ∧
      lossy (held ++ b :: rest) = (Decoder.feed ⟨[], held⟩ b).read.reverse ++
        lossy ((Decoder.feed ⟨[], held⟩ b).held ++ rest) := by
  have happend : held ++ b :: rest = (held ++ [b]) ++ rest := by simp
  rw [Decoder.feed]
  cases hform : form (held ++ [b]) with
  | char c =>
    refine ⟨Or.inl rfl, ?_⟩
    rw [happend, form_eq_char_iff.1 hform, lossy_encode_append]
    rfl
  | start =>
    refine ⟨Or.inr (form_eq_start_iff.1 hform), ?_⟩
    rw [happend]
    rfl
  | illFormed =>
    cases held with
    | nil =>
      refine ⟨Or.inl rfl, ?_⟩
      exact lossy_of_illFormedPart (illFormedPart_singleton hform rest)
    | cons first more =>
      have hpart : IllFormedPart (first :: more) (b :: rest) := by
        apply illFormedPart_of_begins (h.resolve_left (by simp))
        intro b' more' hrest
        obtain ⟨rfl, -⟩ := List.cons.inj hrest
        exact hform
      rw [lossy_of_illFormedPart hpart]
      -- the byte that breaks the form is read on its own
      cases hlone : form [b] with
      | char c =>
        refine ⟨Or.inl rfl, ?_⟩
        have hencode := lossy_encode_append c rest
        rw [← form_eq_char_iff.1 hlone] at hencode
        exact congrArg (replacement :: ·) hencode
      | start => exact ⟨Or.inr (form_eq_start_iff.1 hlone), rfl⟩
      | illFormed =>
        refine ⟨Or.inl rfl, ?_⟩
        have hbyte := lossy_of_illFormedPart (illFormedPart_singleton hlone rest)
        exact congrArg (replacement :: ·) hbyte

theorem lossy_feed_append {held : List UInt8} (h : Holds held) (chunk rest : List UInt8) :
    Holds (feed held chunk).2 ∧
      lossy (held ++ (chunk ++ rest)) =
        (feed held chunk).1 ++ lossy ((feed held chunk).2 ++ rest) := by
  induction chunk generalizing held with
  | nil => exact ⟨h, rfl⟩
  | cons b chunk ih =>
    obtain ⟨hfed, hread⟩ := lossy_feed h b (chunk ++ rest)
    obtain ⟨hdecoded, hrest⟩ := ih hfed
    rw [← List.singleton_append, feed_append]
    refine ⟨hdecoded, ?_⟩
    rw [List.append_assoc, List.singleton_append, hread, hrest, List.append_assoc]
    rfl

/-- A beginning of a character is held back as it is. -/
theorem feed_of_begins {taken more : List UInt8} (h : more ≠ [] → Begins (taken ++ more))
    (rest : List UInt8) : feed taken (more ++ rest) = feed (taken ++ more) rest := by
  induction more generalizing taken with
  | nil => simp
  | cons b more ih =>
    have hbegins : Begins ((taken ++ [b]) ++ more) := by
      simpa using h (by simp)
    have hstart : form (taken ++ [b]) = .start :=
      form_eq_start_iff.2 (hbegins.of_append (by simp))
    rw [List.cons_append, feed_of_start taken hstart, ih fun _ => hbegins]
    simp

/-- What is held back need not be read again. -/
theorem decode_eq_feed {held : List UInt8} (h : Holds held) (chunk : List UInt8) :
    decode held chunk = feed held chunk := by
  rw [decode_eq_feed_append]
  refine feed_of_begins (fun hne => ?_) chunk
  rw [List.nil_append]
  exact h.resolve_left hne

theorem decode_nil {held : List UInt8} (h : Holds held) : decode held [] = ([], held) := by
  rw [decode_eq_feed h]
  rfl

/-- Whatever was held back before, what is held back afterwards begins a character. -/
theorem holds_decode (held chunk : List UInt8) : Holds (decode held chunk).2 := by
  rw [decode_eq_feed_append]
  exact (lossy_feed_append (Or.inl rfl) (held ++ chunk) []).1

/-- Two pieces decoded one after the other give what they give as one. -/
theorem decode_append (held first second : List UInt8) :
    decode held (first ++ second) =
      ((decode held first).1 ++ (decode (decode held first).2 second).1,
        (decode (decode held first).2 second).2) := by
  rw [decode_eq_feed (holds_decode held first), decode_eq_feed_append, decode_eq_feed_append,
    ← List.append_assoc, feed_append]

/-- What a chunk completes and what it leaves to be held back. -/
theorem lossy_decode {held : List UInt8} (h : Holds held) (chunk rest : List UInt8) :
    Holds (decode held chunk).2 ∧
      lossy (held ++ (chunk ++ rest)) =
        (decode held chunk).1 ++ lossy ((decode held chunk).2 ++ rest) := by
  rw [decode_eq_feed h]
  exact lossy_feed_append h chunk rest

/-- Feed chunks to a decoder that holds some bytes back. Answers the text of each chunk, and what
is held back at the end. -/
def decodeChunks (held : List UInt8) : List (List UInt8) → List (List Char) × List UInt8
  | [] => ([], held)
  | chunk :: rest =>
    let (text, held) := decode held chunk
    let (texts, held) := decodeChunks held rest
    (text :: texts, held)

theorem lossy_decodeChunks {held : List UInt8} (h : Holds held) (chunks : List (List UInt8)) :
    Holds (decodeChunks held chunks).2 ∧
      lossy (held ++ chunks.flatten) =
        (decodeChunks held chunks).1.flatten ++ finish (decodeChunks held chunks).2 := by
  induction chunks generalizing held with
  | nil =>
    refine ⟨h, ?_⟩
    rw [List.flatten_nil, List.append_nil]
    rfl
  | cons chunk rest ih =>
    obtain ⟨hdecoded, hread⟩ := lossy_decode h chunk rest.flatten
    obtain ⟨hholds, hrest⟩ := ih hdecoded
    refine ⟨hholds, ?_⟩
    rw [List.flatten_cons, hread, hrest, ← List.append_assoc]
    rfl

/-- However a byte sequence is cut into chunks, the texts of the chunks and of what is held back at
the end are together the one text that the sequence stands for; and after each chunk at most three
bytes are held back, which begin a character of several bytes and do not complete it. -/
theorem decodeChunks_finish (chunks : List (List UInt8)) :
    (decodeChunks [] chunks).1.flatten ++ finish (decodeChunks [] chunks).2 =
        lossy chunks.flatten ∧
      (∀ text, Reads chunks.flatten text ↔
        text = (decodeChunks [] chunks).1.flatten ++ finish (decodeChunks [] chunks).2) ∧
      ∀ done, done <+: chunks →
        (decodeChunks [] done).2.length ≤ 3 ∧
          ∃ c, 1 < (String.utf8EncodeChar c).length ∧
            (decodeChunks [] done).2 <+: String.utf8EncodeChar c ∧
            (decodeChunks [] done).2 ≠ String.utf8EncodeChar c := by
  have htext : (decodeChunks [] chunks).1.flatten ++ finish (decodeChunks [] chunks).2 =
      lossy chunks.flatten := (lossy_decodeChunks (Or.inl rfl) chunks).2.symm
  refine ⟨htext, ?_, ?_⟩
  · intro text
    rw [htext]
    exact reads_iff
  · intro done _
    exact (lossy_decodeChunks (Or.inl rfl) done).1.proper

/-- A character of four bytes that is cut in three, and one that is never completed. -/
example : decodeChunks [] [[0xf0], [0x9f, 0x98], [], [0x80, 0xe2, 0x82]] =
    ([[], [], [], ['😀']], [0xe2, 0x82]) := by decide +kernel

end StagedSandbox.Text.Utf8
