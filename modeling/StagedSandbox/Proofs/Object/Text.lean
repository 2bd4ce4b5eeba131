import StagedSandbox.Object.Text
import StagedSandbox.Proofs.Text.Numeral
import StagedSandbox.Proofs.Text.Split

/-!
# Object files are read back

The operations of an object file are the operations of its written form, in order, whatever bytes
they write and whatever the path of the source, as long as that path is one line.
-/

namespace StagedSandbox

namespace Text

/-! ### Characters of written numbers and bytes -/

theorem isBlank_of_isDigit {c : Char} (h : c.isDigit = true) : isBlank c = false := by
  obtain ⟨hlow, hhigh⟩ := Char.isDigit_iff_toNat.1 h
  have hlow : 48 ≤ c.toNat := hlow
  have hhigh : c.toNat ≤ 57 := hhigh
  simp only [isBlank, Bool.or_eq_false_iff, Bool.and_eq_false_iff, decide_eq_false_iff_not,
    beq_eq_false_iff_ne]
  omega

theorem mem_signed {n : Int} {c : Char} (h : c ∈ (signed n).toList) :
    c = '-' ∨ c.isDigit = true := by
  cases n with
  | ofNat n => exact .inr (isDigit_of_mem_decimal h)
  | negSucc n =>
    rw [signed, String.toList_append] at h
    obtain h | h := List.mem_append.1 h
    · exact .inl (by simpa using h)
    · exact .inr (isDigit_of_mem_decimal h)

theorem signed_ne_nil (n : Int) : (signed n).toList ≠ [] := by
  cases n with
  | ofNat n => exact decimal_ne_nil n
  | negSucc n => simp [signed]

theorem isBlank_of_mem_signed {n : Int} {c : Char} (h : c ∈ (signed n).toList) :
    isBlank c = false := by
  obtain rfl | h := mem_signed h
  · decide
  · exact isBlank_of_isDigit h

theorem isBlank_of_mem_encode {bytes : List UInt8} {c : Char} (h : c ∈ Hex.encode bytes) :
    isBlank c = false := by
  have hdigit : ∀ n : Fin 16, isBlank (Hex.digit n) = false := by decide
  obtain ⟨n, hn, rfl⟩ := Hex.mem_encode h
  exact hdigit ⟨n, hn⟩

theorem encode_ne_nil {bytes : List UInt8} (h : bytes ≠ []) : Hex.encode bytes ≠ [] := by
  cases bytes with
  | nil => exact absurd rfl h
  | cons b rest => simp

/-- A keyword and an argument without blanks are not trimmed. -/
theorem trim_keyword {c : Char} (keyword : List Char) {argument : List Char}
    (hc : isBlank c = false) (hne : argument ≠ []) (h : ∀ d ∈ argument, isBlank d = false) :
    trim (c :: keyword ++ ' ' :: argument) = c :: keyword ++ ' ' :: argument := by
  refine trim_of_ends (fun d hd => ?_) fun d hd => h d ?_
  · obtain rfl : c = d := by simpa using hd
    exact hc
  · rw [List.getLast?_append_of_ne_nil _ (by simp), List.getLast?_cons_of_ne_nil hne] at hd
    exact List.mem_of_getLast? hd

end Text

namespace Op

/-! ### Lines of operations -/

theorem splitFirst?_keyword {keyword : List Char} (argument : List Char)
    (h : ∀ c ∈ keyword, decide (c = ' ') = false) :
    Text.splitFirst? (· = ' ') (keyword ++ ' ' :: argument) = some (keyword, argument) :=
  Text.splitFirst?_append_cons rfl h argument

theorem trim_render_exit (code : Int32) :
    Text.trim (Op.exit code).render = "exit".toList ++ ' ' :: (Text.signed code.toInt).toList :=
  Text.trim_keyword "xit".toList (by decide) (Text.signed_ne_nil _)
    fun _ => Text.isBlank_of_mem_signed

theorem trim_render_write {data : Bytes} (h : data.list ≠ []) :
    Text.trim (Op.write data).render = "write".toList ++ ' ' :: Text.Hex.encode data.list :=
  Text.trim_keyword "rite".toList (by decide) (Text.encode_ne_nil h)
    fun _ => Text.isBlank_of_mem_encode

/-- A write of nothing loses the blank after its keyword. -/
theorem trim_render_write_empty : Text.trim (Op.write ByteArray.empty).render = "write".toList :=
  rfl

/-- Reading the line of an operation gives the operation. -/
theorem parse_trim_render (op : Op) : Op.parse (Text.trim op.render) = .ok op := by
  cases op with
  | abort => rfl
  | exit code =>
    rw [trim_render_exit, Op.parse, splitFirst?_keyword _ (by simp)]
    simp [Text.Integer.read_signed_toInt]
  | write data =>
    by_cases hempty : data.list = []
    · obtain rfl : data = ByteArray.empty := Bytes.list_inj.1 hempty
      rw [trim_render_write_empty]
      rfl
    · rw [trim_render_write hempty, Op.parse, splitFirst?_keyword _ (by simp)]
      simp [Text.Hex.decode_ofText_encode, Bytes.ofList_list]

/-- The line of an operation begins with a letter, so it is no comment. -/
theorem trim_render_eq_cons (op : Op) : ∃ c rest, Text.trim op.render = c :: rest ∧ c ≠ ';' := by
  cases op with
  | abort => exact ⟨_, _, rfl, by decide⟩
  | exit code => exact ⟨'e', _, trim_render_exit code, by decide⟩
  | write data =>
    by_cases hempty : data.list = []
    · obtain rfl : data = ByteArray.empty := Bytes.list_inj.1 hempty
      exact ⟨'w', _, trim_render_write_empty, by decide⟩
    · exact ⟨'w', _, trim_render_write hempty, by decide⟩

theorem isBlank_of_mem_keyword {keyword : String}
    (hkeyword : keyword ∈ ["write ", "exit ", "abort"]) {c : Char} (h : c ∈ keyword.toList)
    (hc : c ≠ ' ') : Text.isBlank c = false := by
  have hall : ∀ keyword ∈ ["write ", "exit ", "abort"],
      (keyword.toList.all fun c => c = ' ' || !Text.isBlank c) = true := by decide
  have hblank := List.all_eq_true.1 (hall keyword hkeyword) c h
  simpa [hc] using hblank

/-- The only blanks in the line of an operation are spaces. -/
theorem isBlank_of_mem_render {op : Op} {c : Char} (h : c ∈ op.render) (hc : c ≠ ' ') :
    Text.isBlank c = false := by
  cases op with
  | abort => exact isBlank_of_mem_keyword (by simp) h hc
  | exit code =>
    obtain h | h := List.mem_append.1 h
    · exact isBlank_of_mem_keyword (by simp) h hc
    · exact Text.isBlank_of_mem_signed h
  | write data =>
    obtain h | h := List.mem_append.1 h
    · exact isBlank_of_mem_keyword (by simp) h hc
    · exact Text.isBlank_of_mem_encode h

theorem lineBreak_not_mem_render (op : Op) : '\n' ∉ op.render := fun h =>
  absurd (isBlank_of_mem_render h (by decide)) (by decide)

theorem dropReturn_render (op : Op) : Text.dropReturn op.render = op.render :=
  Text.dropReturn_of_not_mem fun h => absurd (isBlank_of_mem_render h (by decide)) (by decide)

end Op

namespace ObjectFile

/-! ### Whole object files -/

/-- Reading the lines of operations adds the operations. -/
theorem readLines_render (number : Nat) (source : Option String) (before ops : List Op) :
    readLines number source before (ops.map Op.render) = .ok ⟨source, before.reverse ++ ops⟩ := by
  induction ops generalizing number before with
  | nil => rw [List.append_nil]; rfl
  | cons op rest ih =>
    obtain ⟨c, line, htrim, hc⟩ := op.trim_render_eq_cons
    have hparse := op.parse_trim_render
    have hsource : Text.stripStart? sourceMark.toList (c :: line) = none :=
      Text.stripStart?_of_head_ne hc.symm _ _
    have hcomment : ";;".toList.isPrefixOf (c :: line) = false := by
      rw [Bool.eq_false_iff, ne_eq, List.isPrefixOf_iff_prefix]
      exact fun hunder => hc (List.cons_prefix_cons.1 hunder).1.symm
    rw [htrim] at hparse
    rw [List.map_cons, readLines, htrim]
    simp only [hsource, List.isEmpty_cons, hcomment, Bool.or_self, Bool.false_eq_true, if_false,
      hparse]
    rw [ih, List.reverse_cons, List.append_assoc, List.singleton_append]

/-- A line that begins with the mark of a comment names the source or is skipped. -/
theorem readLines_comment (number : Nat) (before : List Op) (text : List Char)
    (rest : List (List Char)) :
    ∃ source, readLines number none before ((";;".toList ++ text) :: rest) =
      readLines (number + 1) source before rest := by
  have htrim : Text.trim (";;".toList ++ text) = ";;".toList ++ Text.trimRight text :=
    (Text.trim_cons (by decide) _).trans (congrArg _ (Text.trimRight_cons (by decide) _))
  rw [readLines, htrim]
  split
  · next path hpath => exact ⟨some (String.ofList path), rfl⟩
  · next hpath =>
    refine ⟨none, ?_⟩
    rw [if_pos]
    rw [Bool.or_eq_true, List.isPrefixOf_iff_prefix]
    exact .inr (List.prefix_append _ _)

/-- The lines after the mark, as they are read, and what is read of them. -/
theorem readLines_tail (o : ObjectFile) :
    ∃ source, readLines 2 none [] ((o.renderLines.map Text.dropReturn).tail) =
      .ok ⟨source, o.ops⟩ := by
  have hops : (o.ops.map Op.render).map Text.dropReturn = o.ops.map Op.render := by
    rw [List.map_map]
    exact List.map_congr_left fun op _ => op.dropReturn_render
  cases hsource : o.source with
  | none =>
    refine ⟨none, ?_⟩
    have hlines : (o.renderLines.map Text.dropReturn).tail = o.ops.map Op.render := by
      rw [renderLines, hsource]
      exact hops
    rw [hlines, readLines_render]
    rfl
  | some path =>
    obtain ⟨source, hread⟩ := readLines_comment 2 []
      (Text.dropReturn (" source ".toList ++ path.toList)) (o.ops.map Op.render)
    refine ⟨source, ?_⟩
    have hlines : (o.renderLines.map Text.dropReturn).tail =
        (";;".toList ++ Text.dropReturn (" source ".toList ++ path.toList)) ::
          o.ops.map Op.render := by
      have hline : Text.dropReturn (sourceMark.toList ++ path.toList) =
          ";;".toList ++ Text.dropReturn (" source ".toList ++ path.toList) :=
        (Text.dropReturn_cons_cons ';' ';' _).trans
          (congrArg _ (Text.dropReturn_cons_cons ';' ' ' _))
      rw [renderLines, hsource, ← hline]
      exact congrArg _ hops
    rw [hlines, hread, readLines_render]
    rfl

/-- The operations of an object file are read back from its written form. -/
theorem parse?_render (o : ObjectFile) (h : ∀ path ∈ o.source, '\n' ∉ path.toList) :
    ∃ source, parse? (Bytes.ofText o.render) = some (.ok ⟨source, o.ops⟩) := by
  have hbreak : ∀ line ∈ o.renderLines, '\n' ∉ line := by
    intro line hline
    obtain hline | hline := List.mem_append.1 hline
    · obtain rfl | hline := List.mem_cons.1 hline
      · decide
      · obtain ⟨path, hpath, rfl⟩ := List.mem_map.1 hline
        intro hmem
        obtain hmem | hmem := List.mem_append.1 hmem
        · exact absurd hmem (by decide)
        · exact h path (Option.mem_toList.1 hpath) hmem
    · obtain ⟨op, -, rfl⟩ := List.mem_map.1 hline
      exact op.lineBreak_not_mem_render
  obtain ⟨source, hread⟩ := o.readLines_tail
  refine ⟨source, ?_⟩
  have hlines : Text.lines o.render.toList =
      mark.toList :: (o.renderLines.map Text.dropReturn).tail := by
    rw [render, String.toList_ofList, Text.lines_flatMap_line hbreak]
    rfl
  rw [parse?, Bytes.text?_ofText]
  simp only [hlines, if_true, hread]

end ObjectFile

end StagedSandbox
