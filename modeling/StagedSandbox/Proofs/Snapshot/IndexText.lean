import StagedSandbox.Proofs.Json.Token
import StagedSandbox.Proofs.Table
import StagedSandbox.Snapshot.IndexText

/-!
# Written indexes are read back

Every index whose numbers fit words of 64 bits is read back from its written form, whatever
characters its keys hold (`Index.parse?_render`): the written form is read as tokens, these are
taken in as one object, and the entries of the object are put back in their order.
-/

namespace StagedSandbox

open Json

/-! ### Entries -/

theorem Json.Value.ofTokens?_of_foldlM {list : List Token} {v : Value}
    (h : list.foldlM Reading.step (.value []) = some (.afterValue v [])) :
    ofTokens? list = some v := by
  rw [ofTokens?, h]

namespace Entry

/-- The numbers of an entry fit words of 64 bits. -/
def Fits : Entry → Prop
  | .dir => True
  | .file offset length => offset < UInt64.size ∧ length < UInt64.size

/-- The tokens of a written entry. -/
def tokens : Entry → List Token
  | .dir => [.null]
  | .file offset length =>
    [.openArray, .number (some offset), .comma, .number (some length), .closeArray]

/-- The JSON value of an entry. -/
def toJson : Entry → Value
  | .dir => .null
  | .file offset length => .array [.number (some offset), .number (some length)]

theorem lexesTo_render (e : Entry) : LexesTo e.render e.tokens := by
  cases e with
  | dir => exact lexesTo_null
  | file offset length =>
    have hrender : (Entry.file offset length).render =
        ['['] ++ ((renderNat offset ++ [',']) ++ (renderNat length ++ [']'])) := by
      simp [render]
    rw [hrender]
    exact lexesTo_openArray.append ((lexesTo_renderNat offset (.inl rfl) lexesTo_comma).append
      (lexesTo_renderNat length (.inr rfl) lexesTo_closeArray))

/-- The tokens of an entry form its value, wherever a value may stand. -/
theorem foldlM_tokens (e : Entry) (frames : List Frame) :
    e.tokens.foldlM Reading.step (.value frames) = some (.afterValue e.toJson frames) := by
  cases e with
  | dir => rfl
  | file offset length => rfl

theorem ofJson?_toJson {e : Entry} (h : e.Fits) : ofJson? e.toJson = some e := by
  cases e with
  | dir => rfl
  | file offset length => exact if_pos h

end Entry

namespace Index

/-- The keys of an index are in order, and its numbers fit words of 64 bits. -/
structure WellFormed (index : Index) : Prop where
  order : Table.Increasing index
  fits : ∀ entry ∈ index, entry.2.Fits

/-- The tokens of a written path and entry. -/
def entryTokens (entry : String × Entry) : List Token :=
  [.text (some entry.1.toList), .colon] ++ entry.2.tokens

/-- A path and its entry, as an object holds them. -/
def entryJson (entry : String × Entry) : Json.Text × Value :=
  (some entry.1.toList, entry.2.toJson)

theorem lexesTo_renderEntry (entry : String × Entry) :
    LexesTo (renderEntry entry) (entryTokens entry) := by
  have hrender : renderEntry entry =
      (renderText entry.1.toList ++ [':']) ++ entry.2.render := by
    simp [renderEntry]
  rw [hrender]
  exact ((lexesTo_renderText _).append lexesTo_colon).append entry.2.lexesTo_render

/-- The tokens of a written index. -/
theorem tokens_render (index : Index) :
    Json.tokens index.render.toList =
      some ([.openObject] ++ [.comma].intercalate (index.map entryTokens) ++ [.closeObject]) := by
  have hlexes := (lexesTo_openObject.append
    (LexesTo.intercalate lexesTo_renderEntry index)).append lexesTo_closeObject
  rw [render, String.toList_ofList]
  exact hlexes.tokens_eq

/-! ### The object -/

theorem foldlM_entryTokens (entry : String × Entry) (before : List (Json.Text × Value))
    (frames : List Frame) :
    (entryTokens entry).foldlM Reading.step (.nextKey before frames) =
      some (.afterValue entry.2.toJson
        (.object before (some entry.1.toList) :: frames)) := by
  rw [entryTokens, List.foldlM_append]
  exact entry.2.foldlM_tokens _

/-- The tokens of entries, up to the closing brace, complete the object they stand in. -/
theorem foldlM_entries (first : String × Entry) (rest : List (String × Entry))
    (before : List (Json.Text × Value)) :
    ([Token.comma].intercalate ((first :: rest).map entryTokens) ++ [Token.closeObject]).foldlM
        Reading.step (.nextKey before []) =
      some (.afterValue (.object (before.reverse ++ (first :: rest).map entryJson)) []) := by
  induction rest generalizing first before with
  | nil =>
    have hobject : (entryJson first :: before).reverse = before.reverse ++ [first].map entryJson :=
      List.reverse_cons
    rw [List.map_singleton, List.intercalate_singleton, List.foldlM_append, foldlM_entryTokens,
      ← hobject]
    rfl
  | cons next more ih =>
    have hmore : (entryJson first :: before).reverse ++ (next :: more).map entryJson =
        before.reverse ++ (first :: next :: more).map entryJson := by simp
    rw [List.map_cons, List.map_cons, List.intercalate_cons_cons, List.append_assoc,
      List.append_assoc, List.foldlM_append, foldlM_entryTokens, ← List.map_cons, ← hmore,
      ← ih next (entryJson first :: before)]
    rfl

/-- The tokens of a written index form the object of its entries. -/
theorem ofTokens?_render (index : Index) :
    Value.ofTokens? ([.openObject] ++ [.comma].intercalate (index.map entryTokens) ++
      [.closeObject]) = some (.object (index.map entryJson)) := by
  cases index with
  | nil => rfl
  | cons first rest =>
    have hkey : ∀ text (more : List Token),
        (.text text :: more).foldlM Reading.step (.firstKey []) =
          (.text text :: more).foldlM Reading.step (.nextKey [] []) := fun _ _ => rfl
    obtain ⟨text, more, htokens⟩ : ∃ text more,
        [Token.comma].intercalate ((first :: rest).map entryTokens) ++ [.closeObject] =
          .text text :: more := by
      cases rest with
      | nil => exact ⟨_, _, rfl⟩
      | cons next more => exact ⟨_, _, rfl⟩
    have hentries := foldlM_entries first rest []
    rw [htokens, ← hkey, ← htokens] at hentries
    refine Value.ofTokens?_of_foldlM ?_
    rw [List.append_assoc, List.singleton_append, List.foldlM_cons]
    exact hentries

/-! ### The table -/

/-- Entries in the order of their paths are put back in that order. -/
theorem foldlM_addJson {before index : Index} (h : Table.Increasing (before ++ index))
    (hfits : ∀ entry ∈ index, entry.2.Fits) :
    (index.map entryJson).foldlM addJson before = some (before ++ index) := by
  induction index generalizing before with
  | nil =>
    rw [List.append_nil]
    rfl
  | cons entry rest ih =>
    obtain ⟨hentry, hrest⟩ := List.forall_mem_cons.1 hfits
    have hadd : addJson before (entryJson entry) = some (before ++ [entry]) := by
      have hlast : ∀ key ∈ Table.keys before, key < entry.1 := fun key hkey =>
        h.lt_of_mem_append hkey
      rw [addJson, entryJson]
      simp only [bind, Option.bind_some, Entry.ofJson?_toJson hentry, String.ofList_toList,
        Table.insert_of_lt _ hlast]
      rfl
    rw [List.map_cons, List.foldlM_cons, hadd]
    change (rest.map entryJson).foldlM addJson (before ++ [entry]) = _
    rw [ih (by rwa [List.append_assoc]) hrest, List.append_assoc, List.singleton_append]

/-- Every index is read back from its written form. -/
theorem parse?_render {index : Index} (h : index.WellFormed) :
    parse? (Bytes.ofText index.render) = some index := by
  have hvalue : Value.parse? index.render.toList = some (.object (index.map entryJson)) := by
    rw [Value.parse?, tokens_render, Option.bind_some, ofTokens?_render]
  have hindex : ofJson? (.object (index.map entryJson)) = some index :=
    @foldlM_addJson [] index h.order h.fits
  rw [parse?, Bytes.text?_ofText]
  simp only [bind, Option.bind_some, hvalue, hindex]

end Index

end StagedSandbox
