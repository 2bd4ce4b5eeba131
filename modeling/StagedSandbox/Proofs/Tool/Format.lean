import StagedSandbox.Proofs.Source.Format
import StagedSandbox.Proofs.Tool.Written

/-!
# The formatter

Formatting a file succeeds on programs that parse, and on no other texts. What it leaves is a
program that is compiled to the same object file, and that it would leave as it is
(`Tool.Compiler.format_spec`). Only a text that has grown beyond the size of any file is refused.
-/

namespace StagedSandbox

open StagedSandbox.Action

namespace Guest

/-- A text file that a program can read under a name, with a descriptor to spare. -/
def Holds (g : Guest) (name text : String) : Prop :=
  ∃ path fd, g.Reaches name path ∧ g.Free fd ∧
    g.fs.lookup path = some (.file (Bytes.ofText text)) ∧ (Bytes.ofText text).size < UInt64.size

variable {g : Guest} {name text : String}

theorem holds_root (h : g.descriptors = rootDescriptors) {path : Path}
    (hpath : Path.parse? name = some path)
    (hfile : g.fs.lookup path = some (.file (Bytes.ofText text)))
    (hsize : (Bytes.ofText text).size < UInt64.size) : g.Holds name text :=
  ⟨path, 4, reaches_root h hpath, free_root h, hfile, hsize⟩

end Guest

namespace Tool.Compiler

variable {g g' : Guest} {name text : String} {lines : List Source.Line}

/-- A text that was formatted fits where the text stood before: it is the same text, or not too
large for a file. -/
def Fits (text formatted : String) : Prop :=
  formatted = text ∨ (Bytes.ofText formatted).size ≤ Fs.maxFileSize

theorem format_of_error {e : Source.SyntaxError} (hfile : g.Holds name text)
    (hread : Source.read text = .error e) : format [name] g ≠ .ok () g' := by
  intro h
  obtain ⟨path, fd, hreach, hfree, hlookup, hsize⟩ := hfile
  rw [format, run_bind_of_ok (readText_eq hreach hfree hlookup hsize), hread] at h
  obtain ⟨formatted, t, horder, -⟩ := exists_of_bind h
  cases (orComplain_eq_ok horder).1

/-- Formatting a program that parses comes down to writing the formatted text. -/
theorem format_of_ok (hfile : g.Holds name text) (hread : Source.read text = .ok lines) :
    format [name] g =
      (if Source.format lines ≠ text then writeText name (Source.format lines) else pure ()) g := by
  obtain ⟨path, fd, hreach, hfree, hlookup, hsize⟩ := hfile
  rw [format, run_bind_of_ok (readText_eq hreach hfree hlookup hsize), hread]
  rfl

/-- A text that fits is left in the place of the old one. -/
theorem format_of_fits (hfile : g.Holds name text) (hread : Source.read text = .ok lines)
    (hfits : Fits text (Source.format lines)) :
    ∃ path fs, g.Reaches name path ∧
      g.fs.Replaced path (some (.file (Bytes.ofText (Source.format lines)))) fs ∧
      format [name] g = .ok () { g with fs } ∧
      ({ g with fs } : Guest).Holds name (Source.format lines) := by
  have hformat := format_of_ok hfile hread
  obtain ⟨path, fd, hreach, hfree, hlookup, hsize⟩ := hfile
  by_cases hsame : Source.format lines = text
  · rw [if_neg (not_not_intro hsame)] at hformat
    refine ⟨path, g.fs, hreach, ⟨?_, fun _ _ => rfl, fun h _ _ => h⟩, hformat, ?_⟩
    · rwa [hsame]
    · rw [hsame]
      exact ⟨path, fd, hreach, hfree, hlookup, hsize⟩
  · have hsmall := hfits.resolve_left hsame
    have hne : path ≠ [] := by
      rintro rfl
      cases hlookup
    have haccepts : g.fs.Accepts path := ⟨_, Fs.reach_of_lookup hne hlookup, by simp⟩
    obtain ⟨fs, hfs, hwrite⟩ := writeText_eq hreach hfree haccepts hsmall
    rw [if_pos hsame, hwrite] at hformat
    exact ⟨path, fs, hreach, hfs, hformat, path, fd, hreach.with_fs fs, hfree.with_fs fs, hfs.here,
      hsmall.trans_lt (by decide)⟩

/-- A text that does not fit is refused. -/
theorem format_of_not_fits (hfile : g.Holds name text) (hread : Source.read text = .ok lines)
    (hlarge : ¬Fits text (Source.format lines)) : format [name] g ≠ .ok () g' := by
  intro h
  obtain ⟨hchanged, hlarge⟩ := not_or.1 hlarge
  rw [format_of_ok hfile hread, if_pos hchanged] at h
  obtain ⟨path, fd, fs, -, -, hsize, -⟩ := writeFile_ok (writeText_ok h)
  exact hlarge hsize

theorem compile_tidy (source : String) (lines : List Source.Line) (release : Bool) :
    compile source (Source.tidy lines) release = compile source lines release := by
  have hstatements : (Source.tidy lines).filterMap Source.Line.statement? =
      lines.filterMap Source.Line.statement? := Source.statements_tidy lines
  rw [compile, compile, hstatements]

/-- A build of a file leaves the object file of the program that the file holds. -/
theorem readFile_of_build {arguments : List String} {b : Build} (hfile : g.Holds name text)
    (hread : Source.read text = .ok lines) (hparse : Build.parse {} arguments = .ok b)
    (hsource : b.source = some name) (h : build arguments g = .ok () g') :
    readFile (b.objectPath name) g' =
      .ok (Bytes.ofText (compile name lines b.release).render) g' := by
  obtain ⟨path, fd, hreach, hfree, hlookup, hsize⟩ := hfile
  obtain ⟨b', name', hparse', hsource', hfinish⟩ := build_ok h
  obtain rfl := Except.ok.inj (hparse.symm.trans hparse')
  obtain rfl := Option.some.inj (hsource.symm.trans hsource')
  obtain ⟨text', lines', t, htext, hlines, hwrite⟩ := finishBuild_ok hfinish
  have hsame := htext.symm.trans (readText_eq hreach hfree hlookup hsize)
  obtain ⟨rfl, rfl⟩ := EStateM.Result.ok.inj hsame
  obtain rfl := Except.ok.inj (hread.symm.trans hlines)
  exact readFile_of_writeText hwrite

/-- Formatting succeeds if and only if a program parses, and its text still fits. The formatted
program parses, is formatted already, and is compiled as before: a build of it writes the object
file that a build of the original writes. -/
theorem format_spec (text : String) :
    match Source.read text with
    | .error _ => ∀ g g' name, g.Holds name text → format [name] g ≠ .ok () g'
    | .ok lines =>
      Source.read (Source.format lines) = .ok (Source.tidy lines) ∧
      Source.format (Source.tidy lines) = Source.format lines ∧
      (∀ source release,
        compile source (Source.tidy lines) release = compile source lines release) ∧
      ∀ g name, g.Holds name text →
        (¬Fits text (Source.format lines) → ∀ g', format [name] g ≠ .ok () g') ∧
        (Fits text (Source.format lines) →
          ∃ path fs, g.Reaches name path ∧
            g.fs.Replaced path (some (.file (Bytes.ofText (Source.format lines)))) fs ∧
            format [name] g = .ok () { g with fs } ∧
            format [name] { g with fs } = .ok () { g with fs } ∧
            ∀ arguments b, Build.parse {} arguments = .ok b → b.source = some name →
              ∀ g₁ g₂, build arguments g = .ok () g₁ → build arguments { g with fs } = .ok () g₂ →
                ∃ o, readFile (b.objectPath name) g₁ = .ok o g₁ ∧
                  readFile (b.objectPath name) g₂ = .ok o g₂) := by
  cases hread : Source.read text with
  | error e => exact fun g g' name hfile => format_of_error hfile hread
  | ok lines =>
    have hagain := Source.read_format (Source.proper_of_read hread)
    refine ⟨hagain, Source.format_tidy lines,
      fun source release => compile_tidy source lines release, fun g name hfile =>
        ⟨fun hlarge g' => format_of_not_fits hfile hread hlarge, fun hfits => ?_⟩⟩
    obtain ⟨path, fs, hreach, hfs, hformat, hholds⟩ := format_of_fits hfile hread hfits
    refine ⟨path, fs, hreach, hfs, hformat, ?_, ?_⟩
    · rw [format_of_ok hholds hagain, Source.format_tidy, if_neg (not_not_intro rfl)]
      rfl
    · intro arguments b hparse hsource g₁ g₂ hbuild hbuildAgain
      refine ⟨_, readFile_of_build hfile hread hparse hsource hbuild, ?_⟩
      rw [readFile_of_build hholds hagain hparse hsource hbuildAgain, compile_tidy]

/-- A program that is not formatted: blank lines too many, blanks, a sign and a digit separator. -/
def untidySource : String := "\n # a \r\n\n\n print\t+1_0 \nputs \"\\\"\" \n\n"

theorem format_spec_untidy :
    let formatted := "# a\n\nprint 10\nputs \"\\\"\"\n"
    let g := Guest.start [("a", .file (Bytes.ofText untidySource))] {} [] [] [Preopen.root] .zeros
    g.Holds "/a" untidySource ∧ Fits untidySource formatted ∧
      ∃ path fs, g.Reaches "/a" path ∧
        g.fs.Replaced path (some (.file (Bytes.ofText formatted))) fs ∧
        format ["/a"] g = .ok () { g with fs } ∧
        format ["/a"] { g with fs } = .ok () { g with fs } := by
  intro formatted g
  have hholds : g.Holds "/a" untidySource :=
    Guest.holds_root rfl (show Path.parse? "/a" = some ["a"] by decide) rfl (by decide)
  have hspec := format_spec untidySource
  cases hread : Source.read untidySource with
  | error e =>
    have hparses : (Source.read untidySource).toBool = true := by decide +kernel
    rw [hread] at hparses
    cases hparses
  | ok lines =>
    have hformat : (Source.read untidySource).map Source.format = .ok formatted := by decide +kernel
    rw [hread] at hspec hformat
    have hformatted : Source.format lines = formatted := Except.ok.inj hformat
    have hfits : Fits untidySource formatted := .inr (by decide)
    have hformats := (hspec.2.2.2 g "/a" hholds).2
    rw [hformatted] at hformats
    obtain ⟨path, fs, hreach, hfs, hrun, hagain, -⟩ := hformats hfits
    exact ⟨hholds, hfits, path, fs, hreach, hfs, hrun, hagain⟩

end Tool.Compiler

end StagedSandbox
