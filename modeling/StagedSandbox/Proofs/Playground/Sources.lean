import StagedSandbox.Proofs.Playground.Seed
import StagedSandbox.Proofs.Snapshot.Alias
import StagedSandbox.Proofs.Stage.Sequence

/-!
# What the compiler finds

A run writes the source first and the empty seed files after it, each over what stands at its path.
Under options in their normal form, two of these paths lead to one place just if they are one text,
so that the compiler finds the source as it was given, unless its path is listed as a seed
(`Playground.run_source`). That is not refused: the compiler finds an empty file then.
-/

namespace StagedSandbox

open StagedSandbox.Action

/-! ### Options in their normal form -/

namespace Path

/-- The normal form of a text is its own normal form. -/
theorem normalize?_of_normalize? {text normal : String} (h : normalize? text = some normal) :
    normalize? normal = some normal := by
  obtain ⟨path, hparse, rfl⟩ := Option.map_eq_some_iff.1 h
  rw [normalize?, parse?_render (named_of_parse? hparse)]
  rfl

/-- Texts in their normal form denote different paths, unless they are one text. -/
theorem eq_of_parse?_eq {text other : String} (h : normalize? text = some text)
    (hother : normalize? other = some other) (hparse : parse? text = parse? other) :
    text = other := by
  rw [normalize?, hparse, ← normalize?, hother] at h
  exact (Option.some.inj h).symm

end Path

namespace Options

/-- All paths are in their normal form, and the program takes the place of neither the source nor
the object file. -/
structure Normal (o : Options) : Prop where
  sourcePath : Path.normalize? o.sourcePath = some o.sourcePath
  programPath : Path.normalize? o.programPath = some o.programPath
  libraryRoot : Path.normalize? o.libraryRoot = some o.libraryRoot
  runtimeObjects : ∀ path ∈ o.runtimeObjects, Path.normalize? path = some path
  seedFiles : ∀ path ∈ o.seedFiles, Path.normalize? path = some path
  source_ne : o.sourcePath ≠ o.programPath
  object_ne : o.objectPath ≠ o.programPath

theorem normalize?_of_absolute {setting : Setting} {text path : String}
    (h : absolute setting text = .ok path) : Path.normalize? path = some path := by
  rw [absolute] at h
  split at h
  · next hnormal =>
    cases h
    exact Path.normalize?_of_normalize? hnormal
  · cases h

theorem normalize?_of_mapM {setting : Setting} {texts paths : List String}
    (h : texts.mapM (absolute setting) = .ok paths) :
    ∀ path ∈ paths, Path.normalize? path = some path := by
  induction texts generalizing paths with
  | nil =>
    cases h
    simp
  | cons text rest ih =>
    rw [List.mapM_cons] at h
    obtain ⟨first, hfirst, h⟩ := exists_of_bind_eq_ok h
    obtain ⟨more, hmore, h⟩ := exists_of_bind_eq_ok h
    cases h
    rw [List.forall_mem_cons]
    exact ⟨normalize?_of_absolute hfirst, ih hmore⟩

/-- Options that were accepted are in their normal form. -/
theorem normal_of_sanitize {o accepted : Options} (h : o.sanitize = .ok accepted) :
    accepted.Normal := by
  rw [sanitize] at h
  obtain ⟨sourcePath, hsource, h⟩ := exists_of_bind_eq_ok h
  obtain ⟨programPath, hprogram, h⟩ := exists_of_bind_eq_ok h
  obtain ⟨libraryRoot, hroot, h⟩ := exists_of_bind_eq_ok h
  obtain ⟨runtimeObjects, hobjects, h⟩ := exists_of_bind_eq_ok h
  obtain ⟨seedFiles, hseeds, h⟩ := exists_of_bind_eq_ok h
  obtain ⟨-, -, h⟩ := exists_of_bind_eq_ok h
  obtain ⟨-, -, h⟩ := exists_of_bind_eq_ok h
  obtain ⟨-, -, h⟩ := exists_of_bind_eq_ok h
  dsimp only at h
  split at h
  · cases h
  · next hclash =>
    rw [not_or] at hclash
    cases h
    constructor
    · exact normalize?_of_absolute hsource
    · exact normalize?_of_absolute hprogram
    · exact normalize?_of_absolute hroot
    · exact normalize?_of_mapM hobjects
    · exact normalize?_of_mapM hseeds
    · exact hclash.1
    · exact hclash.2

end Options

namespace Playground

/-! ### One file after the other -/

/-- A seed stands at its path, and files at other paths stay. -/
theorem view_of_writeSeed {text : String} {data : Bytes} {fs fs' : Fs}
    (h : writeSeed text data fs = .ok () fs') :
    ∃ path, Path.parse? text = some path ∧ fs'.view path = some (.file data) ∧
      ∀ other content, other ≠ path → fs.view other = some (.file content) →
        fs'.view other = some (.file content) := by
  rw [writeSeed] at h
  cases hparent : Path.parentText? text with
  | none =>
    rw [hparent] at h
    obtain ⟨path, hparse, hview⟩ := Fs.view_of_write h
    refine ⟨path, hparse, ?_, ?_⟩
    · rw [hview, Function.update_self]
    · intro other content hne hfile
      rw [hview, Function.update_of_ne hne, hfile]
  | some parent =>
    rw [hparent] at h
    obtain ⟨⟨⟩, between, hmade, hwrite⟩ := exists_of_bind h
    obtain ⟨path, hparse, hview⟩ := Fs.view_of_write hwrite
    refine ⟨path, hparse, ?_, ?_⟩
    · rw [hview, Function.update_self]
    · intro other content hne hfile
      rw [hview, Function.update_of_ne hne]
      exact Fs.file_of_makeDirs hmade hfile

/-- After a seed, a file is as it was or, at the path of the seed, the seed. -/
theorem file_of_writeSeed {text : String} {data : Bytes} {fs fs' : Fs}
    (h : writeSeed text data fs = .ok () fs') {path : Path} {content : Bytes}
    (hfile : fs.view path = some (.file content)) :
    fs'.view path =
      some (.file (if Path.parse? text = some path then data else content)) := by
  obtain ⟨here, hparse, hseed, hkeep⟩ := view_of_writeSeed h
  by_cases hsame : path = here
  · rw [hsame, if_pos hparse, hseed]
  · rw [hparse, if_neg fun heq => hsame (Option.some.inj heq).symm]
    exact hkeep path content hsame hfile

/-- Empty files written one after the other: each stands at its path, and a file that was there
before is empty just if its path is one of them. -/
theorem view_of_writeSeeds {seeds : List String} {fs fs' : Fs}
    (h : (seeds.forM fun text => writeSeed text ByteArray.empty) fs = .ok () fs') :
    (∀ seed ∈ seeds, ∃ path, Path.parse? seed = some path ∧
        fs'.view path = some (.file ByteArray.empty)) ∧
      ∀ path content, fs.view path = some (.file content) →
        fs'.view path = some (.file
          (if ∃ seed ∈ seeds, Path.parse? seed = some path then ByteArray.empty else content)) := by
  induction seeds generalizing fs with
  | nil =>
    cases h
    simp
  | cons seed rest ih =>
    obtain ⟨⟨⟩, between, hfirst, hrest⟩ := exists_of_bind h
    obtain ⟨hseeds, hfiles⟩ := ih hrest
    constructor
    · obtain ⟨path, hparse, hview, -⟩ := view_of_writeSeed hfirst
      rw [List.forall_mem_cons]
      refine ⟨⟨path, hparse, ?_⟩, hseeds⟩
      rw [hfiles path _ hview, ite_self]
    · intro path content hfile
      rw [hfiles path _ (file_of_writeSeed hfirst hfile)]
      by_cases hsame : Path.parse? seed = some path
      · simp [hsame]
      · simp [hsame]

/-! ### The first stage -/

/-- What is handed back of a run of the stages. -/
def concluded (p : Playground) (request : RunRequest) :
    Except HostFault RunReport × Console → Except Failure RunResult × Console
  | (.error fault, console) => (.error (.hostFault fault), console)
  | (.ok report, console) =>
    if !request.execute && report.outcome.isSuccess then p.download report console
    else (.ok ⟨report.outcome, none, report.stages⟩, console)

variable {p : Playground} {source : String} {fs : Fs}

theorem run_of_seeded (h : p.seeded source = .ok fs) (request : RunRequest) (console : Console) :
    p.run source request console =
      p.concluded request (Pipeline.run p.host.engine fs console (p.stages request)) := by
  rw [run, h]
  rfl

theorem seeded_of_writeSeeds (h : p.writeSeeds source p.template = .ok () fs) :
    p.seeded source = .ok fs := by
  rw [seeded, outcome, h]

/-- The stages start on what the seeds leave, the compiler first. -/
theorem head?_invoked_stages (fs : Fs) (request : RunRequest) (console : Console) :
    (Pipeline.invoked p.host.engine fs console (p.stages request)).head? =
      some ⟨p.host.engine, p.compileStage request.release, fs, console⟩ := by
  rw [stages, List.cons_append, Pipeline.invoked, Pipeline.chain, List.take_succ_cons]
  rfl

/-- On a seeded file system every seed is empty, and the source is as it was given, unless one of
the seeds leads to its path. -/
theorem view_of_seeded (h : p.seeded source = .ok fs) :
    ∃ path, Path.parse? p.options.sourcePath = some path ∧
      fs.view path = some (.file
        (if ∃ seed ∈ p.options.seedFiles, Path.parse? seed = some path then ByteArray.empty
          else Bytes.ofText source)) ∧
      ∀ seed ∈ p.options.seedFiles, fs.query seed Fs.read = .ok ByteArray.empty := by
  have hrun : p.writeSeeds source p.template = .ok () fs := by
    rw [seeded, outcome] at h
    split at h
    · next hrun => rw [hrun, Except.ok.inj h]
    · cases h
  obtain ⟨⟨⟩, between, hsource, hseeds⟩ := exists_of_bind hrun
  obtain ⟨path, hparse, hview, -⟩ := view_of_writeSeed hsource
  obtain ⟨hempty, hfiles⟩ := view_of_writeSeeds hseeds
  refine ⟨path, hparse, hfiles path _ hview, ?_⟩
  intro seed hseed
  obtain ⟨here, hhere, hfile⟩ := hempty seed hseed
  exact Snapshot.query_read_of_view hhere hfile

/-- **The compiler finds the source as it was given**, under all options that are accepted and on
all templates, unless the path of the source is itself listed as a seed: then it finds an empty
file. All seeds that are listed are empty. -/
theorem run_source {o : Options} (hoptions : o.sanitize = .ok p.options)
    (hseeded : p.seeded source = .ok fs) :
    fs.query p.options.sourcePath Fs.read =
        .ok (if p.options.sourcePath ∈ p.options.seedFiles then ByteArray.empty
          else Bytes.ofText source) ∧
      (∀ seed ∈ p.options.seedFiles, fs.query seed Fs.read = .ok ByteArray.empty) ∧
      ∀ request console,
        p.run source request console =
            p.concluded request (Pipeline.run p.host.engine fs console (p.stages request)) ∧
          (Pipeline.invoked p.host.engine fs console (p.stages request)).head? =
            some ⟨p.host.engine, p.compileStage request.release, fs, console⟩ := by
  have hnormal := Options.normal_of_sanitize hoptions
  obtain ⟨path, hparse, hview, hempty⟩ := view_of_seeded hseeded
  have hlisted : (∃ seed ∈ p.options.seedFiles, Path.parse? seed = some path) ↔
      p.options.sourcePath ∈ p.options.seedFiles := by
    constructor
    · rintro ⟨seed, hseed, hsame⟩
      have heq := Path.eq_of_parse?_eq (hnormal.seedFiles seed hseed) hnormal.sourcePath
        (hsame.trans hparse.symm)
      exact heq ▸ hseed
    · intro hmem
      exact ⟨_, hmem, hparse⟩
  refine ⟨?_, hempty, fun request console => ⟨?_, ?_⟩⟩
  · rw [Snapshot.query_read_of_view hparse hview]
    simp only [hlisted]
  · exact run_of_seeded hseeded request console
  · exact head?_invoked_stages fs request console

/-- Two files in one directory, the source given by a path with a slash too many. -/
theorem run_source_beside :
    let host : Host := ⟨.interpreter, fun _ => .zeros⟩
    ∃ o fs, ({ sourcePath := "/src//main.cr", seedFiles := ["/src/empty.cr"] } : Options).sanitize =
        .ok o ∧
      ({ host, options := o } : Playground).seeded "puts 1" = .ok fs ∧
      fs.query "/src/main.cr" Fs.read = .ok (Bytes.ofText "puts 1") ∧
      fs.query "/src/empty.cr" Fs.read = .ok ByteArray.empty := by
  intro host
  let o : Options := { sourcePath := "/src/main.cr", seedFiles := ["/src/empty.cr"] }
  have hoptions : ({ sourcePath := "/src//main.cr", seedFiles := ["/src/empty.cr"] } :
      Options).sanitize = .ok o := rfl
  have hsource : writeSeed "/src/main.cr" (Bytes.ofText "puts 1") [] =
      .ok () [("src", .dir [("main.cr", .file (Bytes.ofText "puts 1"))])] :=
    writeSeed_of_eq_ok (show Path.parentText? "/src/main.cr" = some "/src" by decide)
      (show Path.parse? "/src" = some ["src"] by decide)
      (show Path.parse? "/src/main.cr" = some ["src", "main.cr"] by decide) rfl rfl
  have hempty : writeSeed "/src/empty.cr" ByteArray.empty
      [("src", .dir [("main.cr", .file (Bytes.ofText "puts 1"))])] =
      .ok () [("src", .dir [("empty.cr", .file ByteArray.empty),
        ("main.cr", .file (Bytes.ofText "puts 1"))])] :=
    writeSeed_of_eq_ok (show Path.parentText? "/src/empty.cr" = some "/src" by decide)
      (show Path.parse? "/src" = some ["src"] by decide)
      (show Path.parse? "/src/empty.cr" = some ["src", "empty.cr"] by decide) rfl rfl
  have hseeded : ({ host, options := o } : Playground).seeded "puts 1" = .ok _ :=
    seeded_of_writeSeeds ((run_bind_of_ok hsource _).trans (run_bind_of_ok hempty _))
  obtain ⟨hread, hseeds, -⟩ := run_source hoptions hseeded
  exact ⟨o, _, hoptions, hseeded, hread, hseeds "/src/empty.cr" (List.mem_singleton_self _)⟩

/-- The path of the source is listed as a seed: the options are accepted as they are, and the
compiler finds an empty file. -/
theorem run_emptied :
    let host : Host := ⟨.interpreter, fun _ => .zeros⟩
    ∃ o fs, ({ seedFiles := ["/code.cr"] } : Options).sanitize = .ok o ∧
      ({ host, options := o } : Playground).seeded "puts 1" = .ok fs ∧
      fs.query o.sourcePath Fs.read = .ok ByteArray.empty ∧
      ByteArray.empty ≠ Bytes.ofText "puts 1" := by
  intro host
  have hwrite : ∀ {data : Bytes} {fs fs' : Fs},
      Fs.write ["code.cr"] data .overwrite fs = .ok () fs' →
      writeSeed "/code.cr" data fs = .ok () fs' :=
    fun hwrite => writeSeed_of_eq_ok (show Path.parentText? "/code.cr" = some "/" by decide)
      (show Path.parse? "/" = some [] by decide)
      (show Path.parse? "/code.cr" = some ["code.cr"] by decide) rfl hwrite
  have hsource : writeSeed "/code.cr" (Bytes.ofText "puts 1") [] =
      .ok () [("code.cr", .file (Bytes.ofText "puts 1"))] := hwrite rfl
  have hempty : writeSeed "/code.cr" ByteArray.empty
      [("code.cr", .file (Bytes.ofText "puts 1"))] =
      .ok () [("code.cr", .file ByteArray.empty)] := hwrite rfl
  refine ⟨{ seedFiles := ["/code.cr"] }, [("code.cr", .file ByteArray.empty)], rfl, ?_, ?_, ?_⟩
  · exact seeded_of_writeSeeds ((run_bind_of_ok hsource _).trans (run_bind_of_ok hempty _))
  · exact Snapshot.query_read_of_view (show Path.parse? "/code.cr" = some ["code.cr"] by decide) rfl
  · decide

end Playground

end StagedSandbox
