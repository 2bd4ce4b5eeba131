import StagedSandbox.Proofs.Object.Text
import StagedSandbox.Proofs.Playground.Seed
import StagedSandbox.Proofs.Stage.Run
import StagedSandbox.Proofs.Tool.Linker

/-!
# A program is compiled and linked

On a template that offers the runtime objects, the first two stages of a run succeed for a program
that parses, and leave its linked program.
-/

namespace StagedSandbox

open StagedSandbox.Action Guest

namespace Fs

variable {fs : Fs}

theorem lookup_of_query_read {name : String} {path : Path} {data : Bytes}
    (hpath : Path.parse? name = some path) (h : fs.query name read = .ok data) :
    fs.lookup path = some (.file data) := by
  rw [← find_eq_ok_iff]
  simp only [query, hpath, read] at h
  cases hfind : fs.find path with
  | error e =>
    rw [hfind] at h
    cases h
  | ok node =>
    rw [hfind] at h
    cases node with
    | dir children => cases h
    | file content =>
      cases h
      rfl

end Fs

namespace Playground

/-! ### What is built -/

/-- The object file of a program. -/
def objectOf (lines : List Source.Line) (release : Bool) : ObjectFile :=
  Tool.Compiler.compile "/code.cr" lines release

/-- The linked program of a program. -/
def linkedOf (lines : List Source.Line) (release : Bool) : Wasm.Linked :=
  .ofOps (objectOf lines release).ops

/-- What a template offers on which a program can be built: the seeds can be written, both runtime
objects are files of a length that a word can tell and no object files, no directory stands where
the build writes, and what it writes is not too large. -/
structure Buildable (host : Host) (template : Fs) (source : String) (lines : List Source.Line)
    (release : Bool) : Prop where
  seeded : ∃ fs, ({ host, template } : Playground).seeded source = .ok fs
  runtime : ∀ name ∈ ({} : Options).runtimeObjects, ∃ data,
    template.query name Fs.read = .ok data ∧ data.size < UInt64.size ∧ ObjectFile.parse? data = none
  objectPath : template.view ["code.wasm"] ≠ some .dir
  programPath : template.view ["program.wasm"] ≠ some .dir
  objectSize : (Bytes.ofText (objectOf lines release).render).size ≤ Fs.maxFileSize
  programSize : (Bytes.ofText (linkedOf lines release).render).size ≤ Fs.maxFileSize

variable {host : Host} {template fs : Fs} {source : String} {lines : List Source.Line}
  {release : Bool}

/-! ### Compiling -/

theorem parse_build (release : Bool) :
    Tool.Compiler.Build.parse {} (["/code.cr", "--cross-compile", "--prelude", "empty"] ++
        if release then ["--release"] else []) =
      .ok
        { source := some "/code.cr", crossCompile := true, prelude := some "empty", release } := by
  cases release <;> decide

theorem objectPath_build (b : Tool.Compiler.Build) (h : b.output = none) :
    b.objectPath "/code.cr" = "/code.wasm" := by
  rw [Tool.Compiler.Build.objectPath, h]
  decide

/-- The first stage leaves the object file. -/
theorem run_compileStage (host : Host) (template : Fs) (hread : Source.read source = .ok lines)
    (hcode : fs.lookup ["code.cr"] = some (.file (Bytes.ofText source)))
    (hsize : (Bytes.ofText source).size ≤ Fs.maxFileSize) (haccepts : fs.Accepts ["code.wasm"])
    (hobject : (Bytes.ofText (objectOf lines release).render).size ≤ Fs.maxFileSize)
    (console : Console) :
    ∃ fs', fs.Replaced ["code.wasm"]
        (some (.file (Bytes.ofText (objectOf lines release).render))) fs' ∧
      (({ host, template } : Playground).compileStage release).run host.engine fs console =
        (.ok ⟨.exited 0, none⟩, fs', console.append
          ((({ host, template } : Playground).compileStage release).commandLine ++ "\n" ++
            "\n")) := by
  let s := ({ host, template } : Playground).compileStage release
  have hroot : (s.guest fs console).descriptors = rootDescriptors := rfl
  have hword : (Bytes.ofText source).size < UInt64.size :=
    Nat.lt_of_le_of_lt hsize (by decide)
  obtain ⟨fs', hfs', hbuild⟩ := Tool.Compiler.build_eq (parse_build release) rfl rfl rfl rfl
    (reaches_root hroot (show Path.parse? "/code.cr" = some ["code.cr"] by decide))
    (free_root hroot) hcode hword hread
    (reaches_root hroot (show Path.parse? _ = some ["code.wasm"] by
      rw [objectPath_build _ rfl]; decide))
    haccepts hobject
  refine ⟨fs', hfs', Stage.run_native rfl (Native.run_eq ?_)⟩
  exact (Tool.Compiler.program_build rfl).trans hbuild

/-! ### Linking -/

/-- What the second stage links: the object file, and runtime objects that are no object files. -/
def linkOptions : Tool.Linker.Link :=
  ⟨["/code.wasm", "/lib/wasm32-wasi/crt1.o", "/lib/wasm32-wasi/libc.a"], some "/program.wasm"⟩

theorem objectPath_default : ({} : Options).objectPath = "/code.wasm" := by
  decide

theorem parse_link (host : Host) (template fs : Fs) (console : Console) :
    Tool.Linker.Link.parse {}
        ((({ host, template } : Playground).linkStage.guest fs console).arguments.drop 1) =
      .ok linkOptions := by
  change Tool.Linker.Link.parse {} [({} : Options).objectPath, "-o", "/program.wasm",
    "/lib/wasm32-wasi/crt1.o", "/lib/wasm32-wasi/libc.a"] = .ok linkOptions
  rw [objectPath_default]
  decide

/-- The runtime objects on which linking succeeds: files, none of them an object file. -/
structure Runtime (fs : Fs) : Prop where
  crt : ∃ data, fs.lookup ["lib", "wasm32-wasi", "crt1.o"] = some (.file data) ∧
    data.size < UInt64.size ∧ ObjectFile.parse? data = none
  libc : ∃ data, fs.lookup ["lib", "wasm32-wasi", "libc.a"] = some (.file data) ∧
    data.size < UInt64.size ∧ ObjectFile.parse? data = none

theorem parse?_objectOf (lines : List Source.Line) (release : Bool) :
    ∃ named, ObjectFile.parse? (Bytes.ofText (objectOf lines release).render) =
      some (.ok ⟨named, (objectOf lines release).ops⟩) := by
  refine (objectOf lines release).parse?_render ?_
  intro path hpath
  obtain rfl := Option.some.inj hpath
  decide

theorem readInputs_linkOptions {g : Guest} (hroot : g.descriptors = rootDescriptors)
    (hobject : g.fs.lookup ["code.wasm"] =
      some (.file (Bytes.ofText (objectOf lines release).render)))
    (hsize : (Bytes.ofText (objectOf lines release).render).size ≤ Fs.maxFileSize)
    (hruntime : Runtime g.fs) :
    Tool.Linker.readInputs linkOptions.inputs g = .ok [(objectOf lines release).ops] g := by
  have hfree := free_root hroot
  obtain ⟨crt, hcrt, hcrtSize, hcrtOther⟩ := hruntime.crt
  obtain ⟨libc, hlibc, hlibcSize, hlibcOther⟩ := hruntime.libc
  obtain ⟨named, hparse⟩ := parse?_objectOf lines release
  refine Tool.Linker.readInputs_object (o := ⟨named, (objectOf lines release).ops⟩)
    (reaches_root hroot (by decide)) hfree hobject (Nat.lt_of_le_of_lt hsize (by decide)) hparse ?_
  rw [Tool.Linker.readInputs_other (reaches_root hroot (by decide)) hfree hcrt hcrtSize hcrtOther,
    Tool.Linker.readInputs_other (reaches_root hroot (by decide)) hfree hlibc hlibcSize hlibcOther]
  rfl

/-- Linking leaves the linked program. -/
theorem link_linkOptions {g : Guest} (hroot : g.descriptors = rootDescriptors)
    (hobject : g.fs.lookup ["code.wasm"] =
      some (.file (Bytes.ofText (objectOf lines release).render)))
    (hobjectSize : (Bytes.ofText (objectOf lines release).render).size ≤ Fs.maxFileSize)
    (hruntime : Runtime g.fs) (haccepts : g.fs.Accepts ["program.wasm"])
    (hsize : (Bytes.ofText (linkedOf lines release).render).size ≤ Fs.maxFileSize) :
    ∃ fs', g.fs.Replaced ["program.wasm"]
        (some (.file (Bytes.ofText (linkedOf lines release).render))) fs' ∧
      Tool.Linker.link linkOptions g = .ok () { g with fs := fs' } := by
  have hflatten : [(objectOf lines release).ops].flatten = (objectOf lines release).ops :=
    List.append_nil _
  have hlink := Tool.Linker.link_eq (l := linkOptions) rfl (List.cons_ne_nil _ _)
    (readInputs_linkOptions hroot hobject hobjectSize hruntime) (List.cons_ne_nil _ _)
    (reaches_root hroot (by decide)) (free_root hroot) haccepts (by rw [hflatten]; exact hsize)
  rw [hflatten] at hlink
  exact hlink

/-- The second stage leaves the linked program. -/
theorem run_linkStage (host : Host) (template : Fs)
    (hobject : fs.lookup ["code.wasm"] =
      some (.file (Bytes.ofText (objectOf lines release).render)))
    (hobjectSize : (Bytes.ofText (objectOf lines release).render).size ≤ Fs.maxFileSize)
    (hruntime : Runtime fs) (haccepts : fs.Accepts ["program.wasm"])
    (hsize : (Bytes.ofText (linkedOf lines release).render).size ≤ Fs.maxFileSize)
    (console : Console) :
    ∃ fs', fs.Replaced ["program.wasm"]
        (some (.file (Bytes.ofText (linkedOf lines release).render))) fs' ∧
      ({ host, template } : Playground).linkStage.run host.engine fs console =
        (.ok ⟨.exited 0, none⟩, fs', console.append
          (({ host, template } : Playground).linkStage.commandLine ++ "\n" ++ "\n")) := by
  let s := ({ host, template } : Playground).linkStage
  obtain ⟨fs', hfs', hlink⟩ := link_linkOptions (g := s.guest fs console) rfl hobject hobjectSize
    hruntime haccepts hsize
  rw [← Tool.Linker.program_link (parse_link host template fs console)] at hlink
  exact ⟨fs', hfs', Stage.run_native rfl (Native.run_eq hlink)⟩

/-! ### Both stages -/

/-- What the console shows of the first two stages. -/
def built (release : Bool) : String :=
  "$ crystal build /code.cr --cross-compile --prelude empty" ++
    (if release then " --release" else "") ++ "\n" ++ "\n" ++
    ("$ wasm-ld /code.wasm -o /program.wasm /lib/wasm32-wasi/crt1.o /lib/wasm32-wasi/libc.a" ++
      "\n" ++ "\n")

theorem commandLine_compileStage (host : Host) (template : Fs) (release : Bool) :
    (({ host, template } : Playground).compileStage release).commandLine =
      "$ crystal build /code.cr --cross-compile --prelude empty" ++
        if release then " --release" else "" := by
  change "$ " ++ " ".intercalate (["crystal", "build", "/code.cr", "--cross-compile", "--prelude",
    "empty"] ++ if release then ["--release"] else []) = _
  cases release <;> decide

theorem commandLine_linkStage (host : Host) (template : Fs) :
    ({ host, template } : Playground).linkStage.commandLine =
      "$ wasm-ld /code.wasm -o /program.wasm /lib/wasm32-wasi/crt1.o /lib/wasm32-wasi/libc.a" := by
  change "$ " ++ " ".intercalate ["wasm-ld", ({} : Options).objectPath, "-o", "/program.wasm",
    "/lib/wasm32-wasi/crt1.o", "/lib/wasm32-wasi/libc.a"] = _
  rw [objectPath_default]
  decide

/-- The runtime objects are still there as long as the build left their directory alone. -/
theorem Buildable.runtimeOf (h : Buildable host template source lines release)
    (hlib : ∀ rest, fs.view ("lib" :: rest) = template.view ("lib" :: rest)) : Runtime fs := by
  have hfile : ∀ (name : String) {rest : Path},
      name ∈ ({} : Options).runtimeObjects → Path.parse? name = some ("lib" :: rest) →
      ∃ data, fs.lookup ("lib" :: rest) = some (.file data) ∧ data.size < UInt64.size ∧
        ObjectFile.parse? data = none := by
    intro name rest hname hpath
    obtain ⟨data, hread, hsize, hother⟩ := h.runtime name hname
    refine ⟨data, ?_, hsize, hother⟩
    rw [← Fs.view_eq_file_iff, hlib, Fs.view_eq_file_iff]
    exact Fs.lookup_of_query_read hpath hread
  exact ⟨hfile "/lib/wasm32-wasi/crt1.o" (by decide) (by decide),
    hfile "/lib/wasm32-wasi/libc.a" (by decide) (by decide)⟩

/-- The first two stages succeed, and leave the linked program to those after them. -/
theorem runFrom_built (hread : Source.read source = .ok lines)
    (h : Buildable host template source lines release)
    (hseeded : ({ host, template } : Playground).seeded source = .ok fs) (console : Console) :
    ∃ fs', fs'.lookup ["program.wasm"] =
        some (.file (Bytes.ofText (linkedOf lines release).render)) ∧
      ∀ rest, Pipeline.run host.engine fs console
          (({ host, template } : Playground).compileStage release ::
            ({ host, template } : Playground).linkStage :: rest) =
        (((Pipeline.runFrom host.engine 2 fs' (console.append (built release)) rest).1.map
              (RunReport.addFirst ⟨1, "link", .exited 0⟩)).map
            (RunReport.addFirst ⟨0, "compile", .exited 0⟩),
          (Pipeline.runFrom host.engine 2 fs' (console.append (built release)) rest).2) := by
  obtain ⟨hsize, hcode, hbeside⟩ := seeded_default hseeded
  have hobject : fs.Accepts ["code.wasm"] := Fs.accepts_singleton (by
    rw [hbeside _ (by decide) (by decide)]
    exact h.objectPath)
  obtain ⟨made, hmade, hcompile⟩ := run_compileStage host template hread hcode hsize hobject
    h.objectSize console
  rw [commandLine_compileStage] at hcompile
  have hprogram : made.Accepts ["program.wasm"] := Fs.accepts_singleton (by
    rw [hmade.beside _ (by decide), hbeside _ (by decide) (by decide)]
    exact h.programPath)
  have hruntime : Runtime made := h.runtimeOf fun rest => by
    rw [hmade.beside _ (by simp), hbeside _ (by simp) (by simp)]
  obtain ⟨fs', hfs', hlink⟩ := run_linkStage host template hmade.here h.objectSize hruntime
    hprogram h.programSize (console.append _)
  refine ⟨fs', hfs'.here, fun rest => ?_⟩
  rw [Console.append_append, commandLine_linkStage] at hlink
  rw [Pipeline.run, Pipeline.runFrom_success hcompile rfl, Pipeline.runFrom_success hlink rfl]
  rfl

/-! ### The smallest template -/

/-- The smallest template on which programs can be built: the runtime objects alone. -/
def smallTemplate : Fs :=
  [("lib", .dir [("wasm32-wasi", .dir [("crt1.o", .file (Bytes.ofText "crt1")),
    ("libc.a", .file (Bytes.ofText "libc"))])])]

/-- The seeds can be written on it. -/
theorem seeded_smallTemplate (host : Host)
    (h : (Bytes.ofText source).size ≤ Fs.maxFileSize) :
    ∃ fs, ({ host, template := smallTemplate } : Playground).seeded source = .ok fs := by
  let code : String × Node := ("code.cr", .file (Bytes.ofText source))
  let zero : String × Node := ("dev", .dir [("zero", .file ByteArray.empty)])
  have hwrite : Fs.write ["code.cr"] (Bytes.ofText source) .overwrite smallTemplate =
      .ok () (code :: smallTemplate) := by
    change (Fs.checkSize (Bytes.ofText source).size >>= fun _ => _) smallTemplate = _
    rw [Fs.checkSize, if_pos h]
    rfl
  have hcode : writeSeed "/code.cr" (Bytes.ofText source) smallTemplate =
      .ok () (code :: smallTemplate) :=
    writeSeed_of_eq_ok (show Path.parentText? "/code.cr" = some "/" by decide)
      (show Path.parse? "/" = some [] by decide)
      (show Path.parse? "/code.cr" = some ["code.cr"] by decide) rfl hwrite
  have hzero : writeSeed "/dev/zero" ByteArray.empty (code :: smallTemplate) =
      .ok () (code :: zero :: smallTemplate) :=
    writeSeed_of_eq_ok (show Path.parentText? "/dev/zero" = some "/dev" by decide)
      (show Path.parse? "/dev" = some ["dev"] by decide)
      (show Path.parse? "/dev/zero" = some ["dev", "zero"] by decide) rfl rfl
  refine ⟨code :: zero :: smallTemplate, ?_⟩
  rw [seeded, outcome, writeSeeds_default, run_bind_of_ok hcode, hzero]

/-- All programs can be built on it whose files are not too large. -/
theorem buildable_smallTemplate (host : Host)
    (hsource : (Bytes.ofText source).size ≤ Fs.maxFileSize)
    (hobject : (Bytes.ofText (objectOf lines release).render).size ≤ Fs.maxFileSize)
    (hprogram : (Bytes.ofText (linkedOf lines release).render).size ≤ Fs.maxFileSize) :
    Buildable host smallTemplate source lines release where
  seeded := seeded_smallTemplate host hsource
  runtime := by
    have hcrt : smallTemplate.query "/lib/wasm32-wasi/crt1.o" Fs.read =
        .ok (Bytes.ofText "crt1") := by
      rw [Fs.query, show Path.parse? "/lib/wasm32-wasi/crt1.o" =
        some ["lib", "wasm32-wasi", "crt1.o"] by decide]
      rfl
    have hlibc : smallTemplate.query "/lib/wasm32-wasi/libc.a" Fs.read =
        .ok (Bytes.ofText "libc") := by
      rw [Fs.query, show Path.parse? "/lib/wasm32-wasi/libc.a" =
        some ["lib", "wasm32-wasi", "libc.a"] by decide]
      rfl
    intro name hname
    obtain rfl | rfl : name = "/lib/wasm32-wasi/crt1.o" ∨ name = "/lib/wasm32-wasi/libc.a" := by
      simpa using hname
    · exact ⟨_, hcrt, by decide, by decide⟩
    · exact ⟨_, hlibc, by decide, by decide⟩
  objectPath := fun h => nomatch h
  programPath := fun h => nomatch h
  objectSize := hobject
  programSize := hprogram

end Playground

end StagedSandbox
