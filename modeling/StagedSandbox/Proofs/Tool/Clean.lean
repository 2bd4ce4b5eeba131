import StagedSandbox.Proofs.Guest.Output
import StagedSandbox.Proofs.Text.FirstMistake
import StagedSandbox.Proofs.Tool.Outcome
import StagedSandbox.Tool.Linker

/-!
# How tools end

A tool either says on the error stream why it gives up, exits with code one, and has changed
nothing, or it exits with code zero and has left its text at the path of its output, whole, and no
other difference (`Tool.tools_end`). The only text for which that is not promised is one that is
too large for a file: it is refused after the file has been emptied.
-/

namespace StagedSandbox

open StagedSandbox.Action

namespace Fs

variable {fs fs' : Fs} {path : Path}

/-- Nothing lies beneath a path where a file may be put. -/
theorem Accepts.view_append (h : fs.Accepts path) {rest : Path} (hne : rest ≠ []) :
    fs.view (path ++ rest) = none := by
  obtain ⟨found, hreach, hfound⟩ := h
  obtain ⟨name, below, rfl⟩ := List.exists_cons_of_ne_nil hne
  rw [Fs.view_append, lookup_of_reach hreach]
  cases found with
  | none => rfl
  | some node =>
    cases node with
    | dir children => exact absurd rfl (hfound children)
    | file content => rfl

/-- Where a file was put in the place of a file or of nothing, all other paths are as before. -/
theorem Replaced.view_of_ne {content : Bytes} (h : fs.Replaced path (some (.file content)) fs')
    (haccepts : fs.Accepts path) {other : Path} (hother : other ≠ path) :
    fs'.view other = fs.view other := by
  by_cases hunder : path <+: other
  · obtain ⟨rest, rfl⟩ := hunder
    obtain ⟨name, below, rfl⟩ := List.exists_cons_of_ne_nil
      (show rest ≠ [] from fun hnil => hother (by rw [hnil, List.append_nil]))
    rw [haccepts.view_append (List.cons_ne_nil name below), Fs.view_append, h.here]
    rfl
  · exact h.beside other hunder

end Fs

namespace Guest

/-- The error stream is open, and nothing is held back for it. -/
structure Hears (g : Guest) : Prop where
  stream : g.descriptors.get? 2 = some .stderr
  held : g.heldErr = []

/-- The guest after a message was written. -/
def told (g : Guest) (message : String) : Guest :=
  { g with console := g.console.append (message ++ "\n") }

theorem hears_start (fs : Fs) (console : Console) (arguments : List String)
    (environment : List (String × String)) (preopens : List Preopen) (entropy : Entropy) :
    (start fs console arguments environment preopens entropy).Hears := ⟨rfl, rfl⟩

end Guest

namespace Tool

variable {g : Guest} {α : Type}

/-- Whether a file exists can always be told, and telling it changes nothing. -/
theorem exists_fileExists (path : String) (g : Guest) :
    ∃ found, fileExists path g = .ok found g := by
  have hasks : Guest.Asks (Guest.target path >>= fun found => Guest.pathStatus found.1 found.2) :=
    (Guest.asks_target path).bind fun found => Guest.asks_pathStatus found.1 found.2
  rw [fileExists]
  cases hrun : (Guest.target path >>= fun found => Guest.pathStatus found.1 found.2) g with
  | ok status g' =>
    obtain rfl : g' = g := hasks.of_ok hrun
    rw [run_bind_of_ok (Native.attempt_eq hrun)]
    exact ⟨_, rfl⟩
  | error e g' =>
    obtain rfl : g' = g := hasks.keeps.of_error hrun
    rw [run_bind_of_ok (Native.attempt_of_error hrun)]
    exact ⟨_, rfl⟩

theorem fail_eq (h : g.Hears) (message : String) :
    (fail message : Native α) g = .error (.exited 1) (g.told message) := by
  have hwrite := Guest.write_stderr h.stream h.held (message ++ "\n")
  rw [fail, writeStream]
  simp only [bind_assoc]
  rw [run_bind_of_ok (Native.attempt_eq hwrite)]
  rfl

/-- A text is shown as it is if nothing is held back. -/
theorem print_eq (hstream : g.descriptors.get? 1 = some .stdout) (hheld : g.heldOut = [])
    (text : String) : print text g = .ok () { g with console := g.console.append text } := by
  have hwrite := Guest.write_stdout hstream (Bytes.ofText text)
  rw [Guest.wrote_ofText hheld] at hwrite
  rw [print, writeStream, run_bind_of_ok (Native.attempt_eq hwrite)]
  rfl

/-- A program gives up: it writes a message to the error stream, changes nothing else, and exits
with code one. -/
def GivesUp (program : Native Unit) (g : Guest) (message : String) : Prop :=
  (∃ n, Guest.write 2 (Bytes.ofText (message ++ "\n")) g = .ok n (g.told message)) ∧
    program.run g = (.exited 1, g.told message)

theorem givesUp {program : Native Unit} (h : g.Hears) {message : String}
    (hrun : program g = .error (.exited 1) (g.told message)) : GivesUp program g message := by
  refine ⟨⟨_, Guest.write_stderr h.stream h.held (message ++ "\n")⟩, ?_⟩
  rw [Native.run, hrun]

/-- A text stands whole at the path to which the name of an output leads. The file system is
otherwise as before. -/
def Stands (g : Guest) (output text : String) (fs : Fs) : Prop :=
  ∃ path content, g.Reaches output path ∧ fs.lookup path = some (.file content) ∧
    (content.size < UInt64.size → content = Bytes.ofText text) ∧
    ∀ other, other ≠ path → fs.view other = g.fs.view other

theorem stands_of_replaced {output text : String} {path : Path} {fs : Fs}
    (hreach : g.Reaches output path) (haccepts : g.fs.Accepts path)
    (hfs : g.fs.Replaced path (some (.file (Bytes.ofText text))) fs) : Stands g output text fs :=
  ⟨path, Bytes.ofText text, hreach, hfs.here, fun _ => rfl,
    fun _ hother => hfs.view_of_ne haccepts hother⟩

/-- What is read already stands there. -/
theorem stands_of_yields {name text : String} (h : g.Yields name (Bytes.ofText text)) :
    Stands g name text g.fs := by
  obtain ⟨-, path, content, hreach, hlookup, hcontent⟩ := h
  exact ⟨path, content, hreach, hlookup, hcontent, fun _ _ => rfl⟩

/-- A program exits with code zero, has left a text, and has changed nothing else. -/
def Leaves (program : Native Unit) (g : Guest) (output text : String) : Prop :=
  ∃ fs, program.run g = (.exited 0, { g with fs }) ∧ Stands g output text fs

namespace Compiler

/-! ### Steps of the compiler -/

theorem complain_eq (h : g.Hears) (c : Complaint) :
    (complain c : Native α) g = .error (.exited 1) (g.told c.message) := fail_eq h c.message

/-- A step has given up for a reason that is no mistake in a program. -/
def Refused (g : Guest) (result : EStateM.Result Signal Guest α) : Prop :=
  ∃ c : Complaint, (∀ path e, c ≠ .mistake path e) ∧
    result = .error (.exited 1) (g.told c.message)

theorem refused (h : g.Hears) {c : Complaint} (hc : ∀ path e, c ≠ .mistake path e) :
    Refused g ((complain c : Native α) g) := ⟨c, hc, complain_eq h c⟩

theorem Refused.bind {β : Type} {x : Native α} (h : Refused g (x g)) (f : α → Native β) :
    Refused g ((x >>= f) g) := by
  obtain ⟨c, hc, hrun⟩ := h
  exact ⟨c, hc, run_bind_of_error hrun f⟩

theorem readText_of_yields {name text : String} (h : g.Yields name (Bytes.ofText text)) :
    readText name g = .ok text g := by
  rw [readText, run_bind_of_ok (Native.attempt_eq h.1)]
  simp only [Bytes.text?_ofText]
  rfl

theorem readText_cases (h : g.Hears) (name : String) :
    (∃ text fd, g.Yields name (Bytes.ofText text) ∧ g.Free fd ∧
      readText name g = .ok text g) ∨ Refused g (readText name g) := by
  rw [readText]
  obtain ⟨data, fd, hdata, hfree⟩ | ⟨e, hrun⟩ := readFile_cases g name
  · rw [run_bind_of_ok (Native.attempt_eq hdata.1)]
    simp only
    cases htext : data.text? with
    | none => exact Or.inr (refused h (by simp))
    | some text =>
      obtain rfl := Bytes.eq_ofText_of_text? htext
      exact Or.inl ⟨text, fd, hdata, hfree, rfl⟩
  · rw [run_bind_of_ok (Native.attempt_of_error hrun)]
    exact Or.inr (refused h (by simp))

theorem exists_findPrelude (name : String) (directories : List String) (g : Guest) :
    ∃ found, findPrelude name directories g = .ok found g := by
  induction directories with
  | nil => exact ⟨false, rfl⟩
  | cons directory rest ih =>
    obtain ⟨found, hfound⟩ := exists_fileExists (preludePath name directory) g
    rw [findPrelude, run_bind_of_ok hfound]
    cases found with
    | true => exact ⟨true, rfl⟩
    | false => exact ih

theorem checkPrelude_cases (h : g.Hears) (name : String) :
    checkPrelude name g = .ok () g ∨ Refused g (checkPrelude name g) := by
  rw [checkPrelude]
  split
  · exact Or.inl rfl
  · have henvironment : environmentValue "CRYSTAL_PATH" g =
        .ok ((g.environment.lookup "CRYSTAL_PATH").getD "") g := rfl
    rw [run_bind_of_ok henvironment]
    obtain ⟨found, hfound⟩ := exists_findPrelude name
      (((Text.fields ':' ((g.environment.lookup "CRYSTAL_PATH").getD "").toList).map
        String.ofList).filter (· ≠ "")) g
    rw [run_bind_of_ok hfound]
    cases found with
    | true => exact Or.inl rfl
    | false => exact Or.inr (refused h (by simp))

theorem writeText_cases (h : g.Hears) {fd : Nat} (hfree : g.Free fd) {text : String}
    (hsize : (Bytes.ofText text).size ≤ Fs.maxFileSize) (name : String) :
    (∃ path fs, g.Reaches name path ∧ g.fs.Accepts path ∧
      g.fs.Replaced path (some (.file (Bytes.ofText text))) fs ∧
      writeText name text g = .ok () { g with fs }) ∨ Refused g (writeText name text g) := by
  rw [writeText]
  obtain ⟨path, fs, hreach, haccepts, hfs, hrun⟩ | ⟨e, hrun⟩ :=
    writeFile_cases hfree hsize name
  · rw [run_bind_of_ok (Native.attempt_eq hrun)]
    exact Or.inl ⟨path, fs, hreach, haccepts, hfs, rfl⟩
  · rw [run_bind_of_ok (Native.attempt_of_error hrun)]
    exact Or.inr (refused h (by simp))

/-! ### What the compiler is asked for -/

/-- A source file is read, and a text that is made of its lines is written. If it is written in the
place of the source, it is not written when it is the same. -/
structure Job where
  source : String
  output : String
  render : List Source.Line → String
  inPlace : Bool
  output_eq : inPlace = true → output = source

/-- Do what is asked for. -/
def Job.perform (job : Job) : Native Unit := do
  let text ← readText job.source
  let lines ← orComplain ((Source.read text).mapError (.mistake job.source))
  if job.inPlace ∧ job.render lines = text then return
  writeText job.output (job.render lines)

/-- The job of a build. -/
def Build.job (b : Build) (source : String) : Job where
  source
  output := b.objectPath source
  render lines := (compile source lines b.release).render
  inPlace := false
  output_eq := nofun

/-- The job of formatting a file. -/
def formatJob (name : String) : Job where
  source := name
  output := name
  render := Source.format
  inPlace := true
  output_eq _ := rfl

/-- The arguments of the compiler ask for a job; in the case of a build, the prelude is there. -/
inductive Job.Asked (g : Guest) : Job → Prop where
  | build {arguments : List String} {b : Build} {source : String}
    (hargs : g.arguments.drop 1 = "build" :: arguments)
    (hparse : Build.parse {} arguments = .ok b) (hsource : b.source = some source)
    (hcross : b.crossCompile = true) (htarget : ∀ other, b.target = some other → other = target)
    (hprelude : checkPrelude (b.prelude.getD "prelude") g = .ok () g) :
    Asked g (b.job source)
  | format {name : String} (hargs : g.arguments.drop 1 = ["tool", "format", name]) :
    Asked g (formatJob name)

theorem parse_ne_mistake {b : Build} {arguments : List String} {c : Complaint}
    (h : Build.parse b arguments = .error c) (path : String) (e : Source.SyntaxError) :
    c ≠ .mistake path e := by
  fun_induction Build.parse b arguments
  case case1 => cases h
  case case2 ih | case3 ih | case4 ih | case6 ih | case8 ih | case10 ih | case14 ih => exact ih h
  case case5 | case7 | case9 | case11 | case12 | case13 =>
    rw [← Except.error.inj h]
    exact nofun

theorem finishBuild_cases (h : g.Hears) (b : Build) (source : String) :
    Refused g (finishBuild b source g) ∨
      checkPrelude (b.prelude.getD "prelude") g = .ok () g ∧
        finishBuild b source g = (b.job source).perform g := by
  rw [finishBuild]
  obtain hprelude | hrefused := checkPrelude_cases h (b.prelude.getD "prelude")
  · rw [run_bind_of_ok hprelude]
    refine Or.inr ⟨hprelude, ?_⟩
    simp only [Job.perform, Build.job, Bool.false_eq_true, false_and, if_false]
  · exact Or.inl (hrefused.bind _)

theorem build_eq_finishBuild {arguments : List String} {b : Build} {source : String}
    (hparse : Build.parse {} arguments = .ok b) (hsource : b.source = some source)
    (hcross : b.crossCompile = true) (htarget : ∀ other, b.target = some other → other = target) :
    build arguments = finishBuild b source := by
  rw [build, hparse, orComplain_ok, pure_bind]
  simp only [hsource, hcross, Bool.not_true, Bool.false_eq_true, if_false]
  cases hgiven : b.target with
  | none => rfl
  | some other =>
    simp only [htarget other hgiven, ne_eq, not_true_eq_false, if_false]
    rfl

theorem build_cases (h : g.Hears) {arguments : List String}
    (hargs : g.arguments.drop 1 = "build" :: arguments) :
    Refused g (build arguments g) ∨ ∃ job, Job.Asked g job ∧ build arguments g = job.perform g := by
  cases hparse : Build.parse {} arguments with
  | error c =>
    rw [build, hparse]
    exact Or.inl (Refused.bind (refused h (parse_ne_mistake hparse)) _)
  | ok b =>
    cases hsource : b.source with
    | none =>
      rw [build, hparse, orComplain_ok, pure_bind]
      simp only [hsource]
      exact Or.inl (refused h (by simp))
    | some source =>
      by_cases hcross : b.crossCompile = true
      · by_cases htarget : ∀ other, b.target = some other → other = target
        · rw [build_eq_finishBuild hparse hsource hcross htarget]
          refine (finishBuild_cases h b source).imp_right ?_
          rintro ⟨hprelude, hrun⟩
          exact ⟨_, .build hargs hparse hsource hcross htarget hprelude, hrun⟩
        · simp only [not_forall] at htarget
          obtain ⟨other, hgiven, hother⟩ := htarget
          rw [build, hparse, orComplain_ok, pure_bind]
          simp only [hsource, hcross, hgiven, hother, Bool.not_true, Bool.false_eq_true, if_false,
            ne_eq, not_false_eq_true, if_true]
          exact Or.inl (Refused.bind (refused h (by simp)) _)
      · rw [build, hparse, orComplain_ok, pure_bind]
        simp only [hsource, hcross, Bool.not_false, if_true]
        exact Or.inl (Refused.bind (refused h (by simp)) _)

theorem format_cases (h : g.Hears) {arguments : List String}
    (hargs : g.arguments.drop 1 = "tool" :: "format" :: arguments) :
    Refused g (format arguments g) ∨
      ∃ job, Job.Asked g job ∧ format arguments g = job.perform g := by
  match arguments with
  | [] => exact Or.inl (refused h (by simp))
  | [name] =>
    refine Or.inr ⟨_, .format hargs, ?_⟩
    simp only [format, Job.perform, formatJob, true_and, ite_not]
  | _ :: _ :: _ => exact Or.inl (refused h (by simp))

/-- The compiler refuses, tells its version, or does a job. -/
theorem program_cases (h : g.Hears) :
    Refused g (program g) ∨ program g = print versionText g ∨
      ∃ job, Job.Asked g job ∧ program g = job.perform g := by
  rw [program, run_bind_of_ok (arguments_eq g)]
  generalize hargs : g.arguments.drop 1 = arguments
  split
  · exact Or.inr (Or.inl rfl)
  · exact Or.inr (Or.inl rfl)
  · exact Or.inr (Or.inl rfl)
  · exact (build_cases h hargs).imp_right Or.inr
  · exact (format_cases h hargs).imp_right Or.inr
  · exact Or.inl (refused h (by simp))
  · exact Or.inl (refused h (by simp))

/-- The compiler does the job that it is asked for. -/
theorem Job.Asked.program_eq {job : Job} (h : Job.Asked g job) : program g = job.perform g := by
  cases h with
  | @build arguments b source hargs hparse hsource hcross htarget hprelude =>
    rw [program_build hargs, build_eq_finishBuild hparse hsource hcross htarget, finishBuild,
      run_bind_of_ok hprelude]
    simp only [Job.perform, Build.job, Bool.false_eq_true, false_and, if_false]
  | @format name hargs =>
    rw [program, run_bind_of_ok (arguments_eq g), hargs]
    simp only [Compiler.format, Job.perform, formatJob, true_and, ite_not]

/-! ### Doing a job -/

/-- A text that a job makes of a source. -/
def Job.Makes (job : Job) (g : Guest) (old text : String) : Prop :=
  g.Yields job.source (Bytes.ofText old) ∧ ∃ lines, Source.read old = .ok lines ∧
    text = job.render lines

theorem Job.perform_of_error (h : g.Hears) {job : Job} {text : String} {e : Source.SyntaxError}
    (htext : readText job.source g = .ok text g) (he : Source.read text = .error e) :
    job.perform g = .error (.exited 1) (g.told (Complaint.mistake job.source e).message) := by
  rw [Job.perform, run_bind_of_ok htext, he]
  exact run_bind_of_error (complain_eq h (.mistake job.source e)) _

/-- A job is refused, finds a mistake in the source, or leaves the text that it makes. -/
theorem Job.perform_cases (h : g.Hears) (job : Job)
    (hsize : ∀ old text, job.Makes g old text → (job.inPlace = true → text ≠ old) →
      (Bytes.ofText text).size ≤ Fs.maxFileSize) :
    Refused g (job.perform g) ∨
    (∃ text e, g.Yields job.source (Bytes.ofText text) ∧ Source.read text = .error e ∧
      job.perform g = .error (.exited 1) (g.told (Complaint.mistake job.source e).message)) ∨
    ∃ old text fs, job.Makes g old text ∧ job.perform g = .ok () { g with fs } ∧
      Stands g job.output text fs := by
  obtain ⟨old, fd, hold, hfree, hread⟩ | hrefused := readText_cases h job.source
  · cases hlines : Source.read old with
    | error e => exact Or.inr (Or.inl ⟨old, e, hold, hlines, perform_of_error h hread hlines⟩)
    | ok lines =>
      have hmakes : job.Makes g old (job.render lines) := ⟨hold, lines, hlines, rfl⟩
      have hrun : job.perform g =
          (if job.inPlace ∧ job.render lines = old then pure ()
            else writeText job.output (job.render lines) : Native Unit) g := by
        rw [Job.perform, run_bind_of_ok hread, hlines]
        rfl
      by_cases hsame : job.inPlace ∧ job.render lines = old
      · rw [if_pos hsame] at hrun
        refine Or.inr (Or.inr ⟨old, _, g.fs, hmakes, hrun, ?_⟩)
        rw [hsame.2, job.output_eq hsame.1]
        exact stands_of_yields hold
      · rw [if_neg hsame] at hrun
        have hfits := hsize old _ hmakes fun hin heq => hsame ⟨hin, heq⟩
        obtain ⟨path, fs, hreach, haccepts, hfs, hwrite⟩ | hrefused :=
          writeText_cases h hfree hfits job.output
        · exact Or.inr (Or.inr ⟨old, _, fs, hmakes, hrun.trans hwrite,
            stands_of_replaced hreach haccepts hfs⟩)
        · exact Or.inl (hrun ▸ hrefused)
  · exact Or.inl (hrefused.bind _)

end Compiler

namespace Linker

/-! ### The linker -/

theorem complain_eq (h : g.Hears) (c : Complaint) :
    (complain c : Native α) g = .error (.exited 1) (g.told c.message) := fail_eq h c.message

/-- The operations of the object files among some inputs, in order. -/
inductive Reads (g : Guest) : List String → List (List Op) → Prop where
  | nil : Reads g [] []
  | other {name : String} {rest : List String} {data : Bytes} {objects : List (List Op)}
    (hdata : g.Yields name data) (hother : ObjectFile.parse? data = none)
    (hrest : Reads g rest objects) : Reads g (name :: rest) objects
  | object {name : String} {rest : List String} {data : Bytes} {o : ObjectFile}
    {objects : List (List Op)} (hdata : g.Yields name data)
    (hobject : ObjectFile.parse? data = some (.ok o)) (hrest : Reads g rest objects) :
    Reads g (name :: rest) (o.ops :: objects)

/-- A step has given up. If it calls an object file malformed, then it is. -/
def Refused (g : Guest) (result : EStateM.Result Signal Guest α) : Prop :=
  ∃ c : Complaint,
    (∀ path e, c = .malformed path e →
      ∃ data, g.Yields path data ∧ ObjectFile.parse? data = some (.error e)) ∧
    result = .error (.exited 1) (g.told c.message)

theorem refused (h : g.Hears) {c : Complaint} (hc : ∀ path e, c ≠ .malformed path e) :
    Refused g ((complain c : Native α) g) :=
  ⟨c, fun path e heq => absurd heq (hc path e), complain_eq h c⟩

theorem Refused.bind {β : Type} {x : Native α} (h : Refused g (x g)) (f : α → Native β) :
    Refused g ((x >>= f) g) := by
  obtain ⟨c, hc, hrun⟩ := h
  exact ⟨c, hc, run_bind_of_error hrun f⟩

theorem readInputs_cases (h : g.Hears) (names : List String) :
    (∃ objects, Reads g names objects ∧ (names ≠ [] → ∃ fd, g.Free fd) ∧
      readInputs names g = .ok objects g) ∨ Refused g (readInputs names g) := by
  induction names with
  | nil => exact Or.inl ⟨[], .nil, fun hne => absurd rfl hne, rfl⟩
  | cons name rest ih =>
    rw [readInputs]
    obtain ⟨data, fd, hdata, hfree⟩ | ⟨e, hrun⟩ := readFile_cases g name
    · rw [run_bind_of_ok (Native.attempt_eq hdata.1)]
      simp only
      cases hparse : ObjectFile.parse? data with
      | none =>
        refine ih.imp_left ?_
        rintro ⟨objects, hobjects, -, hrest⟩
        exact ⟨objects, .other hdata hparse hobjects, fun _ => ⟨fd, hfree⟩, hrest⟩
      | some parsed =>
        cases parsed with
        | error e =>
          refine Or.inr ⟨.malformed name e, ?_, complain_eq h _⟩
          rintro path e' ⟨⟩
          exact ⟨data, hdata, hparse⟩
        | ok o =>
          obtain ⟨objects, hobjects, -, hrest⟩ | hrefused := ih
          · refine Or.inl ⟨o.ops :: objects, .object hdata hparse hobjects,
              fun _ => ⟨fd, hfree⟩, ?_⟩
            simp only
            rw [run_bind_of_ok hrest]
            rfl
          · exact Or.inr (hrefused.bind _)
    · rw [run_bind_of_ok (Native.attempt_of_error hrun)]
      exact Or.inr (refused h (by simp))

/-- The arguments of the linker ask for a program at an output, and it can be linked. -/
def Makes (g : Guest) (output text : String) : Prop :=
  ∃ l objects, Link.parse {} (g.arguments.drop 1) = .ok l ∧ l.output = some output ∧
    Reads g l.inputs objects ∧ objects ≠ [] ∧
    text = (Wasm.Linked.ofOps objects.flatten).render

theorem parse_ne_malformed {l : Link} {arguments : List String} {c : Complaint}
    (h : Link.parse l arguments = .error c) (path : String) (e : ObjectFile.ParseError) :
    c ≠ .malformed path e := by
  fun_induction Link.parse l arguments
  case case1 => cases h
  case case2 ih | case5 ih => exact ih h
  case case3 | case4 =>
    rw [← Except.error.inj h]
    exact nofun

/-- The linker gives up, or leaves the program. -/
theorem program_cases (h : g.Hears)
    (hsize : ∀ output text, Makes g output text → (Bytes.ofText text).size ≤ Fs.maxFileSize) :
    Refused g (program g) ∨ ∃ output text fs, Makes g output text ∧
      program g = .ok () { g with fs } ∧ Stands g output text fs := by
  rw [program, run_bind_of_ok (arguments_eq g)]
  cases hparse : Link.parse {} (g.arguments.drop 1) with
  | error c => exact Or.inl (refused h (parse_ne_malformed hparse))
  | ok l =>
    simp only
    rw [link]
    by_cases hinputs : l.inputs = []
    · simp only [hinputs, if_true]
      exact Or.inl (Refused.bind (refused h (by simp)) _)
    · simp only [hinputs, if_false]
      cases houtput : l.output with
      | none => exact Or.inl (refused h (by simp))
      | some output =>
        simp only
        obtain ⟨objects, hobjects, hfree, hread⟩ | hrefused := readInputs_cases h l.inputs
        · rw [run_bind_of_ok hread]
          by_cases hentry : objects = []
          · simp only [hentry, if_true]
            exact Or.inl (Refused.bind (refused h (by simp)) _)
          · simp only [hentry, if_false]
            have hmakes : Makes g output (Wasm.Linked.ofOps objects.flatten).render :=
              ⟨l, objects, hparse, houtput, hobjects, hentry, rfl⟩
            obtain ⟨fd, hfree⟩ := hfree hinputs
            obtain ⟨path, fs, hreach, haccepts, hfs, hwrite⟩ | ⟨e, hwrite⟩ :=
              writeFile_cases hfree (hsize _ _ hmakes) output
            · rw [run_bind_of_ok (Native.attempt_eq hwrite)]
              exact Or.inr ⟨output, _, fs, hmakes, rfl, stands_of_replaced hreach haccepts hfs⟩
            · rw [run_bind_of_ok (Native.attempt_of_error hwrite)]
              exact Or.inl (refused h (by simp))
        · exact Or.inl (hrefused.bind _)

end Linker

/-! ### Both tools -/

/-- A mistake that is the first one in the source file of this name. -/
def Compiler.Mistaken (g : Guest) (name : String) (e : Source.SyntaxError) : Prop :=
  ∃ text, g.Yields name (Bytes.ofText text) ∧
    Text.FirstMistake Source.mistake? 1 (Text.lines text.toList) e.line e.mistake

/-- A mistake that is the first one in the object file of this name. -/
def Linker.Malformed (g : Guest) (name : String) (e : ObjectFile.ParseError) : Prop :=
  ∃ data text rest, g.Yields name data ∧ data.text? = some text ∧
    Text.lines text.toList = ObjectFile.mark.toList :: rest ∧
    Text.FirstMistake ObjectFile.mistake? 2 rest e.line e.mistake

/-- The text that tells a mistake: the file, the number of the line, and what is wrong there. -/
def Compiler.mistakeText (name : String) (e : Source.SyntaxError) : String :=
  "Syntax error in " ++ name ++ ":" ++ toString e.line ++ ": " ++ e.mistake.message

/-- The text that tells what is wrong with an object file, and in which line. -/
def Linker.malformedText (name : String) (e : ObjectFile.ParseError) : String :=
  "wasm-ld: error: " ++ name ++ ": line " ++ toString e.line ++ ": " ++ e.mistake.message

theorem Compiler.message_mistake (name : String) (e : Source.SyntaxError) :
    (Complaint.mistake name e).message = mistakeText name e := rfl

theorem Linker.message_malformed (name : String) (e : ObjectFile.ParseError) :
    (Complaint.malformed name e).message = malformedText name e := by
  have hline (front : String) : front ++ ": " ++ "line " = front ++ ": line " :=
    String.append_assoc.trans rfl
  dsimp only [Complaint.message, ObjectFile.ParseError.message, malformedText]
  simp only [← String.append_assoc, hline]
  rfl

theorem append_ne_empty {front : String} (h : front ≠ "") (rest : String) : front ++ rest ≠ "" :=
  fun hnil => h (String.append_eq_empty_iff.mp hnil).1

/-- The compiler never gives up without a word. -/
theorem Compiler.message_ne_empty (c : Complaint) : c.message ≠ "" := by
  cases c with
  | usage | formatUsage | manySources | noSource | linking => decide
  | missingArgument | unknownOption | unknownTarget => exact append_ne_empty (by decide) _
  | unknownCommand | preludeMissing | sourceMissing | sourceNotText | mistake | cannotWrite =>
    refine append_ne_empty ?_ _
    repeat' apply append_ne_empty
    decide

theorem Linker.message_ne_empty (c : Complaint) : c.message ≠ "" :=
  append_ne_empty (by decide) _

/-- A tool that starts with its streams open gives up or succeeds. If it gives up because of a
mistake in a file, it tells the first one there is, with the file and the number of the line, and
the compiler gives up for every mistake in the source that it is asked to read. If a tool succeeds,
the text that it makes of what it has read stands whole at the path of its output, and nowhere else
is a difference. All this holds if no text that a tool would write is too large for a file. -/
theorem tools_end (fs : Fs) (console : Console) (arguments : List String)
    (environment : List (String × String)) (preopens : List Preopen) (entropy : Entropy) :
    let g := Guest.start fs console arguments environment preopens entropy
    ((∀ job old text, Compiler.Job.Asked g job → job.Makes g old text →
        (job.inPlace = true → text ≠ old) → (Bytes.ofText text).size ≤ Fs.maxFileSize) →
      (∃ c : Compiler.Complaint, GivesUp Compiler.program g c.message ∧ c.message ≠ "" ∧
        ∀ name e, c = .mistake name e →
          Compiler.Mistaken g name e ∧ c.message = Compiler.mistakeText name e) ∨
      Compiler.program.run g =
        (.exited 0, { g with console := g.console.append Compiler.versionText }) ∨
      ∃ job old text, Compiler.Job.Asked g job ∧ job.Makes g old text ∧
        Leaves Compiler.program g job.output text) ∧
    (∀ job e, Compiler.Job.Asked g job → Compiler.Mistaken g job.source e →
      GivesUp Compiler.program g (Compiler.mistakeText job.source e)) ∧
    ((∀ output text, Linker.Makes g output text → (Bytes.ofText text).size ≤ Fs.maxFileSize) →
      (∃ c : Linker.Complaint, GivesUp Linker.program g c.message ∧ c.message ≠ "" ∧
        ∀ name e, c = .malformed name e →
          Linker.Malformed g name e ∧ c.message = Linker.malformedText name e) ∨
      ∃ output text, Linker.Makes g output text ∧ Leaves Linker.program g output text) := by
  intro g
  have h : g.Hears := Guest.hears_start fs console arguments environment preopens entropy
  refine ⟨fun hsize => ?_, fun job e hjob he => ?_, fun hsize => ?_⟩
  · have hgivesUp (c : Compiler.Complaint)
        (hrun : Compiler.program g = .error (.exited 1) (g.told c.message))
        (hc : ∀ name e, c = .mistake name e → Compiler.Mistaken g name e) :
        ∃ c : Compiler.Complaint, GivesUp Compiler.program g c.message ∧ c.message ≠ "" ∧
          ∀ name e, c = .mistake name e →
            Compiler.Mistaken g name e ∧ c.message = Compiler.mistakeText name e := by
      refine ⟨c, givesUp h hrun, Compiler.message_ne_empty c, fun name e heq => ?_⟩
      exact ⟨hc name e heq, heq ▸ Compiler.message_mistake name e⟩
    obtain ⟨c, hc, hrun⟩ | hversion | ⟨job, hjob, hprogram⟩ := Compiler.program_cases h
    · exact Or.inl (hgivesUp c hrun fun name e heq => absurd heq (hc name e))
    · refine Or.inr (Or.inl ?_)
      rw [Native.run, hversion, print_eq rfl rfl]
    · obtain ⟨c, hc, hrun⟩ | ⟨text, e, htext, he, hrun⟩ | ⟨old, text, fs, hmakes, hrun, hstands⟩ :=
        job.perform_cases h fun old text => hsize job old text hjob
      · exact Or.inl (hgivesUp c (hprogram.trans hrun) fun name e heq => absurd heq (hc name e))
      · refine Or.inl (hgivesUp _ (hprogram.trans hrun) ?_)
        rintro name e' ⟨⟩
        exact ⟨text, htext, Source.read_eq_error_iff.mp he⟩
      · exact Or.inr (Or.inr ⟨job, old, text, hjob, hmakes, fs,
          Native.run_eq (hprogram.trans hrun), hstands⟩)
  · obtain ⟨text, htext, hfirst⟩ := he
    have hread : Compiler.readText job.source g = .ok text g := Compiler.readText_of_yields htext
    rw [← Compiler.message_mistake]
    exact givesUp h (hjob.program_eq.trans
      (Compiler.Job.perform_of_error h hread (Source.read_eq_error_iff.mpr hfirst)))
  · obtain ⟨c, hc, hrun⟩ | ⟨output, text, fs, hmakes, hrun, hstands⟩ :=
      Linker.program_cases h hsize
    · refine Or.inl ⟨c, givesUp h hrun, Linker.message_ne_empty c, fun name e heq => ?_⟩
      obtain ⟨data, hdata, hparse⟩ := hc name e heq
      obtain ⟨text, rest, htext, hlines, hfirst⟩ := ObjectFile.parse?_eq_error_iff.mp hparse
      refine ⟨⟨data, text, rest, hdata, htext, hlines, hfirst⟩, ?_⟩
      rw [heq, Linker.message_malformed]
    · exact Or.inr ⟨output, text, hmakes, fs, Native.run_eq hrun, hstands⟩

/-- The compiler is asked to build one source file. -/
def buildGuest (source : String) : Guest :=
  Guest.start [("a", .file (Bytes.ofText source))] {}
    ["crystal", "build", "/a", "--cross-compile", "--prelude", "empty", "-o", "/o"] []
    [Preopen.root] .zeros

theorem yields_buildGuest {source : String} (hsize : (Bytes.ofText source).size < UInt64.size) :
    (buildGuest source).Yields "/a" (Bytes.ofText source) :=
  (yields_of_readFile (readFile_eq
    (Guest.reaches_root rfl (show Path.parse? "/a" = some ["a"] by decide))
    (Guest.free_root rfl) rfl hsize)).2

/-- The options of that build. -/
def buildOptions : Compiler.Build where
  source := some "/a"
  output := some "/o"
  crossCompile := true
  prelude := some "empty"

theorem asked_buildGuest_iff {source : String} {job : Compiler.Job} :
    Compiler.Job.Asked (buildGuest source) job ↔ job = buildOptions.job "/a" := by
  have hoptions : Compiler.Build.parse {}
      ["/a", "--cross-compile", "--prelude", "empty", "-o", "/o"] = .ok buildOptions := by decide
  constructor
  · intro hjob
    cases hjob with
    | format hargs =>
      have hcommand : "build" = "tool" := (List.cons.inj hargs).1
      exact absurd hcommand (by decide)
    | build hargs hparse hsource =>
      cases hargs
      obtain rfl := Except.ok.inj (hoptions.symm.trans hparse)
      cases hsource
      rfl
  · rintro rfl
    exact .build rfl hoptions rfl rfl nofun rfl

/-- A program of one line is compiled, and one that goes wrong in its second line is not. -/
theorem tools_end_build :
    let right := buildGuest "print 1"
    let wrong := buildGuest "print 1\nprint\nprint"
    (∀ job old text, Compiler.Job.Asked right job → job.Makes right old text →
        (job.inPlace = true → text ≠ old) → (Bytes.ofText text).size ≤ Fs.maxFileSize) ∧
      (∃ job old text, Compiler.Job.Asked right job ∧ job.Makes right old text ∧
        Leaves Compiler.program right job.output text) ∧
      GivesUp Compiler.program wrong
        "Syntax error in /a:2: wrong number of arguments for 'print' (given 0, expected 1)" := by
  intro right wrong
  have hread : right.Yields "/a" (Bytes.ofText "print 1") := yields_buildGuest (by decide)
  have hlines : Source.read "print 1" = .ok [.statement (.print (.number 1))] := by decide +kernel
  have hsize : ∀ job old text, Compiler.Job.Asked right job → job.Makes right old text →
      (job.inPlace = true → text ≠ old) → (Bytes.ofText text).size ≤ Fs.maxFileSize := by
    rintro job old text hjob ⟨hold, lines, hparsed, rfl⟩ -
    obtain rfl := asked_buildGuest_iff.mp hjob
    obtain ⟨rfl, -⟩ := EStateM.Result.ok.inj
      ((Compiler.readText_of_yields hread).symm.trans (Compiler.readText_of_yields hold))
    obtain rfl := Except.ok.inj (hlines.symm.trans hparsed)
    decide +kernel
  refine ⟨hsize, ?_, ?_⟩
  · have hends : (Compiler.program.run right).1 = .exited 0 ∧
        (Compiler.program.run right).2.console.text = "" := by decide +kernel
    obtain ⟨c, hgivesUp, -⟩ | hversion | hleaves := (tools_end _ _ _ _ _ _).1 hsize
    · cases hends.1.symm.trans (congrArg Prod.fst hgivesUp.2)
    · have hshown := (congrArg (·.2.console.text) hversion).symm.trans hends.2
      exact absurd hshown (by decide +kernel)
    · exact hleaves
  · have hmistaken : Compiler.Mistaken wrong "/a" ⟨2, .nothingToPrint⟩ :=
      ⟨_, yields_buildGuest (by decide), Source.read_eq_error_iff.mp (by decide +kernel)⟩
    have hgivesUp := (tools_end _ _ _ _ _ _).2.1 (buildOptions.job "/a") ⟨2, .nothingToPrint⟩
      (asked_buildGuest_iff.mpr rfl) hmistaken
    have htext : Compiler.mistakeText (buildOptions.job "/a").source ⟨2, .nothingToPrint⟩ =
        "Syntax error in /a:2: wrong number of arguments for 'print' (given 0, expected 1)" := by
      decide +kernel
    rw [htext] at hgivesUp
    exact hgivesUp

end Tool

end StagedSandbox
