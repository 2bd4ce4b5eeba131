import StagedSandbox.Proofs.Fs.Enumeration
import StagedSandbox.Proofs.Fs.Reachable
import StagedSandbox.Proofs.Guest.Sandbox
import StagedSandbox.Proofs.Wasi.Listing

/-!
# Listing what there is

A file system that can be reached can be enumerated, also after whatever a program has made of it;
and the program sees this: an open directory that is still there is listed, and each name with the
type of what is found by it (`Fs.Reachable.enumerable_and_listed`).
-/

namespace StagedSandbox

namespace Guest

open StagedSandbox.Action

variable {g : Guest} {fd : Nat} {path scope : Path} {children : List (String × Node)}

theorem call_readDir (h : g.Lists fd children) (hfs : g.fs.WellFormed) :
    g.call (.readDir fd) = (.ok (.entries (entriesOf children)), g) :=
  call_of_ok .entries rfl (readDir_eq h hfs)

/-- What a name beneath an open directory leads to is not outside the scope. -/
theorem locate_child (hdir : directory fd g = .ok (path, scope) g) (hscope : scope <+: path)
    {name : String} (hname : Path.IsName name) :
    locate fd name g = .ok (path ++ [name], scope) g := by
  have hin : scope.isPrefixOf (path ++ [name]) = true :=
    List.isPrefixOf_iff_prefix.2 (hscope.trans (List.prefix_append path [name]))
  rw [locate, run_bind_of_ok hdir]
  dsimp only
  rw [Path.follow_of_isName hname, if_pos hin]
  rfl

theorem call_pathStatus_child (hdir : directory fd g = .ok (path, scope) g)
    (hscope : scope <+: path) (hlook : g.fs.lookup path = some (.dir children))
    (hfs : g.fs.WellFormed) {child : String × Node} (hchild : child ∈ children) :
    g.call (.pathStatus fd child.1) =
      (.ok (.status ⟨child.2.fileType, child.2.metadata.length⟩), g) := by
  have hlocate := locate_child hdir hscope (hfs.isName hlook hchild)
  have hstatus := statusAt_eq (hfs.lookup_child hlook hchild)
  have hpath : pathStatus fd child.1 g = .ok ⟨child.2.fileType, child.2.metadata.length⟩ g := by
    rw [pathStatus, run_bind_of_ok hlocate]
    exact hstatus
  exact call_of_ok .status rfl hpath

/-- Of an open directory that is still there, all names are listed, and each with the type of what
is found by it. -/
theorem listed_of_view (hdir : directory fd g = .ok (path, scope) g) (hscope : scope <+: path)
    (hfs : g.fs.WellFormed) (hview : g.fs.view path = some .dir) :
    ∃ entries, g.call (.readDir fd) = (.ok (.entries entries), g) ∧
      g.fs.list path = .ok (entries.map Prod.fst) ∧
      ∀ entry ∈ entries, ∃ size,
        g.call (.pathStatus fd entry.1) = (.ok (.status ⟨entry.2, size⟩), g) := by
  obtain ⟨children, hlook⟩ := Fs.view_eq_dir_iff.1 hview
  refine ⟨entriesOf children, call_readDir ⟨path, scope, hdir, hlook⟩ hfs, ?_, ?_⟩
  · rw [Fs.list_of_lookup hlook, entriesOf, List.map_map]
    rfl
  · intro entry hentry
    obtain ⟨child, hchild, rfl⟩ := List.mem_map.1 hentry
    exact ⟨_, call_pathStatus_child hdir hscope hlook hfs hchild⟩

/-- Whatever calls a program has made, an open directory lies within its scope. -/
theorem scope_prefix_run (fs : Fs) (console : Console) (arguments : List String)
    (environment : List (String × String)) (preopens : List Preopen)
    (entropy : Entropy) (calls : List SystemCall)
    (hdir : directory fd ((start fs console arguments environment preopens entropy).run calls).2 =
      .ok (path, scope) ((start fs console arguments environment preopens entropy).run calls).2) :
    scope <+: path := by
  have hstart := bonded_start (F := Fs.SameOutside (Preopen.roots preopens) fs)
    ⟨rfl, fun _ _ => rfl⟩ console arguments environment preopens entropy
  have hrun := (hstart.run (Fs.bond_sameOutside (Preopen.roots preopens) fs) calls).2
  have halike := alike_directory fd _ _ hrun
  rw [hdir] at halike
  exact halike.2.1.2.1

end Guest

/-- A file system that can be reached can be enumerated, and so can what any calls of a program
leave of it. Listing an open directory that is there never fails, and shows each name with the type
that the program is told when it asks for the name. -/
theorem Fs.Reachable.enumerable_and_listed {fs : Fs} (h : fs.Reachable) :
    fs.Enumerable ∧
    ∀ (console : Console) (arguments : List String) (environment : List (String × String))
      (preopens : List Preopen) (entropy : Entropy) (calls : List SystemCall),
      let g := ((Guest.start fs console arguments environment preopens entropy).run calls).2
      g.fs.Enumerable ∧
      ∀ fd path scope, Guest.directory fd g = .ok (path, scope) g → g.fs.view path = some .dir →
        ∃ entries, g.call (.readDir fd) = (.ok (.entries entries), g) ∧
          g.fs.list path = .ok (entries.map Prod.fst) ∧
          ∀ entry ∈ entries, ∃ size,
            g.call (.pathStatus fd entry.1) = (.ok (.status ⟨entry.2, size⟩), g) := by
  refine ⟨h.wellFormed.enumerable, ?_⟩
  intro console arguments environment preopens entropy calls g
  have hfs : g.fs.WellFormed :=
    Guest.wellFormed_run fs console arguments environment preopens entropy calls h.wellFormed
  refine ⟨hfs.enumerable, fun fd path scope hdir hview => ?_⟩
  have hscope :=
    Guest.scope_prefix_run fs console arguments environment preopens entropy calls hdir
  exact Guest.listed_of_view hdir hscope hfs hview

/-- A directory that was opened by a crooked text, and a file that was made in it. -/
theorem Fs.Reachable.enumerable_and_listed_crooked :
    let fs : Fs := [("f", .dir [("g", .dir [])]), ("f-x", .file ⟨#[1]⟩)]
    let g := ((Guest.start fs {} [] [] [Preopen.root] .zeros).run
      [.openPath 3 "/./f//g/.." {}, .openPath 4 "..x" { create := true }]).2
    fs.Reachable ∧ Path.join? "//f/." "g" = some "/f/g" ∧
      fs.explore 2 "/" = ["/", "/f", "/f/g", "/f-x"] ∧ g.fs.view ["f"] = some .dir ∧
      ∃ entries, g.call (.readDir 4) = (.ok (.entries entries), g) ∧
        entries = [("..x", .regularFile), ("g", .directory)] ∧
        ∀ entry ∈ entries, ∃ size,
          g.call (.pathStatus 4 entry.1) = (.ok (.status ⟨entry.2, size⟩), g) := by
  intro fs g
  have hreach : fs.Reachable :=
    (Reachable.new.operation (.makeDirs "/f/g")).operation (.write "/f-x" ⟨#[1]⟩ .overwrite)
  obtain ⟨-, hlisted⟩ := Reachable.enumerable_and_listed hreach
  obtain ⟨-, hdirs⟩ := hlisted {} [] [] [Preopen.root] .zeros
    [.openPath 3 "/./f//g/.." {}, .openPath 4 "..x" { create := true }]
  have hview : g.fs.view ["f"] = some .dir := rfl
  obtain ⟨entries, hread, hnames, hentries⟩ := hdirs 4 ["f"] [] rfl hview
  have hcall : g.call (.readDir 4) =
      (.ok (.entries [("..x", .regularFile), ("g", .directory)]), g) := rfl
  refine ⟨hreach, by decide +kernel, by decide +kernel, hview, entries, hread, ?_, hentries⟩
  exact Reply.entries.inj (Except.ok.inj (congrArg Prod.fst (hread.symm.trans hcall)))

end StagedSandbox
