import StagedSandbox.Proofs.Guest.Bond

/-!
# The sandbox

A program changes nothing outside the directories that are shown to it (`Guest.view_run_outside`),
and learns nothing about it (`Guest.run_eq_of_agree`).
-/

namespace StagedSandbox

namespace Fs

/-! ### Nothing outside changes -/

/-- The same file system, which shows what another one did at all paths outside the roots. -/
def SameOutside (roots : List Path) (fs₀ fs₁ fs₂ : Fs) : Prop :=
  fs₁ = fs₂ ∧ ∀ path : Path, ¬ path.Beneath roots → fs₂.view path = fs₀.view path

variable {roots : List Path}

theorem not_isPrefix_of_outside {path other : Path} (hpath : path.Beneath roots)
    (hother : ¬ other.Beneath roots) : ¬ path <+: other := by
  obtain ⟨root, hroot, hunder⟩ := hpath
  exact fun h => hother ⟨root, hroot, hunder.trans h⟩

theorem bond_sameOutside (roots : List Path) (fs₀ : Fs) : Bond roots (SameOutside roots fs₀) where
  find h _ := by rw [h.1]
  child h _ _ _ _ := by rw [h.1]
  change {_ change fs₁ _ path} hconfined h hpath _ := by
    obtain ⟨rfl, hview⟩ := h
    have hleft : ∀ other : Path, ¬ other.Beneath roots →
        (Action.left change fs₁).view other = fs₀.view other := by
      intro other hother
      rw [hconfined.view_left fs₁ (not_isPrefix_of_outside hpath hother), hview other hother]
    rw [Action.left] at hleft
    cases hrun : change fs₁ with
    | ok a fs =>
      rw [hrun] at hleft
      exact ⟨rfl, trivial, rfl, hleft⟩
    | error e fs =>
      rw [hrun] at hleft
      exact ⟨rfl, rfl, hleft⟩
  move {fs₁ _ source goal} h hsource _ hgoal _ := by
    obtain ⟨rfl, hview⟩ := h
    have hmove := move_cases fs₁ source goal
    split at hmove
    · rw [hmove]
      exact ⟨rfl, rfl, hview⟩
    · split at hmove
      · rw [hmove]
        exact ⟨rfl, trivial, rfl, hview⟩
      · obtain ⟨fs, hrun, hmoved⟩ := hmove
        rw [hrun]
        refine ⟨rfl, trivial, rfl, fun other hother => ?_⟩
        rw [hmoved.beside (not_isPrefix_of_outside hsource hother)
          (not_isPrefix_of_outside hgoal hother), hview other hother]

/-! ### Nothing outside is learned -/

/-- Two well-formed file systems that look alike within the roots, and on the way to them have
directories and files at the same places. -/
structure Agree (roots : List Path) (fs₁ fs₂ : Fs) : Prop where
  wellFormed₁ : fs₁.WellFormed
  wellFormed₂ : fs₂.WellFormed
  within : ∀ path : Path, path.Beneath roots → fs₁.view path = fs₂.view path
  above : ∀ root ∈ roots, ∀ path, path <+: root → fs₁.kind path = fs₂.kind path

namespace Agree

variable {fs₁ fs₂ : Fs}

theorem refl {fs : Fs} (h : fs.WellFormed) : Agree roots fs fs :=
  ⟨h, h, fun _ _ => rfl, fun _ _ _ _ => rfl⟩

theorem kind (h : Agree roots fs₁ fs₂) {path above : Path} (hpath : path.Beneath roots)
    (habove : above <+: path) : fs₁.kind above = fs₂.kind above := by
  obtain ⟨root, hroot, hunder⟩ := hpath
  rcases List.prefix_or_prefix_of_prefix habove hunder with h' | h'
  · exact h.above root hroot above h'
  · exact kind_eq_of_view_eq (h.within above ⟨root, hroot, h'⟩)

theorem lookup (h : Agree roots fs₁ fs₂) {path : Path} (hpath : path.Beneath roots) :
    fs₁.lookup path = fs₂.lookup path := by
  obtain ⟨root, hroot, hunder⟩ := hpath
  refine h.wellFormed₁.lookup_eq_of_view_eq h.wellFormed₂ fun rest => h.within _ ?_
  exact ⟨root, hroot, hunder.trans (List.prefix_append path rest)⟩

/-- What is missing beneath a root is missing for the same reason. -/
theorem find (h : Agree roots fs₁ fs₂) {path : Path} (hpath : path.Beneath roots) :
    fs₁.find path = fs₂.find path := by
  cases hfind : fs₁.find path with
  | ok node =>
    rw [find_eq_ok_iff, h.lookup hpath] at hfind
    exact (find_eq_ok_iff.2 hfind).symm
  | error e => exact (find_eq_error_congr (fun above => h.kind hpath) hfind).symm

/-- After the same node, or none, was put at one path, they still agree. -/
theorem replaced (h : Agree roots fs₁ fs₂) {path : Path} {new : Option Node} {fs₁' fs₂' : Fs}
    (h₁ : fs₁.Replaced path new fs₁') (h₂ : fs₂.Replaced path new fs₂')
    (hwf₁ : fs₁'.WellFormed) (hwf₂ : fs₂'.WellFormed) : Agree roots fs₁' fs₂' := by
  have hbelow : ∀ other, path <+: other → fs₁'.view other = fs₂'.view other := by
    rintro _ ⟨rest, rfl⟩
    rw [view_append, view_append, h₁.here, h₂.here]
  refine ⟨hwf₁, hwf₂, fun other hother => ?_, fun root hroot above habove => ?_⟩
  · by_cases hpath : path <+: other
    · exact hbelow other hpath
    · rw [h₁.beside other hpath, h₂.beside other hpath, h.within other hother]
  · by_cases hpath : path <+: above
    · exact kind_eq_of_view_eq (hbelow above hpath)
    · have hkind := h.above root hroot above habove
      rw [Fs.kind, Fs.kind] at hkind ⊢
      rw [h₁.beside above hpath, h₂.beside above hpath, hkind]

/-- After the same move they still agree. -/
theorem moved (h : Agree roots fs₁ fs₂) {source goal : Path} {fs₁' fs₂' : Fs}
    (hsource : source.Beneath roots) (hsourceNamed : source.Named) (hgoalNamed : goal.Named)
    (h₁ : fs₁.Moved source goal fs₁') (h₂ : fs₂.Moved source goal fs₂') :
    Agree roots fs₁' fs₂' := by
  have hwf₁ := h₁.wellFormed h.wellFormed₁ hsourceNamed hgoalNamed
  have hwf₂ := h₂.wellFormed h.wellFormed₂ hsourceNamed hgoalNamed
  obtain ⟨node₁, between₁, hnode₁, hdetached₁, hattached₁⟩ := h₁
  obtain ⟨node₂, between₂, hnode₂, hdetached₂, hattached₂⟩ := h₂
  obtain rfl : node₁ = node₂ := by
    rw [h.lookup hsource, hnode₂] at hnode₁
    exact (Option.some.inj hnode₁).symm
  have hbetween := h.replaced hdetached₁ hdetached₂
    (hdetached₁.wellFormed h.wellFormed₁ hsourceNamed (by simp))
    (hdetached₂.wellFormed h.wellFormed₂ hsourceNamed (by simp))
  exact hbetween.replaced hattached₁ hattached₂ hwf₁ hwf₂

end Agree

/-- Where directories and files stand at the same places on the way to a path, it is missed for
the same reason or found as the same kind. -/
theorem find_cases_of_kind {fs₁ fs₂ : Fs} {path : Path}
    (h : ∀ above, above <+: path → fs₁.kind above = fs₂.kind above) :
    (∃ e, fs₁.find path = .error e ∧ fs₂.find path = .error e) ∨
    ∃ node₁ node₂, fs₁.find path = .ok node₁ ∧ fs₂.find path = .ok node₂ ∧
      node₁.isDir = node₂.isDir := by
  cases hfind : fs₁.find path with
  | error e => exact Or.inl ⟨e, rfl, find_eq_error_congr h hfind⟩
  | ok node₁ =>
    have hhere := h path (List.prefix_refl path)
    rw [find_eq_ok_iff] at hfind
    rw [kind, kind, view, view, hfind] at hhere
    cases hlook : fs₂.lookup path with
    | none => simp [hlook] at hhere
    | some node₂ =>
      rw [hlook, Option.map_some, Option.map_some, Option.map_some, Option.map_some,
        Option.some.injEq, Node.isDir_surface, Node.isDir_surface] at hhere
      exact Or.inr ⟨node₁, node₂, rfl, find_eq_ok_iff.2 hlook, hhere⟩

/-- The way to a path and what stands there decide what can be reached. -/
theorem reach_congr {fs₁ fs₂ : Fs} {path : Path} (hlookup : fs₁.lookup path = fs₂.lookup path)
    (hkind : ∀ above, above <+: path → fs₁.kind above = fs₂.kind above) :
    fs₁.reach path = fs₂.reach path := by
  unfold reach
  split
  · rfl
  · rcases find_cases_of_kind fun above h => hkind above (h.trans (List.dropLast_prefix path)) with
      ⟨e, h₁, h₂⟩ | ⟨node₁, node₂, h₁, h₂, hdir⟩
    · rw [h₁, h₂]
    · rw [h₁, h₂, hlookup]
      cases node₁ <;> cases node₂ <;> simp_all [Node.isDir]

/-- Whether a move is refused can be told from its two ends and the way to the goal. -/
theorem checkMove_congr {fs₁ fs₂ : Fs} {source goal : Path}
    (hsource : fs₁.find source = fs₂.find source) (hgoal : fs₁.lookup goal = fs₂.lookup goal)
    (hkind : ∀ above, above <+: goal → fs₁.kind above = fs₂.kind above) :
    fs₁.checkMove source goal = fs₂.checkMove source goal := by
  unfold checkMove
  rw [stat, stat, hsource, hgoal]
  rcases find_cases_of_kind fun above h => hkind above (h.trans (List.dropLast_prefix goal)) with
    ⟨e, h₁, h₂⟩ | ⟨node₁, node₂, h₁, h₂, hdir⟩
  · rw [stat, stat, h₁, h₂]
  · have hholder : node₁.metadata.isDirectory = node₂.metadata.isDirectory := by
      cases node₁ <;> cases node₂ <;> simp_all [Node.isDir, Node.metadata]
    rw [stat, stat, h₁, h₂]
    simp only [bind, Except.bind, pure, Except.pure, hholder]

/-- The names in a directory lead to what stands in it. -/
theorem follow_of_list {fs : Fs} (h : fs.WellFormed) {path : Path} {names : List String}
    (hlist : fs.list path = .ok names) {name : String} (hname : name ∈ names) :
    path.follow name = path ++ [name] := by
  refine Path.follow_of_isName ?_ path
  rw [list] at hlist
  cases hfind : fs.find path with
  | error e =>
    rw [hfind] at hlist
    simp [bind, Except.bind] at hlist
  | ok node =>
    rw [hfind] at hlist
    cases node with
    | file content => simp [bind, Except.bind] at hlist
    | dir children =>
      obtain rfl := Except.ok.inj hlist
      obtain ⟨entry, hentry, rfl⟩ := List.mem_map.1 hname
      exact h.isName (find_eq_ok_iff.1 hfind) hentry

theorem bond_agree (roots : List Path) : Bond roots (Agree roots) where
  find h hpath := h.find hpath
  child {fs₁ fs₂ path names} h hpath hlist name hname := by
    obtain ⟨root, hroot, hunder⟩ := hpath
    rw [follow_of_list h.wellFormed₁ hlist hname]
    exact h.find ⟨root, hroot, hunder.trans (List.prefix_append path [name])⟩
  change {_ change fs₁ fs₂ path} hconfined h hpath hnamed := by
    have hreach := reach_congr (h.lookup hpath) fun above => h.kind hpath
    rcases hconfined.congr hreach h.wellFormed₁ h.wellFormed₂ hnamed with
      ⟨e, hrun₁, hrun₂⟩ | ⟨a, new, fs₁', fs₂', hrun₁, hrun₂, h₁, h₂, hwf₁, hwf₂⟩
    · rw [hrun₁, hrun₂]
      exact ⟨rfl, h⟩
    · rw [hrun₁, hrun₂]
      exact ⟨rfl, trivial, h.replaced h₁ h₂ hwf₁ hwf₂⟩
  move {fs₁ fs₂ source goal} h hsource hsourceNamed hgoal hgoalNamed := by
    have hcheck := checkMove_congr (h.find hsource) (h.lookup hgoal) fun above => h.kind hgoal
    have hmove₁ := move_cases fs₁ source goal
    have hmove₂ := move_cases fs₂ source goal
    rw [hcheck] at hmove₁
    cases hresult : fs₂.checkMove source goal with
    | error e =>
      rw [hresult] at hmove₁ hmove₂
      dsimp only at hmove₁ hmove₂
      rw [hmove₁, hmove₂]
      exact ⟨rfl, h⟩
    | ok _ =>
      rw [hresult] at hmove₁ hmove₂
      dsimp only at hmove₁ hmove₂
      split at hmove₁
      · next hsame =>
        rw [if_pos hsame] at hmove₂
        rw [hmove₁, hmove₂]
        exact ⟨rfl, trivial, h⟩
      · next hne =>
        rw [if_neg hne] at hmove₂
        obtain ⟨fs₁', hrun₁, hmoved₁⟩ := hmove₁
        obtain ⟨fs₂', hrun₂, hmoved₂⟩ := hmove₂
        rw [hrun₁, hrun₂]
        exact ⟨rfl, trivial, h.moved hsource hsourceNamed hgoalNamed hmoved₁ hmoved₂⟩

end Fs

namespace Guest

variable (fs fs₁ fs₂ : Fs) (console : Console) (arguments : List String)
  (environment : List (String × String)) (preopens : List Preopen)
    (entropy : Entropy) (calls : List SystemCall)

/-- Whatever calls a program makes, each path outside the directories that are shown to it stays
absent, a directory, or a file with the same content. -/
theorem view_run_outside {path : Path} (hpath : ¬ path.Beneath (Preopen.roots preopens)) :
    ((start fs console arguments environment preopens entropy).run calls).2.finish.fs.view path =
      fs.view path := by
  have hF := Fs.bond_sameOutside (Preopen.roots preopens) fs
  have hstart : Fs.SameOutside (Preopen.roots preopens) fs fs fs := ⟨rfl, fun _ _ => rfl⟩
  obtain ⟨-, hrun⟩ :=
    (bonded_start hstart console arguments environment preopens entropy).run hF calls
  exact hrun.fs.2 path hpath

/-- A file beside the directory that is shown stays, although the program names it. -/
theorem view_run_outside_sibling :
    let fs : Fs := [("data", .dir []), ("secret", .dir [("key", .file ⟨#[1]⟩)])]
    ¬ Path.Beneath (Preopen.roots [⟨"/", "/data"⟩]) ["secret", "key"] ∧
      ((start fs {} [] [] [⟨"/", "/data"⟩] .zeros).run
          [.removeFile 3 "../secret/key", .move 3 "." 3 "../secret"]).2.finish.fs.view
        ["secret", "key"] = some (.file ⟨#[1]⟩) := by
  have houtside : ¬ Path.Beneath (Preopen.roots [⟨"/", "/data"⟩]) ["secret", "key"] := by
    rintro ⟨root, hroot, hunder⟩
    have hroots : Preopen.roots [⟨"/", "/data"⟩] = [["data"]] := by decide
    rw [hroots, List.mem_singleton] at hroot
    subst hroot
    exact absurd hunder (by decide)
  refine ⟨houtside, ?_⟩
  rw [view_run_outside _ _ _ _ _ _ _ houtside]
  rfl

/-- Whatever calls a program makes, it gets the same replies and shows the same text in two file
systems that agree on the directories that are shown to it. -/
theorem run_eq_of_agree (h : Fs.Agree (Preopen.roots preopens) fs₁ fs₂) :
    let run₁ := (start fs₁ console arguments environment preopens entropy).run calls
    let run₂ := (start fs₂ console arguments environment preopens entropy).run calls
    run₁.1 = run₂.1 ∧ run₁.2.finish.console.text = run₂.2.finish.console.text := by
  have hF := Fs.bond_agree (Preopen.roots preopens)
  obtain ⟨hreplies, hrun⟩ :=
    (bonded_start h console arguments environment preopens entropy).run hF calls
  refine ⟨hreplies, ?_⟩
  rw [hrun.finish.console]

/-- A program leaves a well-formed file system behind. -/
theorem wellFormed_run (h : fs.WellFormed) :
    let run := (start fs console arguments environment preopens entropy).run calls
    run.2.finish.fs.WellFormed := by
  intro run
  have hF := Fs.bond_agree (Preopen.roots preopens)
  have hagree : Fs.Agree (Preopen.roots preopens) fs fs := Fs.Agree.refl h
  have hstart := bonded_start hagree console arguments environment preopens entropy
  exact (hstart.run hF calls).2.fs.wellFormed₁

/-- What a file beside the directory that is shown holds cannot be told from within. -/
theorem run_eq_of_agree_sibling :
    let fs (secret : Node) : Fs := [("data", .dir [("a", .file ⟨#[1]⟩)]), ("secret", secret)]
    let run (secret : Node) := (start (fs secret) {} [] [] [⟨"/", "/data"⟩] .zeros).run
      [.readDir 3, .openPath 3 "a" {}, .read 4 8, .pathStatus 3 "../secret", .removeDir 3 "."]
    Fs.Agree (Preopen.roots [⟨"/", "/data"⟩]) (fs (.file ⟨#[2]⟩)) (fs (.dir [])) ∧
      (run (.file ⟨#[2]⟩)).1 = (run (.dir [])).1 ∧
      (run (.file ⟨#[2]⟩)).2.finish.console.text = (run (.dir [])).2.finish.console.text := by
  intro fs run
  have hwf : ∀ secret : Node, secret.WellFormed → (fs secret).WellFormed := by
    intro secret hsecret
    have hdata : Node.WellFormed (.dir [("a", .file ⟨#[1]⟩)]) :=
      .dir (List.pairwise_singleton ..) (by decide) (by simpa using .file _)
    refine .dir ?_ (by simp [fs]; decide) (by simpa [fs] using ⟨hdata, hsecret⟩)
    simp only [fs, Table.Increasing, Table.keys, List.map_cons, List.map_nil]
    decide
  have hroots : Preopen.roots [⟨"/", "/data"⟩] = [["data"]] := by decide
  have hagree : Fs.Agree (Preopen.roots [⟨"/", "/data"⟩]) (fs (.file ⟨#[2]⟩)) (fs (.dir [])) := by
    rw [hroots]
    refine ⟨hwf _ (.file _), hwf _ Fs.WellFormed.empty, ?_, ?_⟩
    · rintro path ⟨root, hroot, rest, rfl⟩
      obtain rfl := List.mem_singleton.1 hroot
      rw [Fs.view_append, Fs.view_append]
      rfl
    · intro root hroot path hpath
      obtain rfl := List.mem_singleton.1 hroot
      rcases List.prefix_cons_iff.1 hpath with rfl | ⟨rest, rfl, hrest⟩
      · rfl
      · obtain rfl := List.prefix_nil.1 hrest
        rfl
  exact ⟨hagree, run_eq_of_agree _ _ {} [] [] _ _ _ hagree⟩

end Guest

end StagedSandbox
