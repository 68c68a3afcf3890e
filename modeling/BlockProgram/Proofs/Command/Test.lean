import BlockProgram.Command.Test
import BlockProgram.Proofs.Command.Session
import BlockProgram.Proofs.TestFile.Suite
import BlockProgram.Sandbox.Machine

/-! The test command runs the test files whose categories are requested, each of them once, and reads no other
file. It warns of the names that add nothing to the earlier ones, also of those that cover a category. A host
that notes what is read shows which tests are run, and does everything else as before. -/
namespace BlockProgram.Command
open Sandbox TestSuite

variable {m : Type → Type} [Monad m]

/-- What the test command does with the groups that are chosen: the exit code, and the report. -/
def report (c : Context m) (root : String) (chosen : List TestGroup) : m (Nat × String) :=
  if chosen.isEmpty then return (1, "no matching categories found\n")
  else do
    let results ← runGroups c root chosen
    let colored := c.options.colored
    let all := results.flatMap (·.2)
    return (testCode all, Text.unlines
      ((results.flatMap fun r => groupLines colored r.1 r.2) ++ summary colored all))

/-- A suite is discovered first; then the names that select nothing are told, and the chosen groups
run. -/
theorem perform_testSuite [LawfulMonad m] (c : Context m) (root : String) (requests : List String) :
    Session.perform (testSuite c root requests) = do
      let groups := discover (← c.host.tree root)
      if groups.isEmpty then return (1, { err := Text.unlines (listing root groups) })
      else do
        let (code, text) ← report c root (choose groups requests).1
        let warnings := (choose groups requests).2.map (warning groups)
        return (code, { err := Text.unlines warnings ++ text }) := by
  unfold testSuite
  rw [Session.perform_eq, Session.performFrom_lift]
  refine bind_congr fun tree => ?_
  dsimp only
  split
  · rw [Session.tellLines, Session.performFrom_tell, Session.performFrom_pure, String.empty_append]
  · rw [Session.tellLines, Session.performFrom_tell, String.empty_append]
    unfold report
    split
    · rw [Session.tellLine, Session.performFrom_tell, Session.performFrom_pure]
      simp
    · rw [Session.performFrom_lift]
      simp only [Session.tellLines, Session.performFrom_tell, Session.performFrom_pure, bind_assoc,
        pure_bind]

private theorem perform_testFile [LawfulMonad m] (c : Context m) (path : String) :
    Session.perform (testFile c path) = do
      let results ← runTests c [path]
      let colored := c.options.colored
      return (testCode results,
        { err := Text.unlines (results.map (resultLine colored) ++ summary colored results) }) := by
  unfold testFile
  rw [Session.perform_eq, Session.performFrom_lift]
  simp only [Session.tellLines, Session.performFrom_tell, Session.performFrom_pure,
    String.empty_append]

private theorem perform_test [LawfulMonad m] (c : Context m) (root : String) (requests : List String) :
    Session.perform (test c root requests) = (do
      if ← c.host.isFile root then Session.perform (testFile c root)
      else Session.perform (testSuite c root requests)) := by
  unfold test
  rw [Session.perform_eq, Session.performFrom_lift]
  refine bind_congr fun isFile => ?_
  cases isFile <;> rfl

section Unnoted

variable [LawfulMonad m]

private theorem unnoted_runTests (c : Context m) (paths : List String) :
    Unnoted (runTests c.noting paths) (runTests c paths) :=
  unnoted_mapM fun path _ => (unnoted_readText c.host path).bind fun _ => unnoted_pure _

private theorem unnoted_report (c : Context m) (root : String) (chosen : List TestGroup) :
    Unnoted (report c.noting root chosen) (report c root chosen) := by
  have hgroups : Unnoted (runGroups c.noting root chosen) (runGroups c root chosen) :=
    unnoted_mapM fun g _ => (unnoted_runTests c _).bind fun _ => unnoted_pure _
  unfold report
  split
  · exact unnoted_pure _
  · exact hgroups.bind fun _ => unnoted_pure _

/-- To note what is read changes nothing about the test command. -/
theorem unnoted_test (c : Context m) (root : String) (requests : List String) :
    Unnoted (Session.perform (test c.noting root requests)) (Session.perform (test c root requests)) := by
  rw [perform_test, perform_test]
  refine (unnoted_lift (c.host.isFile root)).bind fun isFile => ?_
  split
  · rw [perform_testFile, perform_testFile]
    exact (unnoted_runTests c [root]).bind fun _ => unnoted_pure _
  · rw [perform_testSuite, perform_testSuite]
    refine (unnoted_lift (c.host.tree root)).bind fun tree => ?_
    dsimp only
    split
    · exact unnoted_pure _
    · exact (unnoted_report c root _).bind fun _ => unnoted_pure _

end Unnoted

variable {σ : Type} {s : σ}

/-- In the state `s` the tree stands at the root, and its files can be looked at without a change. -/
structure Shows (h : Host (StateM σ)) (s : σ) (root : String) (tree : FileTree) : Prop where
  notFile : (h.isFile root).run s = (false, s)
  directory : (h.tree root).run s = (tree, s)
  reading : ∀ names, tree.HasFile names → ((h.readText (Path.below root names)).run s).2 = s

/-- The result of the test in a file that is read in the state `s`. -/
def resultAt (c : Context (StateM σ)) (s : σ) (path : String) : TestResult :=
  .ofContent Python.standard c.settings.indent path ((c.host.readText path).run s).1

variable {c : Context (StateM σ)} {root : String} {requests : List String} {tree : FileTree}

private theorem run_runTests {paths : List String} (h : ∀ path ∈ paths, ((c.host.readText path).run s).2 = s)
    (noted : List String) : ((runTests c.noting paths).run noted).run s =
      ((paths.map (resultAt c s), noted ++ paths), s) := by
  have hstep : ∀ path ∈ paths, ∀ noted, ((do
      return TestResult.ofContent Python.standard c.settings.indent path
        (← c.noting.host.readText path) : StateT (List String) (StateM σ) TestResult).run noted).run s =
        ((resultAt c s path, noted ++ [path]), s) := by
    intro path hpath noted
    have hread : ((c.noting.host.readText path).run noted).run s =
        ((((c.host.readText path).run s).1, noted ++ [path]), s) := run_readText (h path hpath) noted
    rw [run_bind hread]
    rfl
  have hmap := run_mapM hstep noted
  rw [List.flatMap_singleton'] at hmap
  exact hmap

private theorem run_runGroups {groups : List TestGroup}
    (h : ∀ g ∈ groups, ∀ names ∈ g.files, ((c.host.readText (Path.below root names)).run s).2 = s)
    (noted : List String) : ((runGroups c.noting root groups).run noted).run s =
      ((groups.map fun g => (g.category, (g.files.map (Path.below root)).map (resultAt c s)),
        noted ++ groups.flatMap fun g => g.files.map (Path.below root)), s) := by
  refine run_mapM (fun g hg noted => ?_) noted
  have hpaths : ∀ path ∈ g.files.map (Path.below root), ((c.host.readText path).run s).2 = s := by
    intro path hpath
    obtain ⟨names, hnames, rfl⟩ := List.mem_map.mp hpath
    exact h g hg names hnames
  rw [run_bind (run_runTests hpaths noted)]
  rfl

/-- The exit code of a run tells whether every test has passed. -/
theorem testCode_eq_zero_iff {results : List TestResult} :
    testCode results = 0 ↔ ∀ r ∈ results, r.passed := by
  unfold testCode
  rw [← List.all_eq_true]
  split <;> simp_all

/-- The tests of the groups that are chosen are run one after the other, and nothing else is read. The exit
code is zero if there are groups to run and all of them pass. -/
theorem run_report {chosen : List TestGroup}
    (h : ∀ g ∈ chosen, ∀ names ∈ g.files, ((c.host.readText (Path.below root names)).run s).2 = s)
    (noted : List String) : ∃ code text, ((report c.noting root chosen).run noted).run s =
      (((code, text), noted ++ (chosen.flatMap (·.files)).map (Path.below root)), s) ∧
      (code = 0 ↔ chosen ≠ [] ∧
        ∀ names ∈ chosen.flatMap (·.files), (resultAt c s (Path.below root names)).passed) := by
  unfold report
  split
  · rename_i hempty
    obtain rfl := List.isEmpty_iff.mp hempty
    exact ⟨1, _, by rw [List.flatMap_nil, List.map_nil, List.append_nil]; rfl, by simp⟩
  · rename_i hsome
    have hne : chosen ≠ [] := fun h => hsome (List.isEmpty_iff.mpr h)
    rw [run_bind (run_runGroups h noted), List.map_flatMap]
    refine ⟨_, _, rfl, ?_⟩
    rw [testCode_eq_zero_iff, and_iff_right hne]
    simp only [List.flatMap_map, ← List.map_flatMap, List.forall_mem_map]

/-- A run over a suite reads each chosen file once and nothing else, and ends with zero if and only if a
file has been chosen and every chosen test passes. -/
theorem run_testSuite (requests : List String) (hproper : tree.Proper)
    (hshows : Shows c.host s root tree) : ∃ code console,
    ((Session.perform (testSuite c.noting root requests)).run []).run s =
      (((code, console), (chosenFiles tree requests).map (Path.below root)), s) ∧
      (code = 0 ↔ chosenFiles tree requests ≠ [] ∧
        ∀ names ∈ chosenFiles tree requests, (resultAt c s (Path.below root names)).passed) := by
  have htree : ((c.noting.host.tree root).run []).run s = ((tree, []), s) :=
    run_lift hshows.directory []
  rw [perform_testSuite, run_bind htree]
  dsimp only
  split
  · rename_i hempty
    have hnone : chosenFiles tree requests = [] := by
      refine choose_eq_nil_iff.mp (List.sublist_nil.mp ?_)
      rw [← List.isEmpty_iff.mp hempty]
      exact choose_sublist _ _
    rw [hnone]
    exact ⟨1, _, rfl, by simp⟩
  · have hreads : ∀ g ∈ (choose (discover tree) requests).1, ∀ names ∈ g.files,
        ((c.host.readText (Path.below root names)).run s).2 = s := by
      intro g hg names hnames
      have hchosen : names ∈ chosenFiles tree requests := List.mem_flatMap.mpr ⟨g, hg, hnames⟩
      exact hshows.reading names ((mem_chosenFiles_iff hproper).mp hchosen).file
    obtain ⟨code, text, hrun, hcode⟩ := run_report hreads []
    rw [List.nil_append] at hrun
    rw [run_bind hrun]
    refine ⟨code, _, rfl, ?_⟩
    rw [hcode, ne_eq, choose_eq_nil_iff]
    rfl

/-- Each test file whose category is requested is run once, or each test file at all if nothing is requested,
and no other file is read. The exit code is zero exactly if something is run and all of it passes. -/
theorem suite_runs_requested (requests : List String) (hproper : tree.Proper)
    (hshows : Shows c.host s root tree) : ∃ code console runs,
      (Session.perform (test c root requests)).run s = ((code, console), s) ∧
      ((Session.perform (test c.noting root requests)).run []).run s = (((code, console), runs), s) ∧
      (∀ names, Requested tree requests names → runs.count (Path.below root names) = 1) ∧
      (∀ path ∈ runs, ∃ names, Requested tree requests names ∧ path = Path.below root names) ∧
      (code = 0 ↔ runs ≠ [] ∧ ∀ path ∈ runs, (resultAt c s path).passed) := by
  obtain ⟨code, console, hsuite, hcode⟩ := run_testSuite requests hproper hshows
  have hfile : ((c.noting.host.isFile root).run []).run s = ((false, []), s) :=
    run_lift hshows.notFile []
  have hrun : ((Session.perform (test c.noting root requests)).run []).run s =
      (((code, console), (chosenFiles tree requests).map (Path.below root)), s) := by
    rw [perform_test, run_bind hfile]
    exact hsuite
  refine ⟨code, console, (chosenFiles tree requests).map (Path.below root), ?_, hrun, fun names hnames => ?_,
    fun path hpath => ?_, ?_⟩
  · rw [← unnoted_test c root requests [], StateT.run_map, hrun]
    rfl
  · refine List.count_eq_one_of_mem (nodup_map_below hproper root) (List.mem_map_of_mem ?_)
    exact (mem_chosenFiles_iff hproper).mpr hnames
  · obtain ⟨names, hnames, rfl⟩ := List.mem_map.mp hpath
    exact ⟨names, (mem_chosenFiles_iff hproper).mp hnames, rfl⟩
  · rw [hcode, ne_eq, ne_eq, List.map_eq_nil_iff, List.forall_mem_map]

private theorem shows_machine {machine : Machine} (programs : Programs) (hfile : machine.isFile root = false)
    (htree : machine.tree root = tree) : Shows (Machine.host programs) machine root tree where
  notFile := congrArg (·, machine) hfile
  directory := congrArg (·, machine) htree
  reading _ _ := rfl

/-- A suite with a test two directories down and one at its root. -/
def nestedSuite : FileTree := .directory
  [("a", .directory [("b", .directory [("x.test.blocks", .file ⟨#[]⟩)])]), ("y.test.blocks", .file ⟨#[]⟩)]

private theorem nestedSuite_proper : nestedSuite.Proper := by
  have hfile (name : String) : ∀ e ∈ [(name, FileTree.file ⟨#[]⟩)], e.2.Proper :=
    List.forall_mem_singleton.mpr (.file _)
  have hinner : ∀ e ∈ [("b", FileTree.directory [("x.test.blocks", .file ⟨#[]⟩)])], e.2.Proper :=
    List.forall_mem_singleton.mpr (.directory (by decide +kernel) (by decide) (hfile _))
  refine .directory (by decide +kernel) (by decide) (List.forall_mem_cons.mpr ⟨?_, hfile _⟩)
  exact .directory (by decide +kernel) (by decide) hinner

def nestedMachine : Machine := { files := .directory [("t", nestedSuite)] }

/-- The context of a machine without programs. -/
def bareContext : Context (StateM Machine) where
  host := Machine.host fun _ machine => (.error .notFound, machine)
  options := {}

/-- The machine in memory is a host as the theorem asks for one: of a suite with a test at the top and
one two directories down, the request `/a/` reads the lower one exactly once, and the exit code tells
whether what has been read passes. -/
theorem suite_runs_requested_of_nestedSuite :
    nestedSuite.Proper ∧ Shows bareContext.host nestedMachine "t" nestedSuite ∧
    ∃ code console runs,
      (Session.perform (test bareContext "t" ["/a/"])).run nestedMachine = ((code, console), nestedMachine) ∧
      ((Session.perform (test bareContext.noting "t" ["/a/"])).run []).run nestedMachine =
        (((code, console), runs), nestedMachine) ∧
      runs.count "t/a/b/x.test.blocks" = 1 ∧
      (code = 0 ↔ runs ≠ [] ∧ ∀ path ∈ runs, (resultAt bareContext nestedMachine path).passed) := by
  have hshows : Shows bareContext.host nestedMachine "t" nestedSuite :=
    shows_machine _ (by decide +kernel) (by rfl)
  obtain ⟨code, console, runs, hperform, hrun, honce, -, hcode⟩ :=
    suite_runs_requested ["/a/"] nestedSuite_proper hshows
  refine ⟨nestedSuite_proper, hshows, code, console, runs, hperform, hrun, ?_, hcode⟩
  refine honce ["a", "b", "x.test.blocks"] ⟨⟨_, rfl⟩, ⟨["a", "b"], "x", by decide +kernel⟩, .inr ?_⟩
  exact ⟨"/a/", List.mem_singleton_self _, .inr ⟨"b", by decide +kernel⟩⟩

/-- The command warns of the names of the requests that add nothing to the earlier ones. These are the names
that cover no category exactly if each request that covers a category adds one. -/
theorem warned_stray_iff [LawfulMonad m] (c : Context m) (root : String) (requests : List String) :
    (Session.perform (test c root requests) = do
      if ← c.host.isFile root then Session.perform (testFile c root)
      else
        let groups := discover (← c.host.tree root)
        if groups.isEmpty then return (1, { err := Text.unlines (listing root groups) })
        else
          let (code, text) ← report c root (choose groups requests).1
          let warned := idleNames (groups.map (·.category)) [] requests
          return (code, { err := Text.unlines (warned.map (warning groups)) ++ text })) ∧
    ∀ available, Stray available requests (idleNames available [] requests) ↔
      ∀ before request after, requests = before ++ request :: after →
        (∃ c ∈ available, Covers (requestedName request) c) →
          ∃ c ∈ available, Covers (requestedName request) c ∧ ∀ e ∈ before, ¬Covers (requestedName e) c := by
  refine ⟨?_, fun available => stray_idleNames_iff⟩
  rw [perform_test]
  simp only [perform_testSuite, missed_choose]

/-- Requests for different categories warn of the one that is not there. A category that is requested
after the one above it is warned of although it is there. -/
theorem warned_stray_iff_of_apart : LawfulMonad (StateM Machine) ∧
    Stray ["a/b", "c"] ["/c/", "d", "a"] (idleNames ["a/b", "c"] [] ["/c/", "d", "a"]) ∧
    ¬Stray ["a/b", "c"] ["a", "a/b"] (idleNames ["a/b", "c"] [] ["a", "a/b"]) := by
  refine ⟨inferInstance, ?_, fun h => ?_⟩
  · refine ((warned_stray_iff bareContext "t" ["/c/", "d", "a"]).2 ["a/b", "c"]).mpr ?_
    intro before request after heq
    rcases before with _ | ⟨first, _ | ⟨second, _ | ⟨third, before⟩⟩⟩
    · cases heq
      decide +kernel
    · cases heq
      decide +kernel
    · cases heq
      decide +kernel
    · simp at heq
  · have hadds := ((warned_stray_iff bareContext "t" ["a", "a/b"]).2 ["a/b", "c"]).mp h ["a"] "a/b" [] rfl
    revert hadds
    decide +kernel

private theorem run_warnings (hshows : Shows c.host s root tree) (hsome : (discover tree).isEmpty = false) :
    ((Session.perform (test c root requests)).run s).1.2.err =
      Text.unlines ((choose (discover tree) requests).2.map (warning (discover tree))) ++
        ((report c root (choose (discover tree) requests).1).run s).1.2 := by
  rw [perform_test, stateM_run_bind hshows.notFile]
  change ((Session.perform (testSuite c root requests)).run s).1.2.err = _
  rw [perform_testSuite, stateM_run_bind hshows.directory]
  dsimp only
  rw [hsome]
  rfl

/-- A category is requested along with the one above it, and the command says that it does not exist. -/
theorem found_category_warned_of :
    (∃ g ∈ discover nestedSuite, Covers (requestedName "a/b") g.category) ∧
    "warning: category 'a/b' not found (available: (root), a/b)\n".toList <+:
      ((Session.perform (test bareContext "t" ["a", "a/b"])).run nestedMachine).1.2.err.toList := by
  have hshows : Shows bareContext.host nestedMachine "t" nestedSuite :=
    shows_machine _ (by decide +kernel) (by rfl)
  have hwarned : Text.unlines ((choose (discover nestedSuite) ["a", "a/b"]).2.map
      (warning (discover nestedSuite))) =
        "warning: category 'a/b' not found (available: (root), a/b)\n" := by
    decide +kernel
  refine ⟨by decide +kernel, ?_⟩
  rw [run_warnings hshows (by decide +kernel), hwarned, String.toList_append]
  exact List.prefix_append _ _

end BlockProgram.Command
