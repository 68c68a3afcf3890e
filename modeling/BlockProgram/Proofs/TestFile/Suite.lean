import BlockProgram.Proofs.Files.Tree
import BlockProgram.Proofs.Text.Sorted
import BlockProgram.TestFile.Suite
import Mathlib.Data.List.Flatten
import Mathlib.Data.String.Basic

/-! The choice of tests. Every test file is in the group of its category, once, and the groups that are chosen
are those of the categories that some request covers. A name is reported as missed if it adds no category, which
may also be due to earlier names. -/
namespace BlockProgram

namespace TestSuite

variable {tree : FileTree} {available requests : List String} {s : Selection}
  {earlier : List String} {request name c : String} {names : List String}

/-- A category is the one of the name, or lies below it. -/
def Covers (name c : String) : Prop := c = name ∨ ∃ rest, c = name ++ "/" ++ rest

/-- A name selects exactly the category of that name and those below it. -/
theorem selects_iff : selects name c ↔ Covers name c := by
  unfold selects Covers
  rw [Bool.or_eq_true, decide_eq_true_iff, List.isPrefixOf_iff_prefix]
  refine or_congr_right ⟨fun ⟨t, ht⟩ => ⟨String.ofList t, String.ext ?_⟩, fun ⟨rest, h⟩ => ⟨rest.toList, ?_⟩⟩
  · rw [String.toList_append, String.toList_ofList, ht]
  · simp only [h, String.toList_append]

instance (name c : String) : Decidable (Covers name c) := decidable_of_iff _ selects_iff

private theorem isTest_iff : isTest names ↔ ∃ directory stem, names = directory ++ [stem ++ extension] := by
  unfold isTest
  rw [Option.any_eq_true]
  constructor
  · rintro ⟨name, hlast, hsuffix⟩
    obtain ⟨stem, hstem⟩ := List.isSuffixOf_iff_suffix.mp hsuffix
    obtain ⟨directory, rfl⟩ := List.getLast?_eq_some_iff.mp hlast
    refine ⟨directory, String.ofList stem, ?_⟩
    rw [← String.ofList_toList (s := extension), ← String.ofList_append, hstem, String.ofList_toList]
  · rintro ⟨directory, stem, rfl⟩
    refine ⟨_, List.getLast?_concat, List.isSuffixOf_iff_suffix.mpr ?_⟩
    rw [String.toList_append]
    exact List.suffix_append _ _

private theorem mem_new : c ∈ available.filter (fun c => selects (requestedName request) c && c ∉ s.categories) ↔
    (c ∈ available ∧ Covers (requestedName request) c) ∧ c ∉ s.categories := by
  simp [selects_iff, and_assoc]

private theorem mem_categories_add : c ∈ (s.add available request).categories ↔
    c ∈ s.categories ∨ c ∈ available ∧ Covers (requestedName request) c := by
  unfold Selection.add
  dsimp only
  split
  · rename_i hnone
    have hold : c ∈ available ∧ Covers (requestedName request) c → c ∈ s.categories := by
      intro hcovers
      by_contra hnew
      have hmem := mem_new.mpr ⟨hcovers, hnew⟩
      rw [hnone] at hmem
      exact List.not_mem_nil hmem
    exact ⟨.inl, fun h => h.elim id hold⟩
  · rw [List.mem_append, mem_new]
    exact or_congr_right' fun hold => and_iff_left hold

private theorem mem_categories_foldl : c ∈ (requests.foldl (Selection.add available) s).categories ↔
    c ∈ s.categories ∨ c ∈ available ∧ ∃ request ∈ requests, Covers (requestedName request) c := by
  induction requests generalizing s with
  | nil => simp
  | cons request requests ih =>
    rw [List.foldl_cons, ih, mem_categories_add, List.exists_mem_cons_iff, or_assoc, ← and_or_left]

theorem mem_categories_select : c ∈ (select available requests).categories ↔
    c ∈ available ∧ ∃ request ∈ requests, Covers (requestedName request) c :=
  mem_categories_foldl.trans (or_iff_right List.not_mem_nil)

/-- A request covers a category that no earlier request covers. -/
def Adds (available earlier : List String) (request : String) : Prop :=
  ∃ c ∈ available, Covers (requestedName request) c ∧ ∀ e ∈ earlier, ¬Covers (requestedName e) c

instance : Decidable (Adds available earlier request) :=
  inferInstanceAs (Decidable (∃ c ∈ available,
    Covers (requestedName request) c ∧ ∀ e ∈ earlier, ¬Covers (requestedName e) c))

/-- The names of the requests that add nothing to the earlier ones. -/
def idleNames (available : List String) : List String → List String → List String
  | _, [] => []
  | earlier, request :: later =>
    if Adds available earlier request then idleNames available (earlier ++ [request]) later
    else requestedName request :: idleNames available (earlier ++ [request]) later

/-- What has been selected by earlier requests. -/
def Selection.By (s : Selection) (available earlier : List String) : Prop :=
  ∀ c, c ∈ s.categories ↔ c ∈ available ∧ ∃ e ∈ earlier, Covers (requestedName e) c

theorem Selection.By.add (h : s.By available earlier) (request : String) :
    (s.add available request).By available (earlier ++ [request]) := by
  intro c
  rw [mem_categories_add, h c, ← and_or_left]
  simp only [List.mem_append, List.mem_singleton, or_and_right, exists_or, exists_eq_left]

private theorem Selection.By.missed_add (h : s.By available earlier) (request : String) :
    (s.add available request).missed =
      if Adds available earlier request then s.missed else s.missed ++ [requestedName request] := by
  have hadds : Adds available earlier request ↔
      available.filter (fun c => selects (requestedName request) c && c ∉ s.categories) ≠ [] := by
    constructor
    · rintro ⟨c, hc, hcovers, hnew⟩
      refine List.ne_nil_of_mem (mem_new.mpr ⟨⟨hc, hcovers⟩, fun hold => ?_⟩)
      obtain ⟨-, e, he, hold⟩ := (h c).mp hold
      exact hnew e he hold
    · intro hne
      obtain ⟨c, hmem⟩ := List.exists_mem_of_ne_nil _ hne
      obtain ⟨⟨hc, hcovers⟩, hnew⟩ := mem_new.mp hmem
      exact ⟨c, hc, hcovers, fun e he hold => hnew ((h c).mpr ⟨hc, e, he, hold⟩)⟩
  unfold Selection.add
  dsimp only
  split
  · rename_i hnone
    rw [if_neg (mt hadds.mp (not_not_intro hnone))]
  · rename_i hsome
    rw [if_pos (hadds.mpr hsome)]

private theorem missed_foldl (h : s.By available earlier) :
    (requests.foldl (Selection.add available) s).missed =
      s.missed ++ idleNames available earlier requests := by
  induction requests generalizing s earlier with
  | nil => simp [idleNames]
  | cons request requests ih =>
    rw [List.foldl_cons, ih (h.add request), h.missed_add, idleNames]
    split
    · rfl
    · rw [List.append_assoc]
      rfl

/-- The names told as not found are those that add no category to the earlier ones. -/
theorem missed_select (available requests : List String) :
    (select available requests).missed = idleNames available [] requests :=
  missed_foldl (s := {}) fun c => by simp

theorem missed_choose (groups : List TestGroup) (requests : List String) :
    (choose groups requests).2 = idleNames (groups.map (·.category)) [] requests := by
  unfold choose
  split
  · rename_i hempty
    rw [List.isEmpty_iff.mp hempty, idleNames]
  · exact missed_select _ _

private theorem mem_idleNames : name ∈ idleNames available earlier requests ↔
    ∃ before request after, requests = before ++ request :: after ∧ requestedName request = name ∧
      ¬Adds available (earlier ++ before) request := by
  induction requests generalizing earlier with
  | nil => simp [idleNames]
  | cons request requests ih =>
    have hhead : name ∈ idleNames available earlier (request :: requests) ↔
        (requestedName request = name ∧ ¬Adds available earlier request) ∨
          name ∈ idleNames available (earlier ++ [request]) requests := by
      rw [idleNames]
      split
      · rename_i hadds
        exact (or_iff_right fun h => h.2 hadds).symm
      · rename_i hidle
        rw [List.mem_cons, and_iff_left hidle, eq_comm]
    rw [hhead, ih]
    constructor
    · rintro (⟨hname, hidle⟩ | ⟨before, next, after, rfl, hname, hidle⟩)
      · exact ⟨[], request, requests, rfl, hname, by rwa [List.append_nil]⟩
      · exact ⟨request :: before, next, after, rfl, hname, by rwa [List.append_cons]⟩
    · rintro ⟨before, next, after, heq, hname, hidle⟩
      cases before with
      | nil =>
        obtain ⟨rfl, -⟩ := List.cons.inj heq
        exact .inl ⟨hname, by rwa [List.append_nil] at hidle⟩
      | cons b before =>
        obtain ⟨rfl, rfl⟩ := List.cons.inj heq
        exact .inr ⟨before, next, after, rfl, hname, by rwa [List.append_cons] at hidle⟩

/-- The names are those of the requests that cover no category. -/
def Stray (available requests names : List String) : Prop :=
  ∀ name, name ∈ names ↔
    (∃ request ∈ requests, requestedName request = name) ∧ ∀ c ∈ available, ¬Covers name c

/-- A request that covers nothing adds nothing. It is the converse that fails, for a request whose categories
are all covered by earlier ones. -/
theorem stray_idleNames_iff : Stray available requests (idleNames available [] requests) ↔
    ∀ before request after, requests = before ++ request :: after →
      (∃ c ∈ available, Covers (requestedName request) c) → Adds available before request := by
  have hstray : ∀ request ∈ requests, (∀ c ∈ available, ¬Covers (requestedName request) c) →
      requestedName request ∈ idleNames available [] requests := by
    intro request hmem hnone
    obtain ⟨before, after, heq⟩ := List.append_of_mem hmem
    refine mem_idleNames.mpr ⟨before, request, after, heq, rfl, ?_⟩
    rintro ⟨c, hc, hcovers, -⟩
    exact hnone c hc hcovers
  constructor
  · rintro h before request after heq ⟨c, hc, hcovers⟩
    by_contra hidle
    have hmem : requestedName request ∈ idleNames available [] requests :=
      mem_idleNames.mpr ⟨before, request, after, heq, rfl, hidle⟩
    exact ((h _).mp hmem).2 c hc hcovers
  · intro h name
    constructor
    · intro hmem
      obtain ⟨before, request, after, heq, rfl, hidle⟩ := mem_idleNames.mp hmem
      have hrequest : request ∈ requests := heq ▸ List.mem_append_right _ List.mem_cons_self
      exact ⟨⟨request, hrequest, rfl⟩, fun c hc hcovers => hidle (h before request after heq ⟨c, hc, hcovers⟩)⟩
    · rintro ⟨⟨request, hrequest, rfl⟩, hnone⟩
      exact hstray request hrequest hnone

/-- The test files that a request chooses, in their order. -/
def chosenFiles (tree : FileTree) (requests : List String) : List (List String) :=
  (choose (discover tree) requests).1.flatMap (·.files)

/-- A file is found in its category exactly if it is there and is named like a test. -/
theorem mem_discover {g : TestGroup} (hg : g ∈ discover tree) :
    names ∈ g.files ↔ names ∈ tree.files.map (·.1) ∧ isTest names ∧ category names = g.category := by
  obtain ⟨c, -, rfl⟩ := List.mem_map.mp hg
  rw [Text.mem_sortedOnce, List.mem_filter, List.mem_filter, decide_eq_true_iff, and_assoc]

private theorem exists_group (hfile : names ∈ tree.files.map (·.1)) (htest : isTest names) :
    ∃ g ∈ discover tree, names ∈ g.files := by
  have hmem := List.mem_filter.mpr ⟨hfile, htest⟩
  refine ⟨_, List.mem_map.mpr ⟨_, Text.mem_sortedOnce.mpr (List.mem_map_of_mem hmem), rfl⟩, ?_⟩
  exact Text.mem_sortedOnce.mpr (List.mem_filter.mpr ⟨hmem, decide_eq_true rfl⟩)

/-- No file is found twice. -/
theorem nodup_discover (tree : FileTree) : ((discover tree).flatMap (·.files)).Nodup := by
  refine List.nodup_flatMap.mpr ⟨fun g hg => ?_, ?_⟩
  · obtain ⟨c, -, rfl⟩ := List.mem_map.mp hg
    exact Text.nodup_sortedOnce _
  · refine List.pairwise_map.mpr ((Text.nodup_sortedOnce _).imp fun hne => ?_)
    intro names hmem hmem'
    have hcategory := (List.mem_filter.mp (Text.mem_sortedOnce.mp hmem)).2
    have hcategory' := (List.mem_filter.mp (Text.mem_sortedOnce.mp hmem')).2
    exact hne ((of_decide_eq_true hcategory).symm.trans (of_decide_eq_true hcategory'))

/-- A group is chosen if nothing has been requested, or if a request covers its category. -/
theorem mem_choose {groups : List TestGroup} {g : TestGroup} : g ∈ (choose groups requests).1 ↔
    g ∈ groups ∧ (requests = [] ∨ ∃ request ∈ requests, Covers (requestedName request) g.category) := by
  unfold choose
  split
  · rename_i hempty
    exact ⟨fun hg => ⟨hg, .inl (List.isEmpty_iff.mp hempty)⟩, And.left⟩
  · rename_i hsome
    have hne : requests ≠ [] := fun h => hsome (List.isEmpty_iff.mpr h)
    rw [List.mem_filter, decide_eq_true_iff, mem_categories_select, or_iff_right hne]
    exact and_congr_right fun hg => and_iff_right (List.mem_map_of_mem hg)

theorem choose_sublist (groups : List TestGroup) (requests : List String) :
    (choose groups requests).1.Sublist groups := by
  unfold choose
  split
  · exact List.Sublist.refl groups
  · exact List.filter_sublist

/-- No file is chosen twice. -/
theorem nodup_chosenFiles (tree : FileTree) (requests : List String) :
    (chosenFiles tree requests).Nodup :=
  ((choose_sublist _ requests).flatMap _).nodup (nodup_discover tree)

theorem mem_chosenFiles : names ∈ chosenFiles tree requests ↔
    names ∈ tree.files.map (·.1) ∧ isTest names ∧
      (requests = [] ∨ ∃ request ∈ requests, Covers (requestedName request) (category names)) := by
  constructor
  · intro hmem
    obtain ⟨g, hg, hfile⟩ := List.mem_flatMap.mp hmem
    obtain ⟨hgroup, hchosen⟩ := mem_choose.mp hg
    obtain ⟨hnames, htest, hcategory⟩ := (mem_discover hgroup).mp hfile
    rw [hcategory]
    exact ⟨hnames, htest, hchosen⟩
  · rintro ⟨hnames, htest, hchosen⟩
    obtain ⟨g, hg, hfile⟩ := exists_group hnames htest
    rw [((mem_discover hg).mp hfile).2.2] at hchosen
    exact List.mem_flatMap.mpr ⟨g, mem_choose.mpr ⟨hg, hchosen⟩, hfile⟩

private theorem files_ne_nil {g : TestGroup} (hg : g ∈ discover tree) : g.files ≠ [] := by
  obtain ⟨c, hc, rfl⟩ := List.mem_map.mp hg
  obtain ⟨names, hmem, hcategory⟩ := List.mem_map.mp (Text.mem_sortedOnce.mp hc)
  refine List.ne_nil_of_mem (Text.mem_sortedOnce.mpr (List.mem_filter.mpr ⟨hmem, ?_⟩))
  exact decide_eq_true hcategory

/-- No category without a test is found. -/
theorem choose_eq_nil_iff :
    (choose (discover tree) requests).1 = [] ↔ chosenFiles tree requests = [] := by
  unfold chosenFiles
  rw [List.flatMap_eq_nil_iff]
  constructor
  · intro hnil g hg
    rw [hnil] at hg
    exact absurd hg List.not_mem_nil
  · intro hnil
    refine List.eq_nil_iff_forall_not_mem.mpr fun g hg => ?_
    exact files_ne_nil ((choose_sublist _ requests).subset hg) (hnil g hg)

/-- The names lead to a test file whose category is requested, if any is. -/
structure Requested (tree : FileTree) (requests : List String) (names : List String) : Prop where
  file : tree.HasFile names
  test : ∃ directory stem, names = directory ++ [stem ++ extension]
  selected : requests = [] ∨ ∃ request ∈ requests, Covers (requestedName request) (category names)

/-- The chosen files are those that have been requested. -/
theorem mem_chosenFiles_iff (h : tree.Proper) :
    names ∈ chosenFiles tree requests ↔ Requested tree requests names := by
  rw [mem_chosenFiles, h.mem_map_files, isTest_iff]
  exact ⟨fun ⟨hfile, htest, hselected⟩ => ⟨hfile, htest, hselected⟩,
    fun ⟨hfile, htest, hselected⟩ => ⟨hfile, htest, hselected⟩⟩

/-- Files that are chosen lie on paths of their own. -/
theorem nodup_map_below (h : tree.Proper) (root : String) :
    ((chosenFiles tree requests).map (Path.below root)).Nodup := by
  refine (nodup_chosenFiles tree requests).map_on fun names hnames names' hnames' heq => ?_
  have hname := h.isName ((mem_chosenFiles_iff h).mp hnames).file
  exact Path.below_inj hname (h.isName ((mem_chosenFiles_iff h).mp hnames').file) heq

end TestSuite

end BlockProgram
