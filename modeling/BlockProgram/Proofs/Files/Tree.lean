import BlockProgram.Files.Path
import BlockProgram.Files.Tree
import Mathlib.Data.List.Nodup

/-! The files of a tree are those that names lead to, each of them once, and different names lead along
different paths. -/
namespace BlockProgram

/-- A name that an entry of a directory can have. -/
structure IsName (name : String) : Prop where
  nonempty : name ≠ ""
  noSlash : '/' ∉ name.toList

instance (name : String) : Decidable (IsName name) :=
  decidable_of_iff (name ≠ "" ∧ '/' ∉ name.toList) ⟨fun h => ⟨h.1, h.2⟩, fun h => ⟨h.1, h.2⟩⟩

namespace FileTree

/-- The entries of every directory have names, and no two of them the same. -/
inductive Proper : FileTree → Prop where
  | file (bytes : ByteArray) : Proper (.file bytes)
  | directory {entries : List (String × FileTree)} (names : ∀ e ∈ entries, IsName e.1)
      (distinct : (entries.map (·.1)).Nodup) (inner : ∀ e ∈ entries, Proper e.2) :
      Proper (.directory entries)

def HasFile (tree : FileTree) (names : List String) : Prop :=
  ∃ bytes, tree.find? names = some (.file bytes)

variable {tree inner : FileTree} {entries : List (String × FileTree)} {name : String}
  {names names' : List String} {bytes : ByteArray}

private theorem entryFiles_eq (entries : List (String × FileTree)) : entryFiles entries =
    entries.flatMap fun e => e.2.files.map fun found => (e.1 :: found.1, found.2) := by
  induction entries with
  | nil => rw [entryFiles, List.flatMap_nil]
  | cons e entries ih => rw [entryFiles, ih, List.flatMap_cons]

/-- Where no name is repeated, an entry is looked up exactly by its name. -/
theorem entry?_eq_some_iff (h : (entries.map (·.1)).Nodup) :
    entry? (directory entries) name = some inner ↔ (name, inner) ∈ entries := by
  unfold entry?
  constructor
  · intro hfind
    obtain ⟨e, he, rfl⟩ := Option.map_eq_some_iff.mp hfind
    obtain rfl : e.1 = name := by simpa using List.find?_some he
    exact List.mem_of_find?_eq_some he
  · intro hmem
    cases hfind : entries.find? fun e => e.1 = name with
    | none =>
      have hne := List.find?_eq_none.mp hfind _ hmem
      exact absurd (decide_eq_true rfl) hne
    | some e =>
      have hname : e.1 = name := by simpa using List.find?_some hfind
      have he := List.inj_on_of_nodup_map h (List.mem_of_find?_eq_some hfind) hmem hname
      rw [show (directory entries).entries = entries from rfl, hfind, he]
      rfl

/-- In a proper tree the files that are listed are those that names lead to. -/
theorem Proper.mem_files (h : tree.Proper) :
    (names, bytes) ∈ tree.files ↔ tree.find? names = some (.file bytes) := by
  induction h generalizing names with
  | file content =>
    cases names with
    | nil => simp [files, find?, eq_comm]
    | cons name names => simp [files, find?, entry?, entries]
  | @directory entries hnames hdistinct _ ih =>
    cases names with
    | nil => simp [files, entryFiles_eq, find?]
    | cons name names =>
      rw [find?, Option.bind_eq_some_iff, files, entryFiles_eq, List.mem_flatMap]
      constructor
      · rintro ⟨e, he, hmem⟩
        obtain ⟨found, hfound, heq⟩ := List.mem_map.mp hmem
        cases heq
        exact ⟨e.2, (entry?_eq_some_iff hdistinct).mpr he, (ih e he).mp hfound⟩
      · rintro ⟨inner, hinner, hfind⟩
        have he := (entry?_eq_some_iff hdistinct).mp hinner
        exact ⟨_, he, List.mem_map.mpr ⟨_, (ih _ he).mpr hfind, rfl⟩⟩

theorem Proper.mem_map_files (h : tree.Proper) : names ∈ tree.files.map (·.1) ↔ tree.HasFile names := by
  constructor
  · intro hmem
    obtain ⟨found, hfound, rfl⟩ := List.mem_map.mp hmem
    exact ⟨found.2, h.mem_files.mp hfound⟩
  · rintro ⟨bytes, hfind⟩
    exact List.mem_map.mpr ⟨_, h.mem_files.mpr hfind, rfl⟩

theorem Proper.isName (h : tree.Proper) (hfile : tree.HasFile names) : ∀ name ∈ names, IsName name := by
  induction h generalizing names with
  | file content =>
    obtain ⟨bytes, hfind⟩ := hfile
    cases names with
    | nil => exact fun _ hmem => absurd hmem List.not_mem_nil
    | cons name names => cases hfind
  | @directory entries hnames hdistinct _ ih =>
    obtain ⟨bytes, hfind⟩ := hfile
    cases names with
    | nil => exact fun _ hmem => absurd hmem List.not_mem_nil
    | cons name names =>
      obtain ⟨inner, hinner, hfind⟩ := Option.bind_eq_some_iff.mp hfind
      have he := (entry?_eq_some_iff hdistinct).mp hinner
      exact List.forall_mem_cons.mpr ⟨hnames _ he, ih _ he ⟨bytes, hfind⟩⟩

end FileTree

namespace Path

variable {root directory name : String} {names names' : List String}

/-- What stands between a directory and the names of its entries. -/
def separator (directory : String) : List Char :=
  if directory = "" ∨ directory.toList.getLast? = some '/' then [] else ['/']

private theorem toList_entry (directory name : String) :
    (entry directory name).toList = directory.toList ++ separator directory ++ name.toList := by
  unfold entry separator
  split <;> simp

private theorem separator_entry (h : IsName name) : separator (entry directory name) = ['/'] := by
  obtain ⟨last, hlast⟩ : ∃ last, name.toList.getLast? = some last := by
    cases hname : name.toList.getLast? with
    | none => exact absurd (String.toList_eq_nil_iff.mp (List.getLast?_eq_none_iff.mp hname)) h.nonempty
    | some last => exact ⟨last, rfl⟩
  have hend : (entry directory name).toList.getLast? = some last := by
    rw [toList_entry, List.getLast?_append, hlast]
    rfl
  refine if_neg (not_or.mpr ⟨fun hempty => ?_, ?_⟩)
  · rw [hempty] at hend
    cases hend
  · rw [hend]
    rintro ⟨⟩
    exact h.noSlash (List.mem_of_getLast? hlast)

def slashed (names : List String) : List Char := names.flatMap fun name => '/' :: name.toList

private theorem below_cons : below root (name :: names) = below (entry root name) names := rfl

/-- A path below a directory is that of the directory and the names, each behind a slash. -/
theorem toList_below (h : ∀ name ∈ names, IsName name) (hroot : separator root = ['/']) :
    (below root names).toList = root.toList ++ slashed names := by
  induction names generalizing root with
  | nil => simp [below, slashed]
  | cons name names ih =>
    obtain ⟨hname, hnames⟩ := List.forall_mem_cons.mp h
    rw [below_cons, ih hnames (separator_entry hname), toList_entry, hroot]
    simp [slashed]

private theorem toList_below_cons (h : ∀ n ∈ name :: names, IsName n) :
    (below root (name :: names)).toList =
      root.toList ++ separator root ++ (name.toList ++ slashed names) := by
  obtain ⟨hname, hnames⟩ := List.forall_mem_cons.mp h
  rw [below_cons, toList_below hnames (separator_entry hname), toList_entry, List.append_assoc]

private theorem takeWhile_slashed (h : IsName name) (names : List String) :
    (name.toList ++ slashed names).takeWhile (· ≠ '/') = name.toList := by
  have hname : ∀ c ∈ name.toList, decide (c ≠ '/') = true := fun c hc =>
    decide_eq_true (ne_of_mem_of_not_mem hc h.noSlash)
  rw [List.takeWhile_append_of_pos hname]
  cases names with
  | nil => simp [slashed]
  | cons next names => simp [slashed]

private theorem slashed_inj (h : ∀ name ∈ names, IsName name) (h' : ∀ name ∈ names', IsName name)
    (heq : slashed names = slashed names') : names = names' := by
  induction names generalizing names' with
  | nil =>
    cases names' with
    | nil => rfl
    | cons name' names' => cases heq
  | cons name names ih =>
    cases names' with
    | nil => cases heq
    | cons name' names' =>
      obtain ⟨hname, hnames⟩ := List.forall_mem_cons.mp h
      obtain ⟨hname', hnames'⟩ := List.forall_mem_cons.mp h'
      have hrest : name.toList ++ slashed names = name'.toList ++ slashed names' :=
        (List.cons.inj heq).2
      have hfirst : name.toList = name'.toList := by
        rw [← takeWhile_slashed hname names, hrest, takeWhile_slashed hname']
      rw [hfirst] at hrest
      rw [String.toList_injective hfirst, ih hnames hnames' (List.append_cancel_left hrest)]

/-- Different names lead along different paths. -/
theorem below_inj (h : ∀ name ∈ names, IsName name) (h' : ∀ name ∈ names', IsName name)
    (heq : below root names = below root names') : names = names' := by
  have hlonger {name : String} {names : List String} (h : ∀ n ∈ name :: names, IsName n) :
      below root (name :: names) ≠ root := by
    intro heq
    have hlength := congrArg List.length ((congrArg String.toList heq).symm.trans (toList_below_cons h))
    have hname : name.toList.length ≠ 0 := fun hzero =>
      (h name List.mem_cons_self).nonempty (String.toList_eq_nil_iff.mp (List.length_eq_zero_iff.mp hzero))
    simp only [List.length_append] at hlength
    omega
  cases names with
  | nil =>
    cases names' with
    | nil => rfl
    | cons name' names' => exact absurd heq.symm (hlonger h')
  | cons name names =>
    cases names' with
    | nil => exact absurd heq (hlonger h)
    | cons name' names' =>
      have hlist := congrArg String.toList heq
      rw [toList_below_cons h, toList_below_cons h'] at hlist
      exact slashed_inj h h' (congrArg ('/' :: ·) (List.append_cancel_left hlist))

end Path

end BlockProgram
