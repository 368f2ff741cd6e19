import ClassDiagram.Loading.FileTree
import ClassDiagram.Proofs.Text.Mark
import Mathlib.Data.List.Nodup

/-!
# Visiting a file tree

A directory is visited level by level of one branch after the other: its files in the order of their
names, then its directories in the order of theirs, but for the ignored ones. In a proper tree, in
which the entries of a directory have different names and no name holds a slash, no file is visited
twice.

* `Entry.sortByName`: a stable sort, which commutes with `filter` and with a change of the things
  that are named.
* `Entry.visits_directory`, `Entry.InOrder`: the visits of a directory, one level at a time.
* `Entry.Reaches`, `Entry.mem_visits_iff`: exactly the files that are below no ignored directory.
* `Entry.Proper`, `Entry.nodup_visits`: each of them once.
* `Entry.without`, `Entry.visits_without`: a tree without some files is visited as before, but for
  those files.
-/

namespace ClassDiagram

namespace Entry

/-! ## Sorting by name -/

section Sorting

variable {Thing Other : Type}

/-- Whether named things stand in ascending order of their names. -/
def Ascending (things : List (String × Thing)) : Prop :=
  things.Pairwise fun first second => first.1 ≤ second.1

/-- Placing a thing by its name adds it and loses nothing. -/
theorem placeByName_perm (named : String × Thing) (things : List (String × Thing)) :
    (placeByName named things).Perm (named :: things) := by
  induction things with
  | nil => exact List.Perm.refl _
  | cons first rest ih =>
      rw [placeByName]
      split
      · exact List.Perm.refl _
      · exact (ih.cons first).trans (List.Perm.swap named first rest)

/-- Sorting by name keeps all things. -/
theorem sortByName_perm (things : List (String × Thing)) : (sortByName things).Perm things := by
  induction things with
  | nil => exact List.Perm.refl _
  | cons first rest ih => exact (placeByName_perm first _).trans (ih.cons first)

/-- Placed by its name, a thing keeps the names ascending. -/
theorem ascending_placeByName {named : String × Thing} {things : List (String × Thing)}
    (h : Ascending things) : Ascending (placeByName named things) := by
  induction things with
  | nil => exact List.pairwise_singleton _ _
  | cons first rest ih =>
      obtain ⟨hfirst, hrest⟩ := List.pairwise_cons.mp h
      rw [placeByName]
      split
      · rename_i hle
        refine List.pairwise_cons.mpr ⟨List.forall_mem_cons.mpr ⟨hle, ?_⟩, h⟩
        exact fun other hother => String.le_trans hle (hfirst other hother)
      · rename_i hnot
        refine List.pairwise_cons.mpr ⟨fun other hother => ?_, ih hrest⟩
        -- behind the first are the rest and the placed thing, which did not go before it
        rcases List.mem_cons.mp ((placeByName_perm named rest).mem_iff.mp hother) with rfl | hmem
        · exact (String.le_total _ _).resolve_right hnot
        · exact hfirst other hmem

/-- Sorted by name, the names ascend. -/
theorem ascending_sortByName (things : List (String × Thing)) : Ascending (sortByName things) := by
  induction things with
  | nil => exact List.Pairwise.nil
  | cons first rest ih => exact ascending_placeByName ih

/-- A name that is not above any other comes first. -/
theorem placeByName_of_le {named : String × Thing} {things : List (String × Thing)}
    (h : ∀ other ∈ things, named.1 ≤ other.1) : placeByName named things = named :: things := by
  cases things with
  | nil => rfl
  | cons first rest => rw [placeByName, if_pos (h first List.mem_cons_self)]

/-- A thing that is kept is placed among the kept ones as it was among all. -/
theorem filter_placeByName {named : String × Thing} {things : List (String × Thing)}
    (h : Ascending things) (keeps : String × Thing → Bool) :
    (placeByName named things).filter keeps =
      if keeps named then placeByName named (things.filter keeps) else things.filter keeps := by
  induction things with
  | nil => cases hnamed : keeps named <;> simp [placeByName, hnamed]
  | cons first rest ih =>
      obtain ⟨hfirst, hrest⟩ := List.pairwise_cons.mp h
      rw [placeByName]
      by_cases hle : named.1 ≤ first.1
      -- what is kept of the rest is not below the name either
      · have hkept : ∀ other ∈ (first :: rest).filter keeps, named.1 ≤ other.1 := by
          intro other hother
          rcases List.mem_cons.mp (List.mem_filter.mp hother).1 with rfl | hmem
          · exact hle
          · exact String.le_trans hle (hfirst other hmem)
        rw [if_pos hle, List.filter_cons, placeByName_of_le hkept]
      · rw [if_neg hle, List.filter_cons, List.filter_cons, ih hrest]
        cases keeps first with
        | true =>
            rw [if_pos rfl, if_pos rfl]
            split
            · rw [placeByName, if_neg hle]
            · rfl
        | false => rfl

/-- Sorting what is kept is keeping what is sorted. -/
theorem sortByName_filter (things : List (String × Thing)) (keeps : String × Thing → Bool) :
    sortByName (things.filter keeps) = (sortByName things).filter keeps := by
  induction things with
  | nil => rfl
  | cons first rest ih =>
      show _ = (placeByName first (sortByName rest)).filter keeps
      rw [filter_placeByName (ascending_sortByName rest), List.filter_cons, ← ih]
      split <;> rfl

/-- Sorting does not look at what is sorted, only at its names. -/
theorem sortByName_map (things : List (String × Thing)) (change : String × Thing → Other) :
    sortByName (things.map fun named => (named.1, change named)) =
      (sortByName things).map fun named => (named.1, change named) := by
  have hplace : ∀ (named : String × Thing) (others : List (String × Thing)),
      placeByName (named.1, change named) (others.map fun other => (other.1, change other)) =
        (placeByName named others).map fun other => (other.1, change other) := by
    intro named others
    -- places are compared by name, and the change leaves the names
    induction others with
    | nil => rfl
    | cons first rest ih =>
        rw [List.map_cons, placeByName, placeByName]
        dsimp only
        split
        · rfl
        · rw [ih, List.map_cons]
  induction things with
  | nil => rfl
  | cons first rest ih =>
      show placeByName (first.1, change first) (sortByName (rest.map _)) = _
      rw [ih]
      exact hplace first (sortByName rest)

end Sorting

/-! ## One level -/

/-- The directories among some entries that are not ignored, with their names. -/
def folders (ignored : List String) (entries : List Entry) : List (String × List Entry) :=
  entries.filterMap fun entry =>
    match entry with
    | file .. => none
    | directory name inner => if ignored.contains name then none else some (name, inner)

section Cons

variable (ignored : List String) (name : String) (content : SourceFile) (inner rest : List Entry)

theorem files_cons_file :
    files (file name content :: rest) = (name, content) :: files rest := rfl

theorem folders_cons_file :
    folders ignored (file name content :: rest) = folders ignored rest := rfl

/-- A directory is one of the folders unless its name is ignored. -/
theorem folders_cons_directory :
    folders ignored (directory name inner :: rest) =
      if ignored.contains name then folders ignored rest
      else (name, inner) :: folders ignored rest := by
  rw [folders, List.filterMap_cons]
  dsimp only
  cases ignored.contains name with
  | true => rfl
  | false => rfl

end Cons

/-- The files of a directory are its entries that are files. -/
theorem mem_files {entries : List Entry} {name : String} {content : SourceFile} :
    (name, content) ∈ files entries ↔ file name content ∈ entries := by
  unfold files
  rw [List.mem_filterMap]
  constructor
  · rintro ⟨entry, hentry, heq⟩
    cases entry with
    | file _ _ =>
        cases heq
        exact hentry
    | directory _ _ => exact absurd heq (by simp)
  · exact fun hentry => ⟨_, hentry, rfl⟩

/-- The folders of a directory are its entries that are directories and not ignored. -/
theorem mem_folders {ignored : List String} {entries : List Entry} {name : String}
    {inner : List Entry} :
    (name, inner) ∈ folders ignored entries ↔
      directory name inner ∈ entries ∧ name ∉ ignored := by
  unfold folders
  rw [List.mem_filterMap]
  constructor
  · rintro ⟨entry, hentry, heq⟩
    cases entry with
    | file _ _ => exact absurd heq (by simp)
    | directory _ _ =>
        dsimp only at heq
        split at heq
        · exact absurd heq (by simp)
        · rename_i hnot
          cases heq
          exact ⟨hentry, by simpa using hnot⟩
  · rintro ⟨hentry, hnot⟩
    exact ⟨_, hentry, if_neg (by simpa using hnot)⟩

/-- The recursion over entries visits each folder at its path. -/
theorem visitsAmong_eq (ignored : List String) (path : String) (entries : List Entry) :
    visitsAmong ignored path entries = (folders ignored entries).map fun folder =>
      (folder.1, visits ignored (Path.join path folder.1) (directory folder.1 folder.2)) := by
  induction entries with
  | nil => rfl
  | cons entry rest ih =>
      cases entry with
      | file name content => exact ih
      | directory name inner =>
          rw [visitsAmong, folders_cons_directory]
          split
          · exact ih
          · rw [List.map_cons, ih]

/-- The visits of a directory: its files in ascending order, then the visits of its directories in
ascending order. -/
theorem visits_directory (ignored : List String) (path name : String) (entries : List Entry) :
    visits ignored path (directory name entries) =
      (sortByName (files entries)).map (fun found => (Path.join path found.1, found.2)) ++
        (sortByName (folders ignored entries)).flatMap fun folder =>
          visits ignored (Path.join path folder.1) (directory folder.1 folder.2) := by
  rw [visits, visitsAmong_eq, sortByName_map, List.flatMap_map]

/-- Whether visits of a directory come in order: its files in ascending order, then, in ascending
order, its directories that are not ignored, each with all of its visits. -/
def InOrder (ignored : List String) (path : String) (entries : List Entry)
    (visited : List (String × SourceFile)) : Prop :=
  ∃ found below, found.Perm (files entries) ∧ Ascending found ∧
    below.Perm (folders ignored entries) ∧ Ascending below ∧
    visited = found.map (fun named => (Path.join path named.1, named.2)) ++
      below.flatMap fun folder =>
        visits ignored (Path.join path folder.1) (directory folder.1 folder.2)

theorem inOrder_visits (ignored : List String) (path name : String) (entries : List Entry) :
    InOrder ignored path entries (visits ignored path (directory name entries)) :=
  ⟨_, _, sortByName_perm _, ascending_sortByName _, sortByName_perm _, ascending_sortByName _,
    visits_directory ignored path name entries⟩

/-- What holds of the entries of a directory if it holds of those of its directories, holds of all
entries. -/
theorem induct {motive : List Entry → Prop}
    (step : ∀ entries, (∀ name inner, directory name inner ∈ entries → motive inner) →
      motive entries)
    (entries : List Entry) : motive entries :=
  step entries fun _ inner _ => induct step inner
termination_by sizeOf entries
decreasing_by
  rename_i hmem
  have hsize := List.sizeOf_lt_of_mem hmem
  simp only [directory.sizeOf_spec] at hsize
  omega

/-! ## Which files are visited -/

/-- Whether a file is among entries that stand under `path`, or below one of the directories among
them, with no ignored directory on the way to it. -/
inductive Reaches (ignored : List String) :
    String → List Entry → String → SourceFile → Prop where
  | file {path : String} {entries : List Entry} {name : String} {content : SourceFile} :
      file name content ∈ entries →
      Reaches ignored path entries (Path.join path name) content
  | inside {path : String} {entries inner : List Entry} {name target : String}
      {content : SourceFile} : directory name inner ∈ entries → name ∉ ignored →
      Reaches ignored (Path.join path name) inner target content →
      Reaches ignored path entries target content

/-- Exactly the files that are reached are visited. -/
theorem mem_visits_iff {ignored : List String} {path name target : String} {entries : List Entry}
    {content : SourceFile} :
    (target, content) ∈ visits ignored path (directory name entries) ↔
      Reaches ignored path entries target content := by
  induction entries using induct generalizing path name with
  | step entries ih =>
      rw [visits_directory, List.mem_append, List.mem_map, List.mem_flatMap]
      constructor
      · rintro (⟨found, hfound, heq⟩ | ⟨folder, hfolder, hmem⟩)
        · cases heq
          exact .file (mem_files.mp ((sortByName_perm _).mem_iff.mp hfound))
        · obtain ⟨hentry, hnot⟩ := mem_folders.mp ((sortByName_perm _).mem_iff.mp hfolder)
          exact .inside hentry hnot ((ih _ _ hentry).mp hmem)
      · intro hreaches
        cases hreaches with
        | @file _ _ found content hentry =>
            refine Or.inl ⟨(found, content), ?_, rfl⟩
            exact (sortByName_perm _).mem_iff.mpr (mem_files.mpr hentry)
        | @inside _ _ inner folder _ _ hentry hnot hinner =>
            refine Or.inr ⟨(folder, inner), ?_, (ih _ _ hentry).mpr hinner⟩
            exact (sortByName_perm _).mem_iff.mpr (mem_folders.mpr ⟨hentry, hnot⟩)

/-! ## Proper trees -/

mutual

/-- The entries of a directory, and those of each directory below it. -/
def levels : Entry → List (List Entry)
  | file .. => []
  | directory _ entries => entries :: levelsAmong entries

/-- The levels of some entries. -/
def levelsAmong : List Entry → List (List Entry)
  | [] => []
  | entry :: rest => levels entry ++ levelsAmong rest

end

/-- The rules for the entries of one directory: their names differ, and a name is not empty and
holds no slash. -/
structure ProperLevel (entries : List Entry) : Prop where
  names_distinct : (entries.map name).Nodup
  names_plain : ∀ entry ∈ entries, entry.name ≠ "" ∧ '/' ∉ entry.name.toList

instance (entries : List Entry) : Decidable (ProperLevel entries) :=
  decidable_of_iff ((entries.map name).Nodup ∧
      ∀ entry ∈ entries, entry.name ≠ "" ∧ '/' ∉ entry.name.toList)
    ⟨fun h => ⟨h.1, h.2⟩, fun h => ⟨h.names_distinct, h.names_plain⟩⟩

/-- Whether every directory of a tree keeps the rules. -/
def Proper (entry : Entry) : Prop := ∀ level ∈ entry.levels, ProperLevel level

instance (entry : Entry) : Decidable entry.Proper :=
  inferInstanceAs (Decidable (∀ level ∈ entry.levels, ProperLevel level))

/-- The levels below an entry are among those of all entries. -/
theorem levels_subset {entry : Entry} {entries : List Entry} (h : entry ∈ entries) :
    entry.levels ⊆ levelsAmong entries := by
  induction entries with
  | nil => exact absurd h List.not_mem_nil
  | cons first rest ih =>
      rw [levelsAmong]
      rcases List.mem_cons.mp h with rfl | hrest
      · exact List.subset_append_left _ _
      · exact List.subset_append_of_subset_right _ (ih hrest)

namespace Proper

variable {name : String} {entries : List Entry}

theorem level (h : (directory name entries).Proper) : ProperLevel entries := by
  refine h entries ?_
  rw [levels]
  exact List.mem_cons_self

/-- If a tree is proper, what is below each entry is. -/
theorem below (h : (directory name entries).Proper) {entry : Entry} (hentry : entry ∈ entries) :
    entry.Proper := by
  intro level hlevel
  refine h level ?_
  rw [levels]
  exact List.mem_cons_of_mem _ (levels_subset hentry hlevel)

/-- In a proper tree, a file's name is not empty and holds no slash. -/
theorem file_plain (h : (directory name entries).Proper) {found : String} {content : SourceFile}
    (hentry : file found content ∈ entries) : found ≠ "" ∧ '/' ∉ found.toList :=
  h.level.names_plain _ hentry

/-- In a proper tree, a folder's name is not empty and holds no slash. -/
theorem folder_plain (h : (directory name entries).Proper) {folder : String} {inner : List Entry}
    (hentry : directory folder inner ∈ entries) : folder ≠ "" ∧ '/' ∉ folder.toList :=
  h.level.names_plain _ hentry

end Proper

end Entry

/-! ## Paths below a directory -/

namespace Path

/-- What the paths of the entries of a directory start with. -/
def stem (path : String) : Text :=
  if path.isEmpty ∨ path.toList.getLast? = some '/' then path.toList else path.toList ++ ['/']

/-- A path below another begins with it and a slash. -/
theorem toList_join (path name : String) : (join path name).toList = stem path ++ name.toList := by
  unfold join stem
  split
  · exact String.toList_append
  · rw [String.toList_append, String.toList_append]
    rfl

/-- Different names give different paths below a path. -/
theorem join_injective (path : String) : Function.Injective (join path) := by
  intro first second h
  have hlists := congrArg String.toList h
  rw [toList_join, toList_join] at hlists
  exact String.toList_inj.mp (List.append_cancel_left hlists)

/-- What the paths below a folder begin with. -/
theorem stem_join (path : String) {name : String} (hname : name ≠ "")
    (hslash : '/' ∉ name.toList) : stem (join path name) = stem path ++ (name.toList ++ ['/']) := by
  have hlist : name.toList ≠ [] := fun hnil => hname (String.toList_inj.mp hnil)
  have hlast : (join path name).toList.getLast? = name.toList.getLast? := by
    rw [toList_join, List.getLast?_append_of_ne_nil _ hlist]
  have hopen : ¬((join path name).isEmpty ∨ (join path name).toList.getLast? = some '/') := by
    rintro (hempty | hend)
    · rw [String.isEmpty_iff.mp hempty] at hlast
      exact hlist (List.getLast?_eq_none_iff.mp hlast.symm)
    · rw [hlast] at hend
      exact hslash (List.mem_of_getLast? hend)
  rw [stem, if_neg hopen, toList_join, List.append_assoc]

/-- The name that follows a directory in a path that starts with it. -/
def nameBelow (directory target : String) : Text :=
  Text.upTo '/' (target.toList.drop (stem directory).length)

/-- The name below a path is the one that was joined to it. -/
theorem nameBelow_join {path name : String} (hslash : '/' ∉ name.toList) :
    nameBelow path (join path name) = name.toList := by
  rw [nameBelow, toList_join, List.drop_left, Text.upTo_of_not_mem hslash]

/-- A path below a folder has the folder's name below the path. -/
theorem nameBelow_of_stem {path name target : String} (hname : name ≠ "")
    (hslash : '/' ∉ name.toList) (h : stem (join path name) <+: target.toList) :
    nameBelow path target = name.toList := by
  obtain ⟨rest, hrest⟩ := h
  rw [stem_join path hname hslash] at hrest
  rw [nameBelow, ← hrest, List.append_assoc, List.drop_left, List.append_assoc]
  exact Text.upTo_append_mark hslash rest

end Path

namespace Entry

/-- The path of a visited file starts with that of its directory. -/
theorem stem_initial_of_reaches {ignored : List String} {path target : String}
    {entries : List Entry} {content : SourceFile}
    (h : Reaches ignored path entries target content) {name : String}
    (hproper : (directory name entries).Proper) : Path.stem path <+: target.toList := by
  induction h generalizing name with
  | file _ =>
      rw [Path.toList_join]
      exact List.prefix_append _ _
  | inside hentry _ _ ih =>
      obtain ⟨hname, hslash⟩ := hproper.folder_plain hentry
      have hinner := ih (hproper.below hentry)
      rw [Path.stem_join _ hname hslash] at hinner
      exact (List.prefix_append _ _).trans hinner

/-- The first name on the way to a file below a directory is that of the directory. -/
theorem nameBelow_of_mem_visits {ignored : List String} {path name folder target : String}
    {entries inner : List Entry} (hproper : (directory name entries).Proper)
    (hentry : directory folder inner ∈ entries)
    (hmem : target ∈
      (visits ignored (Path.join path folder) (directory folder inner)).map Prod.fst) :
    Path.nameBelow path target = folder.toList := by
  obtain ⟨⟨_, content⟩, hvisit, rfl⟩ := List.mem_map.mp hmem
  obtain ⟨hname, hslash⟩ := hproper.folder_plain hentry
  refine Path.nameBelow_of_stem hname hslash ?_
  exact stem_initial_of_reaches (mem_visits_iff.mp hvisit) (hproper.below hentry)

section Names

variable {Thing : Type} {entries : List Entry} {select : Entry → Option (String × Thing)}

/-- Selected entries in ascending order have different names, if all entries do. -/
theorem nodup_names_sortByName (hdistinct : (entries.map name).Nodup)
    (h : ∀ entry named, select entry = some named → named.1 = entry.name) :
    ((sortByName (entries.filterMap select)).map Prod.fst).Nodup := by
  rw [((sortByName_perm _).map Prod.fst).nodup_iff]
  refine List.Nodup.sublist ?_ hdistinct
  induction entries with
  | nil => exact List.Sublist.refl _
  | cons entry rest ih =>
      have hrest := ih (List.nodup_cons.mp hdistinct).2
      rw [List.filterMap_cons]
      cases hselect : select entry with
      | none => exact hrest.cons _
      | some named =>
          rw [List.map_cons, List.map_cons, h entry named hselect]
          exact hrest.cons_cons _

end Names

/-- In a proper tree no file is visited twice. -/
theorem nodup_visits {ignored : List String} {path name : String} {entries : List Entry}
    (hproper : (directory name entries).Proper) :
    ((visits ignored path (directory name entries)).map Prod.fst).Nodup := by
  induction entries using induct generalizing path name with
  | step entries ih =>
      have hdistinct := hproper.level.names_distinct
      have hfiles : ((sortByName (files entries)).map Prod.fst).Nodup := by
        refine nodup_names_sortByName hdistinct fun entry named heq => ?_
        cases entry <;> cases heq
        rfl
      have hfolders : ((sortByName (folders ignored entries)).map Prod.fst).Nodup := by
        refine nodup_names_sortByName hdistinct fun entry named heq => ?_
        cases entry with
        | file _ _ => cases heq
        | directory _ _ =>
            dsimp only at heq
            split at heq <;> cases heq
            rfl
      have hmem : ∀ folder ∈ sortByName (folders ignored entries),
          directory folder.1 folder.2 ∈ entries := fun folder hfolder =>
        (mem_folders.mp ((sortByName_perm _).mem_iff.mp hfolder)).1
      rw [visits_directory, List.map_append, List.map_flatMap, List.map_map]
      refine List.nodup_append.mpr ⟨?_, List.nodup_flatMap.mpr ⟨?_, ?_⟩, ?_⟩
      · have hpaths := hfiles.map (Path.join_injective path)
        rwa [List.map_map] at hpaths
      · intro folder hfolder
        exact ih _ _ (hmem folder hfolder) (hproper.below (hmem folder hfolder))
      · refine (List.pairwise_map.mp hfolders).imp_of_mem ?_
        intro first second hfirst hsecond hne target hone htwo
        -- a file below both would have both names next on its path
        have hnames := (nameBelow_of_mem_visits hproper (hmem first hfirst) hone).symm.trans
          (nameBelow_of_mem_visits hproper (hmem second hsecond) htwo)
        exact hne (String.toList_inj.mp hnames)
      · intro target hfile other hinside
        rintro rfl
        obtain ⟨found, hfound, rfl⟩ := List.mem_map.mp hfile
        obtain ⟨folder, hfolder, hvisit⟩ := List.mem_flatMap.mp hinside
        have hentry := mem_files.mp ((sortByName_perm _).mem_iff.mp hfound)
        have hnames : found.1.toList = folder.1.toList :=
          (Path.nameBelow_join (hproper.file_plain hentry).2).symm.trans
            (nameBelow_of_mem_visits hproper (hmem folder hfolder) hvisit)
        have hsame := List.inj_on_of_nodup_map hdistinct hentry (hmem folder hfolder)
          (String.toList_inj.mp hnames)
        cases hsame

/-! ## Trees without some files -/

mutual

/-- An entry without the files of some paths, where `path` leads to the entry. -/
def without (gone : List String) (path : String) : Entry → Entry
  | file name content => file name content
  | directory name entries => directory name (withoutAmong gone path entries)

/-- Entries without the files of some paths, where `path` leads to their directory. -/
def withoutAmong (gone : List String) (path : String) : List Entry → List Entry
  | [] => []
  | entry :: rest =>
    match entry with
    | file name content =>
      if gone.contains (Path.join path name) then withoutAmong gone path rest
      else file name content :: withoutAmong gone path rest
    | directory name entries =>
      without gone (Path.join path name) (directory name entries) :: withoutAmong gone path rest

end

section Without

variable (ignored gone : List String) (path : String) (entries : List Entry)

/-- Without some files, the others are what they were. -/
theorem files_withoutAmong :
    files (withoutAmong gone path entries) =
      (files entries).filter fun found => !gone.contains (Path.join path found.1) := by
  induction entries with
  | nil => rfl
  | cons entry rest ih =>
      cases entry with
      | directory name inner => exact ih
      | file name content =>
          rw [withoutAmong, files_cons_file, List.filter_cons]
          cases hgone : gone.contains (Path.join path name) with
          | true => exact ih
          | false =>
              rw [if_neg (by simp), if_pos (by simp), files_cons_file, ih]

/-- Without some files, the folders are there with what is left in them. -/
theorem folders_withoutAmong :
    folders ignored (withoutAmong gone path entries) =
      (folders ignored entries).map fun folder =>
        (folder.1, withoutAmong gone (Path.join path folder.1) folder.2) := by
  induction entries with
  | nil => rfl
  | cons entry rest ih =>
      cases entry with
      | file name content =>
          rw [withoutAmong, folders_cons_file, ← ih]
          split <;> rfl
      | directory name inner =>
          rw [withoutAmong, without, folders_cons_directory, folders_cons_directory, ih]
          split <;> rfl

/-- A tree without some files is visited like the whole tree, but for those files. -/
theorem visits_without (name : String) :
    visits ignored path ((directory name entries).without gone path) =
      (visits ignored path (directory name entries)).filter fun visit =>
        !gone.contains visit.1 := by
  induction entries using induct generalizing path name with
  | step entries ih =>
      rw [without, visits_directory, visits_directory, files_withoutAmong, folders_withoutAmong,
        sortByName_filter, sortByName_map, List.filter_append, List.filter_map, List.flatMap_map,
        List.filter_flatMap]
      congr 1
      refine List.flatMap_congr fun folder hfolder => ?_
      obtain ⟨hentry, _⟩ := mem_folders.mp ((sortByName_perm _).mem_iff.mp hfolder)
      exact ih _ _ hentry _ _

end Without

end Entry

end ClassDiagram
