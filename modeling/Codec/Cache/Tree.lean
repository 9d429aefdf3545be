import Codec.Cache.Files
import Mathlib.Data.List.Induction

set_option autoImplicit false

namespace Codec.Cache

open Codec.Ems (Str)

variable {ι : Type}

def inserted : List Change → Path → Option NodeId
  | [], path => if path = [] then some root else none
  | .inserted there fn :: older, path => if there = path then some fn else inserted older path
  | .removed fn :: older, path => if inserted older path = some fn then none else inserted older path

def FileSystem.InTree (fs : FileSystem ι) (fn : NodeId) : Prop := (fs.nodes fn).parent ≠ none

structure Tree (fs : FileSystem ι) : Prop where
  top : (fs.nodes root).dir = true ∧ (fs.nodes root).path = [] ∧ (fs.nodes root).parent = some root
  started : root < fs.fresh
  blank : ∀ fn, fs.fresh ≤ fn → ¬ fs.InTree fn
  child : ∀ dir name fn, (fs.nodes dir).files name = some fn →
    fn ≠ root ∧ (fs.nodes fn).parent = some dir ∧ (fs.nodes fn).name = name
  parent : ∀ fn dir, fn ≠ root → (fs.nodes fn).parent = some dir →
    (fs.nodes dir).files (fs.nodes fn).name = some fn ∧ (fs.nodes dir).dir = true ∧ fs.InTree dir ∧
      ∃ name, (fs.nodes fn).path = (fs.nodes dir).path ++ [name]
  named : ∀ path fn, inserted fs.history path = some fn ↔ fs.InTree fn ∧ (fs.nodes fn).path = path

section Lookup

variable {fs : FileSystem ι}

theorem Tree.unique (tree : Tree fs) {first second : NodeId} (one : fs.InTree first) (other : fs.InTree second)
    (same : (fs.nodes first).path = (fs.nodes second).path) : first = second :=
  Option.some.inj (((tree.named _ _).mpr ⟨one, same⟩).symm.trans ((tree.named _ _).mpr ⟨other, rfl⟩))

theorem Tree.root_in (tree : Tree fs) : fs.InTree root := by
  rw [FileSystem.InTree, tree.top.2.2]
  exact nofun

theorem Tree.ancestor (tree : Tree fs) (front back : Path) (fn : NodeId) (here : fs.InTree fn) (path : (fs.nodes fn).path = front ++ back) :
    ∃ dir, fs.InTree dir ∧ (fs.nodes dir).path = front ∧ (back ≠ [] → (fs.nodes dir).dir = true) := by
  induction back using List.reverseRecOn generalizing fn with
  | nil => exact ⟨fn, here, by simpa using path, fun some => absurd rfl some⟩
  | append_singleton back name ih =>
    have below : fn ≠ root := by
      rintro rfl
      simp [tree.top.2.1] at path
    obtain ⟨dir, parent⟩ := Option.ne_none_iff_exists'.mp here
    obtain ⟨-, isDir, inside, last, split⟩ := tree.parent fn dir below parent
    have above : (fs.nodes dir).path = front ++ back := by
      rw [path, ← List.append_assoc] at split
      exact (List.append_inj_left' split rfl).symm
    by_cases direct : back = []
    · exact ⟨dir, inside, by simpa [direct] using above, fun _ => isDir⟩
    · obtain ⟨higher, inside, here, isDir⟩ := ih dir inside above
      exact ⟨higher, inside, here, fun _ => isDir direct⟩

theorem Tree.child_path (tree : Tree fs) {dir fn : NodeId} {name : Str} (holds : (fs.nodes dir).files (some name) = some fn) :
    fs.InTree fn ∧ (fs.nodes fn).path = (fs.nodes dir).path ++ [name] := by
  obtain ⟨below, parent, named⟩ := tree.child dir _ fn holds
  obtain ⟨-, -, -, last, path⟩ := tree.parent fn dir below parent
  have same : some last = some name := by simpa [FileNode.name, path] using named
  rw [FileSystem.InTree, parent, path, Option.some.inj same]
  exact ⟨nofun, rfl⟩

theorem Tree.nothing_below (tree : Tree fs) {dir : NodeId} {name : Str} (here : fs.InTree dir)
    (empty : (fs.nodes dir).files (some name) = none) (fn : NodeId) (back : Path) (inside : fs.InTree fn)
    (path : (fs.nodes fn).path = (fs.nodes dir).path ++ name :: back) : False := by
  rw [List.append_cons] at path
  obtain ⟨entry, there, at_, -⟩ := tree.ancestor _ _ fn inside path
  have below : entry ≠ root := by
    rintro rfl
    simp [tree.top.2.1] at at_
  obtain ⟨above, parent⟩ := Option.ne_none_iff_exists'.mp there
  obtain ⟨holds, -, inside, last, split⟩ := tree.parent _ _ below parent
  rw [at_] at split
  obtain rfl : above = dir := tree.unique inside here (List.append_inj_left' split rfl).symm
  simp [FileNode.name, at_, empty] at holds

theorem Tree.find_from (tree : Tree fs) (rest : Path) (dir fn : NodeId) (here : fs.InTree dir) :
    fs.findFrom dir rest = .ok (some fn) ↔ fs.InTree fn ∧ (fs.nodes fn).path = (fs.nodes dir).path ++ rest := by
  induction rest generalizing dir with
  | nil =>
    simp only [FileSystem.findFrom, Except.ok.injEq, Option.some.injEq, List.append_nil]
    exact ⟨fun same => same ▸ ⟨here, rfl⟩, fun there => tree.unique here there.1 there.2.symm⟩
  | cons name rest ih =>
    simp only [FileSystem.findFrom]
    by_cases isDir : (fs.nodes dir).dir = true
    · rw [if_pos isDir]
      cases holds : (fs.nodes dir).files _ with
      | some child =>
        obtain ⟨inside, path⟩ := tree.child_path holds
        rw [ih _ inside, path, ← List.append_cons]
      | none =>
        simp only [reduceCtorEq, Except.ok.injEq, false_iff]
        exact fun there => tree.nothing_below here holds fn rest there.1 there.2
    · rw [if_neg isDir]
      simp only [reduceCtorEq, false_iff]
      rintro ⟨inside, path⟩
      obtain ⟨above, there, at_, isAbove⟩ := tree.ancestor _ _ fn inside path
      exact isDir (tree.unique there here at_ ▸ isAbove (List.cons_ne_nil name rest))

def FileSystem.Blocked (fs : FileSystem ι) (start rest : Path) : Prop :=
  ∃ front back file, rest = front ++ back ∧ back ≠ [] ∧ fs.InTree file ∧ (fs.nodes file).path = start ++ front ∧ (fs.nodes file).dir = false

theorem Tree.blocked_cons (tree : Tree fs) (dir : NodeId) (here : fs.InTree dir) (isDir : (fs.nodes dir).dir = true) (name : Str) (rest : Path) :
    fs.Blocked (fs.nodes dir).path (name :: rest) ↔ fs.Blocked ((fs.nodes dir).path ++ [name]) rest := by
  constructor
  · rintro ⟨front, back, file, split, some, there, at_, notDir⟩
    cases front with
    | nil =>
      rw [tree.unique there here (by simpa using at_), isDir] at notDir
      cases notDir
    | cons first front =>
      obtain ⟨rfl, rfl⟩ : name = first ∧ rest = front ++ back := by simpa using split
      exact ⟨front, back, file, rfl, some, there, by rw [at_, List.append_cons], notDir⟩
  · rintro ⟨front, back, file, rfl, some, there, at_, notDir⟩
    exact ⟨name :: front, back, file, rfl, some, there, by rw [at_, ← List.append_cons], notDir⟩

theorem Tree.find_blocked (tree : Tree fs) (rest : Path) (dir : NodeId) (here : fs.InTree dir) :
    (∃ raised, fs.findFrom dir rest = .error raised) ↔ fs.Blocked (fs.nodes dir).path rest := by
  induction rest generalizing dir with
  | nil => simp [FileSystem.findFrom, FileSystem.Blocked]
  | cons name rest ih =>
    simp only [FileSystem.findFrom]
    by_cases isDir : (fs.nodes dir).dir = true
    · rw [if_pos isDir, tree.blocked_cons dir here isDir]
      cases holds : (fs.nodes dir).files _ with
      | some child =>
        obtain ⟨inside, path⟩ := tree.child_path holds
        rw [← path]
        exact ih _ inside
      | none =>
        simp only [reduceCtorEq, exists_false, false_iff]
        rintro ⟨front, back, file, rfl, some, there, at_, notDir⟩
        exact tree.nothing_below here holds file _ there (by rw [at_, ← List.append_cons])
    · rw [if_neg isDir]
      refine ⟨fun _ => ⟨[], name :: rest, dir, rfl, List.cons_ne_nil name rest, here, (List.append_nil _).symm, ?_⟩, fun _ => ⟨_, rfl⟩⟩
      simpa using isDir

end Lookup

theorem init_tree : Tree (.init : FileSystem ι) where
  top := ⟨rfl, rfl, rfl⟩
  started := Nat.zero_lt_one
  blank fn later := by
    have other : fn ≠ root := Nat.ne_of_gt later
    simp [FileSystem.InTree, FileSystem.init, other, FileNode.new]
  child dir name fn holds := by
    by_cases same : dir = root <;> simp [FileSystem.init, same, FileNode.new] at holds
  parent fn dir below parent := by simp [FileSystem.init, below, FileNode.new] at parent
  named path fn := by
    by_cases same : fn = root
    · subst same
      by_cases top : path = []
      · simp [inserted, top, FileSystem.InTree, FileSystem.init, FileNode.new]
      · simp [inserted, top, FileSystem.init, FileNode.new, Ne.symm top]
    · simp [inserted, FileSystem.InTree, FileSystem.init, FileNode.new, same, Ne.symm same]

structure SameShape (before after : FileSystem ι) : Prop where
  node : ∀ fn, (after.nodes fn).path = (before.nodes fn).path ∧ (after.nodes fn).dir = (before.nodes fn).dir ∧
    (after.nodes fn).parent = (before.nodes fn).parent ∧ (after.nodes fn).files = (before.nodes fn).files
  fresh : after.fresh = before.fresh
  history : after.history = before.history

namespace SameShape

variable {before after last : FileSystem ι}

theorem refl (fs : FileSystem ι) : SameShape fs fs := ⟨fun _ => ⟨rfl, rfl, rfl, rfl⟩, rfl, rfl⟩

theorem trans (first : SameShape before after) (second : SameShape after last) : SameShape before last where
  node fn := by
    obtain ⟨path, dir, parent, files⟩ := first.node fn
    obtain ⟨path', dir', parent', files'⟩ := second.node fn
    exact ⟨path'.trans path, dir'.trans dir, parent'.trans parent, files'.trans files⟩
  fresh := second.fresh.trans first.fresh
  history := second.history.trans first.history

theorem in_tree (same : SameShape before after) (fn : NodeId) : after.InTree fn ↔ before.InTree fn := by
  rw [FileSystem.InTree, FileSystem.InTree, (same.node fn).2.2.1]

theorem tree (same : SameShape before after) (tree : Tree before) : Tree after where
  top := by
    obtain ⟨path, dir, parent, -⟩ := same.node root
    rw [path, dir, parent]
    exact tree.top
  started := same.fresh ▸ tree.started
  blank fn later := fun inside => tree.blank fn (same.fresh ▸ later) ((same.in_tree fn).mp inside)
  child dir name fn holds := by
    rw [(same.node dir).2.2.2] at holds
    obtain ⟨below, parent, named⟩ := tree.child dir name fn holds
    exact ⟨below, (same.node fn).2.2.1.trans parent, by rw [FileNode.name, (same.node fn).1]; exact named⟩
  parent fn dir below parent := by
    rw [(same.node fn).2.2.1] at parent
    rw [FileNode.name, (same.node fn).1, (same.node dir).1, (same.node dir).2.1, (same.node dir).2.2.2, same.in_tree dir]
    exact tree.parent fn dir below parent
  named path fn := by
    rw [same.history, same.in_tree fn, (same.node fn).1]
    exact tree.named path fn

theorem set_node (fs : FileSystem ι) (fn : NodeId) (node : FileNode ι) (path : node.path = (fs.nodes fn).path)
    (dir : node.dir = (fs.nodes fn).dir) (parent : node.parent = (fs.nodes fn).parent) (files : node.files = (fs.nodes fn).files) :
    SameShape fs (fs.setNode fn node) where
  node other := by
    by_cases same : other = fn
    · subst same
      simp [FileSystem.setNode, path, dir, parent, files]
    · simp [FileSystem.setNode, same]
  fresh := rfl
  history := rfl

end SameShape

section Changes

variable {fs : FileSystem ι}

theorem Tree.inserted_none (tree : Tree fs) (path : Path) (absent : inserted fs.history path = none) (fn : NodeId) (inside : fs.InTree fn) :
    (fs.nodes fn).path ≠ path := by
  intro same
  rw [(tree.named path fn).mpr ⟨inside, same⟩] at absent
  cases absent

theorem set_node_at (fn other : NodeId) (node : FileNode ι) :
    (fs.setNode fn node).nodes other = if other = fn then node else fs.nodes other :=
  Function.update_apply _ fn node _

theorem tmp_at (path : Path) (dir : Bool) (fn : NodeId) :
    (fs.tmp path dir).nodes fn = if fn = fs.fresh then .new path dir else fs.nodes fn :=
  set_node_at _ fn _

theorem tmp_in_tree (path : Path) (dir : Bool) (fn : NodeId) : (fs.tmp path dir).InTree fn ↔ fn ≠ fs.fresh ∧ fs.InTree fn := by
  rw [FileSystem.InTree, tmp_at]
  by_cases same : fn = fs.fresh <;> simp [same, FileNode.new, FileSystem.InTree]

theorem Tree.tmp (tree : Tree fs) (path : Path) (dir : Bool) : Tree (fs.tmp path dir) := by
  have other {fn : NodeId} (inside : fs.InTree fn) : fn ≠ fs.fresh := fun same => tree.blank fn (Nat.le_of_eq same.symm) inside
  have inside (fn : NodeId) : (fs.tmp path dir).InTree fn ↔ fs.InTree fn :=
    (tmp_in_tree path dir fn).trans ⟨And.right, fun there => ⟨other there, there⟩⟩
  constructor
  · rw [tmp_at, if_neg (other tree.root_in)]
    exact tree.top
  · exact Nat.lt_succ_of_lt tree.started
  · exact fun fn later => (inside fn).not.mpr (tree.blank fn (Nat.le_of_succ_le later))
  · intro above name fn holds
    rw [tmp_at] at holds
    split at holds
    · cases holds
    · obtain ⟨below, parent, named⟩ := tree.child _ name fn holds
      rw [tmp_at, if_neg (other (by rw [FileSystem.InTree, parent]; exact nofun))]
      exact ⟨below, parent, named⟩
  · intro fn above below parent
    have there : fs.InTree fn := (inside fn).mp (by rw [FileSystem.InTree, parent]; exact nofun)
    rw [tmp_at path dir fn, if_neg (other there)] at parent ⊢
    obtain ⟨holds, isDir, higher, place⟩ := tree.parent fn _ below parent
    rw [inside _, tmp_at path dir _, if_neg (other higher)]
    exact ⟨holds, isDir, higher, place⟩
  · intro place fn
    rw [inside fn]
    refine (tree.named _ fn).trans (and_congr_right fun there => ?_)
    rw [tmp_at, if_neg (other there)]

section AddFile

variable (dir fn other : NodeId)

@[simp] theorem add_file_path : ((fs.addFile dir fn).nodes other).path = (fs.nodes other).path := by
  simp only [FileSystem.addFile, set_node_at]
  split <;> split <;> simp_all

@[simp] theorem add_file_name : ((fs.addFile dir fn).nodes other).name = (fs.nodes other).name :=
  congrArg List.getLast? (add_file_path dir fn _)

@[simp] theorem add_file_dir : ((fs.addFile dir fn).nodes other).dir = (fs.nodes other).dir := by
  simp only [FileSystem.addFile, set_node_at]
  split <;> split <;> simp_all

@[simp] theorem add_file_ext : ((fs.addFile dir fn).nodes other).ext = (fs.nodes other).ext := by
  simp only [FileSystem.addFile, set_node_at]
  split <;> split <;> simp_all

theorem add_file_parent : ((fs.addFile dir fn).nodes other).parent = if other = fn then some dir else (fs.nodes other).parent := by
  simp only [FileSystem.addFile, set_node_at]
  split <;> split <;> simp_all

theorem add_file_files (name : Option Str) : ((fs.addFile dir fn).nodes other).files name =
    if other = dir ∧ name = (fs.nodes fn).name then some fn else (fs.nodes other).files name := by
  have files : ((fs.addFile dir fn).nodes other).files =
      if other = dir then Function.update (fs.nodes dir).files (fs.nodes fn).name (some fn) else (fs.nodes other).files := by
    simp only [FileSystem.addFile, set_node_at]
    split <;> split <;> simp_all
  rw [files]
  by_cases here : other = dir
  · subst here
    simp [Function.update_apply]
  · simp [here]

@[simp] theorem pop_file_path : ((fs.popFile dir fn).nodes other).path = (fs.nodes other).path := by
  simp only [FileSystem.popFile, set_node_at]
  split <;> split <;> simp_all

@[simp] theorem pop_file_name : ((fs.popFile dir fn).nodes other).name = (fs.nodes other).name :=
  congrArg List.getLast? (pop_file_path dir fn _)

@[simp] theorem pop_file_dir : ((fs.popFile dir fn).nodes other).dir = (fs.nodes other).dir := by
  simp only [FileSystem.popFile, set_node_at]
  split <;> split <;> simp_all

@[simp] theorem pop_file_ext : ((fs.popFile dir fn).nodes other).ext = (fs.nodes other).ext := by
  simp only [FileSystem.popFile, set_node_at]
  split <;> split <;> simp_all

theorem pop_file_parent : ((fs.popFile dir fn).nodes other).parent = if other = fn then none else (fs.nodes other).parent := by
  simp only [FileSystem.popFile, set_node_at]
  split <;> split <;> simp_all

theorem pop_file_files (name : Option Str) : ((fs.popFile dir fn).nodes other).files name =
    if other = dir ∧ name = (fs.nodes fn).name then none else (fs.nodes other).files name := by
  have files : ((fs.popFile dir fn).nodes other).files =
      if other = dir then Function.update (fs.nodes dir).files (fs.nodes fn).name none else (fs.nodes other).files := by
    simp only [FileSystem.popFile, set_node_at]
    split <;> split <;> simp_all
  rw [files]
  by_cases here : other = dir
  · subst here
    simp [Function.update_apply]
  · simp [here]

end AddFile

theorem Tree.unnamed (tree : Tree fs) (dir : NodeId) (last : Str) (absent : inserted fs.history ((fs.nodes dir).path ++ [last]) = none)
    (other : NodeId) (parent : (fs.nodes other).parent = some dir) : (fs.nodes other).name ≠ some last := by
  have there : fs.InTree other := by
    rw [FileSystem.InTree, parent]
    exact nofun
  intro same
  by_cases top : other = root
  · subst top
    simp [FileNode.name, tree.top.2.1] at same
  · obtain ⟨-, -, -, name, place⟩ := tree.parent _ dir top parent
    obtain rfl : name = last := by simpa [FileNode.name, place] using same
    exact tree.inserted_none _ absent _ there place

theorem Tree.add_file (tree : Tree fs) (dir fn : NodeId) (above : fs.InTree dir) (isDir : (fs.nodes dir).dir = true) (known : fn < fs.fresh)
    (free : ¬ fs.InTree fn) (path : ∃ name, (fs.nodes fn).path = (fs.nodes dir).path ++ [name])
    (absent : inserted fs.history (fs.nodes fn).path = none) : Tree (fs.addFile dir fn) := by
  have below : fn ≠ root := fun same => free (same ▸ tree.root_in)
  have inside (other : NodeId) : (fs.addFile dir fn).InTree other ↔ other = fn ∨ fs.InTree other := by
    rw [FileSystem.InTree, add_file_parent]
    by_cases same : other = fn <;> simp [same, FileSystem.InTree]
  have apart {other holder : NodeId} (parent : (fs.nodes other).parent = some holder) : other ≠ fn := by
    rintro rfl
    rw [FileSystem.InTree, parent] at free
    exact free nofun
  obtain ⟨last, path⟩ := path
  have named : (fs.nodes fn).name = some last := by simp [FileNode.name, path]
  constructor
  · rw [add_file_dir, add_file_path, add_file_parent, if_neg (Ne.symm below)]
    exact tree.top
  · exact tree.started
  · intro other later there
    rcases (inside _).mp there with rfl | there
    · exact absurd known (Nat.not_lt.mpr later)
    · exact tree.blank _ later there
  · intro holder name other holds
    rw [add_file_name, add_file_parent]
    rw [add_file_files] at holds
    split at holds
    · next own =>
        obtain ⟨rfl, rfl⟩ := own
        obtain rfl := Option.some.inj holds
        exact ⟨below, if_pos rfl, rfl⟩
    · obtain ⟨under, parent, named⟩ := tree.child _ name _ holds
      rw [if_neg (apart parent)]
      exact ⟨under, parent, named⟩
  · intro other holder under parent
    rw [add_file_parent] at parent
    rw [add_file_name, add_file_path, add_file_path, add_file_dir, add_file_files, inside _]
    split at parent
    · next same =>
        subst same
        obtain rfl := Option.some.inj parent
        exact ⟨if_pos ⟨rfl, rfl⟩, isDir, .inr above, last, path⟩
    · obtain ⟨holds, isDir', higher, place⟩ := tree.parent _ _ under parent
      refine ⟨?_, isDir', .inr higher, place⟩
      rw [if_neg]
      · exact holds
      · rintro ⟨rfl, same⟩
        exact tree.unnamed _ last (path ▸ absent) _ parent (same.trans named)
  · intro place other
    rw [inside _, add_file_path]
    simp only [FileSystem.addFile, inserted]
    by_cases here : (fs.nodes fn).path = place
    · subst here
      rw [if_pos rfl, Option.some.injEq]
      constructor
      · rintro rfl
        exact ⟨.inl rfl, rfl⟩
      · rintro ⟨rfl | there, same⟩
        · rfl
        · exact absurd same (tree.inserted_none _ absent _ there)
    · rw [if_neg here]
      refine (tree.named _ _).trans ⟨fun found => ⟨.inr found.1, found.2⟩, ?_⟩
      rintro ⟨rfl | there, same⟩
      · exact absurd same here
      · exact ⟨there, same⟩

theorem Tree.pop_file (tree : Tree fs) (dir fn : NodeId) (below : fn ≠ root) (parent : (fs.nodes fn).parent = some dir)
    (empty : ∀ other, (fs.nodes other).parent ≠ some fn) : Tree (fs.popFile dir fn) := by
  obtain ⟨holds, -, -, -⟩ := tree.parent fn dir below parent
  have inside (other : NodeId) : (fs.popFile dir fn).InTree other ↔ other ≠ fn ∧ fs.InTree other := by
    rw [FileSystem.InTree, pop_file_parent]
    by_cases same : other = fn <;> simp [same, FileSystem.InTree]
  constructor
  · rw [pop_file_dir, pop_file_path, pop_file_parent, if_neg (Ne.symm below)]
    exact tree.top
  · exact tree.started
  · exact fun other later there => tree.blank _ later ((inside _).mp there).2
  · intro holder name other listed
    rw [pop_file_name, pop_file_parent]
    rw [pop_file_files] at listed
    split at listed
    · cases listed
    · next apart =>
        obtain ⟨under, above, named⟩ := tree.child _ name _ listed
        rw [if_neg]
        · exact ⟨under, above, named⟩
        · rintro rfl
          exact apart ⟨Option.some.inj (above.symm.trans parent), named.symm⟩
  · intro other holder under above
    rw [pop_file_parent] at above
    rw [pop_file_name, pop_file_path, pop_file_path, pop_file_dir, pop_file_files, inside _]
    split at above
    · cases above
    · next same =>
        obtain ⟨listed, isDir, higher, place⟩ := tree.parent _ _ under above
        refine ⟨?_, isDir, ⟨fun self => empty _ (self ▸ above), higher⟩, place⟩
        rw [if_neg]
        · exact listed
        · rintro ⟨rfl, name⟩
          rw [name, holds] at listed
          exact same (Option.some.inj listed).symm
  · intro place other
    rw [inside _, pop_file_path]
    simp only [FileSystem.popFile, inserted]
    by_cases gone : inserted fs.history place = some fn
    · rw [if_pos gone]
      simp only [reduceCtorEq, false_iff]
      rintro ⟨⟨other_than, there⟩, same⟩
      exact other_than (Option.some.inj (((tree.named _ _).mpr ⟨there, same⟩).symm.trans gone))
    · rw [if_neg gone]
      refine (tree.named _ _).trans ⟨fun found => ⟨⟨?_, found.1⟩, found.2⟩, fun found => ⟨found.1.2, found.2⟩⟩
      rintro rfl
      exact gone ((tree.named _ _).mpr found)

end Changes

section FindFile

variable (fs : FileSystem ι)

def Through (path : Path) : Prop :=
  ∃ front back file, path = front ++ back ∧ back ≠ [] ∧ inserted fs.history front = some file ∧ (fs.nodes file).dir = false

-- The node inserted last for the path, where every component in front is a directory.
open Classical in
noncomputable def expected (path : Path) : Option NodeId :=
  if ∀ front back, path = front ++ back → back ≠ [] → ∃ dir, inserted fs.history front = some dir ∧ (fs.nodes dir).dir = true then
    inserted fs.history path
  else none

variable {fs}

theorem Tree.find_some (tree : Tree fs) (path : Path) (fn : NodeId) :
    fs.findFile path = .ok (some fn) ↔ fs.InTree fn ∧ (fs.nodes fn).path = path := by
  have found := tree.find_from path root fn tree.root_in
  rwa [tree.top.2.1] at found

theorem Tree.find_inserted (tree : Tree fs) (path : Path) (found : Option NodeId) (done : fs.findFile path = .ok found) :
    found = inserted fs.history path := by
  cases found with
  | some fn => exact ((tree.named path fn).mpr ((tree.find_some path fn).mp done)).symm
  | none =>
    cases there : inserted _ path with
    | none => rfl
    | some fn =>
      rw [(tree.find_some path fn).mpr ((tree.named path fn).mp there)] at done
      cases done

theorem Tree.find_raises (tree : Tree fs) (path : Path) : (∃ raised, fs.findFile path = .error raised) ↔ Through fs path := by
  have raises := tree.find_blocked path root tree.root_in
  rw [tree.top.2.1] at raises
  refine raises.trans ?_
  simp only [FileSystem.Blocked, List.nil_append, Through, tree.named, and_assoc]

theorem Tree.expected_inserted (tree : Tree fs) (path : Path) : expected fs path = inserted fs.history path := by
  unfold expected
  split
  · rfl
  · next not =>
      cases there : inserted _ path with
      | none => rfl
      | some fn =>
        refine absurd (fun front back split some => ?_) not
        obtain ⟨inside, at_⟩ := (tree.named path fn).mp there
        obtain ⟨dir, above, place, isDir⟩ := tree.ancestor _ back fn inside (at_.trans split)
        exact ⟨dir, (tree.named _ dir).mpr ⟨above, place⟩, isDir some⟩

theorem Tree.finds (tree : Tree fs) (path : Path) : fs.findFile path = .ok (expected fs path) ↔ ¬ Through fs path := by
  rw [← tree.find_raises path, tree.expected_inserted path]
  cases done : fs.findFile path with
  | error raised => simp
  | ok found => simp [tree.find_inserted path _ done]

theorem Tree.insert_file (tree : Tree fs) (fn : NodeId) (known : fn < fs.fresh) (free : ¬ fs.InTree fn)
    (absent : inserted fs.history (fs.nodes fn).path = none) (after : FileSystem ι) (done : fs.insert fn = .ok after) :
    Tree after ∧ ∃ dir, after = fs.addFile dir fn := by
  unfold FileSystem.insert at done
  split at done
  · cases done
  · cases done
  · next dir found =>
      split at done
      · next isDir =>
          obtain ⟨above, path⟩ := (tree.find_some _ dir).mp found
          have some : (fs.nodes fn).path ≠ [] := by
            intro top
            rw [top, (tree.named [] root).mpr ⟨tree.root_in, tree.top.2.1⟩] at absent
            cases absent
          obtain rfl := Except.ok.inj done
          refine ⟨tree.add_file dir fn above isDir known free ⟨(fs.nodes fn).path.getLast some, ?_⟩ absent, dir, rfl⟩
          rw [path, List.dropLast_append_getLast some]
      · cases done

theorem Tree.unlink_file (tree : Tree fs) (fn : NodeId) (free : ¬ (fs.nodes fn).Held) (below : fn ≠ root) (inside : fs.InTree fn)
    (empty : ∀ other, (fs.nodes other).parent ≠ some fn) :
    ∃ dir, fs.unlink fn = .ok (fs.popFile dir fn) ∧ Tree (fs.popFile dir fn) := by
  obtain ⟨dir, parent⟩ := Option.ne_none_iff_exists'.mp inside
  obtain ⟨holds, -, -, -⟩ := tree.parent fn dir below parent
  refine ⟨dir, ?_, tree.pop_file dir fn below parent empty⟩
  simp [FileSystem.unlink, free, parent, holds]

end FindFile

section Holders

variable [DecidableEq ι] (fs : FileSystem ι) (fn : NodeId) (kind : DiskType) (disk : ι)

omit [DecidableEq ι] in
theorem hold_shape : SameShape fs (fs.hold fn kind disk) := .set_node fs fn _ rfl rfl rfl rfl

theorem let_go_shape : SameShape fs (fs.letGo fn kind disk) := .set_node fs fn _ rfl rfl rfl rfl

omit [DecidableEq ι] in
theorem set_disk_shape (value : Option ι) : SameShape fs (fs.setDisk fn kind value) := .set_node fs fn _ rfl rfl rfl rfl

theorem hold_once_shape : SameShape fs (fs.holdOnce fn kind disk) := by
  unfold FileSystem.holdOnce
  split
  · exact .refl fs
  · exact hold_shape fs fn kind disk

omit [DecidableEq ι] in
theorem held_of_mem (node : FileNode ι) (there : disk ∈ node.ext kind) : node.Held := by
  have some : node.ext kind ≠ [] := List.ne_nil_of_mem there
  cases kind
  · exact .inl some
  · exact .inr (.inl some)
  · exact .inr (.inr some)

def Holds (before after : FileSystem ι) : Prop := ∀ fn, (before.nodes fn).Held → (after.nodes fn).Held

omit [DecidableEq ι] in
theorem hold_holds : Holds fs (fs.hold fn kind disk) := by
  intro other held
  rw [FileSystem.hold, set_node_at]
  split
  · next same =>
      subst same
      refine held_of_mem kind disk _ ?_
      simp
  · exact held

theorem hold_once_holds : Holds fs (fs.holdOnce fn kind disk) := by
  unfold FileSystem.holdOnce
  split
  · exact fun _ held => held
  · exact hold_holds fs fn kind disk

theorem hold_once_held : ((fs.holdOnce fn kind disk).nodes fn).Held := by
  unfold FileSystem.holdOnce
  split
  · next there => exact held_of_mem kind disk _ there
  · refine held_of_mem kind disk _ ?_
    simp [FileSystem.hold, set_node_at]

variable {fs}

theorem Tree.refresh_file (tree : Tree fs) (dir : Bool) (path : Path) (after : FileSystem ι) (done : fs.refresh dir kind disk path = .ok after) :
    Tree after ∧ fs.fresh ≤ after.fresh ∧
      ∀ other, after.InTree other → (after.nodes other).Held ∨ fs.InTree other ∧ ((fs.nodes other).Held → (after.nodes other).Held) := by
  unfold FileSystem.refresh at done
  split at done
  · cases done
  · next fn found =>
      obtain rfl := Except.ok.inj done
      have shape := hold_once_shape fs fn kind disk
      refine ⟨shape.tree tree, Nat.le_of_eq shape.fresh.symm, fun other inside => .inr ⟨(shape.in_tree _).mp inside, ?_⟩⟩
      exact hold_once_holds fs fn kind disk _
  · next found =>
      cases made : fs.make path dir with
      | error raised =>
        rw [made] at done
        cases done
      | ok grown =>
        rw [made] at done
        obtain rfl := Except.ok.inj done
        have fresh : (fs.tmp path dir).nodes _ = .new path dir := (tmp_at path dir _).trans (if_pos rfl)
        have absent : inserted (fs.tmp path dir).history ((fs.tmp path dir).nodes fs.fresh).path = none := by
          rw [fresh]
          exact (tree.find_inserted path none found).symm
        obtain ⟨grownTree, above, rfl⟩ := (tree.tmp path dir).insert_file _ (Nat.lt_succ_self _)
          (by simp [FileSystem.InTree, fresh, FileNode.new]) absent _ made
        have shape := hold_once_shape ((fs.tmp path dir).addFile above fs.fresh) fs.fresh kind disk
        refine ⟨shape.tree grownTree, shape.fresh ▸ Nat.le_succ _, fun other inside => ?_⟩
        by_cases same : other = fs.fresh
        · subst same
          exact .inl (hold_once_held _ _ kind disk)
        · have before : (fs.tmp path dir).nodes other = fs.nodes other := by simp [FileSystem.tmp, set_node_at, same]
          rw [shape.in_tree _, FileSystem.InTree, add_file_parent, if_neg same, before] at inside
          refine .inr ⟨inside, fun held => hold_once_holds _ _ kind disk _ ?_⟩
          rwa [FileNode.Held, add_file_ext, before]

end Holders

end Codec.Cache
