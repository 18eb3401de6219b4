import Loadable.Proofs.Files.Tree
import Mathlib.Data.List.DropRight

namespace Loadable.FileTree

variable {tree other : FileTree}

-- Nothing is known of the place.
structure Unused (tree : FileTree) (location : Location) : Prop where
  ne_root : location ≠ []
  absent : ∀ entry ∈ tree.nodes, entry.1 ≠ location

theorem Unused.remove_put {location : Location} (h : tree.Unused location) (node : FileNode) :
    (tree.put location node).remove location = tree := by
  have hnodes : tree.nodes.filter (fun entry => entry.1 ≠ location) = tree.nodes :=
    List.filter_eq_self.mpr fun entry hmem => decide_eq_true (h.absent entry hmem)
  rw [FileTree.remove_put, remove, hnodes]

theorem Unused.node? {location : Location} (h : tree.Unused location) :
    tree.node? location = none := by
  rw [FileTree.node?, if_neg h.ne_root, List.lookup_eq_none_iff]
  intro entry hmem
  exact bne_iff_ne.mpr (h.absent entry hmem).symm

theorem le_foldl_max (lengths : List Nat) (start : Nat) :
    start ≤ lengths.foldl max start ∧ ∀ length ∈ lengths, length ≤ lengths.foldl max start := by
  induction lengths generalizing start with
  | nil => simp
  | cons first rest ih =>
      obtain ⟨hstart, hrest⟩ := ih (max start first)
      rw [List.foldl_cons]
      refine ⟨Nat.le_trans (Nat.le_max_left _ _) hstart, List.forall_mem_cons.mpr ⟨?_, hrest⟩⟩
      exact Nat.le_trans (Nat.le_max_right _ _) hstart

-- A fresh name is hidden and longer than every hidden name.
theorem freshName_ne (tree : FileTree) (besides : List String) {name : String}
    (h : name ∈ besides ++ tree.nodes.flatMap Prod.fst) : name ≠ tree.freshName besides := by
  rintro rfl
  have hhidden : isHidden (tree.freshName besides) := by simp [isHidden, freshName]
  have hmem := List.mem_map_of_mem (f := String.length) (List.mem_filter.mpr ⟨h, hhidden⟩)
  have hle := (le_foldl_max _ (stagingLength - 1)).2 _ hmem
  have hlength : (tree.freshName besides).length = 1 +
      (((besides ++ tree.nodes.flatMap Prod.fst).filter isHidden).map String.length).foldl max
        (stagingLength - 1) := by
    simp only [freshName, String.length_append, String.length_ofList, List.length_replicate]
    rfl
  omega

theorem stage_eq_ok {directory output : String} {staging : Location} {staged : FileTree}
    (h : tree.stage directory output = .ok (staging, staged)) :
    tree.Unused staging ∧ staged = tree.put staging (.file []) := by
  simp only [stage, bind_eq_ok_iff, pure_eq_ok_iff, Prod.mk.injEq] at h
  obtain ⟨_, _, home, _, _, _, rfl, rfl⟩ := h
  refine ⟨⟨by simp, fun entry hmem heq => ?_⟩, rfl⟩
  have hname : tree.freshName (Path.pieces output) ∈ entry.1 := by
    rw [heq]
    exact List.mem_append_right _ List.mem_cons_self
  refine freshName_ne tree (Path.pieces output) ?_ rfl
  exact List.mem_append_right _ (List.mem_flatMap.mpr ⟨entry, hmem, hname⟩)

-- A file that nobody knew of is in nobody's way.
theorem Unused.keeps {location : Location} (h : tree.Unused location) (content : Bytes) :
    Keeps tree (tree.put location (.file content)) ∧
      Keeps (tree.put location (.file content)) tree := by
  have hothers := node?_put_of_ne tree h.ne_root (.file content)
  constructor
  · refine .of_others location rfl ?_ hothers
    rw [h.node?]
    exact nofun
  · refine .of_others location rfl ?_ fun place hne => (hothers place hne).symm
    rw [node?_put_self tree h.ne_root]
    exact nofun

theorem Unused.read_put {location : Location} (h : tree.Unused location) (content : Bytes)
    {path : String} {found : Bytes} (hread : tree.read path = .ok found) :
    (tree.put location (.file content)).read path = .ok found := by
  obtain ⟨place, hlocate, hfile⟩ := (read_eq_ok_iff _ _ _).mp hread
  refine (read_eq_ok_iff _ _ _).mpr ⟨place, (h.keeps content).1.locate hlocate, ?_⟩
  rw [node?_put_of_ne tree h.ne_root, hfile]
  rintro rfl
  rw [h.node?] at hfile
  cases hfile

-- The last piece of a path, if the path does not end in a slash.
theorem pieces_eq_append_name {path : String}
    (hnamed : ((Path.pieces path).reverse.dropWhile (· = "")).reverse = Path.pieces path)
    (hname : (Path.pieces path).getLast?.getD "." ≠ ".") :
    Path.pieces path =
        (Path.pieces path).dropLast ++ [(Path.pieces path).getLast?.getD "."] ∧
      (Path.pieces path).getLast?.getD "." ≠ "" := by
  have hne : Path.pieces path ≠ [] := by
    intro hnil
    rw [hnil] at hname
    exact hname rfl
  have hlast : (Path.pieces path).getLast?.getD "." = (Path.pieces path).getLast hne := by
    rw [List.getLast?_eq_some_getLast hne, Option.getD_some]
  rw [hlast]
  refine ⟨(List.dropLast_append_getLast hne).symm, ?_⟩
  have hdropped : (Path.pieces path).rdropWhile (· = "") ≠ [] := by
    rw [List.rdropWhile, hnamed]
    exact hne
  have hword := List.rdropWhile_last_not (· = "") _ hdropped
  simp only [List.rdropWhile, hnamed] at hword
  simpa using hword

-- A path that can be renamed to leads to the place of its last name.
theorem exists_locate_of_rename {source : Location} {path : String} {final : FileTree}
    (h : tree.rename source path = .ok final) :
    ∃ target node, tree.locate path = .ok target ∧ target ≠ [] ∧
      tree.node? target ≠ some .directory ∧ tree.node? source = some node ∧
      final = (tree.remove source).put target node := by
  simp only [rename, bind_eq_ok_iff, pure_eq_ok_iff, require_eq_ok, demand_eq_ok,
    requireDirectory_eq_ok_iff] at h
  obtain ⟨_, hcheck, parent, hparent, _, hdirectory, _, hdots, _, hlength, _, hnamed, _, htarget,
    node, hnode, rfl⟩ := h
  rw [hnamed] at hparent hdots hlength htarget ⊢
  obtain ⟨hpieces, hword⟩ := pieces_eq_append_name hnamed hdots.1
  generalize (Path.pieces path).getLast?.getD "." = name at *
  have htrivial : Path.isTrivial name = false := by simp [Path.isTrivial, hword, hdots.1]
  refine ⟨parent ++ [name], node, ?_, by simp, htarget, hnode, rfl⟩
  simp only [locate, bind_eq_ok_iff]
  refine ⟨(), hcheck, ?_⟩
  rw [hpieces, walk_append, hparent, ok_bind]
  simp [walk, (requireDirectory_eq_ok_iff _ _ ()).mpr hdirectory, hlength, htrivial, hdots.2]

-- Only the file that `path` leads to is another one than before. It holds `content` now.
structure Replaced (tree : FileTree) (path : String) (content : Bytes) (final : FileTree) :
    Prop where
  place : ∃ target, tree.locate path = .ok target ∧ tree.node? target ≠ some .directory ∧
    ∀ location, location ≠ target → final.node? location = tree.node? location
  current : final.current = tree.current
  read : final.read path = .ok content

theorem Replaced.keeps {path : String} {content : Bytes} {final : FileTree}
    (h : tree.Replaced path content final) : Keeps tree final := by
  obtain ⟨target, _, htarget, hothers⟩ := h.place
  exact .of_others target h.current htarget hothers

-- Whatever could be read still can be, unless it is what was replaced.
theorem Replaced.read_of_read {path : String} {content : Bytes} {final : FileTree}
    (h : tree.Replaced path content final) {place : String} {found : Bytes}
    (hread : tree.read place = .ok found) :
    final.read place = .ok found ∨ final.read place = .ok content := by
  obtain ⟨location, hlocation, hfile⟩ := (read_eq_ok_iff _ _ _).mp hread
  obtain ⟨target, htarget, _, hothers⟩ := h.place
  have hsame := h.keeps.locate hlocation
  by_cases heq : location = target
  · obtain ⟨written, hwritten, hcontent⟩ := (read_eq_ok_iff _ _ _).mp h.read
    rw [h.keeps.locate htarget, Except.ok.injEq] at hwritten
    refine Or.inr ((read_eq_ok_iff _ _ _).mpr ⟨location, hsame, ?_⟩)
    rwa [heq, hwritten]
  · refine Or.inl ((read_eq_ok_iff _ _ _).mpr ⟨location, hsame, ?_⟩)
    rwa [hothers location heq]

-- What was put together in a staging file replaces the file it is renamed to, and
-- nothing else.
theorem Unused.replaced_of_rename {staging : Location} (h : tree.Unused staging)
    {content : Bytes} {path : String} {final : FileTree}
    (hrename : (tree.put staging (.file content)).rename staging path = .ok final) :
    tree.Replaced path content final := by
  obtain ⟨target, node, hlocate, hroot, hdirectory, hnode, rfl⟩ := exists_locate_of_rename hrename
  obtain ⟨hkeeps, hback⟩ := h.keeps content
  rw [node?_put_self tree h.ne_root, Option.some.injEq] at hnode
  subst hnode
  rw [h.remove_put]
  have htarget : tree.node? target ≠ some .directory := fun hold =>
    hdirectory (hkeeps.directories target hold)
  have hothers := node?_put_of_ne tree hroot (.file content)
  have hfinal : Keeps tree (tree.put target (.file content)) :=
    .of_others target rfl htarget hothers
  refine ⟨⟨target, hback.locate hlocate, htarget, hothers⟩, rfl, ?_⟩
  refine (read_eq_ok_iff _ _ _).mpr ⟨target, hfinal.locate (hback.locate hlocate), ?_⟩
  exact node?_put_self tree hroot _

end Loadable.FileTree
