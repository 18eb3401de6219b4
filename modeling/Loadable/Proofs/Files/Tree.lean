import Loadable.Files.Tree
import Loadable.Proofs.Check

namespace Loadable.FileTree

variable {tree other : FileTree}

theorem lookup_filter_ne {location place : Location} (h : place ≠ location)
    (nodes : List (Location × FileNode)) :
    (nodes.filter fun entry => entry.1 ≠ location).lookup place = nodes.lookup place := by
  induction nodes with
  | nil => rfl
  | cons entry rest ih =>
      obtain ⟨key, node⟩ := entry
      rw [List.filter_cons]
      by_cases hkey : key = location
      · have hne : (place == key) = false := by rw [beq_eq_false_iff_ne, hkey]; exact h
        rw [if_neg (by simpa using hkey), List.lookup_cons, hne]
        exact ih
      · rw [if_pos (by simpa using hkey), List.lookup_cons, List.lookup_cons, ih]

theorem node?_put (tree : FileTree) {location : Location} (h : location ≠ []) (node : FileNode)
    (place : Location) :
    (tree.put location node).node? place =
      if place = location then some node else tree.node? place := by
  by_cases hplace : place = location
  · subst hplace
    simp [node?, put, h]
  · rw [if_neg hplace, node?, node?, put]
    have hne : (place == location) = false := beq_eq_false_iff_ne.mpr hplace
    simp only [List.lookup_cons, hne, remove]
    rw [lookup_filter_ne hplace]

theorem node?_put_self (tree : FileTree) {location : Location} (h : location ≠ [])
    (node : FileNode) : (tree.put location node).node? location = some node := by
  rw [node?_put tree h, if_pos rfl]

theorem node?_put_of_ne (tree : FileTree) {location : Location} (h : location ≠ [])
    (node : FileNode) (place : Location) (hne : place ≠ location) :
    (tree.put location node).node? place = tree.node? place := by
  rw [node?_put tree h, if_neg hne]

theorem contentAt_put (tree : FileTree) {location : Location} (h : location ≠ [])
    (content : Bytes) : (tree.put location (.file content)).contentAt location = content := by
  rw [contentAt, node?_put_self tree h]

theorem remove_put (tree : FileTree) (location : Location) (node : FileNode) :
    (tree.put location node).remove location = tree.remove location := by
  simp [put, remove, List.filter_filter]

theorem put_put (tree : FileTree) (location : Location) (first second : FileNode) :
    (tree.put location first).put location second = tree.put location second := by
  rw [put, remove_put]
  rfl

theorem requireDirectory_eq_ok_iff (tree : FileTree) (location : Location) (result : Unit) :
    tree.requireDirectory location = .ok result ↔ tree.node? location = some .directory := by
  unfold requireDirectory
  split <;> simp_all

-- Every directory of one tree is one of the other.
structure Keeps (tree other : FileTree) : Prop where
  current : other.current = tree.current
  directories : ∀ location,
    tree.node? location = some .directory → other.node? location = some .directory

-- Trees that differ in one place, where there was no directory.
theorem Keeps.of_others (place : Location) (hcurrent : other.current = tree.current)
    (hplace : tree.node? place ≠ some .directory)
    (hothers : ∀ location, location ≠ place → other.node? location = tree.node? location) :
    Keeps tree other := by
  refine ⟨hcurrent, fun location hlocation => ?_⟩
  rwa [hothers location fun heq => hplace (heq ▸ hlocation)]

theorem walk_append (tree : FileTree) (location : Location) (pieces rest : List String) :
    tree.walk location (pieces ++ rest) =
      tree.walk location pieces >>= fun target => tree.walk target rest := by
  induction pieces generalizing location with
  | nil => rfl
  | cons piece others ih =>
      simp only [List.cons_append, walk, bind_assoc]
      congr 1
      funext _
      congr 1
      funext _
      split
      · exact ih location
      · split
        · exact ih _
        · exact ih _

theorem Keeps.walk (h : Keeps tree other) {location target : Location} {pieces : List String}
    (hwalk : tree.walk location pieces = .ok target) :
    other.walk location pieces = .ok target := by
  induction pieces generalizing location with
  | nil => exact hwalk
  | cons piece rest ih =>
      simp only [FileTree.walk, bind_eq_ok_iff, requireDirectory_eq_ok_iff] at hwalk ⊢
      obtain ⟨_, hdirectory, _, hname, hrest⟩ := hwalk
      refine ⟨(), h.directories _ hdirectory, (), hname, ?_⟩
      by_cases htrivial : Path.isTrivial piece
      · rw [if_pos htrivial] at hrest ⊢
        exact ih hrest
      · rw [if_neg htrivial] at hrest ⊢
        by_cases hup : piece = ".."
        · rw [if_pos hup] at hrest ⊢
          exact ih hrest
        · rw [if_neg hup] at hrest ⊢
          exact ih hrest

theorem Keeps.locate (h : Keeps tree other) {path : String} {location : Location}
    (hlocate : tree.locate path = .ok location) : other.locate path = .ok location := by
  simp only [FileTree.locate, bind_eq_ok_iff] at hlocate ⊢
  obtain ⟨_, hcheck, hwalk⟩ := hlocate
  have hstart : other.start path = tree.start path := by rw [start, start, h.current]
  exact ⟨(), hcheck, hstart ▸ h.walk hwalk⟩

theorem read_eq_ok_iff (tree : FileTree) (path : String) (content : Bytes) :
    tree.read path = .ok content ↔ ∃ location, tree.locate path = .ok location ∧
      tree.node? location = some (.file content) := by
  simp only [read, find, bind_eq_ok_iff, demand_eq_ok]
  constructor
  · rintro ⟨node, ⟨location, hlocate, hnode⟩, hcontent⟩
    cases node with
    | file found =>
        rw [pure_eq_ok_iff] at hcontent
        exact ⟨location, hlocate, hcontent ▸ hnode⟩
    | directory => cases hcontent
  · rintro ⟨location, hlocate, hnode⟩
    exact ⟨.file content, ⟨location, hlocate, hnode⟩, rfl⟩

end Loadable.FileTree
