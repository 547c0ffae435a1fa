import Aegis.Chunking
import Mathlib.Data.List.Forall2

namespace Aegis

section Groups

variable (sha256 : ByteArray → BitVec 256) (rel : String) (metadata : Dict String)

/-- The chunks of one parent window after the other: the parent and its children. -/
def groupsFrom : Nat → Nat → List (List Char × List Char) → List (Chunk × List Chunk)
  | _, _, [] => []
  | parentIndex, childIndex, (heading, window) :: rest =>
    let section_ := String.ofList heading
    let text := String.ofList window
    let parentId := chunkIdOf sha256 'p' parentIndex rel section_ text
    let windows := splitBySize childSizes window
    ({ chunkId := parentId
       text
       sourcePath := rel
       section_
       metadata := (metadata.set "role" "parent").set "parent_id" parentId },
      childrenFrom sha256 rel section_ parentId metadata childIndex windows) ::
    groupsFrom (parentIndex + 1) (childIndex + windows.length) rest

theorem chunksFrom_eq (parentIndex childIndex : Nat) (windows : List (List Char × List Char)) :
    chunksFrom sha256 rel metadata parentIndex childIndex windows =
      (groupsFrom sha256 rel metadata parentIndex childIndex windows).flatMap
        fun group => group.1 :: group.2 := by
  induction windows generalizing parentIndex childIndex with
  | nil => rfl
  | cons entry rest ih =>
    obtain ⟨heading, window⟩ := entry
    rw [chunksFrom, groupsFrom, List.flatMap_cons, ← ih]

end Groups

/-- A parent chunk of a window of a section, and the chunks of the windows it is split into. -/
structure GroupOf (heading window : List Char) (parent : Chunk) (children : List Chunk) : Prop where
  text : parent.text = String.ofList window
  parentHeading : parent.section_ = String.ofList heading
  role : parent.metadata.lookup "role" = some "parent"
  own : parent.metadata.lookup "parent_id" = some parent.chunkId
  split : children.map Chunk.text = (splitBySize childSizes window).map String.ofList
  childHeading : ∀ child ∈ children, child.section_ = String.ofList heading
  childRole : ∀ child ∈ children, child.metadata.lookup "role" = some "child"
  parentId : ∀ child ∈ children, child.metadata.lookup "parent_id" = some parent.chunkId

section Spec

variable {sha256 : ByteArray → BitVec 256} {rel : String} {metadata : Dict String}

theorem childrenFrom_text (section_ parentId : String) (index : Nat)
    (windows : List (List Char)) :
    (childrenFrom sha256 rel section_ parentId metadata index windows).map Chunk.text =
      windows.map String.ofList := by
  induction windows generalizing index with
  | nil => rfl
  | cons window rest ih => rw [childrenFrom, List.map_cons, List.map_cons, ih]

theorem childrenFrom_fields {section_ parentId : String} {index : Nat}
    {windows : List (List Char)} :
    ∀ child ∈ childrenFrom sha256 rel section_ parentId metadata index windows,
      child.section_ = section_ ∧ child.metadata.lookup "role" = some "child" ∧
        child.metadata.lookup "parent_id" = some parentId := by
  induction windows generalizing index with
  | nil => simp [childrenFrom]
  | cons window rest ih =>
    rw [childrenFrom]
    refine List.forall_mem_cons.mpr ⟨⟨rfl, ?_, ?_⟩, ih⟩
    · rw [Dict.lookup_set, if_neg (by decide), Dict.lookup_set, if_pos rfl]
    · rw [Dict.lookup_set, if_pos rfl]

theorem groupsFrom_spec (parentIndex childIndex : Nat) (windows : List (List Char × List Char)) :
    List.Forall₂ (fun entry group => GroupOf entry.1 entry.2 group.1 group.2) windows
      (groupsFrom sha256 rel metadata parentIndex childIndex windows) := by
  induction windows generalizing parentIndex childIndex with
  | nil => exact .nil
  | cons entry rest ih =>
    obtain ⟨heading, window⟩ := entry
    refine .cons ⟨rfl, rfl, ?_, ?_, childrenFrom_text .., fun child hchild => ?_,
      fun child hchild => ?_, fun child hchild => ?_⟩ (ih _ _)
    · rw [Dict.lookup_set, if_neg (by decide), Dict.lookup_set, if_pos rfl]
    · rw [Dict.lookup_set, if_pos rfl]
    · exact (childrenFrom_fields child hchild).1
    · exact (childrenFrom_fields child hchild).2.1
    · exact (childrenFrom_fields child hchild).2.2

/-- The parent windows of a body, each with the heading of its section. -/
def parentWindows (body : List Char) : List (List Char × List Char) :=
  (splitByHeading body).flatMap fun (heading, text) =>
    (splitBySize parentSizes text).map fun window => (heading, window)

/-- The chunks of a document are the groups of its parent windows, in their order. -/
theorem chunkDocument_groups (sha256 : ByteArray → BitVec 256) (rel : String) (raw : List Char) :
    ∃ groups : List (Chunk × List Chunk),
      chunkDocument sha256 rel raw = groups.flatMap (fun group => group.1 :: group.2) ∧
      List.Forall₂ (fun entry group => GroupOf entry.1 entry.2 group.1 group.2)
        (parentWindows (parseFrontmatter raw).1) groups :=
  ⟨_, chunksFrom_eq .., groupsFrom_spec ..⟩

end Spec

end Aegis
