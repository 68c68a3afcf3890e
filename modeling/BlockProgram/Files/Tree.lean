/-! File trees: a directory with everything below it. -/
namespace BlockProgram

inductive FileTree where
  | file (bytes : ByteArray)
  | directory (entries : List (String × FileTree))

namespace FileTree

def empty : FileTree := .directory []

mutual

def files : FileTree → List (List String × ByteArray)
  | .file bytes => [([], bytes)]
  | .directory entries => entryFiles entries

def entryFiles : List (String × FileTree) → List (List String × ByteArray)
  | [] => []
  | (name, tree) :: rest =>
    tree.files.map (fun found => (name :: found.1, found.2)) ++ entryFiles rest

end

def entries : FileTree → List (String × FileTree)
  | .file _ => []
  | .directory entries => entries

def entry? (tree : FileTree) (name : String) : Option FileTree :=
  (tree.entries.find? fun e => e.1 = name).map (·.2)

def find? (tree : FileTree) : List String → Option FileTree
  | [] => some tree
  | name :: rest => (tree.entry? name).bind fun inner => inner.find? rest

/-- Put a tree where the names lead, with the directories on the way there. -/
def graft (tree new : FileTree) : List String → FileTree
  | [] => new
  | name :: rest =>
    let inner := ((tree.entry? name).getD empty).graft new rest
    if (tree.entry? name).isSome then
      .directory (tree.entries.map fun e => if e.1 = name then (name, inner) else e)
    else .directory (tree.entries ++ [(name, inner)])

def insert (tree : FileTree) (bytes : ByteArray) (names : List String) : FileTree :=
  tree.graft (.file bytes) names

def erase (tree : FileTree) : List String → FileTree
  | [] => empty
  | [name] => .directory (tree.entries.filter fun e => e.1 ≠ name)
  | name :: rest =>
    .directory (tree.entries.map fun e => if e.1 = name then (name, e.2.erase rest) else e)

end FileTree

end BlockProgram
