import FieldMap.Mapping.Basic

/-!
The tree of target paths. Rows that share the first name of their path lie below one node, in the
order in which the names first appear. A node with rows below it, or with container rows only, is
a component; any other node is a leaf with the rows of its path.
-/

namespace FieldMap.Target

structure Row where
  index : Nat
  mapping : Mapping
deriving DecidableEq

/-- A row and the names that are left of its path. -/
structure Placed where
  path : List Text
  row : Row
deriving DecidableEq

inductive Node where
  | component (name : Text) (level : Nat) (rows : List Row) (children : List Node)
  | leaf (name : Text) (level : Nat) (rows : List Row)

def distinct {α : Type} [DecidableEq α] : List α → List α
  | [] => []
  | a :: as => a :: (distinct as).filter (· ≠ a)

def heads (placed : List Placed) : List Text :=
  distinct (placed.filterMap (·.path.head?))

def ending (name : Text) (placed : List Placed) : List Row :=
  placed.filterMap fun p => if p.path = [name] then some p.row else none

def below (name : Text) (placed : List Placed) : List Placed :=
  placed.filterMap fun p =>
    match p.path with
    | first :: second :: rest => if first = name then some ⟨second :: rest, p.row⟩ else none
    | _ => none

def allComponents (rows : List Row) : Bool :=
  rows ≠ [] && rows.all (·.mapping.isComponent)

def mkNode (name : Text) (level : Nat) (rows : List Row) (children : List Node) : Node :=
  if !children.isEmpty || allComponents rows then .component name level rows children
  else .leaf name level rows

/-- The nodes for rows whose paths have at most `depth` names, from `level` downward. -/
def forest : (depth level : Nat) → List Placed → List Node
  | 0, _, _ => []
  | depth + 1, level, placed =>
    (heads placed).map fun name =>
      mkNode name level (ending name placed) (forest depth (level + 1) (below name placed))

def placeFrom : (index : Nat) → List Mapping → List Placed
  | _, [] => []
  | index, m :: ms => ⟨m.segments, ⟨index, m⟩⟩ :: placeFrom (index + 1) ms

def place (mappings : List Mapping) : List Placed :=
  placeFrom 0 mappings

def depth (placed : List Placed) : Nat :=
  placed.foldr (fun p n => max p.path.length n) 0

/-- The tree of a list of mappings; mappings without a target name on their path do not show. -/
def build (mappings : List Mapping) : List Node :=
  forest (depth (place mappings)) 1 (place mappings)

namespace Node

def name : Node → Text
  | .component name .. => name
  | .leaf name .. => name

def level : Node → Nat
  | .component _ level .. => level
  | .leaf _ level _ => level

def children : Node → List Node
  | .component _ _ _ children => children
  | .leaf .. => []

end Node

/-- The row that describes a component: the first that was given, else the first. -/
def definition? (rows : List Row) : Option Row :=
  (rows.find? fun r => !r.mapping.isPlaceholder).or rows.head?

def isGap (rows : List Row) : Bool :=
  (definition? rows).any (·.mapping.isPlaceholder)

/-- The row would show a value if its path were not a container. -/
def hasValue (r : Row) : Bool :=
  !r.mapping.isComponent && r.mapping.valueType ≠ .empty

/-- The rows of a component whose value is lost: those given after the defining row, and the
defining row itself if it has a value. -/
def lostRows (rows : List Row) : List Row :=
  match rows.filter fun r => !r.mapping.isPlaceholder with
  | [] => []
  | first :: others => if hasValue first then first :: others else others

mutual

def Node.shadowed : Node → List Row
  | .component _ _ rows children => lostRows rows ++ shadowed children
  | .leaf .. => []

def shadowed : List Node → List Row
  | [] => []
  | n :: ns => n.shadowed ++ shadowed ns

end

mutual

def Node.paths : Node → List (List Text)
  | .component name _ _ children => [name] :: (paths children).map (name :: ·)
  | .leaf name _ _ => [[name]]

def paths : List Node → List (List Text)
  | [] => []
  | n :: ns => n.paths ++ paths ns

end

def containsNames : (names : List Text) → List Node → Bool
  | [], _ => false
  | [name], nodes => nodes.any (·.name = name)
  | name :: next :: rest, nodes =>
    match nodes.find? (·.name = name) with
    | some node => containsNames (next :: rest) node.children
    | none => false

/-- The tree has a node at the path; empty names in it are passed over. -/
def containsPath (path : Text) (nodes : List Node) : Bool :=
  containsNames ((List.splitOn '/' path).filter (· ≠ [])) nodes

end FieldMap.Target
