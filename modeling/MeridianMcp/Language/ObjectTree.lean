import MeridianMcp.Language.Lineage
import MeridianMcp.Text

namespace Language

open MeridianMcp

structure Location where
  file : Nat
  line : Nat
  column : Nat
  deriving DecidableEq, Repr

-- The file of what the compiler itself provides.
def builtinsFile : Nat := 0

def Location.isBuiltins (location : Location) : Bool := location.file = builtinsFile

structure VarDeclaration where
  location : Location
  deriving DecidableEq, Repr

structure TypeVar where
  location : Location
  declaration : Option VarDeclaration
  docs : Text
  deriving DecidableEq, Repr

structure ProcDeclaration where
  location : Location
  deriving DecidableEq, Repr

structure ProcValue where
  location : Location
  parameters : List Text
  hasCode : Bool
  hasBodyRange : Bool
  docs : Text
  deriving DecidableEq, Repr

structure TypeProc where
  value : List ProcValue
  declaration : Option ProcDeclaration
  deriving DecidableEq, Repr

-- `parentType` is an index into the graph; one past its end stands for no parent.
structure TypeNode where
  path : Text
  location : Location
  vars : List (Text × TypeVar)
  procs : List (Text × TypeProc)
  parentType : Nat
  docs : Text
  deriving DecidableEq, Repr

-- Every path of a tree is that of one node only, and a name that of one procedure of its type.
structure ObjectTree where
  graph : List TypeNode
  paths_nodup : (graph.map TypeNode.path).Nodup
  procs_nodup : ∀ ty ∈ graph, (ty.procs.map Prod.fst).Nodup
  names_plain : ∀ ty ∈ graph, ∀ entry ∈ ty.procs, '/' ∉ entry.1

structure ProcRef where
  ty : TypeNode
  name : Text
  list : List ProcValue
  value : ProcValue
  index : Nat
  deriving DecidableEq, Repr

def TypeNode.iterSelfProcs (ty : TypeNode) : List ProcRef :=
  ty.procs.flatMap fun entry => entry.2.value.mapIdx fun idx value =>
    { ty := ty, name := entry.1, list := entry.2.value, value := value, index := idx }

def TypeNode.hasProc (ty : TypeNode) (name : Text) : Bool :=
  ty.procs.any fun entry => entry.1 == name

namespace ObjectTree

def parentTypeOf (tree : ObjectTree) (ty : TypeNode) : Option TypeNode := tree.graph[ty.parentType]?

def Acyclic (tree : ObjectTree) : Prop := Lineage.Acyclic tree.parentTypeOf tree.graph

def Inheritance (tree : ObjectTree) (ty : TypeNode) (chain : List TypeNode) : Prop :=
  Lineage.Ascends tree.parentTypeOf ty chain

-- The loop of `TypeRef::get_proc`, with fuel for the links it may follow.
def getProc (tree : ObjectTree) (fuel : Nat) (ty : TypeNode) (name : Text) :
    Option (Option TypeNode) :=
  Lineage.seek tree.parentTypeOf (fun ty => if ty.hasProc name then some ty else none) fuel (some ty)

theorem parentTypeOf_mem (tree : ObjectTree) :
    ∀ ty ∈ tree.graph, ∀ parent, tree.parentTypeOf ty = some parent → parent ∈ tree.graph :=
  fun _ _ _ h => List.mem_of_getElem? h

theorem path_inj (tree : ObjectTree) {ty ty' : TypeNode} (hty : ty ∈ tree.graph)
    (hty' : ty' ∈ tree.graph) (h : ty.path = ty'.path) : ty = ty' :=
  List.inj_on_of_nodup_map tree.paths_nodup hty hty' h

theorem exists_inheritance {tree : ObjectTree} (hacyclic : tree.Acyclic) {ty : TypeNode}
    (hty : ty ∈ tree.graph) :
    ∃ chain, tree.Inheritance ty chain ∧ chain.length ≤ tree.graph.length :=
  Lineage.exists_ascends hacyclic tree.parentTypeOf_mem hty

theorem getProc_returns {tree : ObjectTree} (hacyclic : tree.Acyclic) {ty : TypeNode}
    (hty : ty ∈ tree.graph) (name : Text) {fuel : Nat} (hfuel : tree.graph.length ≤ fuel) :
    ∃ found, tree.getProc fuel ty name = some found := by
  obtain ⟨chain, hchain, hlen⟩ := exists_inheritance hacyclic hty
  exact ⟨_, Lineage.seek_ascends hchain (hlen.trans hfuel)⟩

end ObjectTree

-- The type of `ProcRef::parent_proc`, the immediate parent of a procedure.
def ProcRef.parentProc (tree : ObjectTree) (fuel : Nat) (ref : ProcRef) :
    Option (Option TypeNode) :=
  if 0 < ref.index then some (some ref.ty)
  else
    match tree.parentTypeOf ref.ty with
    | none => some none
    | some parent => tree.getProc fuel parent ref.name

theorem ProcRef.parentProc_returns {tree : ObjectTree} (hacyclic : tree.Acyclic) (ref : ProcRef)
    (hty : ref.ty ∈ tree.graph) {fuel : Nat} (hfuel : tree.graph.length ≤ fuel) :
    ∃ found, ref.parentProc tree fuel = some found := by
  unfold parentProc
  split
  · exact ⟨_, rfl⟩
  · cases h : tree.parentTypeOf ref.ty with
    | none => exact ⟨_, rfl⟩
    | some parent =>
      exact ObjectTree.getProc_returns hacyclic (tree.parentTypeOf_mem _ hty _ h) ref.name hfuel

theorem TypeNode.ty_of_mem_iterSelfProcs {ty : TypeNode} {ref : ProcRef}
    (h : ref ∈ ty.iterSelfProcs) : ref.ty = ty := by
  simp only [iterSelfProcs, List.mem_flatMap, List.mem_mapIdx] at h
  obtain ⟨_, _, _, _, rfl⟩ := h
  rfl

end Language
