import Mathlib.Logic.Basic
import RecordFs.Lookup
import RecordFs.Proofs.Path

/-! Looking up a path depends on its segments only. Two paths with the same segments lead to the same
inode, or to the same refusal told of the one and of the other, whatever the store; and the path of an
entry leads to what the path of its directory leads to and the name finds there. -/
namespace RecordFs
open MonadExcept (ofExcept)

/-- The same failure, told of another path. -/
def Failure.about (path : String) : Failure → Failure
  | notFound _ => notFound path
  | nameTooLong length max => nameTooLong length max
  | fileTooLarge requested max => fileTooLarge requested max
  | directoryNotEmpty _ => directoryNotEmpty path
  | directoryFull _ => directoryFull path
  | alreadyExists _ => alreadyExists path
  | notADirectory _ => notADirectory path
  | isADirectory _ => isADirectory path
  | invalidPath _ => invalidPath path
  | malformed record => malformed record
  | store failure => store failure

variable {α β : Type} {path other : String}

/-- What comes of an action on a backend: its reply, the root in memory and the store. -/
def Backend.perform {σ : Type} (backend : Backend σ) (action : Action α) (cache : Cache) (s : σ) :
    Except Failure α × Cache × σ :=
  let ((reply, cache), s) := (action.run.run cache).run backend s
  (reply, cache, s)

/-- The same action, its failures told of another path. -/
def retold (path : String) (action : Action α) : Action α := ExceptT.adapt (Failure.about path) action

theorem run_retold (action : Action α) : (retold path action).run = Except.mapError (Failure.about path) <$> action.run := rfl

theorem perform_retold {σ : Type} (backend : Backend σ) (action : Action α) (cache : Cache) (s : σ) :
    backend.perform (retold path action) cache s =
      ((backend.perform action cache s).1.mapError (Failure.about path), (backend.perform action cache s).2) := by
  rw [Backend.perform, run_retold, StateT.run_map, ← bind_pure_comp, Access.bind_eq, Access.run_bind]
  rfl

theorem retold_bind (x : Action α) (f : α → Action β) : retold path (x >>= f) = retold path x >>= fun a => retold path (f a) := by
  refine ExceptT.ext ?_
  rw [run_retold, ExceptT.run_bind, ExceptT.run_bind, run_retold, map_bind, bind_map_left]
  refine congrArg (x.run >>= ·) (funext fun r => ?_)
  cases r with
  | ok a => rfl
  | error e => exact map_pure _ _

@[simp] theorem retold_pure (a : α) : retold path (pure a) = pure a := ExceptT.ext (map_pure _ _)

@[simp] theorem retold_throw (e : Failure) : retold path (throw e : Action α) = throw (e.about path) :=
  ExceptT.ext (map_pure _ _)

theorem retold_foldlM (f : α → β → Action α) (l : List β) (a : α) :
    retold path (l.foldlM f a) = l.foldlM (fun a b => retold path (f a b)) a := by
  induction l generalizing a with
  | nil => exact retold_pure a
  | cons b l ih =>
    rw [List.foldlM_cons, List.foldlM_cons, retold_bind]
    exact congrArg (retold path (f a b) >>= ·) (funext ih)

namespace Store

theorem retold_lift (x : StateT Cache Access α) : retold path (ExceptT.lift x) = ExceptT.lift x := by
  refine ExceptT.ext ?_
  rw [run_retold, ExceptT.run_lift, ← comp_map]
  rfl

theorem retold_get (id : Id) : retold path (get id) = get id := by
  rw [get, call]
  refine (retold_bind _ _).trans (congrArg₂ (· >>= ·) (retold_lift _) (funext fun r => ?_))
  cases r with
  | ok found => exact retold_pure found
  | error fault => exact retold_throw _

theorem retold_expect (v : Except Malformed α) : retold path (expect v) = expect v := by
  cases v with
  | ok a => exact retold_pure a
  | error e => exact retold_throw _

theorem retold_fetch (id : Id) (kind : Kind) : retold path (fetch id kind) = fetch id kind := by
  rw [fetch, retold_bind, retold_get]
  refine congrArg (get id >>= ·) (funext fun found => ?_)
  cases found with
  | none => exact retold_throw _
  | some bytes =>
    simp only [retold_bind, retold_expect, retold_pure]

/-- Whatever a record is refused for, no path is told of. -/
theorem retold_load (ρ : Type) [Stored ρ] (id : Id) : retold path (load ρ id) = load ρ id := by
  rw [load, retold_bind, retold_fetch]
  simp only [retold_expect]

end Store

namespace Lookup

theorem retold_root : retold other (root path) = root other := by
  rw [root, root, retold_bind]
  refine congrArg (Store.root? >>= ·) (funext fun cached => ?_)
  cases cached with
  | none => exact retold_throw _
  | some root => exact retold_pure _

theorem retold_directory (dir : Inode) : retold other (directory dir path) = directory dir other := by
  rw [directory, directory]
  split
  · exact Store.retold_load Directory dir.data
  · exact retold_throw _

theorem retold_child (dir : Inode) (name : String) : retold other (child path dir name) = child other dir name := by
  rw [child, child, retold_bind, retold_directory]
  refine congrArg (directory dir other >>= ·) (funext fun table => ?_)
  cases table.find? name with
  | none => exact retold_throw _
  | some id => exact Store.retold_load Inode id

/-- From the root along these segments; `path` is what a refusal names. -/
def walk (path : String) (place : List String) : Action Inode := root path >>= place.foldlM (child path)

theorem retold_walk (place : List String) : retold other (walk path place) = walk other place := by
  rw [walk, walk, retold_bind, retold_root]
  simp only [retold_foldlM, retold_child]

theorem walk_append (path : String) (place rest : List String) :
    walk path (place ++ rest) = walk path place >>= rest.foldlM (child path) := by
  rw [walk, walk, bind_assoc]
  exact congrArg (root path >>= ·) (funext fun i => List.foldlM_append)

theorem resolve_eq (short : path.utf8ByteSize ≤ maxPathLength) : resolve path = walk path (Path.segments path) := by
  rw [resolve, Path.check, if_neg (Nat.not_lt.mpr short)]
  rfl

/-- The same segments lead to the same inode or to the same refusal. -/
theorem resolve_congr (short : path.utf8ByteSize ≤ maxPathLength) (short' : other.utf8ByteSize ≤ maxPathLength)
    (same : Path.segments other = Path.segments path) : resolve other = retold other (resolve path) := by
  rw [resolve_eq short, resolve_eq short', retold_walk, same]

/-- The directory at the end of these segments, for an entry of this name. -/
def parentOf (path : String) (place : List String) (name : String) : Action (Inode × String) := do
  ofExcept (Path.checkName name)
  if name = "." ∨ name = ".." then throw (.invalidPath path)
  let parent ← walk path place
  unless parent.isDirectory do throw (.notADirectory path)
  return (parent, name)

theorem resolveParent_eq (short : path.utf8ByteSize ≤ maxPathLength) :
    resolveParent path = match (Path.segments path).getLast? with
      | none => throw (.invalidPath path)
      | some name => parentOf path (Path.segments path).dropLast name := by
  rw [resolveParent, Path.check, if_neg (Nat.not_lt.mpr short)]
  simp only [parentOf, walk, bind_assoc]
  rfl

/-- A name that is too long is told of by its length. -/
theorem retold_checkName (name : String) : retold path (ofExcept (Path.checkName name)) = ofExcept (Path.checkName name) := by
  rw [Path.checkName]
  split
  · exact retold_throw _
  · exact retold_pure ()

theorem retold_parentOf (place : List String) (name : String) :
    retold other (parentOf path place name) = parentOf other place name := by
  rw [parentOf, parentOf, retold_bind, retold_checkName]
  refine congrArg (ofExcept (Path.checkName name) >>= ·) (funext fun _ => ?_)
  by_cases special : name = "." ∨ name = ".."
  · rw [if_pos special, if_pos special]
    exact retold_throw _
  · rw [if_neg special, if_neg special]
    rw [retold_bind, retold_walk]
    refine congrArg (walk other place >>= ·) (funext fun parent => ?_)
    cases parent.isDirectory with
    | true => exact retold_pure (parent, name)
    | false => exact retold_throw _

theorem resolveParent_congr (short : path.utf8ByteSize ≤ maxPathLength) (short' : other.utf8ByteSize ≤ maxPathLength)
    (same : Path.segments other = Path.segments path) : resolveParent other = retold other (resolveParent path) := by
  rw [resolveParent_eq short, resolveParent_eq short', same]
  cases (Path.segments path).getLast? with
  | none => exact (retold_throw (.invalidPath path)).symm
  | some name => exact (retold_parentOf _ name).symm

/-- The path of an entry leads to the directory and from there to what its name finds. -/
theorem resolve_child {place : List String} {name : String} (each : ∀ name ∈ place, Path.Segment name) (segment : Path.Segment name)
    (short : (Path.child (Path.canonical place) name).utf8ByteSize ≤ maxPathLength) :
    resolve (Path.child (Path.canonical place) name) =
      retold (Path.child (Path.canonical place) name) (resolve (Path.canonical place)) >>= fun dir =>
        child (Path.child (Path.canonical place) name) dir name := by
  have cut : Path.segments (Path.child (Path.canonical place) name) = place ++ [name] := by
    rw [Path.child_canonical each, Path.segments_canonical]
    exact List.forall_mem_append.mpr ⟨each, List.forall_mem_singleton.mpr segment⟩
  rw [resolve_eq short, cut, walk_append, resolve_eq (Nat.le_trans (Path.size_canonical_le place name) short), retold_walk,
    Path.segments_canonical each]
  simp only [List.foldlM_cons, List.foldlM_nil, bind_pure]

end Lookup

/-- What the writing of a path has to do with where it leads. -/
structure SpellingLaws : Prop where
  /-- Two paths with the same segments lead to the same inode or the same refusal, and to the same store. -/
  resolve : ∀ {path other : String}, path.utf8ByteSize ≤ maxPathLength → other.utf8ByteSize ≤ maxPathLength →
    Path.segments other = Path.segments path → ∀ {σ : Type} (backend : Backend σ) (cache : Cache) (s : σ),
      backend.perform (Lookup.resolve other) cache s =
        ((backend.perform (Lookup.resolve path) cache s).1.mapError (Failure.about other),
          (backend.perform (Lookup.resolve path) cache s).2)
  /-- The same holds of the directory and the name of an entry. -/
  resolveParent : ∀ {path other : String}, path.utf8ByteSize ≤ maxPathLength → other.utf8ByteSize ≤ maxPathLength →
    Path.segments other = Path.segments path → ∀ {σ : Type} (backend : Backend σ) (cache : Cache) (s : σ),
      backend.perform (Lookup.resolveParent other) cache s =
        ((backend.perform (Lookup.resolveParent path) cache s).1.mapError (Failure.about other),
          (backend.perform (Lookup.resolveParent path) cache s).2)
  segment : ∀ path, ∀ name ∈ Path.segments path, name ≠ "" ∧ '/' ∉ name.toList
  segments : ∀ {place : List String}, (∀ name ∈ place, name ≠ "" ∧ '/' ∉ name.toList) →
    Path.segments ("/" ++ "/".intercalate place) = place
  child : ∀ {place : List String} {name : String}, (∀ name ∈ place, name ≠ "" ∧ '/' ∉ name.toList) →
    name ≠ "" ∧ '/' ∉ name.toList → Path.child (Path.canonical place) name = Path.canonical (place ++ [name])
  parent : ∀ {place : List String} {name : String}, (∀ name ∈ place, name ≠ "" ∧ '/' ∉ name.toList) →
    name ≠ "" ∧ '/' ∉ name.toList → Path.parent (Path.child (Path.canonical place) name) = Path.canonical place
  /-- The path of an entry leads to its directory, and from there to what its name finds. -/
  entry : ∀ {place : List String} {name : String}, (∀ name ∈ place, name ≠ "" ∧ '/' ∉ name.toList) →
    name ≠ "" ∧ '/' ∉ name.toList → (Path.child (Path.canonical place) name).utf8ByteSize ≤ maxPathLength →
    Lookup.resolve (Path.child (Path.canonical place) name) = do
      let dir ← retold (Path.child (Path.canonical place) name) (Lookup.resolve (Path.canonical place))
      Lookup.child (Path.child (Path.canonical place) name) dir name

/-- Only the segments of a path count, and paths put together from them are cut up into them again. -/
theorem spellingLaws : SpellingLaws where
  resolve short short' same _ backend cache s := by
    rw [Lookup.resolve_congr short short' same, perform_retold]
  resolveParent short short' same _ backend cache s := by
    rw [Lookup.resolveParent_congr short short' same, perform_retold]
  segment _ _ := Path.of_mem_segments
  segments := Path.segments_canonical
  child each _ := Path.child_canonical each _
  parent := Path.parent_child
  entry := Lookup.resolve_child

end RecordFs
