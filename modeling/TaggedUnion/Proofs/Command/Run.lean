import Mathlib.Data.List.Forall2
import TaggedUnion.Command.Run
import TaggedUnion.Files.Tree

/-!
# Commands on a tree of files

What a command comes to when it runs on a tree in which the files are that it asks for.

* `run_bind`, `run_mapM`: a command goes on from what its first part gives.
* `Loads`, `Holds`: a schema and a union, and the files at plain paths, can be read.
* `madeFor`, `run_putOut_text`, `run_putOut_file`: where a report goes.
* `run_checkValues`, `run_checkAll`: the inputs are read from the files, and the report on them is
  put out.
-/

namespace TaggedUnion.Command

variable {α β : Type} {tree after : FileTree}

/-- A schema document is in the tree, and has the schema with the union that the target names. -/
structure Loads (tree : FileTree) (target : Target) (schema : Schema) (union : UnionType) :
    Prop where
  document : ∃ text, tree.read target.schemaPath = .ok text ∧
    schemaOf target.schemaPath text = .ok schema
  named : unionOf schema target = .ok union

/-- Files with their contents are in the tree at the given paths, which have no character that is
special in patterns. -/
def Holds (tree : FileTree) (files : List (String × String)) : Prop :=
  ∀ file ∈ files, Glob.Pattern.isWritten file.1 = false ∧ tree.read file.1 = .ok file.2

/-! ## Steps -/

/-- A command goes on from what its first part gives. -/
theorem run_bind {action : ExceptT Failure (StateM FileTree) α} {result : α}
    {f : α → ExceptT Failure (StateM FileTree) β} (h : action.run.run tree = (.ok result, after)) :
    (action >>= f).run.run tree = (f result).run.run after := by
  rw [ExceptT.run_bind, StateT.run_bind, h]
  rfl

theorem run_mapM {f : α → ExceptT Failure (StateM FileTree) β} {as : List α} {bs : List β}
    (h : List.Forall₂ (fun a b => (f a).run.run tree = (.ok b, tree)) as bs) :
    (as.mapM f).run.run tree = (.ok bs, tree) := by
  induction h with
  | nil => rfl
  | cons hfirst _ ih => rw [List.mapM_cons, run_bind hfirst, run_bind ih]; rfl

theorem run_liftExcept {outcome : Except Failure α} {result : α} (h : outcome = .ok result) :
    (liftExcept outcome : ExceptT Failure (StateM FileTree) α).run.run tree =
      (.ok result, tree) := by
  rw [h]
  rfl

theorem run_read {path text : String} (h : tree.read path = .ok text) :
    (liftM (FileTree.disk.read path) : ExceptT Failure (StateM FileTree) _).run.run tree =
      (.ok (.ok text), tree) := by
  rw [← h]
  rfl

/-! ## Reading -/

theorem run_readSchema {path text : String} {schema : Schema} (hread : tree.read path = .ok text)
    (hschema : schemaOf path text = .ok schema) :
    (readSchema FileTree.disk path).run.run tree = (.ok schema, tree) := by
  rw [readSchema, run_bind (run_read hread)]
  exact run_liftExcept hschema

/-- A path without special characters stands for itself. -/
theorem run_pathsOf {pattern : String} (h : Glob.Pattern.isWritten pattern = false) :
    (pathsOf FileTree.disk pattern).run.run tree = (.ok [pattern], tree) := by
  simp only [pathsOf, h]
  rfl

theorem run_readFiles {files : List (String × String)} (h : Holds tree files) :
    (readFiles FileTree.disk (files.map Prod.fst)).run.run tree = (.ok files, tree) := by
  have hpaths : ((files.map Prod.fst).mapM (pathsOf FileTree.disk)).run.run tree =
      (.ok (files.map fun file => [file.1]), tree) := by
    refine run_mapM (List.forall₂_map_left_iff.mpr (List.forall₂_map_right_iff.mpr ?_))
    exact List.forall₂_same.mpr fun file hfile => run_pathsOf (h file hfile).1
  have hflatten : (files.map fun file => [file.1]).flatten = files.map Prod.fst := by
    rw [← List.flatMap_def, ← List.map_eq_flatMap]
  rw [readFiles, run_bind hpaths, hflatten]
  refine run_mapM (List.forall₂_map_left_iff.mpr (List.forall₂_same.mpr fun file hfile => ?_))
  rw [run_bind (run_read (h file hfile).2)]
  rfl

/-! ## Putting out -/

/-- The tree in which the directory of a path has been created. -/
def madeFor (tree : FileTree) (path : String) : Except FileError FileTree :=
  match Path.parent? path with
  | none => .ok tree
  | some directory => tree.createDirectories directory

theorem run_putOut_text {report : Json} :
    (putOut FileTree.disk none report).run.run tree = (.ok (report.pretty ++ "\n"), tree) := rfl

/-- An operation on the tree that goes well. -/
theorem run_update {operation : StateM FileTree (Except FileError Unit)}
    {result : Except FileError FileTree}
    (hoperation : operation.run tree = (FileTree.update result).run tree)
    (h : result = .ok after) :
    (liftM operation : ExceptT Failure (StateM FileTree) _).run.run tree =
      (.ok (.ok ()), after) := by
  subst h
  exact congrArg (fun done : Except FileError Unit × FileTree => (Except.ok done.1, done.2))
    hoperation

theorem run_putOut_file {path : String} {report : Json} {made : FileTree}
    (hmade : madeFor tree path = .ok made) (hwrite : made.write path report.pretty = .ok after) :
    (putOut FileTree.disk (some path) report).run.run tree = (.ok "", after) := by
  have hput : (liftM (FileTree.disk.write path report.pretty) :
      ExceptT Failure (StateM FileTree) _).run.run made = (.ok (.ok ()), after) :=
    run_update rfl hwrite
  unfold madeFor at hmade
  unfold putOut
  cases hparent : Path.parent? path with
  | none =>
    simp only [hparent] at hmade ⊢
    cases hmade
    rw [run_bind hput]
    rfl
  | some directory =>
    simp only [hparent] at hmade ⊢
    have hcreate : (liftM (FileTree.disk.createDirectories directory) :
        ExceptT Failure (StateM FileTree) _).run.run tree = (.ok (.ok ()), made) :=
      run_update rfl hmade
    rw [run_bind hcreate]
    exact run_bind hput

/-! ## The command for values -/

variable {target : Target} {schema : Schema} {union : UnionType}

/-- The inputs are read from the files before they are checked. -/
theorem run_checkValues {layout : ValueLayout} {files : List (String × String)}
    {reportPath : Option String} (hloads : Loads tree target schema union)
    (hholds : Holds tree files) :
    (Invocation.run FileTree.disk
        ⟨.checkValues target layout (files.map Prod.fst), reportPath⟩).run.run tree =
      (checkAll FileTree.disk reportPath schema union (valueInputs layout files)).run.run tree := by
  obtain ⟨text, hread, hschema⟩ := hloads.document
  rw [Invocation.run, run_bind (run_readSchema hread hschema),
    run_bind (run_liftExcept hloads.named), run_bind (run_readFiles hholds)]

/-- The entries are put out as a report, and say whether all inputs are accepted. -/
theorem run_checkAll {reportPath : Option String} {inputs : List Input} {entries : List Entry}
    {output : String} (hcheck : inputs.mapM (check schema.registry union) = .ok entries)
    (hout : (putOut FileTree.disk reportPath (reportOf entries)).run.run tree =
      (.ok output, after)) :
    (checkAll FileTree.disk reportPath schema union inputs).run.run tree =
      (.ok ⟨output, noticeOf union.name entries, entries.all Entry.isAccepted⟩, after) := by
  rw [checkAll, run_bind (run_liftExcept hcheck), run_bind hout]
  rfl

end TaggedUnion.Command
