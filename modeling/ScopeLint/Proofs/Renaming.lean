import Mathlib.Logic.Equiv.Basic
import ScopeLint.Proofs.Simulation
import ScopeLint.Sample

/-!
# Renaming variables

No variable is special but through the settings.  If the variables of a tree and
those in the settings are called something else, different ones differently, the
walk goes the same way: the names in scope are the renamed ones after every
callback, and so are the names in the findings.  The empty name must stay empty,
since an empty alias or catch-all parameter counts as none.
-/

namespace ScopeLint

/-- New names for variables.  Different variables get different names, and the
empty name stays empty. -/
structure Renaming where
  newName : String → String
  injective : Function.Injective newName
  keepsEmpty : newName "" = ""

instance : CoeFun Renaming fun _ => String → String := ⟨Renaming.newName⟩

variable (r : Renaming)

theorem Renaming.isEmpty_eq (name : String) :
    (r name).isEmpty = name.isEmpty := by
  rw [Bool.eq_iff_iff, String.isEmpty_iff, String.isEmpty_iff]
  constructor
  · intro empty
    exact r.injective (empty.trans r.keepsEmpty.symm)
  · rintro rfl
    exact r.keepsEmpty

/-! ## Trees, settings, scopes and findings under new names -/

def Imported.rename (imported : Imported) : Imported :=
  ⟨r imported.name, imported.asName.map r⟩

/-- Rename the variables of a shape.  Macros, templates, tests, filters and
fields keep their names. -/
def Shape.rename {α : Type} : Shape α → Shape α
  | .name word usage => .name (r word) usage
  | .lambda params body => .lambda (params.map r) body
  | .parameter title typing => .parameter (r title) typing
  | .definition title params body defaults rest named =>
    .definition title params body defaults (rest.map r) (named.map r)
  | .capture title body through => .capture (r title) body through
  | .importModule source target => .importModule source (r target)
  | .importNames source names =>
    .importNames source (names.map (Imported.rename r))
  | shape => shape

/-- Rename the variables of a tree.  Every node stays what and where it is. -/
def Node.rename : Node → Node :=
  Node.fold fun node below =>
    ⟨node.id, node.position, (below.map fun part => part ()).rename r⟩

def Config.rename (config : Config) : Config :=
  { config with
    special := config.special.map r
    builtin := config.builtin.map r
    loopName := r config.loopName
    loopKey := r config.loopKey }

def Scope.rename (scope : Scope) : Scope :=
  { scope with names := scope.names.map (Option.map r) }

def Diagnostic.rename (d : Diagnostic) : Diagnostic :=
  { d with missing := r d.missing }

def Role.rename : Role → Role
  | .definition title inputs =>
    .definition title (inputs.map (List.map (Option.map r)))
  | .block names => .block (names.map r)
  | .binding names => .binding (names.map r)
  | .reference name => .reference (r name)
  | role => role

/-! ## What the names of a node become -/

theorem Imported.localName_rename (imported : Imported) :
    (imported.rename r).localName = r imported.localName := by
  obtain ⟨name, asName⟩ := imported
  cases asName with
  | none => rfl
  | some asName =>
      simp only [localName, rename, Option.map_some, r.isEmpty_eq]
      split <;> rfl

theorem catchAll_map (name : Option String) :
    catchAll (name.map r) = (catchAll name).map (Option.map r) := by
  cases name with
  | none => rfl
  | some name =>
      simp only [catchAll, Option.map_some, r.isEmpty_eq]
      split <;> rfl

theorem Shape.parts_rename {α : Type} (shape : Shape α) :
    (shape.rename r).parts = shape.parts := by
  cases shape <;> rfl

namespace Node

theorem rename_eq (node : Node) :
    node.rename r =
      ⟨node.id, node.position, (node.shape.map (rename r)).rename r⟩ := by
  rw [rename, fold_eq, Shape.map_map]

theorem shape_rename (node : Node) :
    (node.rename r).shape = (node.shape.map (rename r)).rename r := by
  rw [rename_eq]

theorem id_rename (node : Node) : (node.rename r).id = node.id := by
  rw [rename_eq]

theorem position_rename (node : Node) :
    (node.rename r).position = node.position := by
  rw [rename_eq]

theorem children_rename (node : Node) :
    (node.rename r).children = node.children.map (rename r) := by
  rw [children, shape_rename, Shape.parts_rename, Shape.parts_map]
  rfl

theorem targetNames_rename (node : Node) :
    (node.rename r).targetNames = node.targetNames.map r := by
  induction node using induction_on_children with
  | step node induction =>
      rw [targetNames_eq, targetNames_eq, shape_rename]
      rw [children] at induction
      cases shape : node.shape with
      | name word usage => rfl
      | tuple items usage =>
          rw [shape] at induction
          simp only [Shape.map, Shape.rename, List.flatMap_map,
            List.map_flatMap]
          exact List.flatMap_congr induction
      | list items =>
          rw [shape] at induction
          simp only [Shape.map, Shape.rename, List.flatMap_map,
            List.map_flatMap]
          exact List.flatMap_congr induction
      | _ => rfl

theorem loopNames_rename (config : Config) (target : Node) :
    loopNames (config.rename r) (target.rename r) =
      (loopNames config target).map r := by
  rw [loopNames, loopNames, targetNames_rename]
  cases target.targetNames with
  | nil => rfl
  | cons name rest => cases rest <;> rfl

theorem parameterNames_rename {params : List Node}
    (plain : ∀ param ∈ params, param.kind = .parameter) :
    parameterNames (params.map (rename r)) =
      (parameterNames params).map (List.map (Option.map r)) := by
  induction params with
  | nil => rfl
  | cons param rest induction =>
      have later := induction fun other member =>
        plain other (List.mem_cons_of_mem _ member)
      obtain ⟨title, typing, shape⟩ :=
        shape_of_parameter (plain param List.mem_cons_self)
      rw [List.map_cons, parameterNames, parameterNames, shape_rename,
        shape, later]
      cases parameterNames rest <;> rfl

/-- What a node means under new names. -/
theorem role_rename (config : Config) {node : Node}
    (plain : ∀ param ∈ node.shape.params, param.kind = .parameter) :
    (node.rename r).role (config.rename r) = (node.role config).rename r := by
  rw [role, role, shape_rename]
  cases shape : node.shape with
  | definition title params body defaults rest named =>
      have plainParams : ∀ param ∈ params, param.kind = .parameter := by
        rwa [shape] at plain
      simp only [Shape.map, Shape.rename, Role.rename,
        parameterNames_rename r plainParams, catchAll_map]
      cases parameterNames params <;> simp [Except.map]
  | loop mode target source body empty only =>
      simp only [Shape.map, Shape.rename, Role.rename, loopNames_rename]
  | assign form target value =>
      simp only [Shape.map, Shape.rename, Role.rename, targetNames_rename]
  | importNames source names =>
      simp [Shape.map, Shape.rename, Role.rename, Imported.localName_rename]
  | test subject title args negated =>
      simp only [Shape.map, Shape.rename, shape_rename, id_rename]
      cases subject.shape with
      | name word usage =>
          dsimp only [Shape.map, Shape.rename]
          split <;> rfl
      | _ => rfl
  | name word usage =>
      dsimp only [Shape.map, Shape.rename]
      split <;> rfl
  | _ => rfl

end Node

/-! ## What becomes of a scope -/

namespace Scope

theorem enter_rename (home : String) (scope : Scope) (role : Role) :
    (scope.rename r).enter home (role.rename r) =
      (scope.enter home role).rename r := by
  cases role with
  | definition title inputs => cases inputs <;> rfl
  | block names =>
      simp [Role.rename, enter, openBlock, rename, Function.comp_def]
  | binding names =>
      simp [Role.rename, enter, declare, rename, Function.comp_def]
  | _ => rfl

theorem leave_rename (scope : Scope) (role : Role) :
    (scope.rename r).leave (role.rename r) =
      (scope.leave role).map (rename r) := by
  cases role with
  | block names =>
      cases frames : scope.frames with
      | nil =>
          simp [Role.rename, leave, closeBlock?, rename, frames, Except.map]
      | cons frame rest =>
          simp [Role.rename, leave, closeBlock?, rename, frames, Except.map,
            List.map_take, List.map_drop]
  | _ => rfl

theorem declares_rename {config : Config} {scope : Scope} {name : String} :
    (scope.rename r).Declares (config.rename r) (r name) ↔
      scope.Declares config name := by
  -- Lookups go the same way because different variables get different names.
  have inScope : some (r name) ∈ scope.names.map (Option.map r) ↔
      some name ∈ scope.names :=
    List.mem_map_of_injective (Option.map_injective r.injective)
      (a := some name)
  have always : r name ∈ (config.rename r).alwaysDeclared ↔
      name ∈ config.alwaysDeclared := by
    rw [Config.alwaysDeclared, Config.rename, ← List.map_append]
    exact List.mem_map_of_injective r.injective
  exact or_congr inScope always

theorem finding?_rename (config : Config) (scope : Scope) {node : Node}
    (plain : ∀ param ∈ node.shape.params, param.kind = .parameter) :
    (scope.rename r).finding? (config.rename r) (node.rename r) =
      (scope.finding? config node).map (Diagnostic.rename r) := by
  have sameMacro : (scope.rename r).inMacro = scope.inMacro := rfl
  rw [finding?, finding?, Node.role_rename r config plain, sameMacro]
  cases scope.inMacro with
  | none => rfl
  | some title =>
      cases node.role config with
      | reference name =>
          have silent : (node.rename r).id ∈ (scope.rename r).guarded ∨
              (scope.rename r).Declares (config.rename r) (r name) ↔
              node.id ∈ scope.guarded ∨ scope.Declares config name := by
            rw [declares_rename, node.id_rename]
            rfl
          dsimp only [Role.rename]
          by_cases declared :
            node.id ∈ scope.guarded ∨ scope.Declares config name
          · rw [if_pos declared, if_pos (silent.mpr declared)]
            rfl
          · rw [if_neg declared, if_neg (mt silent.mp declared),
              node.position_rename]
            rfl
      | _ => rfl

end Scope

/-! ## Walks under new names -/

/-- A node whose parameters are plain, in a tree of such nodes, and what it is
under new names. -/
structure RenamedTo (node other : Node) : Prop where
  plain : node.PlainParameters
  renamed : other = node.rename r

theorem RenamedTo.hereditary : Hereditary (RenamedTo r) := by
  intro node other alike
  rw [alike.renamed, node.children_rename, List.forall₂_map_right_iff,
    List.forall₂_same]
  intro child member
  exact ⟨fun inner inside =>
    alike.plain inner (Node.mem_nodes_of_mem_children member inside), rfl⟩

namespace Checker

/-- Walking a tree under new names is the same as walking it and renaming the
scopes and the findings. -/
theorem simulation_rename (config : Config) (title : Option String) :
    Simulation { config, title } { config := config.rename r, title }
      (RenamedTo r) (fun scope other => other = scope.rename r)
      (Diagnostic.rename r) := by
  have role : ∀ {node other : Node}, RenamedTo r node other →
      other.role (config.rename r) = (node.role config).rename r := by
    rintro node _ ⟨plain, rfl⟩
    exact Node.role_rename r config (plain node node.mem_nodes_self)
  constructor
  · exact RenamedTo.hereditary r
  · intro node other alike
    rw [role alike]
    cases node.role config with
    | definition title inputs => cases inputs <;> rfl
    | _ => rfl
  · rintro scope _ node other rfl alike
    rw [role alike]
    exact Scope.enter_rename r _ scope _
  · rintro scope _ node other rfl alike
    rw [role alike, Scope.leave_rename]
    cases scope.leave (node.role config) with
    | ok left => exact .inl ⟨left, left.rename r, rfl, rfl, rfl⟩
    | error failure => exact .inr ⟨failure, rfl, rfl⟩
  · rintro scope _ node _ rfl ⟨plain, rfl⟩
    exact Scope.finding?_rename r config scope (plain node node.mem_nodes_self)

end Checker

/-- The second walk is the first one under new names: the same callbacks in the
renamed scopes, the renamed findings, and the same end. -/
structure SameUnder (first second : Passage Scope Node) : Prop where
  calls : second.calls.map (fun callback =>
      (callback.hook, callback.node, callback.reaction.state)) =
    first.calls.map fun callback =>
      (callback.hook, callback.node.rename r, callback.reaction.state.rename r)
  findings : second.journal.findings =
    first.journal.findings.map (Diagnostic.rename r)
  result : second.result = first.result.map (Node.rename r)

theorem SameUnder.of_walksAlike {root : Node}
    {first second : Passage Scope Node}
    (walks : Checker.WalksAlike (RenamedTo r)
      (fun scope other => other = scope.rename r) (Diagnostic.rename r)
      root (root.rename r) first second) :
    SameUnder r first second := by
  constructor
  · apply Eq.symm
    apply map_eq_map_of_forall₂ walks.calls
    intro callback other mirrors
    rw [mirrors.hook, mirrors.node.renamed, mirrors.state]
  · exact walks.findings
  · obtain ⟨outcome, result, otherResult⟩ := walks.result
    rw [result, otherResult]
    cases outcome <;> rfl

namespace Checker

/-- Under new names for all variables, a walk is the same but for these
names. -/
theorem pass_rename (config : Config) (title : Option String) {root : Node}
    (plain : root.PlainParameters) :
    SameUnder r ((visitor { config, title }).pass root)
      ((visitor { config := config.rename r, title }).pass (root.rename r)) :=
  .of_walksAlike r
    ((simulation_rename r config title).walksAlike rfl ⟨plain, rfl⟩)

/-- The variable of the sample's loop and the usual name for the state of a loop
change places. -/
def swapping : Renaming where
  newName := Equiv.swap "item" "loop"
  injective := (Equiv.swap "item" "loop").injective
  keepsEmpty := by decide

theorem pass_rename_card :
    Sample.card.PlainParameters ∧
    SameUnder swapping ((visitor {}).pass Sample.card)
      ((visitor { config := Config.rename swapping {} }).pass
        (Sample.card.rename swapping)) ∧
    (((visitor { config := Config.rename swapping {} }).pass
      (Sample.card.rename swapping)).journal.findings.map fun d =>
        (d.missing, d.line)) = [("titel", 2), ("loop", 4)] := by
  have plain : Sample.card.PlainParameters := by decide +kernel
  exact ⟨plain, pass_rename swapping {} none plain, by decide +kernel⟩

end Checker

end ScopeLint
