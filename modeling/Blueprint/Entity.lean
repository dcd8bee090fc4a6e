import Blueprint.TypeName
/-!
The family of entity types: their names, the fields of each, and the order in which fields are
resolved. A record type is described by its fields in the order they are declared and by stages:
the fields of one stage are resolved side by side, the stages one after another. A union type is
described by the record types of its variants.
-/

namespace Blueprint

/-- The types of values that nodes stand for. -/
inductive EntityType where
  | text
  | number
  | auth
  | checkoutStep
  | runStep
  | step
  | job
  | workflow
  | tree
  deriving DecidableEq, Repr

/-- What a field holds. -/
inductive FieldShape where
  | required (type : EntityType)
  | optional (type : EntityType)
  | repeated (type : EntityType)
  | keyed (key value : EntityType)
  deriving DecidableEq, Repr

structure Field where
  name : String
  shape : FieldShape
  deriving DecidableEq, Repr

/-- A record type. `shellName` is what its unresolved form is called, `entityName` what messages
about a missing field call the entity. -/
structure RecordForm where
  shellName : String
  shellType : TypeName
  entityName : String
  fields : List Field
  stages : List (List String)
  deriving DecidableEq, Repr

/-- How values of a type are built from the values of others. -/
inductive EntityForm where
  | record (form : RecordForm)
  | union (variants : List (String × EntityType))
  deriving DecidableEq, Repr

namespace EntityType

def typeName : EntityType → TypeName
  | text => ⟨"alloc::string::String"⟩
  | number => ⟨"u64"⟩
  | auth => ⟨"scaffold_test_utils::auth::Auth"⟩
  | checkoutStep => ⟨"scaffold_test_utils::step::CheckoutStep"⟩
  | runStep => ⟨"scaffold_test_utils::step::RunStep"⟩
  | step => ⟨"scaffold_test_utils::step::Step"⟩
  | job => ⟨"scaffold_test_utils::job::Job"⟩
  | workflow => ⟨"scaffold_test_utils::workflow::Workflow"⟩
  | tree => ⟨"oracle_driver::ents::Tree"⟩

/-- The name that messages show. -/
def shortName (type : EntityType) : String :=
  type.typeName.short

/-- Every type of the family. -/
def all : List EntityType :=
  [text, number, auth, checkoutStep, runStep, step, job, workflow, tree]

/-- The type with a given short name. -/
def ofShortName? (name : String) : Option EntityType :=
  all.find? fun type => type.shortName = name

/-- A text is resolved from a label, a number from the terms of a sum. -/
def form : EntityType → EntityForm
  | text => .record
      { shellName := "LabelShell", shellType := ⟨"oracle_driver::ents::LabelShell"⟩
        entityName := "Label"
        fields := [⟨"text", .required .text⟩]
        stages := [["text"]] }
  | number => .record
      { shellName := "NumShell", shellType := ⟨"oracle_driver::ents::NumShell"⟩
        entityName := "Num"
        fields := [⟨"terms", .repeated .number⟩]
        stages := [["terms"]] }
  | auth => .record
      { shellName := "AuthShell", shellType := ⟨"scaffold_test_utils::auth::AuthShell"⟩
        entityName := "Auth"
        fields := [⟨"username", .required .text⟩, ⟨"password", .required .text⟩]
        stages := [["username"], ["password"]] }
  | checkoutStep => .record
      { shellName := "CheckoutStepShell"
        shellType := ⟨"scaffold_test_utils::step::CheckoutStepShell"⟩
        entityName := "CheckoutStep"
        fields := [⟨"path", .optional .text⟩]
        stages := [["path"]] }
  | runStep => .record
      { shellName := "RunStepShell", shellType := ⟨"scaffold_test_utils::step::RunStepShell"⟩
        entityName := "RunStep"
        fields := [⟨"command", .required .text⟩, ⟨"environment", .keyed .text .text⟩]
        stages := [["environment"], ["command"]] }
  | step => .union [("Checkout", .checkoutStep), ("Run", .runStep)]
  | job => .record
      { shellName := "JobShell", shellType := ⟨"scaffold_test_utils::job::JobShell"⟩
        entityName := "Job"
        fields := [⟨"name", .required .text⟩, ⟨"image", .optional .text⟩, ⟨"auth", .optional .auth⟩,
          ⟨"steps", .repeated .step⟩, ⟨"environment", .keyed .text .text⟩]
        stages := [["auth", "steps", "environment"], ["name"], ["image"]] }
  | workflow => .record
      { shellName := "WorkflowShell"
        shellType := ⟨"scaffold_test_utils::workflow::WorkflowShell"⟩
        entityName := "Workflow"
        fields := [⟨"name", .required .text⟩, ⟨"jobs", .repeated .job⟩]
        stages := [["jobs"], ["name"]] }
  | tree => .record
      { shellName := "TreeShell", shellType := ⟨"oracle_driver::ents::TreeShell"⟩
        entityName := "Tree"
        fields := [⟨"label", .required .text⟩, ⟨"child", .optional .tree⟩,
          ⟨"children", .repeated .tree⟩, ⟨"props", .keyed .text .tree⟩]
        stages := [["child", "children", "props"], ["label"]] }

/-- The record form of a type that has one. -/
def recordForm? (type : EntityType) : Option RecordForm :=
  match type.form with
  | .record form => some form
  | .union _ => none

end EntityType

end Blueprint
