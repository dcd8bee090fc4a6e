import Blueprint.Builder
/-!
The instructions of each entity type by name: setters for texts, for parts built by specs, for
values that are there already and for references. A label or a sum has a setter of its own.
-/

namespace Blueprint

namespace Template

/-- A text with every mention of the context replaced by it. -/
def fill (template context : String) : String :=
  template.replace "\x7bctx\x7d" context

end Template

namespace Setter

variable {Context : Type}

/-- The node of a text. -/
def textNode (content : String) : Node := .literal (.text content)

/-- Put a text into a single field. -/
def text (field : String) (value : Context → String) : Instruction Context :=
  .edit field fun context => .set field (textNode (value context))

/-- Put a value into a single field. -/
def value (label field : String) (value : Value) : Instruction Context :=
  .edit label fun _ => .set field (.literal value)

/-- Let a single field refer to a registry entry. -/
def reference (label field : String) (type : EntityType) (name : Context → String) :
    Instruction Context :=
  .edit label fun context => .set field (.reference type (name context))

/-- Add a value to a repeated field. -/
def addValue (label field : String) (value : Value) : Instruction Context :=
  .edit label fun _ => .append field [.literal value]

/-- Add a reference to a repeated field. -/
def addReference (label field : String) (type : EntityType) (name : Context → String) :
    Instruction Context :=
  .edit label fun context => .append field [.reference type (name context)]

/-- Add pairs of texts to a keyed field. -/
def putTexts (label field : String) (pairs : Context → List (String × String)) :
    Instruction Context :=
  .edit label fun context =>
    .put field ((pairs context).map fun (key, value) => (textNode key, textNode value))

/-- Add a key with a reference to a keyed field. -/
def putReference (label field : String) (key : Context → String) (type : EntityType)
    (name : Context → String) : Instruction Context :=
  .edit label fun context =>
    .put field [(textNode (key context), .reference type (name context))]

/-! ### Credentials -/

def username (value : Context → String) : Instruction Context := text "username" value

def password (value : Context → String) : Instruction Context := text "password" value

/-! ### Steps -/

def path (value : Context → String) : Instruction Context := text "path" value

def command (value : Context → String) : Instruction Context := text "command" value

/-- An environment variable, for a step or a job. -/
def putEnvironment (key value : Context → String) : Instruction Context :=
  putTexts "put_environment" "environment" fun context => [(key context, value context)]

def putEnvironmentRef (key name : Context → String) : Instruction Context :=
  putReference "put_environment_ref" "environment" key .text name

def putAllEnvironment (pairs : Context → List (String × String)) : Instruction Context :=
  putTexts "put_all_environment" "environment" pairs

/-! ### Jobs and workflows -/

def name (value : Context → String) : Instruction Context := text "name" value

def image (value : Context → String) : Instruction Context := text "image" value

def auth (spec : Spec Context) : Instruction Context := .build "auth" (.single "auth") [spec]

def authValue (credentials : Value) : Instruction Context :=
  value "auth_value" "auth" credentials

def authRef (name : Context → String) : Instruction Context :=
  reference "auth_ref" "auth" .auth name

def addStep (spec : Spec Context) : Instruction Context :=
  .build "add_step" (.repeated "steps") [spec]

def addStepValue (step : Value) : Instruction Context := addValue "add_step_value" "steps" step

def addStepRef (name : Context → String) : Instruction Context :=
  addReference "add_step_ref" "steps" .step name

def addAllSteps (specs : List (Spec Context)) : Instruction Context :=
  .build "add_all_steps" (.repeated "steps") specs

def addJob (spec : Spec Context) : Instruction Context :=
  .build "add_job" (.repeated "jobs") [spec]

def addJobRef (name : Context → String) : Instruction Context :=
  addReference "add_job_ref" "jobs" .job name

/-! ### Labels, sums and trees -/

def content (value : Context → String) : Instruction Context := text "text" value

def add (term : UInt64) : Instruction Context := addValue "add" "terms" (.number term)

def label (value : Context → String) : Instruction Context := text "label" value

def child (spec : Spec Context) : Instruction Context := .build "child" (.single "child") [spec]

def childRef (name : Context → String) : Instruction Context :=
  reference "child" "child" .tree name

def addChild (spec : Spec Context) : Instruction Context :=
  .build "add_child" (.repeated "children") [spec]

def addChildRef (name : Context → String) : Instruction Context :=
  addReference "add_child" "children" .tree name

def putProp (key : Context → String) (spec : Spec Context) : Instruction Context :=
  .build "put_prop" (.keyed "props" key) [spec]

def putPropRef (key name : Context → String) : Instruction Context :=
  putReference "put_prop" "props" key .tree name

end Setter

namespace Spec

variable {Context : Type}

/-- Credentials whatever the context. -/
def credentials (username password : String) : Spec Context :=
  .ready ((Edit.set "password" (Setter.textNode password)).onShell
    ((Edit.set "username" (Setter.textNode username)).onShell (Shell.blank .auth)))

/-- A step that checks a path out. -/
def checkoutPath (path : String) : Spec Context :=
  .ready (.variant .step "Checkout"
    ((Edit.set "path" (Setter.textNode path)).onShell (Shell.blank .checkoutStep)))

/-- A step that runs a command. -/
def runCommand (command : String) : Spec Context :=
  .ready (.variant .step "Run"
    ((Edit.set "command" (Setter.textNode command)).onShell (Shell.blank .runStep)))

end Spec

end Blueprint
