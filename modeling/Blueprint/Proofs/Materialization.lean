import Blueprint.Proofs.Carrying
import Blueprint.Proofs.Inlining
/-! Entities of the workflow family as plain data, and specs that say them again. A spec made for an entity is resolved
to just that entity. -/

namespace Blueprint.Entity

/-- Environment variables in the order in which they were put, none of them twice. -/
structure Environment where
  pairs : List (String × String)
  distinct : (pairs.map (·.1)).Nodup

structure Auth where
  username : String
  password : String

structure CheckoutStep where
  path : Option String

structure RunStep where
  command : String
  environment : Environment

inductive Step where
  | checkout (step : CheckoutStep)
  | run (step : RunStep)

structure Job where
  name : String
  image : Option String
  auth : Option Auth
  steps : List Step
  environment : Environment

structure Workflow where
  name : String
  jobs : List Job

/-- Whether a part is built by a spec of its own or put in as the value that it is. -/
inductive Manner where
  | built
  | given

/-! ### As values -/

/-- The value of an optional field. -/
def optional : Option Value → Value
  | none => .absent
  | some value => .present value

def Environment.value (environment : Environment) : Value :=
  .map (environment.pairs.map fun pair => (.text pair.1, .text pair.2))

def Auth.value (auth : Auth) : Value :=
  .record .auth [("username", .text auth.username), ("password", .text auth.password)]

def CheckoutStep.value (step : CheckoutStep) : Value :=
  .record .checkoutStep [("path", optional (step.path.map .text))]

def RunStep.value (step : RunStep) : Value :=
  .record .runStep [("command", .text step.command), ("environment", step.environment.value)]

def Step.value : Step → Value
  | checkout step => .variant "Checkout" step.value
  | run step => .variant "Run" step.value

def Job.value (job : Job) : Value :=
  .record .job [("name", .text job.name), ("image", optional (job.image.map .text)),
    ("auth", optional (job.auth.map Auth.value)), ("steps", .list (job.steps.map Step.value)),
    ("environment", job.environment.value)]

def Workflow.value (workflow : Workflow) : Value :=
  .record .workflow [("name", .text workflow.name), ("jobs", .list (workflow.jobs.map Job.value))]

/-! ### A value tells the entity -/

open Function (Injective)

theorem optional_injective : Injective optional := by
  intro first second same
  cases first <;> cases second <;> cases same <;> rfl

theorem text_injective : Injective Value.text := fun _ _ same => Value.text.inj same

/-- An optional part by its value. -/
theorem optional_map_injective {α : Type} {value : α → Value} (injective : Injective value) :
    Injective fun item : Option α => optional (item.map value) :=
  optional_injective.comp (Option.map_injective injective)

theorem Environment.value_injective : Injective Environment.value := by
  rintro ⟨first, _⟩ ⟨second, _⟩ same
  have texts : Injective fun pair : String × String => ((.text pair.1 : Value), (.text pair.2 : Value)) :=
    text_injective.prodMap text_injective
  obtain rfl := (List.map_injective_iff.mpr texts) (Value.map.inj same)
  rfl

theorem Auth.value_injective : Injective Auth.value := by
  rintro ⟨username, password⟩ ⟨other, secret⟩ same
  cases same
  rfl

theorem CheckoutStep.value_injective : Injective CheckoutStep.value := by
  rintro ⟨first⟩ ⟨second⟩ same
  simp only [CheckoutStep.value, Value.record.injEq, List.cons.injEq, Prod.mk.injEq, true_and, and_true] at same
  rw [optional_map_injective text_injective same]

theorem RunStep.value_injective : Injective RunStep.value := by
  rintro ⟨command, first⟩ ⟨other, second⟩ same
  simp only [RunStep.value, Value.record.injEq, List.cons.injEq, Prod.mk.injEq, true_and, and_true,
    Value.text.injEq] at same
  rw [same.1, Environment.value_injective same.2]

theorem Step.value_injective : Injective Step.value := by
  intro first second same
  cases first <;> cases second <;> simp only [Step.value, Value.variant.injEq, String.reduceEq,
    true_and, false_and] at same
  · rw [CheckoutStep.value_injective same]
  · rw [RunStep.value_injective same]

theorem Job.value_injective : Injective Job.value := by
  rintro ⟨name, image, auth, steps, environment⟩ ⟨other, picture, secret, others, settings⟩ same
  simp only [Job.value, Value.record.injEq, List.cons.injEq, Prod.mk.injEq, true_and, and_true, Value.text.injEq,
    Value.list.injEq] at same
  obtain ⟨names, images, auths, listed, environments⟩ := same
  rw [names, optional_map_injective text_injective images, optional_map_injective Auth.value_injective auths,
    List.map_injective_iff.mpr Step.value_injective listed, Environment.value_injective environments]

theorem Workflow.value_injective : Injective Workflow.value := by
  rintro ⟨name, jobs⟩ ⟨other, others⟩ same
  simp only [Workflow.value, Value.record.injEq, List.cons.injEq, Prod.mk.injEq, true_and, and_true,
    Value.text.injEq, Value.list.injEq] at same
  rw [same.1, List.map_injective_iff.mpr Job.value_injective same.2]

/-! ### As specs -/

section Specs

variable {Context : Type}

/-- The environment variables one after another. -/
def Environment.puts (environment : Environment) : List (Instruction Context) :=
  environment.pairs.map fun pair => Setter.putEnvironment (fun _ => pair.1) (fun _ => pair.2)

def Auth.spec (auth : Auth) : Spec Context :=
  .record .auth [Setter.username fun _ => auth.username, Setter.password fun _ => auth.password]

def Auth.set (auth : Auth) : Manner → Instruction Context
  | .built => Setter.auth auth.spec
  | .given => Setter.authValue auth.value

def CheckoutStep.spec (step : CheckoutStep) : Spec Context :=
  .record .checkoutStep (step.path.toList.map fun path => Setter.path fun _ => path)

def RunStep.spec (step : RunStep) : Spec Context :=
  .record .runStep ((Setter.command fun _ => step.command) :: step.environment.puts)

/-- The spec of the variant that is there. -/
def Step.spec : Step → Spec Context
  | checkout step => .variant .step "Checkout" step.spec
  | run step => .variant .step "Run" step.spec

def Step.add (step : Step) : Manner → Instruction Context
  | .built => Setter.addStep step.spec
  | .given => Setter.addStepValue step.value

/-- How the parts of a job are put in: its credentials, and its step at each position. -/
structure Job.Manners where
  auth : Manner
  step : Nat → Manner

def Job.body (job : Job) (manners : Job.Manners) : List (Instruction Context) :=
  [Setter.name fun _ => job.name] ++
  (job.image.toList.map fun image => Setter.image fun _ => image) ++
  (job.auth.toList.map fun auth => auth.set manners.auth) ++
  (job.steps.zipIdx.map fun step => step.1.add (manners.step step.2)) ++
  job.environment.puts

def Job.spec (job : Job) (manners : Job.Manners) : Spec Context := .record .job (job.body manners)

/-- The workflow by its name and its jobs, the parts of each job put in as it is said for its position. -/
def Workflow.spec (workflow : Workflow) (manners : Nat → Job.Manners) : Spec Context :=
  .record .workflow ((Setter.name fun _ => workflow.name) ::
    workflow.jobs.zipIdx.map fun job => Setter.addJob (job.1.spec (manners job.2)))

end Specs

/-! ### What the specs build -/

section Shells

variable {Context : Type} (context : Context)

def texts (pair : String × String) : Node × Node := (Setter.textNode pair.1, Setter.textNode pair.2)

/-- The node of a part that is built or given. -/
def Manner.node (manner : Manner) (spec : Spec Context) (value : Value) : Node :=
  match manner with
  | .built => spec.node context
  | .given => .literal value

open Instruction

theorem allComposed_iff {body : List (Instruction Context)} :
    allComposed body = true ↔ ∀ instruction ∈ body, instruction.composed = true := by
  induction body with
  | nil => simp [allComposed]
  | cons instruction rest ih => simp [allComposed, ih]

theorem Environment.composed_puts (environment : Environment) :
    ∀ instruction ∈ (environment.puts : List (Instruction Context)), instruction.composed = true :=
  List.forall_mem_map.mpr fun _ _ => rfl

theorem Environment.inline_puts (environment : Environment) :
    inlineAll context environment.puts = (Edit.put "environment" (environment.pairs.map texts)).elements := by
  rw [Environment.puts, inlineAll_map context (fun _ => rfl), Edit.elements, List.map_map]
  rfl

theorem Auth.shell_spec (auth : Auth) : auth.spec.shell context =
    .record .auth [("username", .required (some (Setter.textNode auth.username))),
      ("password", .required (some (Setter.textNode auth.password)))] :=
  Spec.shell_record .auth rfl context

theorem CheckoutStep.shell_spec (step : CheckoutStep) : step.spec.shell context =
    .record .checkoutStep [("path", .optional (step.path.map Setter.textNode))] := by
  obtain ⟨path⟩ := step
  cases path with
  | none => exact Spec.shell_record .checkoutStep rfl context
  | some path => exact Spec.shell_record .checkoutStep rfl context

theorem RunStep.shell_spec (step : RunStep) : step.spec.shell context =
    .record .runStep [("command", .required (some (Setter.textNode step.command))),
      ("environment", .keyed (step.environment.pairs.map texts))] := by
  have composed := allComposed_iff.mpr (List.forall_mem_cons.mpr
    ⟨(rfl : (Setter.command fun (_ : Context) => step.command).composed = true), step.environment.composed_puts⟩)
  rw [RunStep.spec, Spec.shell_record .runStep composed, inlineAll, Edit.all_append, Environment.inline_puts,
    Edit.all_elements]
  rfl

/-- The node of a step that is put in. -/
def Step.node (step : Step) (manner : Manner) : Node := manner.node context step.spec step.value

/-- The instructions of a job, group by group. -/
theorem Job.inline_body (job : Job) (manners : Job.Manners) : inlineAll context (job.body manners) =
    [Edit.set "name" (Setter.textNode job.name)] ++
    job.image.toList.map (fun image => Edit.set "image" (Setter.textNode image)) ++
    job.auth.toList.map (fun auth => Edit.set "auth" (manners.auth.node context auth.spec auth.value)) ++
    (Edit.append "steps" (job.steps.zipIdx.map fun step => step.1.node context (manners.step step.2))).elements ++
    (Edit.put "environment" (job.environment.pairs.map texts)).elements := by
  have images : inlineAll context (job.image.toList.map fun image => Setter.image fun _ => image) =
      job.image.toList.map fun image => Edit.set "image" (Setter.textNode image) :=
    inlineAll_map context (fun _ => rfl) _
  have auths : inlineAll context (job.auth.toList.map fun auth => auth.set manners.auth) =
      job.auth.toList.map fun auth => Edit.set "auth" (manners.auth.node context auth.spec auth.value) :=
    inlineAll_map context (fun _ => by cases manners.auth <;> rfl) _
  have steps : inlineAll context (job.steps.zipIdx.map fun step => step.1.add (manners.step step.2)) =
      (Edit.append "steps" (job.steps.zipIdx.map fun step => step.1.node context (manners.step step.2))).elements := by
    rw [Edit.elements, List.map_map]
    refine inlineAll_map context (fun step => ?_) _
    rw [Function.comp_apply]
    cases manners.step step.2 <;> rfl
  rw [Job.body, inlineAll_append, inlineAll_append, inlineAll_append, inlineAll_append, images, auths, steps,
    Environment.inline_puts]
  rfl

theorem Job.composed_body (job : Job) (manners : Job.Manners) :
    allComposed (job.body manners : List (Instruction Context)) = true := by
  rw [allComposed_iff]
  simp only [Job.body, List.forall_mem_append]
  refine ⟨⟨⟨⟨?_, ?_⟩, ?_⟩, ?_⟩, job.environment.composed_puts⟩
  · exact List.forall_mem_singleton.mpr rfl
  · exact List.forall_mem_map.mpr fun _ _ => rfl
  · refine List.forall_mem_map.mpr fun auth _ => ?_
    cases manners.auth <;> rfl
  · refine List.forall_mem_map.mpr fun step _ => ?_
    cases manners.step step.2 <;> rfl

theorem Job.shell_spec (job : Job) (manners : Job.Manners) : (job.spec manners).shell context =
    .record .job [("name", .required (some (Setter.textNode job.name))),
      ("image", .optional (job.image.map Setter.textNode)),
      ("auth", .optional (job.auth.map fun auth => manners.auth.node context auth.spec auth.value)),
      ("steps", .repeated (job.steps.zipIdx.map fun step => step.1.node context (manners.step step.2))),
      ("environment", .keyed (job.environment.pairs.map texts))] := by
  rw [Job.spec, Spec.shell_record .job (job.composed_body manners), Job.inline_body, Edit.all_append,
    Edit.all_append, Edit.all_append, Edit.all_append, Edit.all_elements, Edit.all_elements]
  cases job.image <;> cases job.auth <;> rfl

theorem Workflow.shell_spec (workflow : Workflow) (manners : Nat → Job.Manners) :
    (workflow.spec manners).shell context =
      .record .workflow [("name", .required (some (Setter.textNode workflow.name))),
        ("jobs", .repeated (workflow.jobs.zipIdx.map fun job => (job.1.spec (manners job.2)).node context))] := by
  have composed : allComposed ((Setter.name fun (_ : Context) => workflow.name) ::
      workflow.jobs.zipIdx.map fun job => Setter.addJob (job.1.spec (manners job.2))) = true :=
    allComposed_iff.mpr (List.forall_mem_cons.mpr ⟨rfl, List.forall_mem_map.mpr fun _ _ => rfl⟩)
  have jobs : inlineAll context (workflow.jobs.zipIdx.map fun job => Setter.addJob (job.1.spec (manners job.2))) =
      (Edit.append "jobs" (workflow.jobs.zipIdx.map fun job => (job.1.spec (manners job.2)).node context)).elements := by
    rw [Edit.elements, List.map_map]
    exact inlineAll_map context (fun _ => rfl) _
  rw [Workflow.spec, Spec.shell_record .workflow composed, inlineAll, Edit.all_append, jobs, Edit.all_elements]
  rfl

end Shells

/-! ### What it carries -/

section Carrying

variable {Context : Type} (context : Context)

theorem carries_text (content : String) : (Setter.textNode content).Carries (.text content) :=
  Node.carries_literal _

theorem carries_optional {α : Type} {node : α → Node} {value : α → Value} (item : Option α)
    (each : ∀ item, (node item).Carries (value item)) :
    (Slot.optional (item.map node)).Carries (optional (item.map value)) := by
  cases item with
  | none => exact Slot.carries_absent
  | some item => exact (each item).optional

/-- Items that are numbered by their positions carry what they carry by themselves. -/
theorem carries_numbered {α : Type} (items : List α) {node : α × Nat → Node} {value : α → Value}
    (each : ∀ item, (node item).Carries (value item.1)) :
    (Slot.repeated (items.zipIdx.map node)).Carries (.list (items.map value)) := by
  have plain : items.zipIdx.map (value ∘ Prod.fst) = items.map value := by
    rw [← List.map_map, List.zipIdx_map_fst]
  exact plain ▸ Slot.carries_repeated fun item _ => each item

/-- A part comes to the same, built or given. -/
theorem Manner.carries {spec : Spec Context} {value : Value} (built : (spec.shell context).Carries value)
    (manner : Manner) : (manner.node context spec value).Carries value := by
  cases manner with
  | built => exact built.nested
  | given => exact Node.carries_literal value

theorem Environment.carries (environment : Environment) :
    (Slot.keyed (environment.pairs.map texts)).Carries environment.value := by
  have distinct : ((environment.pairs.map fun pair => ((.text pair.1 : Value), (.text pair.2 : Value))).map
      (·.1)).Nodup := by
    have texts : (Prod.fst ∘ fun pair : String × String => ((.text pair.1 : Value), (.text pair.2 : Value))) =
        Value.text ∘ Prod.fst := rfl
    rw [List.map_map, texts, ← List.map_map]
    exact environment.distinct.map fun _ _ same => Value.text.inj same
  have same : environment.value =
      Value.ofPairs (environment.pairs.map fun pair => (.text pair.1, .text pair.2)) := by
    rw [Value.ofPairs, OrderedMap.ofList_of_nodup distinct, Environment.value]
  rw [same]
  exact Slot.carries_keyed fun pair _ => ⟨carries_text pair.1, carries_text pair.2⟩

theorem Auth.carries (auth : Auth) : (auth.spec.shell context).Carries auth.value := by
  rw [Auth.shell_spec]
  exact Shell.carries_record .auth
    (.cons ((carries_text auth.username).required.fills "username")
      (.cons ((carries_text auth.password).required.fills "password") .nil))

theorem CheckoutStep.carries (step : CheckoutStep) : (step.spec.shell context).Carries step.value := by
  rw [CheckoutStep.shell_spec]
  exact Shell.carries_record .checkoutStep (.cons ((carries_optional step.path carries_text).fills "path") .nil)

theorem RunStep.carries (step : RunStep) : (step.spec.shell context).Carries step.value := by
  rw [RunStep.shell_spec]
  exact Shell.carries_record .runStep
    (.cons ((carries_text step.command).required.fills "command")
      (.cons (step.environment.carries.fills "environment") .nil))

theorem Step.carries (step : Step) : (step.spec.shell context).Carries step.value := by
  cases step with
  | checkout step => exact (step.carries context).variant .step "Checkout"
  | run step => exact (step.carries context).variant .step "Run"

theorem Job.carries (job : Job) (manners : Job.Manners) :
    ((job.spec manners).shell context).Carries job.value := by
  rw [Job.shell_spec]
  have auth := carries_optional job.auth fun auth => manners.auth.carries context (auth.carries context)
  have steps := carries_numbered job.steps fun step => 
    (manners.step step.2).carries context (step.1.carries context)
  exact Shell.carries_record .job
    (.cons ((carries_text job.name).required.fills "name")
      (.cons ((carries_optional job.image carries_text).fills "image")
        (.cons (auth.fills "auth") (.cons (steps.fills "steps") (.cons (job.environment.carries.fills "environment") .nil)))))

theorem Workflow.carries (workflow : Workflow) (manners : Nat → Job.Manners) :
    ((workflow.spec manners).shell context).Carries workflow.value := by
  rw [Workflow.shell_spec]
  have jobs := carries_numbered workflow.jobs fun job => (job.1.carries context (manners job.2)).nested
  exact Shell.carries_record .workflow
    (.cons ((carries_text workflow.name).required.fills "name") (.cons (jobs.fills "jobs") .nil))

end Carrying

/-- Building and resolving gives a workflow back. The spec that says it again, whether its parts are built by specs of
their own or given as values, built under any context and resolved under any configuration on any registry, is resolved
to the value of this workflow and of no other, and the registry is left as it was. -/
theorem Workflow.round_trip {Context : Type} (workflow : Workflow) (manners : Nat → Job.Manners) (context : Context)
    (config : Config) (registry : Registry) :
    (∃ world, Resolver.Returns config registry ((workflow.spec manners).node context) (.ok workflow.value) world ∧
      world.registry = registry) ∧
    ∀ other : Workflow, other.value = workflow.value → other = workflow :=
  ⟨((workflow.carries context manners).nested).returns config registry, fun _ same => value_injective same⟩

end Blueprint.Entity
