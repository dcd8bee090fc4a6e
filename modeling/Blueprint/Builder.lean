import Blueprint.Builder.Edit
/-!
Builders: how shells are made. A builder holds a shell and a context, and runs instructions that
change the shell. What an instruction writes may depend on the context; instructions may be
included under other contexts, and parts of a shell may be built by specs of their own.
-/

namespace Blueprint

/-- A shell in the making, under a context. -/
structure Builder (Context : Type) where
  context : Context
  shell : Shell

/-- Where nodes that were built go: into a single field, to the end of a repeated one, or under a
key into a keyed one. -/
inductive Target (Context : Type) where
  | single (field : String)
  | repeated (field : String)
  | keyed (field : String) (key : Context → String)

mutual

/-- An instruction, with the label under which it is reported. -/
inductive Instruction (Context : Type) where
  /-- change the shell -/
  | edit (label : String) (edit : Context → Edit)
  /-- build parts under the present context and put them in -/
  | build (label : String) (target : Target Context) (specs : List (Spec Context))
  /-- run instructions on this builder -/
  | include (label : String) (body : List (Instruction Context))
  /-- run instructions under other contexts, one after another, each on what the last one left -/
  | within (label : String) (contexts : Context → List Context)
      (body : List (Instruction Context))
  /-- keep a copy of the builder under another context -/
  | split (label id : String) (context : Context → Context)
  /-- run instructions on a builder that was kept -/
  | on (label id : String) (body : List (Instruction Context))
  /-- take over the shell of a builder that was kept -/
  | merge (label id : String)
  /-- keep the shell -/
  | snapshot (label id : String)
  /-- report a shell that was kept -/
  | show (label id : String)
  /-- start again with nothing set -/
  | reset (label : String)

/-- A recipe for a shell: instructions for a record, a recipe for the present variant of a union,
or a shell that is there already. -/
inductive Spec (Context : Type) where
  | record (type : EntityType) (body : List (Instruction Context))
  | variant (union : EntityType) (tag : String) (spec : Spec Context)
  | ready (shell : Shell)

end

namespace Builder

/-- What is told about a run of instructions. -/
inductive Record (Context : Type) where
  /-- an instruction was carried out, at a depth of nesting, and left this shell -/
  | ran (depth : Nat) (label : String) (context : Context) (shell : Shell)
  /-- a shell that had been kept -/
  | kept (shell : Shell)

/-- A builder with what a list of instructions keeps beside it, and what was told. -/
structure Bench (Context : Type) where
  builder : Builder Context
  builders : List (String × Builder Context)
  shells : List (String × Shell)
  log : List (Record Context)

variable {Context : Type}

/-- A builder with nothing set. -/
def new (context : Context) (type : EntityType) : Builder Context :=
  ⟨context, Shell.blank type⟩

/-- Change the shell. -/
def update (builder : Builder Context) (change : Shell → Shell) : Builder Context :=
  { builder with shell := change builder.shell }

/-- The same shell under another context. -/
def under (builder : Builder Context) (context : Context) : Builder Context :=
  { builder with context }

/-- The edit that puts built shells where they belong. -/
def placing (target : Target Context) (context : Context) (shells : List Shell) : List Edit :=
  match target with
  | .single field => shells.map fun shell => .set field (.nested shell)
  | .repeated field => [.append field (shells.map .nested)]
  | .keyed field key =>
    [.put field (shells.map fun shell => (.literal (.text (key context)), .nested shell))]

/-- Nothing set, with the type kept. -/
def cleared : Shell → Shell
  | .record type _ => Shell.blank type
  | shell => shell

/-- A bench at the start of a list of instructions. -/
def bench (builder : Builder Context) : Bench Context := ⟨builder, [], [], []⟩

namespace Bench

def tell (bench : Bench Context) (log : List (Record Context)) : Bench Context :=
  { bench with log := bench.log ++ log }

/-- An instruction has been carried out. -/
def ran (bench : Bench Context) (depth : Nat) (label : String) : Bench Context :=
  bench.tell [.ran depth label bench.builder.context bench.builder.shell]

def withBuilder (bench : Bench Context) (builder : Builder Context) : Bench Context :=
  { bench with builder }

end Bench

end Builder

mutual

/-- Carry out one instruction at a depth of nesting. -/
def Instruction.run {Context : Type} (depth : Nat) (bench : Builder.Bench Context) :
    Instruction Context → Builder.Bench Context
  | .edit label edit =>
    let builder := bench.builder
    (bench.withBuilder (builder.update (edit builder.context).onShell)).ran depth label
  | .build label target specs =>
    let context := bench.builder.context
    let (shells, log) := Spec.shells depth context specs
    let change := fun shell =>
      (Builder.placing target context shells).foldl (fun shell edit => edit.onShell shell) shell
    ((bench.tell log).withBuilder (bench.builder.update change)).ran depth label
  | .include label body =>
    let inner := Instruction.runAll (depth + 1) bench.builder.bench body
    ((bench.tell inner.log).withBuilder inner.builder).ran depth label
  | .within label contexts body =>
    let outer := bench.builder.context
    let bench := (contexts outer).foldl
      (fun (bench : Builder.Bench Context) context =>
        let inner := Instruction.runAll (depth + 1) (bench.builder.under context).bench body
        (bench.tell inner.log).withBuilder (inner.builder.under outer))
      bench
    bench.ran depth label
  | .split label id context =>
    let kept := bench.builder.under (context bench.builder.context)
    { bench with builders := OrderedMap.insert bench.builders id kept }.ran depth label
  | .on label id body =>
    match OrderedMap.get? bench.builders id with
    | none => bench.ran depth label
    | some kept =>
      let inner := Instruction.runAll (depth + 1) kept.bench body
      { bench.tell inner.log with
        builders := OrderedMap.insert bench.builders id inner.builder }.ran depth label
  | .merge label id =>
    match OrderedMap.get? bench.builders id with
    | none => bench.ran depth label
    | some kept =>
      { bench with
        builder := bench.builder.update fun _ => kept.shell
        builders := bench.builders.filter fun entry => entry.1 ≠ id }.ran depth label
  | .snapshot label id =>
    { bench with
      shells := OrderedMap.insert bench.shells id bench.builder.shell }.ran depth label
  | .show label id =>
    match OrderedMap.get? bench.shells id with
    | none => bench.ran depth label
    | some shell => (bench.tell [.kept shell]).ran depth label
  | .reset label => (bench.withBuilder (bench.builder.update Builder.cleared)).ran depth label

/-- Carry out instructions one after another. -/
def Instruction.runAll {Context : Type} (depth : Nat) (bench : Builder.Bench Context) :
    List (Instruction Context) → Builder.Bench Context
  | [] => bench
  | instruction :: rest => Instruction.runAll depth (Instruction.run depth bench instruction) rest

/-- The shell that a spec makes under a context, for an instruction at a depth of nesting, and what
is told meanwhile. -/
def Spec.build {Context : Type} (depth : Nat) (context : Context) :
    Spec Context → Shell × List (Builder.Record Context)
  | .record type body =>
    let inner := Instruction.runAll (depth + 1) (Builder.new context type).bench body
    (inner.builder.shell, inner.log)
  | .variant union tag spec =>
    let (shell, log) := Spec.build depth context spec
    (.variant union tag shell, log)
  | .ready shell => (shell, [])

/-- The shells of several specs in order. -/
def Spec.shells {Context : Type} (depth : Nat) (context : Context) :
    List (Spec Context) → List Shell × List (Builder.Record Context)
  | [] => ([], [])
  | spec :: rest =>
    let (shell, log) := Spec.build depth context spec
    let (shells, logs) := Spec.shells depth context rest
    (shell :: shells, log ++ logs)

end

namespace Builder

variable {Context : Type}

/-- Run instructions on a builder; they are at the first depth of nesting. -/
def run (builder : Builder Context) (body : List (Instruction Context)) :
    Builder Context × List (Record Context) :=
  let bench := Instruction.runAll 1 builder.bench body
  (bench.builder, bench.log)

end Builder

namespace Spec

variable {Context : Type}

/-- The shell that a spec makes under a context. -/
def shell (spec : Spec Context) (context : Context) : Shell :=
  (spec.build 0 context).1

/-- The root node of the tree that a spec makes under a context. -/
def node (spec : Spec Context) (context : Context) : Node :=
  .nested (spec.shell context)

/-- The record or union type that a spec makes a shell of, as a reader sees the spec. -/
def debug : Spec Context → String
  | record type _ => debugOf type
  | variant _ tag spec => Text.applied tag (debug spec)
  | ready (.record type _) => debugOf type
  | ready (.variant _ tag shell) => Text.applied tag (debugOf (shellType shell))
  | ready shell => debugOf (shellType shell)
where
  /-- A spec for a record type. -/
  debugOf (type : EntityType) : String :=
    let name := (type.recordForm?.map fun form => form.shellType.full).getD type.typeName.full
    Text.bracedOpen "Spec" [("shell", Text.quoted name)]
  /-- The type that a shell is resolved to. -/
  shellType : Shell → EntityType
    | .record type _ | .variant type _ _ | .counted type _ _ _ | .stalled type _
    | .delayed type _ _ => type

end Spec

end Blueprint
