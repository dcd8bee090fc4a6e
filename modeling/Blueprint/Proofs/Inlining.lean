import Blueprint.Builder.Setters
/-! Composition of builders is inlining. A body of setters and of bodies that are included, under the same context or
under others, does what a flat list of edits does: every setter in its place, under the context of the innermost body
that it stands in. Contexts of several types are contexts of their sum. -/

namespace Blueprint

namespace Edit

variable (edit : Edit) (edits others : List Edit) (shell : Shell)

/-- The edit one node, or one pair of nodes, at a time. -/
def elements : Edit → List Edit
  | set field node => [set field node]
  | append field nodes => nodes.map fun node => append field [node]
  | put field pairs => pairs.map fun pair => put field [pair]

/-- Edits one after another. -/
def all : Shell := edits.foldl (fun shell edit => edit.onShell shell) shell

@[simp]
theorem all_nil : all [] shell = shell := rfl

@[simp]
theorem all_cons : all (edit :: edits) shell = all edits (edit.onShell shell) := rfl

theorem all_append : all (edits ++ others) shell = all others (all edits shell) := List.foldl_append

/-- Two edits of one field that do to every slot what a third does. -/
theorem onShell_onShell {first second both : Edit} (one : first.field = both.field) (two : second.field = both.field)
    (slots : ∀ slot, second.onSlot (first.onSlot slot) = both.onSlot slot) :
    second.onShell (first.onShell shell) = both.onShell shell := by
  cases shell with
  | record type fields =>
    simp only [onShell, List.map_map, one, two, Shell.record.injEq, true_and]
    apply List.map_congr_left
    rintro ⟨name, slot⟩ _
    by_cases same : name = both.field
    · simp only [Function.comp_apply, if_pos same, slots]
    · simp only [Function.comp_apply, if_neg same]
  | variant | counted | stalled | delayed => rfl

/-- An edit that leaves every slot as it is. -/
theorem onShell_of_idle (idle : ∀ slot, edit.onSlot slot = slot) : edit.onShell shell = shell := by
  cases shell with
  | record type fields =>
    simp only [onShell, idle, ite_self, List.map_id']
  | variant | counted | stalled | delayed => rfl

theorem onShell_append_nil (field : String) : (append field []).onShell shell = shell := by
  apply onShell_of_idle
  intro slot
  cases slot <;> simp [onSlot]

theorem onShell_put_nil (field : String) : (put field []).onShell shell = shell := by
  apply onShell_of_idle
  intro slot
  cases slot <;> simp [onSlot]

theorem onShell_append_cons (field : String) (node : Node) (nodes : List Node) :
    (append field nodes).onShell ((append field [node]).onShell shell) = (append field (node :: nodes)).onShell shell := by
  refine onShell_onShell shell rfl rfl fun slot => ?_
  cases slot <;> simp [onSlot]

theorem onShell_put_cons (field : String) (pair : Node × Node) (pairs : List (Node × Node)) :
    (put field pairs).onShell ((put field [pair]).onShell shell) = (put field (pair :: pairs)).onShell shell := by
  refine onShell_onShell shell rfl rfl fun slot => ?_
  cases slot <;> simp [onSlot]

/-- An edit is the edits of its elements in order. -/
theorem all_elements : all edit.elements shell = edit.onShell shell := by
  cases edit with
  | set field node => rfl
  | append field nodes =>
    simp only [elements]
    induction nodes generalizing shell with
    | nil => exact (onShell_append_nil shell field).symm
    | cons node rest ih => rw [List.map_cons, all_cons, ih, onShell_append_cons]
  | put field pairs =>
    simp only [elements]
    induction pairs generalizing shell with
    | nil => exact (onShell_put_nil shell field).symm
    | cons pair rest ih => rw [List.map_cons, all_cons, ih, onShell_put_cons]

/-- Elements have no further elements. -/
theorem elements_of_mem {edit element : Edit} (member : element ∈ edit.elements) : element.elements = [element] := by
  cases edit with
  | set field node =>
    obtain rfl := List.mem_singleton.mp member
    rfl
  | append field nodes =>
    obtain ⟨node, -, rfl⟩ := List.mem_map.mp member
    rfl
  | put field pairs =>
    obtain ⟨pair, -, rfl⟩ := List.mem_map.mp member
    rfl

end Edit

variable {Context : Type}

namespace Target

/-- The edit that puts one node where nodes that were built go. -/
def place (target : Target Context) (context : Context) (node : Node) : Edit :=
  match target with
  | .single field => .set field node
  | .repeated field => .append field [node]
  | .keyed field key => .put field [(.literal (.text (key context)), node)]

theorem elements_place (target : Target Context) (context : Context) (node : Node) :
    (target.place context node).elements = [target.place context node] := by
  cases target <;> rfl

/-- Shells that were built are put where they belong one after another. -/
theorem all_placing (target : Target Context) (context : Context) (shells : List Shell) (shell : Shell) :
    Edit.all (Builder.placing target context shells) shell =
      Edit.all (shells.map fun built => target.place context (.nested built)) shell := by
  cases target with
  | single field => rfl
  | repeated field =>
    rw [Builder.placing, Edit.all_cons, Edit.all_nil, ← Edit.all_elements, Edit.elements, List.map_map]
    rfl
  | keyed field key =>
    rw [Builder.placing, Edit.all_cons, Edit.all_nil, ← Edit.all_elements, Edit.elements, List.map_map]
    rfl

end Target

/-! ### What is told does not matter -/

namespace Builder.Bench

/-- Two benches that differ in what was told only. -/
structure Agrees (bench other : Bench Context) : Prop where
  builder : bench.builder = other.builder
  builders : bench.builders = other.builders
  shells : bench.shells = other.shells

namespace Agrees

variable {bench other : Bench Context}

theorem refl (bench : Bench Context) : bench.Agrees bench := ⟨rfl, rfl, rfl⟩

theorem ran (agrees : bench.Agrees other) (depth further : Nat) (label : String) :
    (bench.ran depth label).Agrees (other.ran further label) := ⟨agrees.builder, agrees.builders, agrees.shells⟩

theorem tell (agrees : bench.Agrees other) (log further : List (Record Context)) :
    (bench.tell log).Agrees (other.tell further) := ⟨agrees.builder, agrees.builders, agrees.shells⟩

theorem withBuilder (agrees : bench.Agrees other) (builder : Builder Context) :
    (bench.withBuilder builder).Agrees (other.withBuilder builder) := ⟨rfl, agrees.builders, agrees.shells⟩

end Agrees

end Builder.Bench

open Builder (Bench)

mutual

/-- The depth of nesting and what was told before have no part in what an instruction does. -/
theorem Instruction.run_agrees (depth further : Nat) {bench other : Bench Context} (agrees : bench.Agrees other) :
    ∀ instruction : Instruction Context, (instruction.run depth bench).Agrees (instruction.run further other)
  | .edit label edit => by
    simp only [Instruction.run, agrees.builder]
    exact (agrees.withBuilder _).ran depth further label
  | .build label target specs => by
    simp only [Instruction.run, agrees.builder, Spec.shells_told depth further _ specs]
    exact ((agrees.tell _ _).withBuilder _).ran depth further label
  | .include label body => by
    have inner := Instruction.runAll_agrees (depth + 1) (further + 1) (.refl other.builder.bench) body
    simp only [Instruction.run, agrees.builder, inner.builder]
    exact ((agrees.tell _ _).withBuilder _).ran depth further label
  | .within label contexts body => by
    simp only [Instruction.run, agrees.builder]
    refine Bench.Agrees.ran ?_ depth further label
    generalize contexts other.builder.context = list
    generalize other.builder.context = outer
    induction list generalizing bench other with
    | nil => exact agrees
    | cons context rest ih =>
      have inner := Instruction.runAll_agrees (depth + 1) (further + 1)
        (.refl (other.builder.under context).bench) body
      simp only [List.foldl_cons, agrees.builder, inner.builder]
      exact ih ((agrees.tell _ _).withBuilder _)
  | .split label id context => by
    simp only [Instruction.run, agrees.builder, agrees.builders]
    exact ⟨rfl, rfl, agrees.shells⟩
  | .on label id body => by
    simp only [Instruction.run, agrees.builders]
    cases OrderedMap.get? other.builders id with
    | none => exact agrees.ran depth further label
    | some kept =>
      have inner := Instruction.runAll_agrees (depth + 1) (further + 1) (.refl kept.bench) body
      simp only [inner.builder]
      exact ⟨agrees.builder, rfl, agrees.shells⟩
  | .merge label id => by
    simp only [Instruction.run, agrees.builder, agrees.builders]
    cases OrderedMap.get? other.builders id with
    | none => exact agrees.ran depth further label
    | some kept => exact ⟨rfl, rfl, agrees.shells⟩
  | .snapshot label id => by
    simp only [Instruction.run, agrees.builder, agrees.shells]
    exact ⟨rfl, agrees.builders, rfl⟩
  | .show label id => by
    simp only [Instruction.run, agrees.shells]
    cases OrderedMap.get? other.shells id with
    | none => exact agrees.ran depth further label
    | some shell => exact (agrees.tell _ _).ran depth further label
  | .reset label => by
    simp only [Instruction.run, agrees.builder]
    exact (agrees.withBuilder _).ran depth further label

theorem Instruction.runAll_agrees (depth further : Nat) {bench other : Bench Context} (agrees : bench.Agrees other) :
    ∀ body : List (Instruction Context), (Instruction.runAll depth bench body).Agrees (Instruction.runAll further other body)
  | [] => agrees
  | instruction :: rest =>
    Instruction.runAll_agrees depth further (Instruction.run_agrees depth further agrees instruction) rest

theorem Spec.build_told (depth further : Nat) (context : Context) :
    ∀ spec : Spec Context, (spec.build depth context).1 = (spec.build further context).1
  | .record type body => by
    have inner := Instruction.runAll_agrees (depth + 1) (further + 1) (.refl (Builder.new context type).bench) body
    simp only [Spec.build, inner.builder]
  | .variant union tag spec => by simp only [Spec.build, Spec.build_told depth further context spec]
  | .ready shell => rfl

theorem Spec.shells_told (depth further : Nat) (context : Context) :
    ∀ specs : List (Spec Context), (Spec.shells depth context specs).1 = (Spec.shells further context specs).1
  | [] => rfl
  | spec :: rest => by
    simp only [Spec.shells, Spec.build_told depth further context spec, Spec.shells_told depth further context rest]

end

/-- Several specs make the shells that each of them makes by itself. -/
theorem Spec.shells_eq_map (depth : Nat) (context : Context) (specs : List (Spec Context)) :
    (Spec.shells depth context specs).1 = specs.map fun spec => spec.shell context := by
  induction specs with
  | nil => rfl
  | cons spec rest ih => simp only [Spec.shells, ih, Spec.build_told depth 0 context spec, Spec.shell, List.map_cons]

/-! ### The flat list -/

mutual

/-- Made of setters and of included bodies only, at any depth. -/
def Instruction.composed : Instruction Context → Bool
  | .edit _ _ | .build _ _ _ => true
  | .include _ body | .within _ _ body => Instruction.allComposed body
  | .split _ _ _ | .on _ _ _ | .merge _ _ | .snapshot _ _ | .show _ _ | .reset _ => false

def Instruction.allComposed : List (Instruction Context) → Bool
  | [] => true
  | instruction :: rest => instruction.composed && Instruction.allComposed rest

end

mutual

/-- The edits that an instruction stands for under a context, one node or one pair of nodes each. -/
def Instruction.inline (context : Context) : Instruction Context → List Edit
  | .edit _ change => (change context).elements
  | .build _ target specs => specs.map fun spec => target.place context (spec.node context)
  | .include _ body => Instruction.inlineAll context body
  | .within _ contexts body => (contexts context).flatMap fun inner => Instruction.inlineAll inner body
  | .split _ _ _ | .on _ _ _ | .merge _ _ | .snapshot _ _ | .show _ _ | .reset _ => []

/-- The edits that a body stands for under a context, in the order of its instructions. -/
def Instruction.inlineAll (context : Context) : List (Instruction Context) → List Edit
  | [] => []
  | instruction :: rest => instruction.inline context ++ Instruction.inlineAll context rest

end

namespace Instruction

theorem inlineAll_eq_flatMap (context : Context) (body : List (Instruction Context)) :
    inlineAll context body = body.flatMap fun instruction => instruction.inline context := by
  induction body with
  | nil => rfl
  | cons instruction rest ih => rw [inlineAll, ih, List.flatMap_cons]

theorem inlineAll_append (context : Context) (first second : List (Instruction Context)) :
    inlineAll context (first ++ second) = inlineAll context first ++ inlineAll context second := by
  simp only [inlineAll_eq_flatMap, List.flatMap_append]

/-- Instructions made from items, each of which stands for one edit. -/
theorem inlineAll_map {α : Type} (context : Context) {instruction : α → Instruction Context} {edit : α → Edit}
    (each : ∀ item, (instruction item).inline context = [edit item]) (items : List α) :
    inlineAll context (items.map instruction) = items.map edit := by
  rw [inlineAll_eq_flatMap, List.flatMap_map, List.map_eq_flatMap]
  exact congrArg (items.flatMap ·) (funext each)

mutual

/-- Edits of the flat list are single: none has further elements. -/
theorem elements_of_inline (context : Context) {edit : Edit} :
    ∀ instruction : Instruction Context, edit ∈ instruction.inline context → edit.elements = [edit]
  | .edit _ _, member => Edit.elements_of_mem member
  | .build _ target specs, member => by
    obtain ⟨spec, -, rfl⟩ := List.mem_map.mp member
    exact target.elements_place context (spec.node context)
  | .include _ body, member => elements_of_inlineAll context body member
  | .within _ contexts body, member => by
    obtain ⟨inner, -, below⟩ := List.mem_flatMap.mp member
    exact elements_of_inlineAll inner body below

theorem elements_of_inlineAll (context : Context) {edit : Edit} :
    ∀ body : List (Instruction Context), edit ∈ inlineAll context body → edit.elements = [edit]
  | instruction :: rest, member => by
    obtain first | later := List.mem_append.mp member
    · exact elements_of_inline context instruction first
    · exact elements_of_inlineAll context rest later

end

/-- Parts put in at once are put in one after another. -/
theorem inline_build (context : Context) (label each : String) (target : Target Context) (specs : List (Spec Context)) :
    (Instruction.build label target specs).inline context =
      inlineAll context (specs.map fun spec => .build each target [spec]) := by
  rw [inlineAll_map context (fun _ => rfl), inline]

end Instruction

namespace Builder

/-- The builder after edits. -/
def after (builder : Builder Context) (edits : List Edit) : Builder Context := builder.update (Edit.all edits)

@[simp]
theorem after_context (builder : Builder Context) (edits : List Edit) :
    (builder.after edits).context = builder.context := rfl

@[simp]
theorem after_shell (builder : Builder Context) (edits : List Edit) :
    (builder.after edits).shell = Edit.all edits builder.shell := rfl

theorem after_after (builder : Builder Context) (edits others : List Edit) :
    (builder.after edits).after others = builder.after (edits ++ others) := by
  simp only [after, update, Edit.all_append]

/-- What is built under another context is kept, that context is not. -/
theorem under_after (builder : Builder Context) (context : Context) (edits : List Edit) :
    ((builder.under context).after edits).under builder.context = builder.after edits := rfl

end Builder

/-- A body that amounts to edits, run under one context after another, amounts to its edits under all of them. -/
theorem Instruction.foldl_within (depth : Nat) (outer : Context) {body : List (Instruction Context)}
    {edits : Context → List Edit}
    (inlined : ∀ builder : Builder Context,
      (Instruction.runAll (depth + 1) builder.bench body).builder = builder.after (edits builder.context))
    (contexts : List Context) (bench : Bench Context) (present : bench.builder.context = outer) :
    (contexts.foldl
      (fun (bench : Bench Context) context =>
        let inner := Instruction.runAll (depth + 1) (bench.builder.under context).bench body
        (bench.tell inner.log).withBuilder (inner.builder.under outer))
      bench).builder = bench.builder.after (contexts.flatMap edits) := by
  induction contexts generalizing bench with
  | nil => rfl
  | cons context rest ih =>
    have once : ((Instruction.runAll (depth + 1) (bench.builder.under context).bench body).builder.under outer) =
        bench.builder.after (edits context) := by
      rw [inlined, ← present]
      exact bench.builder.under_after context (edits context)
    rw [List.foldl_cons, ih _ rfl, List.flatMap_cons, ← Builder.after_after]
    exact congrArg (fun builder => builder.after (rest.flatMap edits)) once

mutual

/-- An instruction leaves the builder as its edits do. -/
theorem Instruction.run_builder (depth : Nat) (bench : Bench Context) :
    ∀ instruction : Instruction Context, instruction.composed = true →
      (instruction.run depth bench).builder = bench.builder.after (instruction.inline bench.builder.context)
  | .edit label change, _ => by
    simp only [Instruction.run, Instruction.inline, Builder.after]
    exact congrArg bench.builder.update (funext fun shell => ((change bench.builder.context).all_elements shell).symm)
  | .build label target specs, _ => by
    have shells := Spec.shells_eq_map depth bench.builder.context specs
    have placed := target.all_placing bench.builder.context (specs.map fun spec => spec.shell bench.builder.context)
    simp only [Instruction.run, Instruction.inline, Builder.after, shells]
    refine congrArg bench.builder.update (funext fun shell => (placed shell).trans ?_)
    rw [List.map_map]
    rfl
  | .include label body, composed =>
    Instruction.runAll_builder (depth + 1) bench.builder.bench body composed
  | .within label contexts body, composed =>
    Instruction.foldl_within depth bench.builder.context
      (fun builder => Instruction.runAll_builder (depth + 1) builder.bench body composed) (contexts _) bench rfl

/-- A body leaves the builder as its flat list of edits does. -/
theorem Instruction.runAll_builder (depth : Nat) (bench : Bench Context) :
    ∀ body : List (Instruction Context), Instruction.allComposed body = true →
      (Instruction.runAll depth bench body).builder =
        bench.builder.after (Instruction.inlineAll bench.builder.context body)
  | [], _ => rfl
  | instruction :: rest, composed => by
    obtain ⟨first, later⟩ := (Bool.and_eq_true _ _).mp composed
    have head := Instruction.run_builder depth bench instruction first
    rw [Instruction.runAll, Instruction.runAll_builder depth _ rest later, head, Builder.after_context,
      Builder.after_after, Instruction.inlineAll]

end

/-- A record is made by the flat list of its body from the shell with nothing set. -/
theorem Spec.shell_record (type : EntityType) {body : List (Instruction Context)}
    (composed : Instruction.allComposed body = true) (context : Context) :
    (Spec.record type body).shell context = Edit.all (Instruction.inlineAll context body) (Shell.blank type) :=
  congrArg Builder.shell (Instruction.runAll_builder 1 (Builder.new context type).bench body composed)

namespace Setter

open Instruction

/-- Several steps are added one after another. -/
theorem inlineAll_addAllSteps (context : Context) (specs : List (Spec Context)) :
    inlineAll context [addAllSteps specs] = inlineAll context (specs.map addStep) := by
  rw [inlineAll, inlineAll, List.append_nil]
  exact inline_build context _ _ _ specs

/-- Several environment variables are put one after another. -/
theorem inlineAll_putAllEnvironment (context : Context) (pairs : Context → List (String × String)) :
    inlineAll context [putAllEnvironment pairs] =
      inlineAll context ((pairs context).map fun pair => putEnvironment (fun _ => pair.1) (fun _ => pair.2)) := by
  rw [inlineAll_map context (fun _ => rfl), inlineAll, inlineAll, List.append_nil]
  exact List.map_map

end Setter

namespace Builder

open Instruction

/-- Composition is inlining. A body of setters and of included bodies, whatever the contexts these are run under, keeps
the context of the builder and does to its shell what the single edits of the flat list do one after another; what adds
several steps or environment variables counts as what adds each of them. A spec that a setter builds contributes a node
that the context of the builder decides and its shell does not, and that is made in the same way from a shell with
nothing set. -/
theorem run_inlines (builder : Builder Context) {body : List (Instruction Context)}
    (composed : allComposed body = true) :
    (builder.run body).1.context = builder.context ∧
    (builder.run body).1.shell =
      (inlineAll builder.context body).foldl (fun shell edit => edit.onShell shell) builder.shell ∧
    (∀ edit ∈ inlineAll builder.context body, edit.elements = [edit]) ∧
    (∀ (context : Context) (specs : List (Spec Context)),
      inlineAll context [Setter.addAllSteps specs] = inlineAll context (specs.map Setter.addStep)) ∧
    (∀ (context : Context) (pairs : Context → List (String × String)),
      inlineAll context [Setter.putAllEnvironment pairs] =
        inlineAll context
          ((pairs context).map fun pair => Setter.putEnvironment (fun _ => pair.1) (fun _ => pair.2))) ∧
    (∀ (other : Builder Context) (label : String) (target : Target Context) (spec : Spec Context),
      (other.run [.build label target [spec]]).1.shell =
        (target.place other.context (spec.node other.context)).onShell other.shell) ∧
    ∀ (type : EntityType) (inner : List (Instruction Context)) (context : Context), allComposed inner = true →
      (Spec.record type inner).node context =
        .nested ((inlineAll context inner).foldl (fun shell edit => edit.onShell shell) (Shell.blank type)) := by
  have inlined : (builder.run body).1 = builder.after (inlineAll builder.context body) :=
    runAll_builder 1 builder.bench body composed
  refine ⟨?_, ?_, fun edit => ?_, ?_, ?_, ?_, ?_⟩
  · rw [inlined, after_context]
  · rw [inlined, after_shell, Edit.all]
  · exact elements_of_inlineAll builder.context body
  · exact Setter.inlineAll_addAllSteps
  · exact Setter.inlineAll_putAllEnvironment
  · intro other label target spec
    exact congrArg Builder.shell (runAll_builder 1 other.bench [.build label target [spec]] rfl)
  · intro type inner context composedInner
    exact congrArg Node.nested (Spec.shell_record type composedInner context)

/-- A job with a step for each of two contexts, and under each of them one more, computed from it. -/
def matrix : List (Instruction Nat) :=
  [Setter.name fun context => if context = 0 then "matrix" else "other",
   .within "include_for_each" (fun context => [context + 1, context + 2])
    [Setter.putEnvironment (fun context => if context = 1 then "A" else "B") (fun _ => "1"),
     .include "include"
      [.within "include_with" (fun context => [context * 10])
        [Setter.addStep (.record .runStep [Setter.command fun context => if context = 10 then "lint" else "test"])]]],
   Setter.image fun context => if context = 0 then "outer" else "inner"]

theorem run_inlines_matrix :
    allComposed matrix = true ∧
    ((Builder.new 0 .job).run matrix).1.shell =
      [Edit.set "name" (.literal (.text "matrix")),
       .put "environment" [(.literal (.text "A"), .literal (.text "1"))],
       .append "steps" [(Spec.record .runStep [Setter.command fun _ => "lint"]).node 10],
       .put "environment" [(.literal (.text "B"), .literal (.text "1"))],
       .append "steps" [(Spec.record .runStep [Setter.command fun _ => "test"]).node 20],
       .set "image" (.literal (.text "outer"))].foldl
        (fun shell edit => edit.onShell shell) (Shell.blank .job) :=
  ⟨rfl, (@run_inlines Nat (Builder.new 0 .job) matrix rfl).2.1⟩

end Builder

end Blueprint
