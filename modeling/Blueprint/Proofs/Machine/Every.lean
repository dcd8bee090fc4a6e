import Blueprint.Proofs.Machine.Advance
import Blueprint.Proofs.Task.Every
/-! What a machine is about to do comes of what it was about to do. A condition that every simple task hands on
to those that come of it is met by all that a machine does, once all that it is about to do meets it. -/

namespace Blueprint

/-- A condition that every simple task hands on to those that come of it: a shell to its fields, a field to
its nodes, a reference to the node of the entry that it names. -/
structure Demand.HandedOn (demand : Demand) (contents : Contents) : Prop where
  literal : ∀ owner value scope, demand owner (.node (.literal value) scope)
  nested : ∀ {owner shell scope}, demand owner (.node (.nested shell) scope) → demand owner (.shell shell scope)
  record : ∀ {owner type fields scope}, demand owner (.shell (.record type fields) scope) →
    ∀ field ∈ (type.plan fields).flatten, demand owner (.field type.entityName field.1 field.2 scope)
  union : ∀ {owner type tag shell scope}, demand owner (.shell (.variant type tag shell) scope) →
    demand owner (.variant tag shell scope)
  variant : ∀ {owner tag shell scope}, demand owner (.variant tag shell scope) → demand owner (.shell shell scope)
  stalled : ∀ {owner type counter scope}, demand owner (.shell (.stalled type counter) scope) →
    demand owner .forever
  delayed : ∀ {owner type node delay scope}, demand owner (.shell (.delayed type node delay) scope) →
    demand owner (.node node scope)
  required : ∀ {owner entity name node scope}, demand owner (.field entity name (.required (some node)) scope) →
    demand owner (.node node (scope.field name))
  optional : ∀ {owner entity name node scope}, demand owner (.field entity name (.optional (some node)) scope) →
    demand owner (.node node (scope.field name))
  repeated : ∀ {owner entity name nodes scope}, demand owner (.field entity name (.repeated nodes) scope) →
    ∀ position (inside : position < nodes.length),
      demand owner (.node nodes[position] ((scope.field name).index position))
  keyed : ∀ {owner entity name pairs scope}, demand owner (.field entity name (.keyed pairs) scope) →
    ∀ position (inside : position < pairs.length),
      demand owner (.node pairs[position].1 (((scope.field name).index position).field "key")) ∧
        demand owner (.node pairs[position].2 (((scope.field name).index position).field "value"))
  fetch : ∀ {owner type name scope payload}, demand owner (.node (.reference type name) scope) →
    contents.origin? (Node.keyOf type name) = some (.deferred payload) →
    ∀ ticket, demand owner (.waiting ⟨type, name, scope, payload⟩ ticket)
  begin : ∀ {owner fetch ticket node}, demand owner (.waiting fetch ticket) →
    contents.node? fetch.key = some node → demand (some fetch.key) (.node node fetch.inner)

namespace Machine

/-- The machine is failing, or all that it is about to do meets a condition. -/
def Every (demand : Demand) (machine : Machine) : Prop :=
  match machine.control with
  | .finish (.error _) => True
  | _ => machine.whole.Every demand none

variable {demand : Demand} {contents : Contents} {roots : List Key} {others : Multiset Hold}
  {machine : Machine} {world : World}

theorem ofTasks_every {id limit : Nat} {tasks : List Task} {owner : Option Key}
    (every : ∀ position (inside : position < tasks.length), tasks[position].Every demand owner) :
    (Task.fan (.ofTasks id limit tasks)).Every demand owner := by
  refine Task.every_fan.mpr fun element member => ?_
  rw [Fan.ofTasks, List.append_nil] at member
  obtain ⟨position, inside, rfl⟩ := List.mem_mapIdx.mp member
  exact every position inside

section Here

variable (handed : demand.HandedOn contents) (around : EveryAround demand machine.layers)

section Places

include around

theorem poll_every {task : Task} (every : task.Every demand (ownerWithin machine.layers)) :
    (machine.poll task).Every demand :=
  every_surround.mpr ⟨every, around⟩

theorem rest_every {task : Task} (every : task.Every demand (ownerWithin machine.layers)) :
    (machine.rest task).Every demand :=
  every_surround.mpr ⟨every, around⟩

theorem pollWithin_every {layer : Layer} {task : Task}
    (every : (layer.around task).Every demand (ownerWithin machine.layers)) :
    (machine.pollWithin layer task).Every demand := by
  change (machine.pollWithin layer task).whole.Every demand none
  rw [pollWithin_whole]
  exact every_surround.mpr ⟨every, around⟩

theorem sleep_every (delay : Nat) {next : Task} (every : next.Every demand (ownerWithin machine.layers)) :
    (machine.sleep delay next world).1.Every demand := by
  unfold sleep
  split
  · exact poll_every around every
  · exact rest_every around every

end Places

include handed around

theorem finish_every (result : Except ResolveError Value) : (machine.finish result).Every demand := by
  cases result with
  | ok value => exact every_surround.mpr ⟨handed.literal _ _ _, around⟩
  | error error => trivial

theorem nextPart_every {before after : List (Part Task)}
    (every : ∀ task, .running task ∈ before ++ after → task.Every demand (ownerWithin machine.layers)) :
    (machine.nextPart before after).Every demand := by
  induction after generalizing before with
  | nil =>
    unfold nextPart
    split
    · exact finish_every handed around _
    · exact rest_every around (Task.every_join.mpr (by simpa using every))
  | cons part later ih =>
    cases part with
    | done value => exact ih (by simpa using every)
    | running task => exact pollWithin_every around (Task.every_join.mpr every)

theorem nextStage_every (type : EntityType) (scope : Scope) (done : List (String × Value))
    {stages : List (List (String × Slot))} (every : ∀ field ∈ stages.flatten,
      demand (ownerWithin machine.layers) (.field type.entityName field.1 field.2 scope)) :
    (machine.nextStage type scope done stages).Every demand := by
  cases stages with
  | nil => exact finish_every handed around _
  | cons fields later =>
    refine pollWithin_every around ⟨fun field member => ?_, Task.every_join.mpr fun task member => ?_⟩
    · exact every field (List.mem_append_right _ member)
    · obtain ⟨field, listed, same⟩ := List.mem_map.mp member
      cases same
      exact every field (List.mem_append_left _ listed)

theorem nextElement_every {fan : Fan Task} (tally : Tally)
    (every : (Task.fan fan).Every demand (ownerWithin machine.layers)) :
    (machine.nextElement fan tally world).1.Every demand := by
  unfold nextElement
  split
  · split
    · exact finish_every handed around _
    · exact rest_every around every
  next position later found =>
    split
    · exact rest_every around every
    next task listed =>
      refine pollWithin_every around (Task.every_fan.mpr fun element member => Task.every_fan.mp every element ?_)
      rw [List.mem_append] at member ⊢
      rcases member with queued | running
      · exact .inl queued
      · rcases List.mem_cons.mp running with rfl | other
        · exact .inr (OrderedMap.mem_of_get? listed)
        · exact .inr (List.mem_filter.mp other).1

theorem runFan_every {fan : Fan Task} (every : (Task.fan fan).Every demand (ownerWithin machine.layers)) :
    (machine.runFan fan world).1.Every demand := by
  refine nextElement_every handed around _ (Task.every_fan.mpr fun element member =>
    Task.every_fan.mp every element ?_)
  exact (refill_perm fan).mem_iff.mp member

theorem pollField_every {entity name : String} {slot : Slot} {scope : Scope}
    (meets : demand (ownerWithin machine.layers) (.field entity name slot scope)) :
    (machine.pollField entity name slot (scope.field name) world).1.Every demand := by
  unfold pollField
  split
  · exact finish_every handed around _
  · exact poll_every around (handed.required meets)
  · exact finish_every handed around _
  · exact pollWithin_every around ⟨trivial, handed.optional meets⟩
  next nodes =>
    refine poll_every around (ofTasks_every fun position inside => ?_)
    rw [List.length_mapIdx] at inside
    rw [List.getElem_mapIdx]
    exact handed.repeated meets position inside
  next pairs =>
    refine pollWithin_every around ⟨trivial, ofTasks_every fun position inside => ?_⟩
    rw [List.length_mapIdx] at inside
    rw [List.getElem_mapIdx]
    have both := handed.keyed meets position inside
    refine Task.every_join.mpr fun task listed => ?_
    simp only [List.mem_cons, Part.running.injEq, List.not_mem_nil, or_false] at listed
    rcases listed with rfl | rfl
    · exact both.1
    · exact both.2

theorem pollShell_every {shell : Shell} {scope : Scope}
    (meets : demand (ownerWithin machine.layers) (.shell shell scope)) :
    (machine.pollShell shell scope world).1.Every demand := by
  unfold pollShell
  split
  · exact nextStage_every handed around _ _ _ (handed.record meets)
  · exact poll_every around (handed.union meets)
  · exact sleep_every around _ (handed.literal _ _ _)
  · exact rest_every around (handed.stalled meets)
  · exact sleep_every around _ (handed.delayed meets)

theorem beginFetch_every {fetch : Fetch} {ticket : Nat}
    (meets : demand (ownerWithin machine.layers) (.waiting fetch ticket))
    (registered : contents.origin? fetch.key = some (.deferred fetch.payload)) :
    (machine.beginFetch fetch world).1.Every demand := by
  unfold beginFetch
  split
  next type node payload =>
    split
    next same =>
      have found : contents.node? fetch.key = some node :=
        Contents.node?_eq_some_iff.mpr (by rw [registered, payload, same]; rfl)
      exact pollWithin_every around ⟨trivial, handed.begin meets found⟩
    next => trivial
  next => trivial

theorem dereference_every {type : EntityType} {name : String} {scope : Scope}
    (meets : demand (ownerWithin machine.layers) (.node (.reference type name) scope))
    (account : Task.Account contents roots others
      (surround machine.layers (.node (.reference type name) scope)) world) :
    (machine.dereference type name scope world).1.Every demand := by
  have arrives := account.arrives machine.strands
  unfold dereference
  simp only [World.take, World.arrive]
  generalize world.registry.arrive type.typeName (Node.keyOf type name) scope.owner
    ⟨world.fresh, machine.strands⟩ = outcome at arrives
  cases arrives with
  | missing | found | cycle => exact finish_every handed around _
  | turn registered => exact beginFetch_every handed around (handed.fetch meets registered world.fresh) registered
  | queued registered => exact rest_every around (handed.fetch meets registered world.fresh)

theorem awaken_every {fetch : Fetch} {ticket : Nat}
    (meets : demand (ownerWithin machine.layers) (.waiting fetch ticket))
    (account : Task.Account contents roots others (surround machine.layers (.waiting fetch ticket)) world) :
    (machine.awaken fetch ticket world).1.Every demand := by
  unfold awaken
  split
  · exact rest_every around meets
  · exact finish_every handed around _
  · exact finish_every handed around _
  · exact beginFetch_every handed around meets (account.waiting.waits fetch ticket rfl)

end Here

section Steps

variable {operation : Nat} {layers : List Layer} {layer : Layer} {task : Task}
  (handed : demand.HandedOn contents)

include handed

theorem pollTask_every (account : Task.Account contents roots others (surround machine.layers task) world)
    (every : (surround machine.layers task).Every demand none) : (machine.pollTask task world).1.Every demand := by
  obtain ⟨own, around⟩ := every_surround.mp every
  unfold pollTask
  split
  · exact finish_every handed around _
  · exact dereference_every handed around own account
  · exact poll_every around (handed.nested own)
  · exact pollShell_every handed around own
  · exact pollWithin_every around ⟨trivial, handed.variant own⟩
  · exact pollField_every handed around own
  · split
    · exact poll_every around own
    · exact rest_every around own
  · exact rest_every around own
  · exact awaken_every handed around own account
  · exact pollWithin_every around own
  · exact nextPart_every handed around (Task.every_join.mp own)
  · exact runFan_every handed around own

theorem restIn_every (every : (surround machine.layers (layer.around task)).Every demand none) :
    (machine.restIn layer task world).1.Every demand := by
  obtain ⟨own, around⟩ := every_surround.mp every
  unfold restIn
  split
  next frame => exact rest_every around own
  next before after =>
    refine nextPart_every handed around fun other member => Task.every_join.mp own other ?_
    simpa using member
  next fan position tally =>
    have goes : ∀ tally : Tally, (if 2 ≤ tally.yielded ∨ tally.polled = tally.total then
        (machine.rest (.fan { fan with running := (position, task) :: fan.running }),
          world.wake machine.strands)
        else machine.nextElement { fan with running := (position, task) :: fan.running } tally
          world).1.Every demand := by
      intro tally
      split
      · exact rest_every around own
      · exact nextElement_every handed around tally own
    exact goes _

theorem finishIn_every {value : Value} {scope : Scope}
    (every : (surround machine.layers (layer.around (.node (.literal value) scope))).Every demand none) :
    (machine.finishIn layer value world).1.Every demand := by
  obtain ⟨own, around⟩ := every_surround.mp every
  unfold finishIn
  split
  next frame =>
    unfold finishFrame
    split
    · exact finish_every handed around _
    · exact finish_every handed around _
    · exact finish_every handed around _
    · exact finish_every handed around _
    · exact nextStage_every handed around _ _ _ own.1
  next before after =>
    refine nextPart_every handed around fun task member => Task.every_join.mp own task ?_
    simp only [List.mem_append, List.mem_cons, reduceCtorEq, List.not_mem_nil, or_false] at member ⊢
    exact member.imp_right .inr
  next fan position tally =>
    refine runFan_every handed around (Task.every_fan.mpr fun element member => Task.every_fan.mp own element ?_)
    rw [List.mem_append] at member ⊢
    exact member.imp_right (List.mem_cons_of_mem _)

/-- A condition that is handed on holds of what a machine is about to do after every step. -/
theorem step_every {after : Machine} {later : World} (account : machine.Account contents roots others world)
    (every : machine.Every demand) (step : machine.step world = some (after, later)) : after.Every demand := by
  change (after, later).1.Every demand
  obtain ⟨whole, _⟩ := account
  generalize (after, later) = result at step ⊢
  cases step_steps step with
  | poll => exact pollTask_every handed whole every
  | rest => exact restIn_every handed every
  | finish => exact finishIn_every handed every
  | fail => trivial

end Steps

end Machine

end Blueprint
