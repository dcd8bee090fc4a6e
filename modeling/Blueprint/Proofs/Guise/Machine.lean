import Blueprint.Proofs.Guise.World
import Blueprint.Proofs.Machine.Onward
/-! A machine steps in the same way in every guise. A step takes at most one number; where it takes one, the number
has to correspond to the one that the other machine takes. -/

namespace Blueprint

open World (Alike)

variable {guise : Guise} {lag : Nat} {one two : World}

/-- What one machine comes to, and what the other one comes to. -/
structure Reflects (guise : Guise) (lag : Nat) (first second : Machine × World) : Prop where
  machine : second.1 = guise.machine first.1
  world : Alike guise lag first.2 second.2

/-- Either no number is taken on the way, or the one that is taken corresponds. -/
def Guise.Numbered (guise : Guise) (lag : Nat) (before after : World) : Prop :=
  after.fresh = before.fresh ∨ guise.number before.fresh = before.fresh + lag

theorem Guise.Numbered.of_taken {after : World} (numbered : guise.Numbered lag one after)
    (taken : after.fresh = one.fresh + 1) : guise.number one.fresh = one.fresh + lag :=
  numbered.resolve_left (by omega)

theorem World.Alike.span (alike : Alike guise lag one two) (setting : Config) (entity : String) (path : Path) :
    Alike guise lag (if setting.spanPerEntity then one.emit (.span entity path) else one)
      (if (guise.config setting).spanPerEntity then two.emit (.span entity path) else two) := by
  have emit_if : ∀ (world : World) (told : Bool), (if told then world.emit (.span entity path) else world) =
      { world with events := if told then world.events ++ [.span entity path] else world.events } := by
    intro world told
    cases told <;> rfl
  rw [emit_if, emit_if]
  exact { alike with events := guise.spans setting entity path alike.events }

theorem World.Alike.nextElement? (alike : Alike guise lag one two) (fan : Nat) :
    (one.nextElement? fan = none ∧ two.nextElement? (guise.number fan) = none) ∨
      ∃ position first second, one.nextElement? fan = some (position, first) ∧
        two.nextElement? (guise.number fan) = some (position, second) ∧ Alike guise lag first second := by
  have found : two.ready.find? (Strand.isElementOf (guise.number fan)) =
      (one.ready.find? (Strand.isElementOf fan)).map guise.strand := by
    rw [alike.ready, List.find?_map]
    congr 2
    funext strand
    exact guise.isElementOf strand fan
  unfold World.nextElement?
  rw [found]
  cases one.ready.find? (Strand.isElementOf fan) with
  | none => exact .inl ⟨rfl, rfl⟩
  | some strand =>
    cases strand with
    | operation id => exact .inl ⟨rfl, rfl⟩
    | element id position => exact .inr ⟨position, _, _, rfl, rfl, alike.erase (.element id position)⟩

namespace Machine

variable (machine : Machine)

theorem nextPart_guise (before parts : List (Part Task)) :
    (guise.machine machine).nextPart (before.map guise.part) (parts.map guise.part) =
      guise.machine (machine.nextPart before parts) := by
  induction parts generalizing before with
  | nil =>
    have values : (before.map guise.part).mapM Part.value? = before.mapM Part.value? := by
      have each : Part.value? ∘ guise.part = Part.value? := by
        funext part
        cases part <;> rfl
      rw [mapM_eq_collect, mapM_eq_collect, List.map_map, each]
    simp only [nextPart, List.map_nil, values]
    cases before.mapM Part.value? <;> simp
  | cons part after ih =>
    cases part with
    | done value =>
      have next := ih (before ++ [.done value])
      rw [List.map_append] at next
      exact next
    | running task => rfl

theorem nextStage_guise (type : EntityType) (scope : Scope) (done : List (String × Value))
    (stages : List (List (String × Slot))) :
    (guise.machine machine).nextStage type (guise.scope scope) done stages =
      guise.machine (machine.nextStage type scope done stages) := by
  cases stages with
  | nil => rfl
  | cons fields later => simp [nextStage, Guise.layer, Guise.frame, Guise.stage, Function.comp_def]

theorem sleep_reflects (delay : Nat) (next : Task) (alike : Alike guise lag one two)
    (numbered : guise.Numbered lag one (machine.sleep delay next one).2) :
    Reflects guise lag (machine.sleep delay next one)
      ((guise.machine machine).sleep delay (guise.task next) two) := by
  unfold sleep at numbered ⊢
  split
  next => exact ⟨rfl, alike⟩
  next long =>
    rw [if_neg long] at numbered
    obtain ⟨id, set⟩ := alike.setTimer (numbered.of_taken rfl) (one.now + delay) machine.strands
    dsimp only
    rw [alike.now, guise.strands_machine, id]
    exact ⟨rfl, set⟩

theorem beginFetch_fresh (fetch : Fetch) (world : World) : (machine.beginFetch fetch world).2.fresh = world.fresh := by
  unfold beginFetch
  split
  · split <;> rfl
  · rfl

theorem beginFetch_reflects (fetch : Fetch) (alike : Alike guise lag one two) :
    Reflects guise lag (machine.beginFetch fetch one)
      ((guise.machine machine).beginFetch (guise.fetch fetch) two) := by
  have begun := alike.emit (.initializing fetch.key)
  obtain ⟨type, name, scope, payload⟩ := fetch
  cases payload with
  | text content => exact ⟨rfl, begun⟩
  | node kind node =>
    by_cases same : kind = type.typeName
    · simp only [beginFetch, Guise.fetch, same, if_true]
      exact ⟨rfl, begun.emit _⟩
    · simp only [beginFetch, Guise.fetch, same, if_false]
      exact ⟨rfl, begun⟩

/-- How a machine goes on when a fetch has begun. -/
def arrived (type : EntityType) (name : String) (scope : Scope) (ticket : Nat) :
    Registry.Arrival × World → Machine × World
  | (.refused error, world) => (machine.finish (.error (.ofRegistry error scope.path)), world)
  | (.found value, world) => (machine.finish (.ok value), world)
  | (.turn payload, world) => machine.beginFetch ⟨type, name, scope, payload⟩ world
  | (.queued payload, world) => (machine.rest (.waiting ⟨type, name, scope, payload⟩ ticket), world)

theorem dereference_eq (type : EntityType) (name : String) (scope : Scope) (world : World) :
    machine.dereference type name scope world = machine.arrived type name scope world.take.1
      (world.take.2.arrive type.typeName (Node.keyOf type name) scope.owner ⟨world.take.1, machine.strands⟩) := rfl

theorem arrived_fresh (type : EntityType) (name : String) (scope : Scope) (ticket : Nat)
    (arrival : Registry.Arrival × World) :
    (machine.arrived type name scope ticket arrival).2.fresh = arrival.2.fresh := by
  obtain ⟨arrival, world⟩ := arrival
  cases arrival with
  | turn payload => exact machine.beginFetch_fresh _ world
  | _ => rfl

theorem arrived_reflects (type : EntityType) (name : String) (scope : Scope) (ticket : Nat)
    {first second : Registry.Arrival × World} (same : second.1 = first.1) (alike : Alike guise lag first.2 second.2) :
    Reflects guise lag (machine.arrived type name scope ticket first)
      ((guise.machine machine).arrived type name (guise.scope scope) (guise.number ticket) second) := by
  obtain ⟨arrival, world⟩ := first
  obtain ⟨other, later⟩ := second
  obtain rfl : other = arrival := same
  cases other with
  | turn payload => exact machine.beginFetch_reflects ⟨type, name, scope, payload⟩ alike
  | _ => exact ⟨rfl, alike⟩

theorem dereference_reflects (type : EntityType) (name : String) (scope : Scope) (alike : Alike guise lag one two)
    (numbered : guise.Numbered lag one (machine.dereference type name scope one).2) :
    Reflects guise lag (machine.dereference type name scope one)
      ((guise.machine machine).dereference type name (guise.scope scope) two) := by
  rw [dereference_eq] at numbered
  obtain ⟨ticket, took⟩ := alike.take (numbered.of_taken (machine.arrived_fresh _ _ _ _ _))
  obtain ⟨same, arrived⟩ := took.arrive type.typeName (Node.keyOf type name) scope.owner ⟨one.take.1, machine.strands⟩
  rw [dereference_eq, dereference_eq, ticket, guise.strands_machine]
  exact machine.arrived_reflects type name scope one.take.1 same arrived

theorem awaken_reflects (fetch : Fetch) (ticket : Nat) (alike : Alike guise lag one two) :
    Reflects guise lag (machine.awaken fetch ticket one)
      ((guise.machine machine).awaken (guise.fetch fetch) (guise.number ticket) two) := by
  have both : (two.resume (guise.fetch fetch).type.typeName (guise.fetch fetch).key (guise.number ticket)).1 =
      (one.resume fetch.type.typeName fetch.key ticket).1 ∧
      Alike guise lag (one.resume fetch.type.typeName fetch.key ticket).2
        (two.resume (guise.fetch fetch).type.typeName (guise.fetch fetch).key (guise.number ticket)).2 :=
    alike.resume fetch.type.typeName fetch.key ticket
  unfold awaken
  generalize one.resume fetch.type.typeName fetch.key ticket = first at both ⊢
  generalize two.resume (guise.fetch fetch).type.typeName (guise.fetch fetch).key (guise.number ticket) = second
    at both ⊢
  obtain ⟨resumption, world⟩ := first
  obtain ⟨other, later⟩ := second
  obtain ⟨rfl, resumed⟩ : other = resumption ∧ Alike guise lag world later := both
  cases other with
  | waiting => exact ⟨rfl, resumed⟩
  | found value => exact ⟨rfl, resumed.unlink fetch.scope.owner fetch.key⟩
  | refused error => exact ⟨rfl, resumed.unlink fetch.scope.owner fetch.key⟩
  | turn => exact machine.beginFetch_reflects fetch resumed

theorem nextElement_reflects (fan : Fan Task) (tally : Tally) (alike : Alike guise lag one two) :
    Reflects guise lag (machine.nextElement fan tally one)
      ((guise.machine machine).nextElement (guise.fan fan) tally two) := by
  unfold nextElement
  rcases alike.nextElement? fan.id with ⟨none, absent⟩ | ⟨position, first, second, found, other, woken⟩
  · have empty : (guise.fan fan).running.isEmpty = fan.running.isEmpty := by simp [Guise.fan]
    have values : (guise.fan fan).values = fan.values := rfl
    simp only [Guise.fan_id, none, absent, empty, values]
    split
    · exact ⟨rfl, alike⟩
    · exact ⟨by simp, alike⟩
  · have got : OrderedMap.get? (guise.fan fan).running position =
        (OrderedMap.get? fan.running position).map guise.task := guise.get?_elements fan.running position
    simp only [Guise.fan_id, found, other, got]
    cases OrderedMap.get? fan.running position with
    | none => exact ⟨by simp, guise.strands_machine machine ▸ woken.wake machine.strands⟩
    | some task =>
      have others : (guise.fan fan).running.filter (fun element => element.1 ≠ position) =
          (fan.running.filter fun element => element.1 ≠ position).map guise.element := by
        simp only [Guise.fan, List.filter_map]
        rfl
      refine ⟨?_, woken⟩
      simp only [Option.map_some, others]
      rfl

theorem runFan_reflects (fan : Fan Task) (alike : Alike guise lag one two) :
    Reflects guise lag (machine.runFan fan one) ((guise.machine machine).runFan (guise.fan fan) two) := by
  have strands : (guise.fan fan).starting.map (fun element => Strand.element (guise.fan fan).id element.1) =
      (fan.starting.map fun element => Strand.element fan.id element.1).map guise.strand := by
    rw [guise.starting_fan, List.map_map, List.map_map]
    rfl
  have started : Alike guise lag
      { one with ready := one.ready ++ fan.starting.map fun element => Strand.element fan.id element.1 }
      { two with
        ready := two.ready ++ (guise.fan fan).starting.map fun element =>
          Strand.element (guise.fan fan).id element.1 } :=
    alike.with_ready (by rw [alike.ready, strands, List.map_append])
  have running : (guise.fan fan).refill.running.length = fan.refill.running.length := by
    rw [guise.refill_fan]
    exact List.length_map _
  unfold runFan
  dsimp only
  rw [running, guise.refill_fan]
  exact machine.nextElement_reflects fan.refill ⟨fan.refill.running.length, 0, 0⟩ started

theorem pollField_reflects (entity name : String) (slot : Slot) (scope : Scope) (alike : Alike guise lag one two)
    (numbered : guise.Numbered lag one (machine.pollField entity name slot scope one).2) :
    Reflects guise lag (machine.pollField entity name slot scope one)
      ((guise.machine machine).pollField entity name slot (guise.scope scope) two) := by
  cases slot with
  | required node => cases node <;> exact ⟨rfl, alike⟩
  | optional node => cases node <;> exact ⟨rfl, alike⟩
  | repeated nodes =>
    obtain ⟨id, took⟩ := alike.take (numbered.of_taken rfl)
    refine ⟨?_, took⟩
    show (guise.machine machine).poll (.fan (.ofTasks two.take.1 (guise.scope scope).config.maxConcurrency
      (nodes.mapIdx fun position node => .node node ((guise.scope scope).index position)))) = _
    rw [id, guise.scope_concurrency]
    have elements : (nodes.mapIdx fun position node => Task.node node ((guise.scope scope).index position)) =
        (nodes.mapIdx fun position node => Task.node node (scope.index position)).map guise.task := by
      apply List.ext_getElem <;> simp [Scope.index, Scope.child, Guise.scope]
    rw [elements, ← guise.fan_ofTasks, ← guise.task_fan]
    rfl
  | keyed pairs =>
    obtain ⟨id, took⟩ := alike.take (numbered.of_taken rfl)
    refine ⟨?_, took⟩
    let element (own : Scope) (position : Nat) (pair : Node × Node) : Task :=
      .join [.running (.node pair.1 ((own.index position).field "key")),
        .running (.node pair.2 ((own.index position).field "value"))]
    show (guise.machine machine).pollWithin (.inside (.folding (guise.scope scope).path))
      (.fan (.ofTasks two.take.1 (guise.scope scope).config.maxConcurrency
        (pairs.mapIdx (element (guise.scope scope))))) = _
    rw [id, guise.scope_concurrency]
    have elements : pairs.mapIdx (element (guise.scope scope)) = (pairs.mapIdx (element scope)).map guise.task := by
      apply List.ext_getElem <;> simp [element, Scope.index, Scope.field, Scope.child, Guise.scope]
    rw [elements, ← guise.fan_ofTasks, ← guise.task_fan]
    rfl

theorem pollShell_reflects (shell : Shell) (scope : Scope) (alike : Alike guise lag one two)
    (numbered : guise.Numbered lag one (machine.pollShell shell scope one).2) :
    Reflects guise lag (machine.pollShell shell scope one)
      ((guise.machine machine).pollShell shell (guise.scope scope) two) := by
  cases shell with
  | record type fields => exact ⟨machine.nextStage_guise type scope [] (type.plan fields), alike⟩
  | variant union tag shell => exact ⟨rfl, alike⟩
  | counted type value delay counter =>
    exact machine.sleep_reflects delay (.node (.literal value) scope) (alike.count counter) numbered
  | stalled type counter => exact ⟨rfl, alike.count counter⟩
  | delayed type node delay => exact machine.sleep_reflects delay (.node node scope) alike numbered

theorem pollTask_reflects (task : Task) (alike : Alike guise lag one two)
    (numbered : guise.Numbered lag one (machine.pollTask task one).2) :
    Reflects guise lag (machine.pollTask task one) ((guise.machine machine).pollTask (guise.task task) two) := by
  cases task with
  | node node scope =>
    cases node with
    | literal value => exact ⟨rfl, alike⟩
    | reference type name => exact machine.dereference_reflects type name scope alike numbered
    | nested shell => exact ⟨rfl, alike.span scope.config shell.describe scope.path⟩
  | shell shell scope => exact machine.pollShell_reflects shell scope alike numbered
  | variant tag shell scope => exact ⟨rfl, alike.emit _⟩
  | field entity name slot scope => exact machine.pollField_reflects entity name slot (scope.field name) alike numbered
  | delay due timer next =>
    simp only [guise.task_delay, pollTask, alike.now]
    split
    · exact ⟨rfl, alike.dropTimer timer⟩
    · exact ⟨rfl, alike⟩
  | forever => exact ⟨rfl, alike⟩
  | waiting fetch ticket => exact machine.awaken_reflects fetch ticket alike
  | inside frame task => exact ⟨rfl, alike⟩
  | join parts =>
    rw [guise.task_join]
    exact ⟨machine.nextPart_guise [] parts, alike⟩
  | fan fan =>
    rw [guise.task_fan]
    exact machine.runFan_reflects fan alike

theorem restIn_reflects (layer : Layer) (task : Task) (alike : Alike guise lag one two) :
    Reflects guise lag (machine.restIn layer task one)
      ((guise.machine machine).restIn (guise.layer layer) (guise.task task) two) := by
  cases layer with
  | inside frame => exact ⟨rfl, alike⟩
  | joining before after =>
    refine ⟨?_, alike⟩
    have next := @nextPart_guise guise machine (before ++ [.running task]) after
    rw [List.map_append] at next
    exact next
  | fanning fan position tally =>
    have woken : two.ready.contains (.element (guise.number fan.id) position) =
        one.ready.contains (.element fan.id position) := by
      have member : guise.strand (.element fan.id position) ∈ one.ready.map guise.strand ↔
          .element fan.id position ∈ one.ready := by
        refine ⟨fun inside => ?_, fun inside => List.mem_map_of_mem inside⟩
        obtain ⟨other, listed, same⟩ := List.mem_map.mp inside
        exact guise.strand_injective same ▸ listed
      rw [alike.ready, Bool.eq_iff_iff, List.contains_iff_mem, List.contains_iff_mem]
      exact member
    let back : Fan Task := { fan with running := (position, task) :: fan.running }
    unfold restIn
    simp only [Guise.layer, Guise.fan_id, woken]
    generalize (if one.ready.contains _ then 1 else 0) = count
    split
    · refine ⟨?_, guise.strands_machine machine ▸ alike.wake machine.strands⟩
      rw [guise.machine_rest, guise.task_fan]
      rfl
    · exact machine.nextElement_reflects back _ alike

theorem fold_reflects (path : Path) (pairs : List (Value × Value)) (alike : Alike guise lag one two) :
    (fold path pairs two).1 = (fold path pairs one).1 ∧
      Alike guise lag (fold path pairs one).2 (fold path pairs two).2 := by
  unfold fold
  generalize ([] : List (Value × Value)) = entries
  induction pairs generalizing entries one two with
  | nil => exact ⟨rfl, alike⟩
  | cons pair rest ih =>
    rw [List.foldl_cons, List.foldl_cons]
    by_cases known : (OrderedMap.get? entries pair.1).isSome
    · simp only [known, if_true]
      exact ih (alike.emit _) _
    · simp only [known]
      exact ih alike _

theorem finishFrame_reflects (frame : Frame) (value : Value) (alike : Alike guise lag one two) :
    Reflects guise lag (machine.finishFrame frame value one)
      ((guise.machine machine).finishFrame (guise.frame frame) value two) := by
  cases frame with
  | present => exact ⟨rfl, alike⟩
  | tagged tag => exact ⟨rfl, alike⟩
  | folding path =>
    obtain ⟨same, folded⟩ := fold_reflects path (pairs value) alike
    exact ⟨congrArg (fun own => (guise.machine machine).finish (.ok own)) same, folded⟩
  | fetching fetch =>
    exact ⟨rfl, (alike.settle fetch.key ⟨fetch.type.typeName, value⟩).unlink fetch.scope.owner fetch.key⟩
  | stage stage => exact ⟨machine.nextStage_guise stage.type stage.scope _ stage.later, alike⟩

theorem finishIn_reflects (layer : Layer) (value : Value) (alike : Alike guise lag one two) :
    Reflects guise lag (machine.finishIn layer value one)
      ((guise.machine machine).finishIn (guise.layer layer) value two) := by
  cases layer with
  | inside frame => exact machine.finishFrame_reflects frame value alike
  | joining before after =>
    refine ⟨?_, alike⟩
    have next := @nextPart_guise guise machine (before ++ [.done value]) after
    rw [List.map_append] at next
    exact next
  | fanning fan position tally =>
    exact machine.runFan_reflects { fan with done := fan.done ++ [(position, value)] }
      (alike.erase (.element fan.id position))

theorem failIn_alike (layer : Layer) (alike : Alike guise lag one two) :
    Alike guise lag (failIn layer one) (failIn (guise.layer layer) two) := by
  cases layer with
  | inside frame =>
    cases frame with
    | fetching fetch => exact (alike.release fetch.key).unlink fetch.scope.owner fetch.key
    | _ => exact alike
  | joining before after =>
    have dropped := alike.cancelParts
      (fun task (_ : Part.running task ∈ before ++ after) {_ _} => World.Alike.cancel task)
    simpa [failIn, Guise.layer] using dropped
  | fanning fan position tally =>
    have dropped := alike.cancelElements (fun element (_ : element ∈ fan.running) {_ _} => World.Alike.cancel element.2)
    exact dropped.forget fan.id

/-- A step in one guise is a step in the other. -/
theorem step_reflects {machine next : Machine} {later : World} (alike : Alike guise lag one two)
    (step : machine.step one = some (next, later)) (numbered : guise.Numbered lag one later) :
    ∃ last, (guise.machine machine).step two = some (guise.machine next, last) ∧ Alike guise lag later last := by
  change ∃ last, _ = some (guise.machine (next, later).1, last) ∧ Alike guise lag (next, later).2 last
  change guise.Numbered lag one (next, later).2 at numbered
  generalize (next, later) = result at step numbered ⊢
  have of_reflects : ∀ {second : Machine × World}, Reflects guise lag result second →
      ∃ last, some second = some (guise.machine result.1, last) ∧ Alike guise lag result.2 last := by
    rintro ⟨other, last⟩ ⟨machines, worlds⟩
    exact ⟨last, by rw [← machines], worlds⟩
  cases step_steps step with
  | @poll number task layers =>
    exact of_reflects (pollTask_reflects ⟨number, .poll task, layers⟩ task alike numbered)
  | @rest number task layer layers =>
    exact of_reflects (restIn_reflects ⟨number, .rest task, layers⟩ layer task alike)
  | @finish number value layer layers =>
    exact of_reflects (finishIn_reflects ⟨number, .finish (.ok value), layers⟩ layer value alike)
  | fail => exact ⟨_, rfl, failIn_alike _ alike⟩

theorem step_ends {machine : Machine} (ended : machine.step one = none) :
    (guise.machine machine).step two = none := by
  cases step_idles ended with
  | rest => rfl
  | @finish _ result => cases result <;> rfl

/-- A look in one guise is a look in the other, if the numbers that are taken meanwhile correspond. -/
theorem run_reflects {machine last : Machine} {later : World} {fuel : Nat} (alike : Alike guise lag one two)
    (run : machine.run fuel one = some (last, later))
    (numbered : ∀ number, one.fresh ≤ number → number < later.fresh → guise.number number = number + lag) :
    ∃ final, (guise.machine machine).run fuel two = some (guise.machine last, final) ∧ Alike guise lag later final := by
  induction fuel generalizing machine one two with
  | zero => cases run
  | succ fuel ih =>
    rw [Machine.run] at run ⊢
    cases step : machine.step one with
    | none =>
      rw [step] at run
      cases run
      rw [step_ends step]
      exact ⟨two, rfl, alike⟩
    | some result =>
      obtain ⟨next, between⟩ := result
      rw [step] at run
      have first := step_onward step
      have rest := run_onward run
      have taken : guise.Numbered lag one between := by
        by_cases none : between.fresh = one.fresh
        · exact .inl none
        · exact .inr (numbered one.fresh (Nat.le_refl _) (by have := first.fresh; have := rest.fresh; omega))
      obtain ⟨last', other, worlds⟩ := step_reflects alike step taken
      rw [other]
      exact ih worlds run fun number lower upper => numbered number (first.fresh.trans lower) upper

end Machine

end Blueprint
