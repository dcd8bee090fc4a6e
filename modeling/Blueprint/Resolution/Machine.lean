import Blueprint.Resolution.Task
import Blueprint.Resolution.World
/-!
One resolution, step by step. A machine looks at the tasks of its operation from the outside in:
it goes into a task, comes to rest where it has to wait, or comes back with a value or an error.
Every access to the registry is one step, so machines that share a world may be interleaved step
by step.
-/

namespace Blueprint

/-- Whether a strand is an element of a fan-out. -/
def Strand.isElementOf (fan : Nat) : Strand → Bool
  | .element id _ => id == fan
  | .operation _ => false

namespace World

/-- The strands of a fan-out are not run any more. -/
def forget (world : World) (fan : Nat) : World :=
  { world with ready := world.ready.filter fun strand => !strand.isElementOf fan }

/-- The first strand of a fan-out that was woken, and the world in which it is no longer queued. -/
def nextElement? (world : World) (fan : Nat) : Option (Nat × World) :=
  match world.ready.find? (Strand.isElementOf fan) with
  | some (.element id position) =>
    some (position, { world with ready := world.ready.erase (.element id position) })
  | _ => none

mutual

/-- Drop a task: its sleepers, waits and initializations end. What has not started leaves no trace.
Parts of a join go last to first, running elements of a collection newest first. -/
def cancel (world : World) : Task → World
  | .delay _ timer _ => world.dropTimer timer
  | .waiting fetch ticket =>
    (world.withdraw fetch.key ticket).unlink fetch.scope.owner fetch.key
  | .inside frame task =>
    match frame with
    | .fetching fetch =>
      ((cancel world task).release fetch.key).unlink fetch.scope.owner fetch.key
    | _ => cancel world task
  | .join parts => cancelParts world parts
  | .fan ⟨id, _, _, _, running, _⟩ => (cancelElements world running).forget id
  | .node _ _ | .shell _ _ | .variant _ _ _ | .field _ _ _ _ | .forever => world

def cancelParts (world : World) : List (Part Task) → World
  | [] => world
  | .done _ :: rest => cancelParts world rest
  | .running task :: rest => cancel (cancelParts world rest) task

def cancelElements (world : World) : List (Nat × Task) → World
  | [] => world
  | (_, task) :: rest => cancelElements (cancel world task) rest

end

end World

/-- What a machine is about to do. -/
inductive Control where
  /-- look at a task -/
  | poll (task : Task)
  /-- leave a task that waits -/
  | rest (task : Task)
  /-- leave a task that is over -/
  | finish (result : Except ResolveError Value)

/-- A resolution opened at the place where it runs. -/
structure Machine where
  /-- the operation that it belongs to -/
  operation : Nat
  control : Control
  /-- innermost first -/
  layers : List Layer

namespace Machine

/-- The machine that looks at a whole task. -/
def start (operation : Nat) (task : Task) : Machine := ⟨operation, .poll task, []⟩

/-- The strands to wake for a sleeper at this place. -/
def strands (machine : Machine) : List Strand :=
  Layer.strands machine.layers machine.operation

/-- Go into a task. -/
def poll (machine : Machine) (task : Task) : Machine :=
  { machine with control := .poll task }

/-- Go into a task inside one more layer. -/
def pollWithin (machine : Machine) (layer : Layer) (task : Task) : Machine :=
  { machine with control := .poll task, layers := layer :: machine.layers }

def rest (machine : Machine) (task : Task) : Machine :=
  { machine with control := .rest task }

def finish (machine : Machine) (result : Except ResolveError Value) : Machine :=
  { machine with control := .finish result }

/-- Sleep for some time and go on; no time is no sleep. -/
def sleep (machine : Machine) (delay : Nat) (next : Task) (world : World) : Machine × World :=
  if delay = 0 then (machine.poll next, world)
  else
    let due := world.now + delay
    let (timer, world) := world.setTimer due machine.strands
    (machine.rest (.delay due timer next), world)

/-- Initialize the entry of a fetch that has the turn. A payload that is no node of the right type
fails at once. -/
def beginFetch (machine : Machine) (fetch : Fetch) (world : World) : Machine × World :=
  let world := world.emit (.initializing fetch.key)
  let mismatch := RegistryError.about .typeMismatch fetch.key
  match fetch.payload with
  | .node type node =>
    if type = fetch.type.typeName then
      (machine.pollWithin (.inside (.fetching fetch)) (.node node fetch.inner),
        world.emit (.dereferencing fetch.inner.path))
    else
      ({ machine with
          control := .finish (.error (.ofRegistry mismatch fetch.scope.path))
          layers := .inside (.fetching fetch) :: machine.layers }, world)
  | .text _ =>
    ({ machine with
        control := .finish (.error (.ofRegistry mismatch fetch.scope.path))
        layers := .inside (.fetching fetch) :: machine.layers }, world)

/-- Fetch what a reference names. -/
def dereference (machine : Machine) (type : EntityType) (name : String) (scope : Scope)
    (world : World) : Machine × World :=
  let key := Node.keyOf type name
  let (ticket, world) := world.take
  match world.arrive type.typeName key scope.owner ⟨ticket, machine.strands⟩ with
  | (.refused error, world) => (machine.finish (.error (.ofRegistry error scope.path)), world)
  | (.found value, world) => (machine.finish (.ok value), world)
  | (.turn payload, world) => machine.beginFetch ⟨type, name, scope, payload⟩ world
  | (.queued payload, world) =>
    (machine.rest (.waiting ⟨type, name, scope, payload⟩ ticket), world)

/-- Look again at an entry that another fetch was initializing. -/
def awaken (machine : Machine) (fetch : Fetch) (ticket : Nat) (world : World) : Machine × World :=
  match world.resume fetch.type.typeName fetch.key ticket with
  | (.waiting, world) => (machine.rest (.waiting fetch ticket), world)
  | (.found value, world) =>
    (machine.finish (.ok value), world.unlink fetch.scope.owner fetch.key)
  | (.refused error, world) =>
    (machine.finish (.error (.ofRegistry error fetch.scope.path)),
      world.unlink fetch.scope.owner fetch.key)
  | (.turn, world) => machine.beginFetch fetch world

/-- Go into the first part of a join that still runs, after those that have been looked at. -/
def nextPart (machine : Machine) (before : List (Part Task)) : List (Part Task) → Machine
  | [] =>
    match before.mapM Part.value? with
    | some values => machine.finish (.ok (.list values))
    | none => machine.rest (.join before)
  | .done value :: after => nextPart machine (before ++ [.done value]) after
  | .running task :: after => machine.pollWithin (.joining before after) task

/-- Begin the next stage of a record, or put the record together after the last one. -/
def nextStage (machine : Machine) (type : EntityType) (scope : Scope)
    (done : List (String × Value)) : List (List (String × Slot)) → Machine
  | [] => machine.finish (.ok (type.assemble done))
  | fields :: later =>
    machine.pollWithin (.inside (.stage ⟨type, scope, done, fields.map (·.1), later⟩))
      (.join (fields.map fun (name, slot) =>
        .running (.field type.entityName name slot scope)))

/-- Go into the element of a collection that was woken first. Without one the collection waits, and
with none running it is over. A strand that no element runs on is passed over at the next look. -/
def nextElement (machine : Machine) (fan : Fan Task) (tally : Tally) (world : World) :
    Machine × World :=
  match world.nextElement? fan.id with
  | none =>
    if fan.running.isEmpty then (machine.finish (.ok (.list fan.values)), world)
    else (machine.rest (.fan fan), world)
  | some (position, world) =>
    match OrderedMap.get? fan.running position with
    | none => (machine.rest (.fan fan), world.wake machine.strands)
    | some task =>
      let others := fan.running.filter fun element => element.1 ≠ position
      (machine.pollWithin (.fanning { fan with running := others } position tally) task, world)

/-- Start elements of a collection while there is room and look at those that were woken. -/
def runFan (machine : Machine) (fan : Fan Task) (world : World) : Machine × World :=
  let started := fan.starting.map fun (position, _) => Strand.element fan.id position
  let fan := fan.refill
  machine.nextElement fan ⟨fan.running.length, 0, 0⟩
    { world with ready := world.ready ++ started }

/-- Resolve a field of an entity, under the scope of the field. -/
def pollField (machine : Machine) (entity name : String) (slot : Slot) (scope : Scope)
    (world : World) : Machine × World :=
  match slot with
  | .required none => (machine.finish (.error (.missingField entity name scope.path)), world)
  | .required (some node) => (machine.poll (.node node scope), world)
  | .optional none => (machine.finish (.ok .absent), world)
  | .optional (some node) => (machine.pollWithin (.inside .present) (.node node scope), world)
  | .repeated nodes =>
    let (id, world) := world.take
    let elements := nodes.mapIdx fun position node => Task.node node (scope.index position)
    (machine.poll (.fan (.ofTasks id scope.config.maxConcurrency elements)), world)
  | .keyed pairs =>
    let (id, world) := world.take
    let elements := pairs.mapIdx fun position (key, value) =>
      Task.join [.running (.node key ((scope.index position).field "key")),
        .running (.node value ((scope.index position).field "value"))]
    (machine.pollWithin (.inside (.folding scope.path))
      (.fan (.ofTasks id scope.config.maxConcurrency elements)), world)

/-- Resolve a shell whose span is open. -/
def pollShell (machine : Machine) (shell : Shell) (scope : Scope) (world : World) :
    Machine × World :=
  match shell with
  | .record type fields => (machine.nextStage type scope [] (type.plan fields), world)
  | .variant _ tag shell => (machine.poll (.variant tag shell scope), world)
  | .counted _ value delay counter =>
    machine.sleep delay (.node (.literal value) scope) (world.count counter)
  | .stalled _ counter => (machine.rest .forever, world.count counter)
  | .delayed _ node delay => machine.sleep delay (.node node scope) world

/-- Look at a task. -/
def pollTask (machine : Machine) (task : Task) (world : World) : Machine × World :=
  match task with
  | .node (.literal value) _ => (machine.finish (.ok value), world)
  | .node (.reference type name) scope => machine.dereference type name scope world
  | .node (.nested shell) scope =>
    (machine.poll (.shell shell scope),
      if scope.config.spanPerEntity then world.emit (.span shell.describe scope.path) else world)
  | .shell shell scope => machine.pollShell shell scope world
  | .variant tag shell scope =>
    (machine.pollWithin (.inside (.tagged tag)) (.shell shell scope),
      world.emit (.variant tag scope.path))
  | .field entity name slot scope => machine.pollField entity name slot (scope.field name) world
  | .delay due timer next =>
    if due ≤ world.now then (machine.poll next, world.dropTimer timer)
    else (machine.rest task, world)
  | .forever => (machine.rest task, world)
  | .waiting fetch ticket => machine.awaken fetch ticket world
  | .inside frame task => (machine.pollWithin (.inside frame) task, world)
  | .join parts => (machine.nextPart [] parts, world)
  | .fan fan => machine.runFan fan world

/-- Leave a task that waits, into the layer around it. A collection all of whose elements were
looked at, or that was woken twice meanwhile, lets others run before it goes on. -/
def restIn (machine : Machine) (layer : Layer) (task : Task) (world : World) : Machine × World :=
  match layer with
  | .inside frame => (machine.rest (.inside frame task), world)
  | .joining before after => (machine.nextPart (before ++ [.running task]) after, world)
  | .fanning fan position tally =>
    let fan := { fan with running := (position, task) :: fan.running }
    let woken := world.ready.contains (.element fan.id position)
    let tally : Tally :=
      ⟨tally.total, tally.polled + 1, tally.yielded + if woken then 1 else 0⟩
    if 2 ≤ tally.yielded ∨ tally.polled = tally.total then
      (machine.rest (.fan fan), world.wake machine.strands)
    else machine.nextElement fan tally world

/-- The pairs in a list of pairs. -/
def pairs : Value → List (Value × Value)
  | .list items => items.filterMap fun
    | .list [key, value] => some (key, value)
    | _ => none
  | _ => []

/-- Pairs folded into a map; every key met again is told. -/
def fold (path : Path) (pairs : List (Value × Value)) (world : World) : Value × World :=
  let (entries, world) := pairs.foldl
    (fun (entries, world) (key, value) =>
      (OrderedMap.insert entries key value,
        if (OrderedMap.get? entries key).isSome then world.emit (.duplicateKey path) else world))
    ([], world)
  (.map entries, world)

/-- Leave a task with a value, into the frame around it. -/
def finishFrame (machine : Machine) (frame : Frame) (value : Value) (world : World) :
    Machine × World :=
  match frame with
  | .present => (machine.finish (.ok (.present value)), world)
  | .tagged tag => (machine.finish (.ok (.variant tag value)), world)
  | .folding path =>
    let (folded, world) := fold path (pairs value) world
    (machine.finish (.ok folded), world)
  | .fetching fetch =>
    (machine.finish (.ok value),
      (world.settle fetch.key ⟨fetch.type.typeName, value⟩).unlink fetch.scope.owner fetch.key)
  | .stage stage =>
    let values := match value with
      | .list values => values
      | _ => []
    (machine.nextStage stage.type stage.scope (stage.done ++ stage.names.zip values) stage.later,
      world)

/-- Leave a task with a value, into the layer around it. An element of a collection that is over is
not looked at again, though it may have been woken meanwhile. -/
def finishIn (machine : Machine) (layer : Layer) (value : Value) (world : World) :
    Machine × World :=
  match layer with
  | .inside frame => machine.finishFrame frame value world
  | .joining before after => (machine.nextPart (before ++ [.done value]) after, world)
  | .fanning fan position _ =>
    machine.runFan { fan with done := fan.done ++ [(position, value)] }
      { world with ready := world.ready.erase (.element fan.id position) }

/-- Leave a task that failed, out of the layer around it: whatever else runs there is dropped, and
an initialization passes its turn on. -/
def failIn (layer : Layer) (world : World) : World :=
  match layer with
  | .inside (.fetching fetch) =>
    (world.release fetch.key).unlink fetch.scope.owner fetch.key
  | .inside _ => world
  | .joining before after => world.cancelParts (before ++ after)
  | .fanning fan _ _ => (world.cancelElements fan.running).forget fan.id

/-- One step; none once the operation as a whole waits or is over. -/
def step (machine : Machine) (world : World) : Option (Machine × World) :=
  match machine.control, machine.layers with
  | .poll task, _ => some (machine.pollTask task world)
  | .rest task, layer :: layers => some (restIn { machine with layers } layer task world)
  | .finish (.ok value), layer :: layers =>
    some (finishIn { machine with layers } layer value world)
  | .finish (.error error), layer :: layers =>
    some ({ machine with layers, control := .finish (.error error) }, failIn layer world)
  | .rest _, [] => none
  | .finish _, [] => none

/-- Steps until the operation as a whole waits or is over; none if there are more than allowed. -/
def run (fuel : Nat) (machine : Machine) (world : World) : Option (Machine × World) :=
  match fuel with
  | 0 => none
  | fuel + 1 =>
    match machine.step world with
    | none => some (machine, world)
    | some (machine, world) => run fuel machine world

end Machine

end Blueprint
