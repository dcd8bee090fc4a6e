import Blueprint.Proofs.OrderedMap
import Blueprint.Resolution.Machine
/-! One resolution in the guise of another. Timers, waiters and collections go by other numbers, and scopes are under
another configuration that differs in nothing that a step depends on. -/

namespace Blueprint

/-- How one resolution differs from another in what does not matter. -/
structure Guise where
  number : Nat → Nat
  config : Config → Config
  /-- the numbers of timers that the other one has as well -/
  own : Nat → Bool
  /-- what was told, in the one and in the other -/
  told : List Event → List Event → Prop
  injective : ∀ {first second}, number first = number second → first = second
  own_number : ∀ id, own (number id) = true
  concurrency : ∀ setting, (config setting).maxConcurrency = setting.maxConcurrency
  tells : ∀ {one two} event, told one two → told (one ++ [event]) (two ++ [event])
  spans : ∀ {one two} setting entity path, told one two →
    told (if setting.spanPerEntity then one ++ [.span entity path] else one)
      (if (config setting).spanPerEntity then two ++ [.span entity path] else two)

namespace Guise

/-- Those who were told the same are still told the same. -/
theorem eq_tells {one two : List Event} (event : Event) (same : one = two) : one ++ [event] = two ++ [event] :=
  congrArg (· ++ [event]) same

variable (guise : Guise)

def strand : Strand → Strand
  | .operation id => .operation id
  | .element fan position => .element (guise.number fan) position

def timer (timer : Timer) : Timer :=
  ⟨guise.number timer.id, timer.due, timer.strands.map guise.strand⟩

def waiter (waiter : Waiter) : Waiter :=
  ⟨guise.number waiter.ticket, waiter.strands.map guise.strand⟩

def gate : Gate → Gate
  | .idle => .idle
  | .held => .held
  | .granted ticket => .granted (guise.number ticket)

def entry (entry : Entry) : Entry :=
  { entry with gate := guise.gate entry.gate, queue := entry.queue.map guise.waiter }

def scope (scope : Scope) : Scope :=
  { scope with config := guise.config scope.config }

def fetch (fetch : Fetch) : Fetch :=
  { fetch with scope := guise.scope fetch.scope }

def stage (stage : Stage) : Stage :=
  { stage with scope := guise.scope stage.scope }

def frame : Frame → Frame
  | .present => .present
  | .tagged tag => .tagged tag
  | .folding path => .folding path
  | .fetching fetch => .fetching (guise.fetch fetch)
  | .stage stage => .stage (guise.stage stage)

mutual

def task : Task → Task
  | .node node scope => .node node (guise.scope scope)
  | .shell shell scope => .shell shell (guise.scope scope)
  | .variant tag shell scope => .variant tag shell (guise.scope scope)
  | .field entity name slot scope => .field entity name slot (guise.scope scope)
  | .delay due timer next => .delay due (guise.number timer) (task next)
  | .forever => .forever
  | .waiting fetch ticket => .waiting (guise.fetch fetch) (guise.number ticket)
  | .inside frame inner => .inside (guise.frame frame) (task inner)
  | .join parts => .join (tasksOfParts parts)
  | .fan ⟨id, limit, size, queued, running, done⟩ =>
    .fan ⟨guise.number id, limit, size, tasksOfElements queued, tasksOfElements running, done⟩

def tasksOfParts : List (Part Task) → List (Part Task)
  | [] => []
  | .done value :: rest => .done value :: tasksOfParts rest
  | .running inner :: rest => .running (task inner) :: tasksOfParts rest

def tasksOfElements : List (Nat × Task) → List (Nat × Task)
  | [] => []
  | (position, inner) :: rest => (position, task inner) :: tasksOfElements rest

end

def part : Part Task → Part Task
  | .done value => .done value
  | .running inner => .running (guise.task inner)

def element (element : Nat × Task) : Nat × Task :=
  (element.1, guise.task element.2)

def fan (fan : Fan Task) : Fan Task :=
  { fan with
    id := guise.number fan.id
    queued := fan.queued.map guise.element
    running := fan.running.map guise.element }

def layer : Layer → Layer
  | .inside frame => .inside (guise.frame frame)
  | .joining before after => .joining (before.map guise.part) (after.map guise.part)
  | .fanning fan position tally => .fanning (guise.fan fan) position tally

def control : Control → Control
  | .poll task => .poll (guise.task task)
  | .rest task => .rest (guise.task task)
  | .finish result => .finish result

def machine (machine : Machine) : Machine :=
  { machine with control := guise.control machine.control, layers := machine.layers.map guise.layer }

section Tasks

@[simp] theorem tasksOfParts_eq_map (parts : List (Part Task)) : guise.tasksOfParts parts = parts.map guise.part := by
  induction parts with
  | nil => simp [tasksOfParts]
  | cons first rest ih => cases first <;> simp [tasksOfParts, part, ih]

@[simp] theorem tasksOfElements_eq_map (elements : List (Nat × Task)) :
    guise.tasksOfElements elements = elements.map guise.element := by
  induction elements with
  | nil => simp [tasksOfElements]
  | cons first rest ih => simp [tasksOfElements, element, ih]

@[simp] theorem task_node (node : Node) (scope : Scope) :
    guise.task (.node node scope) = .node node (guise.scope scope) := rfl

@[simp] theorem task_shell (shell : Shell) (scope : Scope) :
    guise.task (.shell shell scope) = .shell shell (guise.scope scope) := rfl

@[simp] theorem task_variant (tag : String) (shell : Shell) (scope : Scope) :
    guise.task (.variant tag shell scope) = .variant tag shell (guise.scope scope) := rfl

@[simp] theorem task_field (entity name : String) (slot : Slot) (scope : Scope) :
    guise.task (.field entity name slot scope) = .field entity name slot (guise.scope scope) := rfl

@[simp] theorem task_delay (due timer : Nat) (next : Task) :
    guise.task (.delay due timer next) = .delay due (guise.number timer) (guise.task next) := rfl

@[simp] theorem task_forever : guise.task .forever = .forever := rfl

@[simp] theorem task_waiting (fetch : Fetch) (ticket : Nat) :
    guise.task (.waiting fetch ticket) = .waiting (guise.fetch fetch) (guise.number ticket) := rfl

@[simp] theorem task_inside (frame : Frame) (task : Task) :
    guise.task (.inside frame task) = .inside (guise.frame frame) (guise.task task) := rfl

@[simp] theorem task_join (parts : List (Part Task)) :
    guise.task (.join parts) = .join (parts.map guise.part) := by
  simp [task]

@[simp] theorem task_fan (fan : Fan Task) : guise.task (.fan fan) = .fan (guise.fan fan) := by
  cases fan
  simp [task, Guise.fan]

@[simp] theorem part_done (value : Value) : guise.part (.done value) = .done value := rfl

@[simp] theorem part_running (task : Task) : guise.part (.running task) = .running (guise.task task) := rfl

end Tasks

section Machines

variable (machine : Machine)

@[simp] theorem machine_poll (task : Task) : guise.machine (machine.poll task) =
    (guise.machine machine).poll (guise.task task) := rfl

@[simp] theorem machine_rest (task : Task) : guise.machine (machine.rest task) =
    (guise.machine machine).rest (guise.task task) := rfl

@[simp] theorem machine_finish (result : Except ResolveError Value) : guise.machine (machine.finish result) =
    (guise.machine machine).finish result := rfl

@[simp] theorem machine_pollWithin (layer : Layer) (task : Task) : guise.machine (machine.pollWithin layer task) =
    (guise.machine machine).pollWithin (guise.layer layer) (guise.task task) := rfl

theorem strands_layers (layers : List Layer) (operation : Nat) :
    Layer.strands (layers.map guise.layer) operation = (Layer.strands layers operation).map guise.strand := by
  induction layers with
  | nil => rfl
  | cons first rest ih =>
    cases first with
    | inside | joining => exact ih
    | fanning fan position tally => exact congrArg (.element (guise.number fan.id) position :: ·) ih

@[simp] theorem strands_machine : (guise.machine machine).strands = machine.strands.map guise.strand :=
  guise.strands_layers machine.layers machine.operation

end Machines

section Scopes

@[simp] theorem scope_path (scope : Scope) : (guise.scope scope).path = scope.path := rfl

@[simp] theorem scope_owner (scope : Scope) : (guise.scope scope).owner = scope.owner := rfl

@[simp] theorem scope_concurrency (scope : Scope) :
    (guise.scope scope).config.maxConcurrency = scope.config.maxConcurrency := guise.concurrency scope.config

@[simp] theorem fetch_key (fetch : Fetch) : (guise.fetch fetch).key = fetch.key := rfl

@[simp] theorem fetch_scope (fetch : Fetch) : (guise.fetch fetch).scope = guise.scope fetch.scope := rfl

@[simp] theorem fetch_inner (fetch : Fetch) : (guise.fetch fetch).inner = guise.scope fetch.inner := rfl

end Scopes

section Collections

variable (fan : Fan Task)

@[simp] theorem fan_id : (guise.fan fan).id = guise.number fan.id := rfl

@[simp] theorem starting_fan : (guise.fan fan).starting = fan.starting.map guise.element := by
  simp [Fan.starting, Guise.fan, List.map_take]

@[simp] theorem refill_fan : (guise.fan fan).refill = guise.fan fan.refill := by
  simp [Fan.refill, Guise.fan, Fan.starting, List.map_take, List.map_drop, List.map_reverse]

theorem fan_ofTasks (id limit : Nat) (tasks : List Task) :
    guise.fan (.ofTasks id limit tasks) = .ofTasks (guise.number id) limit (tasks.map guise.task) := by
  have numbered : (tasks.map guise.task).mapIdx (fun position task => (position, task)) =
      (tasks.mapIdx fun position task => (position, task)).map guise.element := by
    apply List.ext_getElem <;> simp [element]
  simp [Guise.fan, Fan.ofTasks, numbered]

theorem get?_elements (elements : List (Nat × Task)) (position : Nat) :
    OrderedMap.get? (elements.map guise.element) position = (OrderedMap.get? elements position).map guise.task :=
  OrderedMap.get?_map guise.task elements position

end Collections

section Numbers

variable {guise : Guise} (same : ∀ number, guise.number number = number)

include same

/-- Where numbers are the same, what has nothing but numbers is the same. -/
theorem strand_eq (strand : Strand) : guise.strand strand = strand := by
  cases strand with
  | operation id => rfl
  | element fan position => rw [Guise.strand, same]

theorem strands_eq (strands : List Strand) : strands.map guise.strand = strands := by
  rw [funext (strand_eq same), List.map_id']

theorem timer_eq (timer : Timer) : guise.timer timer = timer := by
  rw [Guise.timer, same, strands_eq same]

theorem waiter_eq (waiter : Waiter) : guise.waiter waiter = waiter := by
  rw [Guise.waiter, same, strands_eq same]

theorem entry_eq (entry : Entry) : guise.entry entry = entry := by
  obtain ⟨value, payload, gate, queue⟩ := entry
  have gates : guise.gate gate = gate := by
    cases gate with
    | idle | held => rfl
    | granted ticket => rw [Guise.gate, same]
  rw [Guise.entry, gates, funext (waiter_eq same), List.map_id']

end Numbers

theorem strand_injective {first second : Strand} (same : guise.strand first = guise.strand second) :
    first = second := by
  cases first <;> cases second <;> simp_all [strand]
  exact guise.injective same.1

end Guise

end Blueprint
