import Blueprint.Session.State
/-!
Scripts at work. Starting a script runs it until it waits or ends; what waits is kept as data and
looked at again when the session is woken. Branches that run side by side are looked at in order,
every time.
-/

namespace Blueprint.Session

/-- What becomes of the result of an operation. -/
inductive Use where
  | value
  | variant (name : String)
  /-- the value is registered under the key -/
  | register (key : Key)

mutual

/-- A step that waits. -/
inductive Running where
  | operation (registry : Nat) (use : Use) (operation : Operation)
  | sleeping (due timer : Nat)
  | parallel (branches : List (Option Sequence))
  | timeout (due timer : Nat) (body : Sequence)
  | fetching (registry : Nat) (fetching : Fetching)

/-- A list of steps the first of which waits. -/
inductive Sequence where
  | mk (label : String) (running : Running) (rest : List Step)

/-- A fetch that waits: for its turn, for a step of its initializer, or for a further fetch. -/
inductive Fetching where
  | queued (call : Call) (payload : Payload) (ticket : Nat)
  | steps (call : Call) (payload : Payload) (body : Sequence)
  | call (call : Call) (payload : Payload) (inner : Fetching) (rest : List Call)

end

/-- What a step has come to: it waits, or it is over, perhaps with an answer. -/
inductive StepProgress where
  | waiting (running : Running)
  | over (answer : Option Answer)

inductive CallProgress where
  | waiting (fetching : Fetching)
  | over (result : Except Failure Value)

/-- Steps that one look at an operation may take. -/
def allowance : Nat := 1000000000000000

/-- The strand of a session as a whole. -/
def self : Strand := .operation 0

namespace State

/-- A failure of the registry in the words of the one who used it. -/
def failureOf (whole : Bool) (error : RegistryError) : Failure :=
  if whole then .resolve (.ofRegistry error .root) else .registry error

/-- Put an entry under a key. -/
def register (state : State) (index : Nat) (whole : Bool) (key : Key) (entry : Entry) :
    Except Failure Unit × State :=
  let (result, state) := state.act index fun world => world.register key entry
  (result.mapError (failureOf whole), state)

/-- Put the result of an operation to its use. -/
def useResult (state : State) (index : Nat) (use : Use) (result : Except ResolveError Value) :
    Answer × State :=
  match use with
  | .value => (.value (result.mapError .resolve), state)
  | .variant name => (.variant name (result.mapError .resolve), state)
  | .register key =>
    match result with
    | .error error => (.value (.error (.resolve error)), state)
    | .ok value =>
      let (accepted, state) := state.register index true key (.complete ⟨key.type, value⟩)
      (.value (accepted.map fun _ => value), state)

/-- Look at an operation. One that takes too many steps is not looked at again. -/
def pollOperation (state : State) (index : Nat) (use : Use) (operation : Operation) :
    StepProgress × State :=
  match state.act index (operation.poll allowance) with
  | (.waiting operation, state) => (.waiting (.operation index use operation), state)
  | (.over result, state) =>
    let (answer, state) := state.useResult index use result
    (.over (some answer), state)
  | (.stopped, state) => (.waiting (.operation index use operation), state)

/-- Put the payload into a text that mentions it. -/
def fillIn (payload : Payload) : Value → Value
  | .text content =>
    match payload with
    | .text replacement => .text (content.replace "\x7bpayload\x7d" replacement)
    | .node _ _ => .text (content.replace "\x7bpayload\x7d" "")
  | value => value

/-- What the outcome of an initializer comes to. -/
def concludeWith (payload : Payload) : Outcome → Except Failure Value
  | .value value => .ok (fillIn payload value)
  | .fail message => .error (.initializer message)
  | .refuse error => .error (.registry error)

/-- An initializer is over: the value is stored, or the turn is passed on. -/
def conclude (state : State) (index : Nat) (call : Call) (result : Except Failure Value) :
    CallProgress × State :=
  (.over result, state.update index fun world =>
    (match result with
      | .ok value => world.settle call.key ⟨call.type, value⟩
      | .error _ => world.release call.key).unlink call.owner call.key)

/-- A fetch has its turn: tell the observer and the log. -/
def announceTurn (state : State) (index : Nat) (call : Call) (payload : Payload) : State :=
  let state := state.update index fun world => world.emit (.initializing call.key)
  let content := match payload with
    | .text content => some content
    | .node _ _ => none
  state.record (.initializer call.key content state.world.now)

/-- A scope of a resolver. -/
def scopeAt (state : State) (resolver : String) (place : List Segment) : Scope :=
  place.foldl Scope.child (.root (state.resolver resolver).config)

/-- What there is to tell about a scope; its span is opened if the session is traced. -/
def reportScope (state : State) (resolver : String) (place : List Segment) (entity : String) :
    Answer × State :=
  let scope := state.scopeAt resolver place
  let index := (state.resolver resolver).registry
  let opened := state.tracing && scope.config.spanPerEntity
  (.scope ⟨scope.path, !opened, scope.config.effectiveConcurrency,
      scope.debug (state.registry index)⟩,
    if opened then state.update index fun world => world.emit (.span entity scope.path)
    else state)

end State

mutual

/-- Drop steps that wait. -/
def cancelSequence (state : State) : Sequence → State
  | .mk _ running _ => cancelRunning state running

def cancelRunning (state : State) : Running → State
  | .operation index _ operation => state.update index operation.cancel
  | .sleeping _ timer => { state with world := state.world.dropTimer timer }
  | .parallel branches => cancelBranches state branches
  | .timeout _ timer body =>
    let state := cancelSequence state body
    { state with world := state.world.dropTimer timer }
  | .fetching index fetching => cancelFetching state index fetching

def cancelBranches (state : State) : List (Option Sequence) → State
  | [] => state
  | none :: rest => cancelBranches state rest
  | some sequence :: rest => cancelBranches (cancelSequence state sequence) rest

def cancelFetching (state : State) (index : Nat) : Fetching → State
  | .queued call _ ticket =>
    state.update index fun world => (world.withdraw call.key ticket).unlink call.owner call.key
  | .steps call _ body =>
    (cancelSequence state body).update index fun world =>
      (world.release call.key).unlink call.owner call.key
  | .call call _ inner _ =>
    (cancelFetching state index inner).update index fun world =>
      (world.release call.key).unlink call.owner call.key

end

/-- Steps under a time limit wait: they are dropped if the time is over already. -/
def limitSteps (state : State) (due : Nat) (timer : Option Nat) (body : Sequence) :
    StepProgress × State :=
  if due ≤ state.world.now then
    let state := cancelSequence state body
    let world := match timer with
      | some timer => state.world.dropTimer timer
      | none => state.world
    (.over (some (.elapsed true)), { state with world })
  else
    match timer with
    | some timer => (.waiting (.timeout due timer body), state)
    | none =>
      let (timer, world) := state.world.setTimer due [self]
      (.waiting (.timeout due timer body), { state with world })

mutual

/-- Run steps one after another until one waits. -/
def startSteps (state : State) : List Step → Option Sequence × State
  | [] => (none, state)
  | .mk label resolver action :: rest =>
    match startAction state resolver action with
    | (.waiting running, state) => (some (.mk label running rest), state)
    | (.over none, state) => startSteps state rest
    | (.over (some answer), state) =>
      startSteps (state.record (.answer label state.world.now answer)) rest

/-- Begin one step. -/
def startAction (state : State) (name : String) : Action → StepProgress × State
  | .trace on => (.over (some .done), { state with tracing := on })
  | .create other share config => (.over (some .done), state.addResolver other share config)
  | .configure config => (.over (some (.config config.debug)), state.configure name config)
  | .mark mark counter =>
    (.over none, { state with marks := OrderedMap.insert state.marks mark counter })
  | .sleep time =>
    if time = 0 then (.over (some .done), state)
    else
      let due := state.world.now + time
      let (timer, world) := state.world.setTimer due [self]
      (.waiting (.sleeping due timer), { state with world })
  | .parallel branches =>
    let (branches, state) := startBranches state branches
    if branches.all Option.isNone then (.over (some .done), state)
    else (.waiting (.parallel branches), state)
  | .timeout limit body =>
    let due := state.world.now + limit
    match startSteps state body with
    | (none, state) => (.over (some (.elapsed false)), state)
    | (some body, state) => limitSteps state due none body
  | .starts mark =>
    let counter := OrderedMap.get? state.marks mark
    (.over (some (.starts ((counter.map state.world.startsOf).getD 0))), state)
  | .stats => (.over (some (.stats (state.registry (state.resolver name).registry).stats)), state)
  | .size => (.over (some (.size (state.registry (state.resolver name).registry).size)), state)
  | .keys =>
    (.over (some (.keys (state.registry (state.resolver name).registry).keyTexts)), state)
  | .debug =>
    let resolver := state.resolver name
    let registry := state.registry resolver.registry
    (.over (some (.debug registry.debug (resolver.debug registry))), state)
  | .register whole key entry =>
    let (result, state) := state.register (state.resolver name).registry whole key entry
    (.over (some (.accepted result)), state)
  | .contains key =>
    (.over (some (.flag ((state.registry (state.resolver name).registry).contains key))), state)
  | .get key =>
    (.over (some (.lookup ((state.registry (state.resolver name).registry).get? key.type key))),
      state)
  | .resolve node =>
    let resolver := state.resolver name
    state.pollOperation resolver.registry .value
      (.resolve 0 resolver.config node state.world)
  | .resolveAndRegister key node =>
    let resolver := state.resolver name
    state.pollOperation resolver.registry (.register key)
      (.resolve 0 resolver.config node state.world)
  | .work place work =>
    let use := match work with
      | .variant _ shell => Use.variant shell.describe
      | _ => Use.value
    state.pollOperation (state.resolver name).registry use
      (.ofTask 0 (work.task (state.scopeAt name place)))
  | .scope place entity =>
    let (answer, state) := state.reportScope name place entity
    (.over (some answer), state)
  | .fetch call =>
    let index := (state.resolver name).registry
    match startCall state index call with
    | (.waiting fetching, state) => (.waiting (.fetching index fetching), state)
    | (.over result, state) => (.over (some (.value result)), state)

/-- Begin all branches in order. -/
def startBranches (state : State) : List (List Step) → List (Option Sequence) × State
  | [] => ([], state)
  | steps :: rest =>
    let (branch, state) := startSteps state steps
    let (branches, state) := startBranches state rest
    (branch :: branches, state)

/-- Begin a fetch. -/
def startCall (state : State) (index : Nat) : Call → CallProgress × State
  | .mk key type owner initializer =>
    let (ticket, world) := state.world.take
    let state := { state with world }
    match state.act index fun world => world.arrive type key owner ⟨ticket, [self]⟩ with
    | (.refused error, state) => (.over (.error (.registry error)), state)
    | (.found value, state) => (.over (.ok value), state)
    | (.turn payload, state) =>
      startInitializer state index (.mk key type owner initializer) payload initializer
    | (.queued payload, state) =>
      (.waiting (.queued (.mk key type owner initializer) payload ticket), state)

/-- Begin the initializer of a fetch that has its turn. -/
def startInitializer (state : State) (index : Nat) (call : Call) (payload : Payload) :
    Initializer → CallProgress × State
  | .mk steps calls _ =>
    match startSteps (state.announceTurn index call payload) steps with
    | (some body, state) => (.waiting (.steps call payload body), state)
    | (none, state) => startCalls state index call payload calls

/-- Make the further fetches of an initializer one after another, then conclude it. -/
def startCalls (state : State) (index : Nat) (call : Call) (payload : Payload) :
    List Call → CallProgress × State
  | [] => state.conclude index call (State.concludeWith payload call.initializer.outcome)
  | next :: rest =>
    match startCall state index next with
    | (.waiting inner, state) => (.waiting (.call call payload inner rest), state)
    | (.over (.error failure), state) => state.conclude index call (.error failure)
    | (.over (.ok _), state) => startCalls state index call payload rest

end

mutual

/-- Look again at steps that wait, and go on with those after them. -/
def pollSequence (state : State) : Sequence → Option Sequence × State
  | .mk label running rest =>
    match pollRunning state running with
    | (.waiting running, state) => (some (.mk label running rest), state)
    | (.over none, state) => startSteps state rest
    | (.over (some answer), state) =>
      startSteps (state.record (.answer label state.world.now answer)) rest

def pollRunning (state : State) : Running → StepProgress × State
  | .operation index use operation => state.pollOperation index use operation
  | .sleeping due timer =>
    if due ≤ state.world.now then
      (.over (some .done), { state with world := state.world.dropTimer timer })
    else (.waiting (.sleeping due timer), state)
  | .parallel branches =>
    let (branches, state) := pollBranches state branches
    if branches.all Option.isNone then (.over (some .done), state)
    else (.waiting (.parallel branches), state)
  | .timeout due timer body =>
    match pollSequence state body with
    | (none, state) =>
      (.over (some (.elapsed false)), { state with world := state.world.dropTimer timer })
    | (some body, state) => limitSteps state due (some timer) body
  | .fetching index fetching =>
    match pollFetching state index fetching with
    | (.waiting fetching, state) => (.waiting (.fetching index fetching), state)
    | (.over result, state) => (.over (some (.value result)), state)

def pollBranches (state : State) : List (Option Sequence) → List (Option Sequence) × State
  | [] => ([], state)
  | none :: rest =>
    let (branches, state) := pollBranches state rest
    (none :: branches, state)
  | some sequence :: rest =>
    let (branch, state) := pollSequence state sequence
    let (branches, state) := pollBranches state rest
    (branch :: branches, state)

def pollFetching (state : State) (index : Nat) : Fetching → CallProgress × State
  | .queued call payload ticket =>
    match state.act index fun world => world.resume call.type call.key ticket with
    | (.waiting, state) => (.waiting (.queued call payload ticket), state)
    | (.found value, state) =>
      (.over (.ok value), state.update index fun world => world.unlink call.owner call.key)
    | (.refused error, state) =>
      (.over (.error (.registry error)),
        state.update index fun world => world.unlink call.owner call.key)
    | (.turn, state) => startInitializer state index call payload call.initializer
  | .steps call payload body =>
    match pollSequence state body with
    | (some body, state) => (.waiting (.steps call payload body), state)
    | (none, state) => startCalls state index call payload call.initializer.calls
  | .call call payload inner rest =>
    match pollFetching state index inner with
    | (.waiting inner, state) => (.waiting (.call call payload inner rest), state)
    | (.over (.error failure), state) => state.conclude index call (.error failure)
    | (.over (.ok _), state) => startCalls state index call payload rest

end

end Blueprint.Session
