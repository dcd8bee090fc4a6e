import Blueprint.Proofs.Guise.System
import Blueprint.Proofs.Machine.Spans
/-! Spans only observe. Wherever they are wanted, operations and registrations go the same way, and nobody who does not
read spans can tell the difference. Those that are opened are about the resolutions of entities that began where
they are wanted, one about each, in the order in which these began. -/

namespace Blueprint

/-- What was told but for spans. -/
def Event.messages (events : List Event) : List Event := events.filter fun event => !event.isSpan

theorem Event.messages_append (one two : List Event) : messages (one ++ two) = messages one ++ messages two :=
  List.filter_append ..

/-- The world without the spans that were opened in it. -/
def World.withoutSpans (world : World) : World := { world with events := Event.messages world.events }

/-- The same call, with spans for its entities or without. -/
def Call.withSpans (enabled : Bool) : Call → Call
  | resolve config node => .resolve (config.withEntitySpans enabled) node
  | within scope work => .within { scope with config := scope.config.withEntitySpans enabled } work

/-- The same deed; the operation that it begins is with spans for its entities or without. -/
def Deed.withSpans (enabled : Bool) : Deed → Deed
  | publish config node key => .publish (config.withEntitySpans enabled) node key
  | work (.start call) => .work (.start (call.withSpans enabled))
  | other => other

@[simp] theorem Deed.withSpans_withSpans (one two : Bool) (deed : Deed) :
    (deed.withSpans one).withSpans two = deed.withSpans two := by
  cases deed with
  | insert | publish | conclude => rfl
  | work action =>
    cases action with
    | start call => cases call <;> rfl
    | register | look | step | drop | advance => rfl

namespace Guise

/-- Spans are wanted everywhere or nowhere, and the same is told but for spans. -/
def spanned (enabled : Bool) : Guise where
  number := id
  config setting := setting.withEntitySpans enabled
  own _ := true
  told one two := Event.messages two = Event.messages one
  injective same := same
  own_number _ := rfl
  concurrency _ := rfl
  tells event same := by rw [Event.messages_append, Event.messages_append, same]
  spans setting entity path same := by
    have silent : ∀ (wanted : Bool) (events : List Event),
        Event.messages (if wanted then events ++ [.span entity path] else events) = Event.messages events := by
      intro wanted events
      cases wanted with
      | false => rfl
      | true => exact (Event.messages_append ..).trans (List.append_nil _)
    exact (silent _ _).trans (same.trans (silent _ _).symm)

variable {enabled : Bool}

theorem spanned_aligned : (spanned enabled).Aligned 0 := ⟨fun _ => rfl, fun _ => rfl⟩

theorem spanned_timed (setting : Config) : ((spanned enabled).config setting).deadline = setting.deadline := rfl

theorem spanned_deed : (spanned enabled).deed = Deed.withSpans enabled := by
  funext deed
  cases deed with
  | insert | publish | conclude => rfl
  | work action =>
    cases action with
    | start call => cases call <;> rfl
    | register | look | step | drop | advance => rfl

end Guise

/-- What there is to see of an operation. -/
inductive Phase.View where
  | resting
  | looking
  | returned (result : Except ResolveError Value)
  | dropped

def Phase.view : Phase → Phase.View
  | resting _ => .resting
  | looking _ _ => .looking
  | returned result => .returned result
  | dropped => .dropped

namespace System

/-- The resolutions of entities that begin with an action; there is at most one. -/
def begins (system : System) : Action → List Nesting
  | .step id =>
    match system.phase? id with
    | some (.looking _ machine) => machine.begins
    | _ => []
  | _ => []

end System

/-- All that there is to see of operations and registrations, apart from spans. -/
structure Observation where
  /-- the registry with its figures, the time, the timers, who is called, what instruments were started, and what was
  told -/
  world : World
  /-- in the order in which they began -/
  operations : List Phase.View
  /-- what came of all attempts to put something into the registry -/
  insertions : List Insertion
  /-- what the callers of publications got -/
  publications : List Publication

namespace Journal

def observe (journal : Journal) : Observation :=
  ⟨journal.system.world.withoutSpans, journal.system.processes.map fun process => process.phase.view,
    journal.insertions, journal.publications⟩

/-- What there is to see before some deeds and after each of them, as long as they are possible. -/
def course (journal : Journal) : List Deed → List Observation
  | [] => [journal.observe]
  | deed :: rest => journal.observe :: ((journal.do? deed).elim [] fun next => next.course rest)

/-- The resolutions of entities that begin with a deed. -/
def begins (journal : Journal) : Deed → List Nesting
  | .work action => journal.system.begins action
  | _ => []

/-- The resolutions of entities that begin with some deeds, in the order in which they begin. -/
def nestings (journal : Journal) : List Deed → List Nesting
  | [] => []
  | deed :: rest => journal.begins deed ++ ((journal.do? deed).elim [] fun next => next.nestings rest)

end Journal

section Guises

variable {guise : Guise} {lag : Nat}

namespace Guise

/-- The resolution of the same entity in another guise. -/
def nesting (guise : Guise) (nesting : Nesting) : Nesting := { nesting with scope := guise.scope nesting.scope }

theorem begins_machine (machine : Machine) : (guise.machine machine).begins = machine.begins.map guise.nesting := by
  obtain ⟨operation, control, layers⟩ := machine
  cases control with
  | poll task =>
    cases task with
    | node node scope => cases node <;> rfl
    | _ => rfl
  | rest | finish => rfl

end Guise

theorem System.Alike.begins {one two : System} (alike : Alike guise lag one two) (action : Action) :
    two.begins (guise.action action) = (one.begins action).map guise.nesting := by
  cases action with
  | register | start | look | drop | advance => rfl
  | step id =>
    simp only [Guise.action, System.begins, alike.phase?]
    cases one.phase? id with
    | none => rfl
    | some phase =>
      cases phase with
      | resting | returned | dropped => rfl
      | looking operation machine => exact Guise.begins_machine machine

namespace Journal

variable {one two : Journal}

theorem Alike.begins (alike : Alike guise lag one two) (deed : Deed) :
    two.begins (guise.deed deed) = (one.begins deed).map guise.nesting := by
  cases deed with
  | insert | publish | conclude => rfl
  | work action => exact alike.system.begins action

/-- The same entities begin to be resolved, in the same order. -/
theorem Alike.nestings (aligned : guise.Aligned lag)
    (timed : ∀ setting, (guise.config setting).deadline = setting.deadline) (alike : Alike guise lag one two)
    (deeds : List Deed) : two.nestings (deeds.map guise.deed) = (one.nestings deeds).map guise.nesting := by
  induction deeds generalizing one two with
  | nil => rfl
  | cons deed rest ih =>
    rw [List.map_cons, Journal.nestings, Journal.nestings, alike.begins, List.map_append]
    congr 1
    have next := alike.do? aligned timed deed
    generalize one.do? deed = first at next ⊢
    generalize two.do? (guise.deed deed) = second at next ⊢
    cases next with
    | none => rfl
    | some books => exact ih books

end Journal

end Guises

namespace Journal

variable {enabled : Bool} {one two : Journal}

theorem initial_alike : Alike (.spanned enabled) 0 initial initial :=
  ⟨⟨rfl, ⟨⟨fun _ => rfl, rfl, rfl, rfl⟩, rfl, rfl, rfl, rfl, rfl, rfl⟩, rfl⟩, rfl, rfl⟩

theorem Alike.observe (alike : Alike (.spanned enabled) 0 one two) (first : one.system.Reachable)
    (second : two.system.Reachable) : two.observe = one.observe := by
  have world : two.system.world.withoutSpans = one.system.world.withoutSpans := by
    have told : Event.messages two.system.world.events = Event.messages one.system.world.events :=
      alike.system.world.events
    rw [World.withoutSpans, World.withoutSpans, told,
      alike.system.world_eq Guise.spanned_aligned first.orderly second.orderly]
  have operations : two.system.processes.map (fun process => process.phase.view) =
      one.system.processes.map fun process => process.phase.view := by
    rw [alike.system.processes, List.map_map]
    refine List.map_congr_left fun process _ => ?_
    obtain ⟨call, phase⟩ := process
    cases phase <;> rfl
  rw [Journal.observe, Journal.observe, world, operations, alike.insertions, alike.publications]

theorem reachable_of_do? {before after : Journal} {deed : Deed} (reachable : before.system.Reachable)
    (result : before.do? deed = some after) : after.system.Reachable :=
  (do?_does result).system.reachable reachable

/-- With spans and without there is the same to see. -/
theorem Alike.course (alike : Alike (.spanned enabled) 0 one two) (first : one.system.Reachable)
    (second : two.system.Reachable) (deeds : List Deed) :
    two.course (deeds.map (Guise.spanned enabled).deed) = one.course deeds := by
  induction deeds generalizing one two with
  | nil => exact congrArg (fun own => [own]) (alike.observe first second)
  | cons deed rest ih =>
    rw [List.map_cons, Journal.course, Journal.course, alike.observe first second]
    congr 1
    have next := alike.do? Guise.spanned_aligned Guise.spanned_timed deed
    generalize own : one.do? deed = mine at next ⊢
    generalize other : two.do? ((Guise.spanned enabled).deed deed) = theirs at next ⊢
    cases next with
    | none => rfl
    | some books => exact ih books (reachable_of_do? first own) (reachable_of_do? second other)

end Journal

namespace World

variable (world : World)

theorem spans_register (key : Key) (entry : Entry) : (world.register key entry).2.spans = world.spans := by
  unfold World.register
  split
  · exact spans_message _ rfl
  · exact spans_message _ rfl

@[simp] theorem spans_advanceTo (time : Nat) : (world.advanceTo time).spans = world.spans := by
  rw [World.advanceTo_eq]
  rfl

end World

namespace Operation

variable (operation : Operation) (world : World)

theorem spans_announce (whole : Bool) (result : Except ResolveError Value) :
    (announce whole result world).spans = world.spans := by
  unfold announce
  split
  · cases result with
    | ok value => exact world.spans_message rfl
    | error error => exact world.spans_message rfl
  · rfl

theorem spans_close (result : Except ResolveError Value) : (operation.close result world).2.spans = world.spans := by
  unfold close
  dsimp only
  rw [spans_announce]
  split <;> rfl

theorem spans_watch : (operation.watch world).2.spans = world.spans := by
  unfold watch
  split
  · rfl
  · split
    · exact (operation.spans_close _ _).trans (world.spans_cancel operation.task)
    · split <;> rfl

theorem spans_conclude (machine : Machine) : (operation.conclude machine world).2.spans = world.spans := by
  unfold conclude
  split
  · exact spans_watch _ world
  · exact operation.spans_close world _
  · rfl

theorem spans_cancel : (operation.cancel world).spans = world.spans := by
  unfold cancel
  dsimp only
  split
  · exact world.spans_cancel operation.task
  · exact world.spans_cancel operation.task

end Operation

namespace System

variable {before after : System}

theorem spans_act?_register {key : Key} {origin : Origin} (result : before.act? (.register key origin) = some after) :
    after.world.spans = before.world.spans := by
  have told := before.world.spans_register key (origin.entry key)
  simp only [act?] at result
  split at result
  next found =>
    cases result
    rw [found] at told
    exact told
  next found =>
    cases result
    rw [found] at told
    exact told

/-- An action opens the span of the resolution that begins with it, and no other. -/
theorem act?_spans {action : Action} (result : before.act? action = some after) :
    after.world.spans = before.world.spans ++ Nesting.spans (before.begins action) := by
  have quiet : ∀ {later : World}, later.spans = before.world.spans →
      later.spans = before.world.spans ++ Nesting.spans [] := fun same => same.trans (List.append_nil _).symm
  cases act?_acts result with
  | registered => exact quiet (spans_act?_register result)
  | rejected => exact quiet (before.world.spans_message rfl)
  | start => exact quiet rfl
  | advance => exact quiet (before.world.spans_advanceTo _)
  | becomes changes =>
    cases changes with
    | look present => exact quiet rfl
    | drop present => exact quiet (Operation.spans_cancel _ _)
    | step present step =>
      rw [System.begins, phase?_of_present present]
      exact Machine.step_spans step
    | conclude present idle =>
      rw [System.begins, phase?_of_present present]
      simp only [Machine.begins_of_idle idle]
      exact quiet (Operation.spans_conclude _ _ _)

end System

namespace Journal

variable {before after : Journal}

/-- A deed opens the span of the resolution that begins with it, and no other. -/
theorem Does.spans {deed : Deed} (does : before.Does deed after) :
    after.system.world.spans = before.system.world.spans ++ Nesting.spans (before.begins deed) := by
  cases does with
  | inserts inserted => exact System.act?_spans (insert?_act? inserted).1
  | begins begun => exact System.act?_spans begun
  | fails => exact (List.append_nil _).symm
  | publishes _ _ inserted => exact System.act?_spans (insert?_act? inserted).1
  | works _ done => exact System.act?_spans done

/-- The spans that some deeds open are about the resolutions of entities that begin with them. -/
theorem perform_spans {deeds : List Deed} (result : before.perform deeds = some after) :
    after.system.world.spans = before.system.world.spans ++ Nesting.spans (before.nestings deeds) := by
  induction deeds generalizing before with
  | nil =>
    cases result
    exact (List.append_nil _).symm
  | cons deed rest ih =>
    obtain ⟨next, first, later⟩ := Option.bind_eq_some_iff.mp result
    rw [ih later, (do?_does first).spans, nestings, first, Nesting.spans_append, List.append_assoc]
    rfl

/-- Entities begin to be resolved at the same times and in the same places, whether spans are wanted or not. -/
theorem nestings_withSpans (enabled : Bool) (deeds : List Deed) :
    initial.nestings (deeds.map (Deed.withSpans enabled)) =
      (initial.nestings deeds).map (Guise.spanned enabled).nesting := by
  rw [← Guise.spanned_deed]
  exact initial_alike.nestings Guise.spanned_aligned Guise.spanned_timed deeds

theorem spanned_withSpans {enabled : Bool} {deeds : List Deed} {nesting : Nesting}
    (member : nesting ∈ initial.nestings (deeds.map (Deed.withSpans enabled))) : nesting.spanned = enabled := by
  rw [nestings_withSpans] at member
  obtain ⟨other, _, rfl⟩ := List.mem_map.mp member
  rfl

theorem course_withSpans (enabled : Bool) (deeds : List Deed) :
    initial.course (deeds.map (Deed.withSpans enabled)) = initial.course deeds := by
  rw [← Guise.spanned_deed]
  exact initial_alike.course .refl .refl deeds

/-- The deeds of somebody who decides by what there has been to see so far, some of them with spans. -/
def decided (choose : List Observation → Deed) (wanted : Nat → Bool) : Nat → List Deed
  | 0 => []
  | count + 1 =>
    let deeds := decided choose wanted count
    deeds ++ [(choose (initial.course deeds)).withSpans (wanted count)]

theorem course_eq {deeds others : List Deed}
    (alike : others.map (Deed.withSpans false) = deeds.map (Deed.withSpans false)) :
    initial.course others = initial.course deeds := by
  rw [← course_withSpans false others, alike, course_withSpans]

theorem nestings_eq {deeds others : List Deed}
    (alike : others.map (Deed.withSpans false) = deeds.map (Deed.withSpans false)) :
    (initial.nestings others).map Nesting.span = (initial.nestings deeds).map Nesting.span := by
  have same : ∀ own : List Deed, (initial.nestings (own.map (Deed.withSpans false))).map Nesting.span =
      (initial.nestings own).map Nesting.span := fun own => by
    rw [nestings_withSpans, List.map_map]
    rfl
  rw [← same others, alike, same]

/-- Whoever decides by what there is to see does the same with spans and without. -/
theorem decided_alike (choose : List Observation → Deed) (wanted others : Nat → Bool) (count : Nat) :
    (decided choose others count).map (Deed.withSpans false) =
      (decided choose wanted count).map (Deed.withSpans false) := by
  induction count with
  | zero => rfl
  | succ count ih =>
    rw [decided, decided, List.map_append, List.map_append, ih, course_eq ih]
    simp only [List.map_cons, List.map_nil, Deed.withSpans_withSpans]

/-- Spans only observe. Of two runs of the same deeds that differ in nothing but where spans are wanted, there is the
same to see but for the spans: after every deed the same time, the same results, the same registry with its figures and
the same messages; and the same entities begin to be resolved. So whoever decides by what there is to see, as a
scheduler does, sees the same throughout. The spans are those of the resolutions that began where they are wanted, one
for each, in the order in which these began, with the name of the entity and the path of the scope: none at all without
spans, and those of all resolutions with them. -/
theorem spans_only_observe :
    (∀ deeds others : List Deed, others.map (Deed.withSpans false) = deeds.map (Deed.withSpans false) →
      initial.course others = initial.course deeds ∧
        (initial.nestings others).map Nesting.span = (initial.nestings deeds).map Nesting.span) ∧
    (∀ (choose : List Observation → Deed) (wanted others : Nat → Bool) (count : Nat),
      initial.course (decided choose others count) = initial.course (decided choose wanted count)) ∧
    ∀ deeds : List Deed,
      (∀ journal, initial.perform deeds = some journal →
        journal.system.world.spans = Nesting.spans (initial.nestings deeds)) ∧
      (∀ silent, initial.perform (deeds.map (Deed.withSpans false)) = some silent → silent.system.world.spans = []) ∧
      ∀ traced, initial.perform (deeds.map (Deed.withSpans true)) = some traced →
        traced.system.world.spans = (initial.nestings (deeds.map (Deed.withSpans true))).map Nesting.span := by
  refine ⟨fun deeds others alike => ⟨course_eq alike, nestings_eq alike⟩, fun choose wanted others count =>
    course_eq (decided_alike choose wanted others count), fun deeds => ⟨fun _ => perform_spans,
      fun silent result => ?_, fun traced result => ?_⟩⟩
  · have none : (initial.nestings (deeds.map (Deed.withSpans false))).filter Nesting.spanned = [] :=
      List.filter_eq_nil_iff.mpr fun nesting member => by simp [spanned_withSpans member]
    exact (perform_spans result).trans (congrArg (List.map Nesting.span) none)
  · have all : (initial.nestings (deeds.map (Deed.withSpans true))).filter Nesting.spanned =
        initial.nestings (deeds.map (Deed.withSpans true)) :=
      List.filter_eq_self.mpr fun nesting member => spanned_withSpans member
    exact (perform_spans result).trans (congrArg (List.map Nesting.span) all)

/-- Two resolutions side by side, one with spans and one without: a reference to a deferred text, whose value is to be
published, and an entity that is given up before it is resolved. -/
def halfTraced : List Deed :=
  let emblem : Key := Node.keyOf .text "emblem"
  [.insert emblem (.deferred (.node emblem.type (.nested (.counted .text (.text "rose") 0 0)))),
    .publish .default (.reference .text "emblem") (Node.keyOf .text "motto"),
    .work (.start (.within (.root (Config.default.withEntitySpans false)) (.node (.nested (.stalled .job 1))))),
    .work (.step 1), .work (.step 0), .work (.step 0), .work (.step 1), .work (.step 1), .work (.drop 1),
    .work (.step 0), .work (.step 0), .work (.step 0), .work (.step 0), .conclude 0]

theorem spans_only_observe_halfTraced :
    let inside : Path := ⟨[.reference (Node.keyOf .text "emblem").text]⟩
    initial.course (halfTraced.map (Deed.withSpans true)) = initial.course halfTraced ∧
      (following halfTraced).system.world.spans = [("String", inside)] ∧
      (following (halfTraced.map (Deed.withSpans false))).system.world.spans = [] ∧
      (following (halfTraced.map (Deed.withSpans true))).system.world.spans =
        [("Job", .root), ("String", inside)] := by
  obtain ⟨same, _, opened⟩ := spans_only_observe
  obtain ⟨mixed, silent, traced⟩ := opened halfTraced
  exact ⟨(same halfTraced (halfTraced.map (Deed.withSpans true)) rfl).1,
    (mixed (following halfTraced) rfl).trans rfl,
    silent (following (halfTraced.map (Deed.withSpans false))) rfl,
    (traced (following (halfTraced.map (Deed.withSpans true))) rfl).trans rfl⟩

end Journal

end Blueprint
