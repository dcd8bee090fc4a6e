import Blueprint.Proofs.Machine.Advance
import Blueprint.Proofs.Machine.Tending
/-! Each step that a machine can take, as far as those who wait are concerned: the fetches, the fields and
shells, the ways out of a layer, and all of them together. -/

namespace Blueprint

/-- A fetch that waits and whose turn has not come stands in the queue of its entry. -/
theorem Ledger.queued_of_waiting {contents : Contents} {registry : Registry} {fresh : Nat} {owner : Option Key}
    {key : Key} {ticket : Nat} {holds : Multiset Hold}
    (ledger : Ledger contents registry fresh (⟨owner, key, some ticket⟩ ::ₘ holds)) (type : TypeName)
    (waits : (registry.resume type key ticket).1 = .waiting) :
    ∃ waiter ∈ registry.queue key, waiter.ticket = ticket := by
  obtain ⟨payload, registered⟩ := ledger.placed _ (Multiset.mem_cons_self _ _)
  obtain ⟨entry, found⟩ := ledger.entry_of_placed registered
  have fits := ledger.fits key entry found
  rw [Hold.claims_cons_self] at fits
  rw [Registry.queue, found]
  unfold Registry.resume at waits
  rw [found] at waits
  cases fits with
  | complete =>
    dsimp only [Entry.complete, Registry.asType] at waits
    split at waits <;> cases waits
  | @deferred payload gate queue _ _ seated =>
    dsimp only at waits
    split at waits
    next => cases waits
    next early =>
      generalize same : some ticket ::ₘ Hold.claims holds key = claims at seated
      have claimed : some ticket ∈ claims := same ▸ Multiset.mem_cons_self _ _
      cases seated with
      | idle => simp at claimed
      | held => simpa using claimed
      | granted other =>
        have apart : ticket ≠ other := fun equal => early (equal ▸ rfl)
        simpa [apart] using claimed

theorem ofTasks_marks (id limit : Nat) (tasks : List Task) (chain : List Strand) :
    (Task.fan (.ofTasks id limit tasks)).marks chain = (chain, .fan id) ::ₘ {(chain, .idle)} := by
  simp [Task.marks_fan, Fan.ofTasks]

theorem ofTasks_beyond (id limit : Nat) (tasks : List Task) (chain : List Strand) :
    ((Task.fan (.ofTasks id limit tasks)).marks chain).beyond chain = 0 := by
  rw [ofTasks_marks]
  exact Multiset.filter_eq_nil.mpr fun mark member => by
    rcases Multiset.mem_cons.mp member with rfl | other
    · simp
    · simp [Multiset.mem_singleton.mp other]

/-- An element of a collection that is done is listed elsewhere. -/
theorem positions_done (queued running done : List Nat) (position : Nat) :
    (queued ++ running ++ (done ++ [position])).Perm (queued ++ position :: running ++ done) := by
  rw [List.append_assoc, List.append_assoc]
  refine List.Perm.append_left queued ?_
  rw [← List.append_assoc]
  exact (List.perm_append_singleton _ _).trans (.refl _)

theorem fold_still (path : Path) (items : List (Value × Value)) (world : World) :
    world.Still (Machine.fold path items world).2 :=
  Machine.fold_keeps .refl .trans (fun world => .emit world _) items world

namespace Machine

variable {contents : Contents} {roots : List Key} {others : Multiset Hold} {machine : Machine} {rest : Marks}
  {world later : World}

section Here

variable (awake : ∀ mark ∈ asleepAround machine.operation machine.layers, Mark.Awake world mark)

include awake

theorem beginFetch_tends (fetch : Fetch) (minds : world.Minds (machine.around rest) later)
    (watched : (machine.around rest).Watched later) : Tends rest world (machine.beginFetch fetch later) := by
  have begins : later.Still (later.emit (.initializing fetch.key)) := .emit _ _
  have fails : ∀ error : ResolveError, Tends rest world
      ({ machine with
          control := .finish (.error error)
          layers := .inside (.fetching fetch) :: machine.layers }, later.emit (.initializing fetch.key)) := by
    intro error
    refine tends_within (.finish (.error error)) (.inside (.fetching fetch)) awake
      (minds.trans (.of_still begins)) ?_ (fun mark member => ?_) fun mark member => ?_
    · rw [Control.task, Task.marks_forever, Layer.marks, zero_add, zero_add]
      exact watched.still begins
    · simp [Control.asleep] at member
    · simp [Layer.asleep] at member
  unfold beginFetch
  split
  next type node held =>
    split
    · have both := begins.trans (.emit _ (.dereferencing fetch.inner.path))
      exact pollWithin_tends awake (minds.trans (.of_still both)) (watched.still both)
        (Task.unstarted_node _ _).idle
    · exact fails _
  next => exact fails _

theorem dereference_tends (type : EntityType) (name : String) (scope : Scope)
    (watched : (machine.around rest).Watched world) :
    Tends rest world (machine.dereference type name scope world) := by
  have joins := world.registry.arrive_joins (Node.keyOf type name) type.typeName scope.owner
    ⟨world.fresh, machine.strands⟩
  unfold dereference
  simp only [World.take, World.arrive]
  generalize world.registry.arrive type.typeName (Node.keyOf type name) scope.owner
    ⟨world.fresh, machine.strands⟩ = outcome at joins
  cases joins with
  | @queued payload after joined elsewhere =>
    have seated : Marks.Watched ((machine.strands, .seat (Node.keyOf type name) world.fresh) ::ₘ machine.around rest)
        { world with registry := after, fresh := world.fresh + 1 } := watched.add_seat rfl joined elsewhere rfl rfl
    refine tends_here (.rest (.waiting ⟨type, name, scope, payload⟩ world.fresh)) awake
      (.of_kept rfl (fun _ member => member) fun key waiter member => ?_) seated fun mark member stirred => ?_
    · change waiter ∈ after.queue key
      by_cases here : key = Node.keyOf type name
      · rw [here] at member ⊢
        rw [joined]
        exact List.mem_append_left _ member
      · rw [elsewhere key here]
        exact member
    · rw [Control.asleep, Task.marks_waiting, Multiset.mem_singleton] at member
      subst member
      have last : ⟨world.fresh, machine.strands⟩ ∈ after.queue (Node.keyOf type name) := by
        rw [joined]
        exact List.mem_append_right _ (List.mem_singleton.mpr rfl)
      exact absurd last stirred
  | @passed arrival after served same =>
    have still : world.Still { world with registry := after, fresh := world.fresh + 1 } :=
      ⟨rfl, rfl, rfl, Nat.le_succ _, same⟩
    cases arrival with
    | refused error => exact finish_tends awake _ (.of_still still) (watched.still still)
    | found value => exact finish_tends awake _ (.of_still still) (watched.still still)
    | turn payload => exact beginFetch_tends awake _ (.of_still still) (watched.still still)
    | queued payload => exact absurd rfl (served payload)

theorem awaken_tends (fetch : Fetch) (ticket : Nat)
    (ledger : Ledger contents world.registry world.fresh
      (⟨fetch.scope.owner, fetch.key, some ticket⟩ ::ₘ others))
    (watched : Marks.Watched ((machine.strands, .seat fetch.key ticket) ::ₘ machine.around rest) world) :
    Tends rest world (machine.awaken fetch ticket world) := by
  have queues := world.registry.resume_queue fetch.key fetch.type.typeName ticket
  have waits := ledger.queued_of_waiting fetch.type.typeName
  have resumes : Ledger.Resumes contents world.registry world.fresh others fetch.scope.owner fetch.key
    (world.registry.resume fetch.type.typeName fetch.key ticket) := ledger.resume
  unfold awaken
  simp only [World.resume]
  generalize world.registry.resume fetch.type.typeName fetch.key ticket = outcome at resumes queues waits
  cases resumes with
  | waiting =>
    refine tends_here (.rest (.waiting fetch ticket)) awake (.refl _ _) watched
      fun mark member stirred => ?_
    rw [Control.asleep, Task.marks_waiting, Multiset.mem_singleton] at member
    subst member
    obtain ⟨waiter, queued, same⟩ := waits rfl
    have known := watched.waiters fetch.key waiter queued
    have equal := Marks.eq_of_number watched.distinct known (Multiset.mem_cons_self _ _) rfl (by rw [same]; rfl)
    cases waiter
    simp only [Prod.mk.injEq] at equal same
    rw [equal.1, same] at queued
    exact absurd queued stirred
  | found stored after =>
    have still : world.Still (world.unlink fetch.scope.owner fetch.key) := .unlink _ _ _
    refine finish_tends awake _ (.of_still still) ?_
    exact (watched.drop_seat fun waiter queued => ledger.gone after rfl fetch.key waiter
      (by rwa [Registry.unlink_queue])).still still
  | @turn after open' struck =>
    have still : world.Still { world with registry := after } := ⟨rfl, rfl, rfl, Nat.le_refl _, queues⟩
    refine beginFetch_tends awake _ (.of_still still) ?_
    exact (watched.drop_seat fun waiter queued => ledger.gone struck (Hold.tickets_cons_turn _) fetch.key waiter
      (by rwa [queues])).still still

theorem pollField_tends (entity name : String) (slot : Slot) (scope : Scope)
    (watched : (machine.around rest).Watched world) :
    Tends rest world (machine.pollField entity name slot scope world) := by
  -- a new collection is marked by its number, and has to be looked at
  have marked : ∀ limit tasks, ((Task.fan (.ofTasks world.fresh limit tasks)).marks machine.strands +
      machine.around rest).Watched world.take.2 := by
    intro limit tasks
    rw [ofTasks_marks, Multiset.cons_add, Multiset.singleton_add, Multiset.cons_swap]
    exact Marks.Watched.idle_iff.mpr (watched.add_fan machine.strands)
  have minds : world.Minds (machine.around rest) world.take.2 := .of_still (.take world)
  unfold pollField
  split
  next => exact finish_tends awake _ (.refl _ _) watched
  next node => exact poll_tends awake (.refl _ _) watched (Task.unstarted_node _ _).idle
  next => exact finish_tends awake _ (.refl _ _) watched
  next node => exact pollWithin_tends awake (.refl _ _) watched (Task.unstarted_node _ _).idle
  next nodes =>
    refine tends_here (.poll (.fan _)) awake minds (marked _ _) fun mark member => ?_
    rw [Control.asleep, ofTasks_beyond] at member
    simp at member
  next pairs =>
    refine tends_within (.poll (.fan _)) (.inside (.folding scope.path)) awake minds ?_
      (fun mark member => ?_) fun mark member => ?_
    · rw [Layer.marks, zero_add]
      exact marked _ _
    · rw [Control.asleep, ofTasks_beyond] at member
      simp at member
    · simp [Layer.asleep] at member

theorem pollShell_tends (shell : Shell) (scope : Scope) (watched : (machine.around rest).Watched world) :
    Tends rest world (machine.pollShell shell scope world) := by
  unfold pollShell
  split
  next type fields => exact nextStage_tends awake _ _ _ _ watched
  next tag shell =>
    exact poll_tends awake (.refl _ _) watched fun chain mark member => by simpa using member
  next type value delay counter =>
    have still : world.Still (world.count counter) := .count _ _
    have minds : world.Minds (machine.around rest) (world.count counter) := .of_still still
    have later := awake_around awake minds
    exact (sleep_tends later delay (Task.unstarted_node _ _) (watched.still still)).of_minds (.of_still still)
  next type counter =>
    have still : world.Still (world.count counter) := .count _ _
    refine tends_here (.rest .forever) awake (.of_still still) ?_ fun mark member => ?_
    · rw [Control.task, Task.marks_forever, zero_add]
      exact watched.still still
    · simp [Control.asleep] at member
  next type node delay => exact sleep_tends awake delay (Task.unstarted_node _ _) watched

end Here

/-- A machine that agrees with the world and has passed by nobody who is not awake. -/
structure Minded (machine : Machine) (rest : Marks) (world : World) : Prop where
  headed : rest.Headed
  watched : (machine.marks + rest).Watched world
  awake : ∀ mark ∈ machine.asleep, Mark.Awake world mark

namespace Minded

variable {operation : Nat} {control : Control} {layer : Layer} {layers : List Layer}

theorem here (minded : Minded ⟨operation, control, layers⟩ rest world) :
    (control.task.marks (Layer.strands layers operation) + (marksAround operation layers + rest)).Watched world ∧
      (∀ mark ∈ control.asleep (Layer.strands layers operation), Mark.Awake world mark) ∧
      ∀ mark ∈ asleepAround operation layers, Mark.Awake world mark := by
  have watched := minded.watched
  rw [marks_eq, add_assoc] at watched
  exact ⟨watched, fun mark member => minded.awake mark (Multiset.mem_add.mpr (.inl member)),
    fun mark member => minded.awake mark (Multiset.mem_add.mpr (.inr member))⟩

theorem within (minded : Minded ⟨operation, control, layer :: layers⟩ rest world) :
    (control.task.marks (layer.within (Layer.strands layers operation)) +
      (layer.marks (Layer.strands layers operation) + (marksAround operation layers + rest))).Watched world ∧
      (∀ mark ∈ control.asleep (layer.within (Layer.strands layers operation)), Mark.Awake world mark) ∧
      (∀ mark ∈ layer.asleep (Layer.strands layers operation), Mark.Awake world mark) ∧
      ∀ mark ∈ asleepAround operation layers, Mark.Awake world mark := by
  obtain ⟨watched, inner, outer⟩ := minded.here
  rw [Layer.strands_cons] at watched inner
  rw [marksAround, add_assoc] at watched
  exact ⟨watched, inner, fun mark member => outer mark (Multiset.mem_add.mpr (.inl member)),
    fun mark member => outer mark (Multiset.mem_add.mpr (.inr member))⟩

theorem marks_headed {machine : Machine} (minded : Minded machine rest world) : (machine.marks + rest).Headed := by
  rw [marks_eq, add_assoc]
  exact (around_headed machine minded.headed).add_task around_rooted _

end Minded

/-- A collection that has an element under way has its mark among those of the machine. -/
theorem mem_marks_of_fanning {operation : Nat} {control : Control} {fan : Fan Task} {position : Nat} {tally : Tally}
    {layers : List Layer} : (Layer.strands layers operation, .fan fan.id) ∈
      Machine.marks ⟨operation, control, .fanning fan position tally :: layers⟩ + rest := by
  rw [marks_eq, marksAround, Layer.marks, add_assoc, add_assoc]
  exact Multiset.mem_add.mpr (.inr (Multiset.mem_add.mpr (.inl (Multiset.mem_cons_self _ _))))

theorem pollTask_tends {task : Task} {operation : Nat} {layers : List Layer}
    (account : Task.Account contents roots others (surround layers task) world)
    (minded : Minded ⟨operation, .poll task, layers⟩ rest world) :
    Tends rest world (pollTask ⟨operation, .poll task, layers⟩ task world) := by
  obtain ⟨watched, inner, awake⟩ := minded.here
  have headed := minded.headed
  unfold pollTask
  split
  next value scope => exact finish_tends awake _ (.refl _ _) (Marks.Watched.idle_iff.mp watched)
  next type name scope => exact dereference_tends awake type name scope (Marks.Watched.idle_iff.mp watched)
  next shell scope =>
    have still : world.Still (if scope.config.spanPerEntity then world.emit (.span shell.describe scope.path)
        else world) := by
      split
      · exact .emit _ _
      · exact .refl _
    exact poll_tends awake (.of_still still) ((Marks.Watched.idle_iff.mp watched).still still)
      fun chain mark member => by simpa using member
  next shell scope => exact pollShell_tends awake shell scope (Marks.Watched.idle_iff.mp watched)
  next tag shell scope =>
    have still : world.Still (world.emit (.variant tag scope.path)) := .emit _ _
    exact pollWithin_tends awake (.of_still still) ((Marks.Watched.idle_iff.mp watched).still still)
      fun chain mark member => by simpa using member
  next entity name slot scope =>
    exact pollField_tends awake entity name slot _ (Marks.Watched.idle_iff.mp watched)
  next due timer next =>
    split
    next =>
      have unstarted := (Task.sound_delay due timer next).mp (sound_of_surround account.sound)
      have foreign := watched.foreign (Marks.number_of_timer (Multiset.mem_singleton_self _))
      exact poll_tends awake (.dropTimer foreign) watched.drop_timer unstarted.idle
    next early =>
      refine tends_here (.rest (.delay due timer next)) awake (.refl _ _) watched
        fun mark member stirred => ?_
      rw [Control.asleep, Task.marks_delay, Multiset.mem_singleton] at member
      subst member
      exact absurd ((watched.clocks _ timer due (Multiset.mem_cons_self _ _)).resolve_right early) stirred
  next =>
    refine tends_here (.rest .forever) awake (.refl _ _) watched fun mark member => ?_
    simp [Control.asleep] at member
  next fetch ticket =>
    obtain ⟨own, _, ledger⟩ := account.place
    rw [Task.stakes_waiting] at own
    have anchored : fetch.scope.owner = ownerWithin layers := (Stakes.lawful_singleton.mp own).anchored
    rw [Task.stakes_waiting, Stakes.holds_waiting, Multiset.singleton_add, ← anchored] at ledger
    exact awaken_tends awake fetch ticket ledger watched
  next frame task =>
    refine tends_within (.poll task) (.inside frame) awake (.refl _ _) ?_ inner
      fun mark member => ?_
    · rw [Layer.marks, zero_add]
      exact watched
    · simp [Layer.asleep] at member
  next parts =>
    by_cases complete : (parts.mapM Part.value?).isSome
    · rw [Control.task, Task.marks_join, if_pos complete] at watched
      obtain ⟨values, known⟩ := Option.isSome_iff_exists.mp complete
      have none : ∀ chain, marksOfParts chain parts = 0 := fun chain => by
        rw [parts_done known, marksOfParts_done_all]
      refine nextPart_tends awake ?_ (by simp) (by simp [none, Marks.beyond])
      rw [List.nil_append, none, zero_add]
      exact Marks.Watched.idle_iff.mp watched
    · rw [Option.not_isSome_iff_eq_none] at complete
      rw [Control.task, Task.marks_join_open _ complete] at watched
      rw [Control.asleep, Task.marks_join_open _ complete] at inner
      exact nextPart_tends awake watched (by simp) inner
  next fan =>
    have proper := proper_of_surround account.sound
    refine runFan_tends awake headed (marks_of_fan watched) (fun mark member => inner mark ?_) proper
    rw [Control.asleep, Task.marks_fan, Marks.beyond, Multiset.filter_cons, Multiset.filter_add]
    exact Multiset.mem_add.mpr (.inr (Multiset.mem_add.mpr (.inr (by rwa [← Marks.beyond, beyond_elements]))))

theorem restIn_tends {layer : Layer} {task : Task} {operation : Nat} {layers : List Layer}
    (account : Task.Account contents roots others (surround layers (layer.around task)) world)
    (minded : Minded ⟨operation, .rest task, layer :: layers⟩ rest world) :
    Tends rest world (restIn ⟨operation, .rest task, layers⟩ layer task world) := by
  obtain ⟨watched, inner, left, awake⟩ := minded.within
  unfold restIn
  split
  next frame =>
    rw [Layer.marks, zero_add] at watched
    exact tends_here (.rest (.inside frame task)) awake (.refl _ _) watched inner
  next before after =>
    refine nextPart_tends awake ?_ (fun mark member => ?_) fun mark member => ?_
    · rw [List.append_assoc, marksOfParts_append, List.singleton_append, marksOfParts_running, add_left_comm,
        add_assoc]
      exact watched
    · rw [marksOfParts_append, marksOfParts_running, marksOfParts_nil, add_zero] at member
      rcases Multiset.mem_add.mp member with old | new
      · exact left mark (Multiset.mem_add.mpr (.inl old))
      · exact inner mark new
    · exact left mark (Multiset.mem_add.mpr (.inr member))
  next fan position tally =>
    have distinct : (({ fan with running := (position, task) :: fan.running } : Fan Task).running.map
        (·.1)).Nodup :=
      (proper_of_surround account.sound).distinct_running
    have kept : (fanMarks ⟨operation, .rest task, layers⟩ rest
        { fan with running := (position, task) :: fan.running }).Watched world := by
      rw [fanMarks, marksOfElements_cons, add_assoc, ← Multiset.add_cons, ← Multiset.cons_add]
      exact watched
    have passed : ∀ mark ∈ marksOfElements fan.id (Layer.strands layers operation)
        ((position, task) :: fan.running), Mark.Awake world mark := fun mark member => by
      rcases Multiset.mem_add.mp (marksOfElements_cons _ _ _ _ ▸ member) with new | old
      · exact inner mark new
      · exact left mark old
    have goes : ∀ tally : Tally, Tends rest world
        (if 2 ≤ tally.yielded ∨ tally.polled = tally.total then
          (Machine.rest ⟨operation, .rest task, layers⟩ (.fan { fan with running := (position, task) :: fan.running }),
            world.wake (Layer.strands layers operation))
        else nextElement ⟨operation, .rest task, layers⟩
          { fan with running := (position, task) :: fan.running } tally world) := by
      intro tally
      split
      · exact rest_woken_tends awake minded.headed kept passed
      · exact nextElement_tends awake minded.headed kept passed distinct tally
    exact goes _

theorem finishFrame_tends {frame : Frame} {value : Value} (headed : rest.Headed)
    (awake : ∀ mark ∈ asleepAround machine.operation machine.layers, Mark.Awake world mark)
    (watched : (machine.around rest).Watched world) :
    Tends rest world (machine.finishFrame frame value world) := by
  unfold finishFrame
  split
  next => exact finish_tends awake _ (.refl _ _) watched
  next => exact finish_tends awake _ (.refl _ _) watched
  next path =>
    have still := fold_still path (pairs value) world
    exact finish_tends awake _ (.of_still still) (watched.still still)
  next fetch =>
    have around := around_headed machine headed
    refine finish_tends awake _ ((World.Minds.settle watched around _ _).trans (.unlink _ _)) ?_
    exact (watched.settle _ _).unlink _ _
  next => exact nextStage_tends awake _ _ _ _ watched

/-- No other element runs where one is being looked at. -/
theorem apart_of_proper {fan : Fan Task} {position : Nat} {task : Task}
    (proper : Fan.Proper { fan with running := (position, task) :: fan.running }) :
    position ∉ fan.running.map (·.1) :=
  (List.nodup_cons.mp proper.distinct_running).1

/-- Nobody else is called by the strand of an element that is over. -/
theorem finishElement_awake {fan : Fan Task} {position : Nat} (apart : position ∉ fan.running.map (·.1))
    (watched : (machine.fanMarks rest fan).Watched world)
    (passed : ∀ mark ∈ marksOfElements fan.id machine.strands fan.running, Mark.Awake world mark) :
    ∀ mark ∈ marksOfElements fan.id machine.strands fan.running,
      Mark.Awake { world with ready := world.ready.erase (.element fan.id position) } mark := by
  refine awake_erase watched (le_refl _) (fun mark member same => ?_) passed
  obtain ⟨element, listed, equal⟩ := position_of_mark member same
  exact apart (List.mem_map.mpr ⟨element, listed, equal⟩)

theorem finishIn_tends {layer : Layer} {value : Value} {operation : Nat} {layers : List Layer}
    (account : Task.Account contents roots others
      (surround layers (layer.around (.node (.literal value) (.root .default)))) world)
    (minded : Minded ⟨operation, .finish (.ok value), layer :: layers⟩ rest world) :
    Tends rest world (finishIn ⟨operation, .finish (.ok value), layers⟩ layer value world) := by
  obtain ⟨watched, inner, left, awake⟩ := minded.within
  have watched := Marks.Watched.idle_iff.mp watched
  cases layer with
  | inside frame =>
    rw [Layer.marks, zero_add] at watched
    exact finishFrame_tends minded.headed awake watched
  | joining before after =>
    refine nextPart_tends awake ?_ (fun mark member => ?_) fun mark member => ?_
    · rw [List.append_assoc, marksOfParts_append, List.singleton_append, marksOfParts_done]
      exact watched
    · rw [marksOfParts_append, marksOfParts_done, marksOfParts_nil, add_zero] at member
      exact left mark (Multiset.mem_add.mpr (.inl member))
    · exact left mark (Multiset.mem_add.mpr (.inr member))
  | fanning fan position tally =>
    have proper := proper_of_surround account.sound
    have kept : (fanMarks ⟨operation, .finish (.ok value), layers⟩ rest fan).Watched world := by
      rw [fanMarks, ← Multiset.cons_add]
      exact watched
    have apart := apart_of_proper proper
    have done : ({ fan with done := fan.done ++ [(position, value)] } : Fan Task).Proper := by
      refine ⟨proper.positive, ?_, proper.unstarted⟩
      refine List.Perm.trans ?_ proper.whole
      simp only [Fan.positions, List.map_append, List.map_cons, List.map_nil]
      exact positions_done _ _ _ _
    have outer : world.Minds (around ⟨operation, .finish (.ok value), layers⟩ rest)
        { world with ready := world.ready.erase (.element fan.id position) } :=
      .erase (around_headed _ minded.headed) (fan_foreign kept).2 position
    refine (runFan_tends (awake_around awake outer) minded.headed ?_ ?_ done).of_minds
      (outer.mono (Multiset.le_add_left _ _))
    · exact kept.fewer (Nat.le_refl _) (fun _ _ member => member) rfl rfl
    · exact finishElement_awake apart kept left

theorem failIn_tends {layer : Layer} {error : ResolveError} {operation : Nat} {layers : List Layer}
    (account : Task.Account contents roots others (surround layers (layer.around .forever)) world)
    (minded : Minded ⟨operation, .finish (.error error), layer :: layers⟩ rest world) :
    Tends rest world (⟨operation, .finish (.error error), layers⟩, failIn layer world) := by
  obtain ⟨watched, inner, left, awake⟩ := minded.within
  rw [Control.task, Task.marks_forever, zero_add] at watched
  obtain ⟨own, _, ledger⟩ := account.place
  have sound := sound_of_surround account.sound
  have around := around_headed ⟨operation, .finish (.error error), layers⟩ minded.headed
  have rooted := @around_rooted ⟨operation, .finish (.error error), layers⟩ rest
  -- whatever the layer drops, its marks go and the others stay awake
  have drops : ∀ after, (marksAround operation layers + rest).Watched after →
      world.Minds (marksAround operation layers + rest) after →
        Tends rest world (⟨operation, .finish (.error error), layers⟩, after) := fun after kept
      (minds : world.Minds (Machine.around ⟨operation, .finish (.error error), layers⟩ rest) after) =>
    finish_tends awake (.error error) minds kept
  have anchored : Stakes.Anchored (layer.stakes (ownerWithin layers)) := by
    rw [layer.stakes_around, Stakes.lawful_add] at own
    exact own.2.anchored
  rw [layer.stakes_around, Task.stakes_forever, zero_add] at ledger
  unfold failIn
  split
  next fetch =>
    rw [Layer.marks, zero_add] at watched
    exact drops _ ((watched.release _).unlink _ _)
      ((World.Minds.release watched around _).trans (.unlink _ _))
  next frame =>
    rw [Layer.marks, zero_add] at watched
    exact drops _ watched (.refl _ _)
  next before after =>
    simp only [Layer.around, Task.sound_join, soundParts_append, soundParts_running] at sound
    rw [Layer.marks, ← marksOfParts_append] at watched
    rw [Layer.stakes, ← stakesOfParts_append] at anchored ledger
    have dropped := cancelParts_drops (fun task _ => cancel_drops task)
      ((soundParts_append _ _ _).mpr ⟨sound.1, sound.2.2⟩) anchored ledger around rooted watched
    exact drops _ dropped.1 dropped.2
  next fan position tally =>
    simp only [Layer.around, Task.sound_fan, soundElements_iff, List.forall_mem_cons] at sound
    rw [Layer.stakes] at anchored ledger
    rw [Stakes.anchored_add] at anchored
    rw [Stakes.holds_add, holds_queued sound.1.unstarted, zero_add] at ledger
    rw [Layer.marks, Multiset.cons_add, ← Multiset.add_cons] at watched
    have dropped := cancelElements_drops (fun element _ => cancel_drops element.2)
      (soundElements_iff.mpr sound.2.2.2) anchored.2 ledger (around.add_fan rooted fan.id)
      (Multiset.mem_cons_self _ _) watched
    have distinct := dropped.1.distinct
    rw [Marks.numbers_cons_fan, Multiset.nodup_cons] at distinct
    refine drops _ ((dropped.1.drop_fan).fewer (Nat.le_refl _) (fun _ _ member => member) rfl rfl) ?_
    exact (dropped.2.mono (Multiset.le_cons_self _ _)).trans (.forget around distinct.1)

/-- Every step leaves nobody behind. -/
theorem step_tends {after : Machine} (account : machine.Account contents roots others world)
    (minded : machine.Minded rest world) (step : machine.step world = some (after, later)) :
    Tends rest world (after, later) := by
  obtain ⟨whole, _⟩ := account
  generalize (after, later) = result at step ⊢
  cases step_steps step with
  | poll => exact pollTask_tends whole minded
  | rest => exact restIn_tends whole minded
  | finish => exact finishIn_tends whole minded
  | fail => exact failIn_tends whole minded

end Machine

end Blueprint
