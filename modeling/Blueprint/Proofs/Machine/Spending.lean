import Blueprint.Proofs.Machine.Costs
/-! Every step of a machine costs something. What it costs to initialize an entry is paid when the entry is
opened, and what a machine that fails might still have opened is not asked for any more. -/

namespace Blueprint

/-- Some fetch among the stakes is initializing the entry. -/
def Stakes.Turns (stakes : Stakes) (key : Key) : Prop :=
  ∃ hold ∈ Stakes.holds stakes, hold.key = key ∧ hold.ticket = none

theorem Stakes.turns_add {first second : Stakes} {key : Key} :
    (first + second).Turns key ↔ first.Turns key ∨ second.Turns key := by
  simp only [Turns, Stakes.holds_add, Multiset.mem_add, or_and_right, exists_or]

/-- No two fetches initialize one entry. -/
theorem Ledger.turn_once {contents : Contents} {registry : Registry} {fresh : Nat} {owner : Option Key}
    {key : Key} {holds : Multiset Hold} (ledger : Ledger contents registry fresh (⟨owner, key, none⟩ ::ₘ holds))
    {hold : Hold} (member : hold ∈ holds) (same : hold.key = key) : hold.ticket ≠ none := by
  intro turn
  obtain ⟨payload, registered⟩ := ledger.placed _ (Multiset.mem_cons_self _ _)
  obtain ⟨entry, found⟩ := ledger.entry_of_placed registered
  have fits := ledger.fits key entry found
  rw [Hold.claims_cons_self] at fits
  have claimed : none ∈ Hold.claims holds key :=
    Multiset.mem_map.mpr ⟨hold, Multiset.mem_filter.mpr ⟨member, same⟩, turn⟩
  cases fits with
  | complete _ nobody => exact nobody (Multiset.mem_cons_self _ _)
  | deferred _ seated =>
    rw [seated.of_turn.2] at claimed
    simp at claimed

namespace Machine

variable {contents : Contents} {roots : List Key} {others : Multiset Hold} {marks rest : Marks}
  {machine : Machine} {world : World} {result : Machine × World}

/-- The entries that are being initialized are so still, or complete. -/
def Keeps (before : Task) (result : Machine × World) : Prop :=
  ∀ key, (before.stakes none).Turns key →
    (result.1.whole.stakes none).Turns key ∨ (result.2.registry.get? key.type key).isSome

/-- What a step may cost. -/
inductive Costs (contents : Contents) (marks : Marks) (before : Task) (credit trip : Nat) (world : World)
    (result : Machine × World) : Prop where
  | looks (looks : Looks marks before credit trip world result)
  | works (less : result.1.whole.effort < before.effort) (keeps : Keeps before result)
  | begins {key : Key} {node : Node} (found : contents.node? key = some node)
      (less : result.1.whole.effort < before.effort + node.effort) (keeps : Keeps before result)
      (fresh : ¬ (before.stakes none).Turns key) (open' : world.registry.get? key.type key = none)
      (turn : (result.1.whole.stakes none).Turns key)
  | fails {error : ResolveError} (failing : result.1.control = .finish (.error error))
      (less : result.1.whole.effort < before.effort)

variable {before : Task} {credit trip : Nat} {task : Task} {operation : Nat} {layer : Layer} {layers : List Layer}

theorem Costs.of_quietly {meanings : Lookup → Prop} (quietly : Quietly meanings before world result)
    (eases : Eases marks before credit trip world result) : Costs contents marks before credit trip world result := by
  rcases eases with looks | less
  · exact .looks looks
  · refine .works less fun key turns => .inl ?_
    rwa [quietly.alike.stakes]

/-- A step at a place leaves alone what the layers around it initialize. -/
theorem keeps_at_place {next : Task} (whole : result.1.whole = surround layers next)
    (kept : ∀ key, (task.stakes (ownerWithin layers)).Turns key →
      (next.stakes (ownerWithin layers)).Turns key ∨ (result.2.registry.get? key.type key).isSome) :
    Keeps (surround layers task) result := by
  intro key turns
  rw [stakes_surround, Stakes.turns_add] at turns
  rw [whole, stakes_surround, Stakes.turns_add]
  rcases turns with own | around
  · exact (kept key own).imp_left .inl
  · exact .inl (.inr around)

/-- Who begins to initialize an entry finds nobody else at it. -/
theorem not_turns_of_ledger {registry : Registry} {fresh : Nat} {key : Key}
    (idle : ∀ key, ¬ (task.stakes (ownerWithin layers)).Turns key)
    (ledger : Ledger contents registry fresh (⟨ownerWithin layers, key, none⟩ ::ₘ
      (Stakes.holds (stakesAround layers) + others))) : ¬ ((surround layers task).stakes none).Turns key := by
  rintro ⟨hold, member, named, initial⟩
  rw [stakes_surround, Stakes.holds_add] at member
  rcases Multiset.mem_add.mp member with own | around
  · exact idle key ⟨hold, own, named, initial⟩
  · exact ledger.turn_once (Multiset.mem_add.mpr (.inl around)) named initial

theorem beginFetch_costs {fetch : Fetch} {later : World} (heavy : 3 ≤ task.effort)
    (lawful : (Stake.turn fetch).Lawful contents roots (ownerWithin machine.layers))
    (idle : ∀ key, ¬ (task.stakes (ownerWithin machine.layers)).Turns key)
    (ledger : Ledger contents later.registry later.fresh
      (⟨ownerWithin machine.layers, fetch.key, none⟩ ::ₘ
        (Stakes.holds (stakesAround machine.layers) + others)))
    (open' : world.registry.get? fetch.key.type fetch.key = none) :
    Costs contents marks (surround machine.layers task) credit trip world (machine.beginFetch fetch later) := by
  rcases beginFetch_cases machine fetch later (lawful.turns fetch rfl) with ⟨node, found, begins⟩ | ⟨_, begins⟩
  · rw [begins]
    have turn : ((Task.inside (.fetching fetch) (.node node fetch.inner)).stakes
        (ownerWithin machine.layers)).Turns fetch.key := by
      refine ⟨⟨ownerWithin machine.layers, fetch.key, none⟩, ?_, rfl, rfl⟩
      rw [Task.stakes_inside, Stakes.holds_add, Frame.stakes, Stakes.holds_turn]
      exact Multiset.mem_add.mpr (.inl (Multiset.mem_singleton_self _))
    refine .begins found ?_ (keeps_at_place rfl fun key turns => absurd turns (idle key)) ?_ open' ?_
    · dsimp only
      rw [pollWithin_effort, effort_surround, Task.effort_node, Layer.effort, Frame.effort]
      omega
    · exact not_turns_of_ledger idle ledger
    · rw [pollWithin_whole, stakes_surround, Stakes.turns_add]
      exact .inl turn
  · rw [begins]
    refine .fails rfl ?_
    change (surround machine.layers (.inside (.fetching fetch) .forever)).effort < _
    rw [effort_surround, effort_surround, Task.effort_inside, Task.effort_forever, Frame.effort]
    omega

theorem idle_pending (owner : Option Key) (references : List Key) (anchor : Anchor) (key : Key) :
    ¬ Stakes.Turns (pendings owner references anchor) key := by
  rintro ⟨hold, member, _⟩
  simp at member

theorem idle_waiting (owner : Option Key) (fetch : Fetch) (ticket : Nat) (key : Key) :
    ¬ ((Task.waiting fetch ticket).stakes owner).Turns key := by
  rintro ⟨hold, member, _, initial⟩
  rw [Task.stakes_waiting, Stakes.holds_waiting, Multiset.mem_singleton] at member
  subst member
  cases initial

theorem dereference_costs (type : EntityType) (name : String) (scope : Scope)
    (account : Task.Account contents roots others
      (surround machine.layers (.node (.reference type name) scope)) world) :
    Costs contents marks (surround machine.layers (.node (.reference type name) scope)) credit trip world
      (machine.dereference type name scope world) := by
  have pending := account.pending
  have anchored : scope.owner = ownerWithin machine.layers := pending.anchored
  have arrives := account.arrives machine.strands
  have idle : ∀ key, ¬ ((Task.node (.reference type name) scope).stakes (ownerWithin machine.layers)).Turns key :=
    idle_pending _ _ _
  have heavy : (Task.node (.reference type name) scope).effort = 4 := rfl
  unfold dereference
  simp only [World.take, World.arrive]
  generalize world.registry.arrive type.typeName (Node.keyOf type name) scope.owner
    ⟨world.fresh, machine.strands⟩ = outcome at arrives
  cases arrives with
  | missing =>
    refine .fails rfl ?_
    rw [fail_effort, effort_surround]
    omega
  | found =>
    refine .works ?_ (keeps_at_place (finish_ok_whole _ _) fun key turns => absurd turns (idle key))
    rw [finish_effort, effort_surround]
    omega
  | cycle =>
    refine .fails rfl ?_
    rw [fail_effort, effort_surround]
    omega
  | @turn payload after registered open' struck =>
    have lawful : (Stake.turn ⟨type, name, scope, payload⟩).Lawful contents roots (ownerWithin machine.layers) :=
      (Stake.Lawful.queue pending registered world.fresh).turn
    rw [anchored] at struck
    exact beginFetch_costs (by omega) lawful idle (struck.mono (Nat.le_succ _)) open'
  | queued =>
    refine .works ?_ (keeps_at_place (rest_whole _ _) fun key turns => absurd turns (idle key))
    dsimp only
    rw [rest_effort, effort_surround, Task.effort_waiting]
    omega

theorem awaken_costs (fetch : Fetch) (ticket : Nat) (cheap : creditAround machine.operation machine.layers ≤ credit)
    (near : (machine.layers.map Layer.trip).sum < trip)
    (account : Task.Account contents roots others (surround machine.layers (.waiting fetch ticket)) world) :
    Costs contents marks (surround machine.layers (.waiting fetch ticket)) credit trip world
      (machine.awaken fetch ticket world) := by
  have resumes := account.resumes
  have idle := idle_waiting (ownerWithin machine.layers) fetch ticket
  unfold awaken
  simp only [World.resume]
  generalize world.registry.resume fetch.type.typeName fetch.key ticket = outcome at resumes
  cases resumes with
  | waiting =>
    refine .looks ⟨rfl, rfl, rfl, ⟨world.ready, rfl⟩, .inr ⟨?_, ?_⟩⟩
    · exact Nat.add_le_add_left cheap _
    · simpa [Machine.trip, Machine.rest, Control.trip] using near
  | found =>
    refine .works ?_ (keeps_at_place (finish_ok_whole _ _) fun key turns => absurd turns (idle key))
    rw [finish_effort, effort_surround, Task.effort_waiting]
    omega
  | turn open' struck =>
    exact beginFetch_costs (Nat.le_refl 3) account.waiting.turn idle struck open'

/-- A value that leaves a frame is worth less than the frame and the value in it. -/
theorem finishFrame_effort (frame : Frame) (value : Value) :
    (machine.finishFrame frame value world).1.whole.effort <
      frame.effort + 2 + (machine.layers.map Layer.effort).sum := by
  unfold finishFrame
  split
  · rw [finish_effort, Frame.effort]
    omega
  · rw [finish_effort, Frame.effort]
    omega
  · dsimp only
    rw [finish_effort, Frame.effort]
    omega
  · rw [finish_effort, Frame.effort]
    omega
  next record =>
    have := machine.nextStage_effort record.type record.scope
      (record.done ++ record.names.zip value.items) record.later
    rw [Frame.effort]
    exact lt_of_le_of_lt this (by omega)

theorem finishIn_effort {value : Value}
    (account : Task.Account contents roots others
      (surround layers (layer.around (.node (.literal value) (.root .default)))) world)
    (minded : Minded ⟨operation, .finish (.ok value), layer :: layers⟩ rest world) :
    (finishIn ⟨operation, .finish (.ok value), layers⟩ layer value world).1.whole.effort <
      (surround layers (layer.around (.node (.literal value) (.root .default)))).effort := by
  rw [effort_surround, layer.effort_around]
  have two : (Task.node (.literal value) (.root .default)).effort = 2 := rfl
  cases layer with
  | inside frame =>
    have := @finishFrame_effort ⟨operation, .finish (.ok value), layers⟩ world frame value
    rw [Layer.effort, two]
    dsimp only [finishIn] at this ⊢
    omega
  | joining before after =>
    have eases := @nextPart_eases 0 (creditAround operation layers)
      (sizeOf after + (layers.map Layer.trip).sum) world ⟨operation, .finish (.ok value), layers⟩
      (before ++ [.done value]) after (le_refl _) (le_refl _)
    have spent := eases.effort_le
    rw [effort_surround, Task.effort_join, effortOfParts_append, effortOfParts_append, effortOfParts_done,
      effortOfParts_nil] at spent
    rw [Layer.effort, two]
    dsimp only [finishIn] at spent ⊢
    omega
  | fanning fan position tally =>
    have proper := proper_of_surround account.sound
    have done : ({ fan with done := fan.done ++ [(position, value)] } : Fan Task).Proper := by
      refine ⟨proper.positive, List.Perm.trans ?_ proper.whole, proper.unstarted⟩
      simp only [Fan.positions, List.map_append, List.map_cons, List.map_nil]
      exact positions_done _ _ _ _
    have eases := runFan_eases
      ⟨operation, .finish (.ok value), layers⟩ { fan with done := fan.done ++ [(position, value)] }
      minded.watched.distinct minded.marks_headed mem_marks_of_fanning (le_refl _) (Nat.lt_succ_self _)
      { world with ready := world.ready.erase (.element fan.id position) } done
    have spent := eases.effort_le
    rw [effort_surround, Task.effort_fan] at spent
    rw [Layer.effort, two]
    dsimp only [finishIn] at spent ⊢
    omega

theorem pollTask_costs (account : Task.Account contents roots others (surround layers task) world)
    (minded : Minded ⟨operation, .poll task, layers⟩ rest world) :
    Costs contents (Machine.marks ⟨operation, .poll task, layers⟩ + rest) (surround layers task)
      (creditAround operation layers) (sizeOf task + (layers.map Layer.trip).sum) world
      (pollTask ⟨operation, .poll task, layers⟩ task world) := by
  by_cases alone : ¬ Consults task
  · have quietly := pollTask_quiet ⟨operation, .poll task, layers⟩ task world alone account.sound
    refine .of_quietly quietly (pollTask_eases alone (fun fan same => ?_) minded)
    subst same
    exact proper_of_surround account.sound
  · rw [not_not] at alone
    generalize Machine.marks ⟨operation, .poll task, layers⟩ + rest = marks
    clear minded
    unfold Consults at alone
    split at alone
    next type name scope =>
      exact @dereference_costs contents roots others marks ⟨operation, .poll _, layers⟩ world _ _ type name
        scope account
    next fetch ticket =>
      refine @awaken_costs contents roots others marks ⟨operation, .poll _, layers⟩ world _ _ fetch ticket
        (le_refl _) ?_ account
      simp only [Task.waiting.sizeOf_spec]
      omega
    next => exact absurd alone id

/-- A machine that fails goes on failing, out of one layer after another. -/
theorem step_fails {after : Machine} {later : World} {error : ResolveError}
    (failing : machine.control = .finish (.error error)) (step : machine.step world = some (after, later)) :
    after.control = .finish (.error error) ∧ after.whole.effort < machine.whole.effort := by
  obtain ⟨operation, control, layers⟩ := machine
  subst failing
  cases layers with
  | nil => cases step
  | cons layer layers =>
    cases step
    refine ⟨rfl, ?_⟩
    have positive := layer.effort_pos
    simp only [Machine.whole, Control.task, effort_surround, Task.effort_forever, List.map_cons, List.sum_cons]
    omega

/-- What every step costs. -/
theorem step_costs {after : Machine} {later : World} (account : machine.Account contents roots others world)
    (minded : machine.Minded rest world) (step : machine.step world = some (after, later)) :
    Costs contents (machine.marks + rest) machine.whole machine.credit machine.trip world (after, later) := by
  obtain ⟨whole, _⟩ := account
  generalize same : (after, later) = result at step ⊢
  cases step_steps step with
  | poll => exact pollTask_costs whole minded
  | @rest operation task layer layers =>
    have quietly := restIn_quiet ⟨operation, .rest task, layers⟩ layer task world whole.sound
    refine .of_quietly quietly (restIn_eases (fun fan position tally same => ?_) minded)
    subst same
    exact (proper_of_surround whole.sound).distinct_running
  | @finish operation value layer layers =>
    have less := finishIn_effort whole minded
    by_cases free : ∀ fetch, layer ≠ .inside (.fetching fetch)
    · exact .of_quietly (finishIn_quiet ⟨operation, .finish (.ok value), layers⟩ layer value world free
        whole.sound) (.inr less)
    · simp only [ne_eq, not_forall, not_not] at free
      obtain ⟨fetch, rfl⟩ := free
      have stored := (finishFetch_advances ⟨operation, .finish (.ok value), layers⟩ fetch value world whole).2
      have after : (finishIn ⟨operation, .finish (.ok value), layers⟩ (.inside (.fetching fetch)) value
          world).1.whole = surround layers (.node (.literal value) (.root .default)) := rfl
      refine .works less ?_
      change Keeps (surround layers (.inside (.fetching fetch) (.node (.literal value) (.root .default)))) _
      refine keeps_at_place after fun key turns => .inr ?_
      rw [Task.stakes_inside, Stakes.turns_add] at turns
      rcases turns with own | inner
      · obtain ⟨hold, member, named, _⟩ := own
        rw [Frame.stakes, Stakes.holds_turn, Multiset.mem_singleton] at member
        subst member
        rw [← named]
        exact Option.isSome_iff_exists.mpr ⟨value, stored⟩
      · exact absurd inner (idle_pending _ _ _ _)
  | fail =>
    obtain ⟨failing, less⟩ := step_fails rfl step
    exact .fails failing less

end Machine

end Blueprint
