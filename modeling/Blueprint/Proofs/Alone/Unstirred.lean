import Blueprint.Proofs.Alone.Returning
import Blueprint.Proofs.Machine.Filled
import Blueprint.Proofs.Machine.Straight
/-! A look that nothing has called for. As long as no timer is due, no turn has come and no element of a collection
has been woken, an operation that rests is left by a look just as it was, and so is the world. -/

namespace Blueprint

/-- What a mark waits for has not come yet. -/
def Mark.Calm (world : World) : Mark → Prop
  | timer _ due => world.now < due
  | seat key ticket => ∃ entry, world.registry.entry? key = some entry ∧ entry.value = none ∧
      entry.gate ≠ .granted ticket
  | fan id => ∀ position, .element id position ∉ world.ready
  | idle => False

/-- A fetch that stands in the queue of an entry has not got its turn. -/
theorem Ledger.waits_of_queued {contents : Contents} {registry : Registry} {fresh : Nat} {holds : Multiset Hold}
    (ledger : Ledger contents registry fresh holds) {key : Key} {waiter : Waiter}
    (queued : waiter ∈ registry.queue key) :
    ∃ entry, registry.entry? key = some entry ∧ entry.value = none ∧ entry.gate ≠ .granted waiter.ticket := by
  obtain ⟨hold, member, claims⟩ := Multiset.mem_map.mp (ledger.claim_of_queued queued)
  obtain ⟨listed, rfl⟩ := Multiset.mem_filter.mp member
  obtain ⟨owner, key, ticket⟩ := hold
  cases claims
  obtain ⟨rest, rfl⟩ := Multiset.exists_cons_of_mem listed
  have once : some waiter.ticket ∉ Hold.claims rest key := by
    have distinct := ledger.tickets
    rw [Hold.tickets_cons_waiting, Multiset.nodup_cons] at distinct
    exact fun claimed => distinct.1 (Hold.mem_tickets_of_claims claimed)
  cases found : registry.entry? key with
  | none => simp [Registry.queue, found] at queued
  | some entry =>
    have fits := ledger.fits key entry found
    rw [Hold.claims_cons_self] at fits
    simp only [Registry.queue, found, Option.map_some, Option.getD_some] at queued
    refine ⟨entry, rfl, ?_⟩
    cases fits with
    | complete => simp [Entry.complete] at queued
    | deferred _ seated =>
      refine ⟨rfl, fun turn => ?_⟩
      cases turn
      rw [seated.of_granted] at once
      exact once (Multiset.mem_coe.mpr (List.mem_map.mpr ⟨waiter, queued, rfl⟩))

namespace Machine

variable {world : World}

/-- Parts that are left by a look as they were are left together. -/
theorem nextPart_leads {before after : List (Part Task)} (machine : Machine)
    (each : ∀ task, .running task ∈ after → ∀ machine : Machine,
      Leads (machine.poll task, world) (machine.rest task, world))
    (open' : (before ++ after).mapM Part.value? = none) :
    Leads (machine.nextPart before after, world) (machine.rest (.join (before ++ after)), world) := by
  induction after generalizing before machine with
  | nil =>
    rw [List.append_nil] at open' ⊢
    rw [nextPart, open']
    exact .refl
  | cons part rest ih =>
    have others := fun task member => each task (List.mem_cons_of_mem part member)
    rw [List.append_cons] at open' ⊢
    cases part with
    | done value => exact ih machine others open'
    | running task =>
      have inner := each task List.mem_cons_self { machine with layers := .joining before rest :: machine.layers }
      exact (inner.tail rfl).trans (ih { machine with control := .rest task } others open')

/-- A collection with all that it may run started, none of which is called, is left as it was. -/
theorem runFan_calm {fan : Fan Task} (machine : Machine) (filled : fan.Filled) (runs : fan.running ≠ [])
    (silent : ∀ position, .element fan.id position ∉ world.ready) :
    machine.runFan fan world = (machine.rest (.fan fan), world) := by
  have full : fan.starting = [] := filled.resolve_left runs
  have same : fan.refill = fan := by
    have kept : fan.queued.drop (fan.limit - fan.running.length) = fan.queued := by
      have both := List.take_append_drop (fan.limit - fan.running.length) fan.queued
      rwa [show fan.queued.take (fan.limit - fan.running.length) = [] from full, List.nil_append] at both
    rw [Fan.refill, full, kept]
    rfl
  have nobody : world.nextElement? fan.id = none := by
    unfold World.nextElement?
    split
    next id position found =>
      have element := List.find?_some found
      have own : id = fan.id := by simpa [Strand.isElementOf] using element
      exact absurd (own ▸ List.mem_of_find?_eq_some found) (silent position)
    next => rfl
  have going : fan.running.isEmpty = false := by simpa using runs
  simp only [runFan, same, full, List.map_nil, List.append_nil, nextElement, nobody, going]
  rfl

/-- A look that nothing has called for leaves a task and the world as they were. -/
theorem leads_of_calm {task : Task} {chain : List Strand} (filled : task.Filled)
    (calm : ∀ mark ∈ task.marks chain, mark.2.Calm world) (machine : Machine) :
    Leads (machine.poll task, world) (machine.rest task, world) := by
  induction task using Task.induction generalizing machine with
  | node | shell | variant | field => exact (calm _ (Multiset.mem_singleton_self _)).elim
  | delay due timer next =>
    have early : ¬ due ≤ world.now := Nat.not_le.mpr (calm _ (Multiset.mem_singleton_self _))
    exact .single (congrArg some (if_neg early))
  | forever => exact .single rfl
  | waiting fetch ticket =>
    obtain ⟨entry, found, open', turn⟩ := calm _ (Multiset.mem_singleton_self _)
    have waits : world.resume fetch.type.typeName fetch.key ticket = (.waiting, world) := by
      obtain ⟨value, payload, gate, queue⟩ := entry
      cases open'
      simp only [World.resume, Registry.resume, found]
      rw [if_neg turn]
    refine .single (congrArg some ?_)
    show machine.awaken fetch ticket world = _
    rw [awaken, waits]
  | inside frame task ih =>
    have inner := ih (Task.Filled.inside_iff.mp filled) calm
      { machine with layers := .inside frame :: machine.layers }
    have whole : Leads (machine.poll (.inside frame task), world) _ := .head rfl inner
    exact whole.tail rfl
  | join parts ih =>
    rw [Task.marks_join] at calm
    split at calm
    · exact (calm _ (Multiset.mem_singleton_self _)).elim
    next open' =>
      have each := fun task member => ih task member (Task.Filled.join_iff.mp filled task member) fun mark inner =>
        calm mark (mem_marksOfParts.mpr ⟨task, member, inner⟩)
      have rests := @nextPart_leads world [] parts (machine.poll (.join parts)) each
        (Option.not_isSome_iff_eq_none.mp open')
      exact .head rfl rests
  | fan fan _ _ =>
    rw [Task.marks_fan] at calm
    have runs : fan.running ≠ [] := fun none => calm (chain, .idle) (by simp [none])
    have silent := calm (chain, .fan fan.id) (Multiset.mem_cons_self _ _)
    exact .single (congrArg some (runFan_calm machine (Task.Filled.fan_iff.mp filled) runs silent))

end Machine

namespace Phase

/-- As soon as an operation rests, all that may run of its collections has started. -/
def Filled : Phase → Prop
  | resting operation => operation.task.Filled
  | looking _ machine => machine.Filled
  | returned _ | dropped => True

end Phase

namespace System

variable {first last system : System} {action : Action}

theorem Changes.filled {id : Nat} {process : Process} {phase : Phase} {later : World} {others : Multiset Hold}
    (changes : Changes system action id process phase later) (orderly : process.Orderly system.registered)
    (ledger : Ledger system.registered system.world.registry system.world.fresh (process.holds + others))
    (filled : process.phase.Filled) : phase.Filled := by
  cases changes with
  | look present => exact filled
  | step present step => exact Machine.step_filled (account_of_orderly orderly ledger).whole.sound filled step
  | @conclude _ _ operation machine present ended =>
    rcases Operation.conclude_cases ended with ⟨task, deadline, later, rests, bare, same⟩ | ⟨result, later, same, _⟩
    · obtain ⟨number, control, layers⟩ := machine
      cases rests
      cases bare
      rw [same]
      exact filled
    · rw [same]
      trivial
  | drop => trivial

theorem Run.filled (run : Run Action.Continues first last) (regular : first.Regular)
    (filled : ∀ process ∈ first.processes, process.phase.Filled) :
    ∀ process ∈ last.processes, process.phase.Filled :=
  run.phases regular (fun changes _ own ledger before => changes.filled own ledger before) filled

/-- An operation that rests, alone, and is not called is left by a look as it was, if none of its timers is due. -/
theorem Regular.look_unstirred {contents : Contents} {call : Call} {rested : Operation} {between later : World}
    (regular : (solo contents call (.resting rested) between).Regular) (filled : rested.task.Filled)
    (silent : .operation 0 ∉ between.ready) (registry : later.registry = between.registry)
    (ready : later.ready = between.ready)
    (early : ∀ chain id due, (chain, .timer id due) ∈ rested.task.marks [.operation 0] →
      ⟨id, due, chain⟩ ∈ between.timers → later.now < due) :
    ∃ fuel, (Machine.start 0 rested.task).run fuel later = some (⟨0, .rest rested.task, []⟩, later) := by
  have alert := regular.alert.each 0 _ rfl
  have named : rested.id = 0 := alert.1
  have stirred : ∀ {chain : List Strand} {mark : Mark}, (chain, mark) ∈ rested.task.marks [.operation 0] →
      ¬ mark.Stirred between chain := fun member stirred =>
    silent (Phase.Alert.called alert (Multiset.mem_add.mpr (.inl (named.symm ▸ member))) stirred)
  have calm : ∀ mark ∈ rested.task.marks [.operation 0], mark.2.Calm later := by
    intro mark member
    obtain ⟨chain, kind⟩ := mark
    cases kind with
    | timer id due => exact early chain id due member (not_not.mp (stirred member))
    | seat key ticket =>
      have queued : ⟨ticket, chain⟩ ∈ between.registry.queue key := not_not.mp (stirred member)
      rw [Mark.Calm, registry]
      exact regular.orderly.ledger.waits_of_queued queued
    | fan id =>
      rw [Mark.Calm, ready]
      exact not_exists.mp (stirred member)
    | idle => exact stirred member trivial
  exact (Machine.leads_of_calm filled calm (.start 0 rested.task)).run rfl

end System

end Blueprint
