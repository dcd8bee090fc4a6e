import Blueprint.Proofs.Guise.Task
import Blueprint.Proofs.Ledger
/-! Worlds in which the same resolution runs in two guises. Their registries have the same entries under the same
keys, the order of which does not matter. Whatever a machine does to the one, its other form does to the other. -/

namespace Blueprint

/-- Two registries that agree up to the numbers of waiters and the order of keys. -/
structure Registry.Alike (guise : Guise) (one two : Registry) : Prop where
  entries : ∀ key, two.entry? key = (one.entry? key).map guise.entry
  waits : two.waits = one.waits
  hits : two.hits = one.hits
  initializations : two.initializations = one.initializations

namespace Registry.Alike

variable {guise : Guise} {one two : Registry}

theorem modify (alike : Alike guise one two) (key : Key) (change other : Entry → Entry)
    (same : ∀ entry, other (guise.entry entry) = guise.entry (change entry)) :
    Alike guise (one.modify key change) (two.modify key other) where
  entries place := by
    rw [entry?_modify, entry?_modify]
    split
    · simp [alike.entries, same, Function.comp_def]
    · exact alike.entries place
  waits := alike.waits
  hits := alike.hits
  initializations := alike.initializations

theorem beginTurn (alike : Alike guise one two) (key : Key) : Alike guise (one.beginTurn key) (two.beginTurn key) :=
  have held := alike.modify key (fun entry => { entry with gate := .held }) (fun entry => { entry with gate := .held })
    fun _ => rfl
  ⟨held.entries, held.waits, held.hits, congrArg (· + 1) alike.initializations⟩

theorem unlink (alike : Alike guise one two) (owner : Option Key) (key : Key) :
    Alike guise (one.unlink owner key) (two.unlink owner key) := by
  cases owner with
  | none => exact alike
  | some owner =>
    exact ⟨alike.entries, congrArg (WaitGraph.remove · owner key) alike.waits, alike.hits, alike.initializations⟩

/-- Both accept a wait, or both refuse it for the same reason. -/
theorem link (alike : Alike guise one two) (owner : Option Key) (key : Key) :
    (∃ error, one.link owner key = .error error ∧ two.link owner key = .error error) ∨
      ∃ first second, one.link owner key = .ok first ∧ two.link owner key = .ok second ∧ Alike guise first second := by
  cases owner with
  | none => exact .inr ⟨one, two, rfl, rfl, alike⟩
  | some owner =>
    simp only [Registry.link, alike.waits]
    cases one.waits.add owner key with
    | error chain => simp
    | ok waits => exact .inr ⟨_, _, rfl, rfl, ⟨alike.entries, rfl, alike.hits, alike.initializations⟩⟩

theorem arrive (alike : Alike guise one two) (type : TypeName) (key : Key) (owner : Option Key) (waiter : Waiter) :
    (two.arrive type key owner (guise.waiter waiter)).1 = (one.arrive type key owner waiter).1 ∧
      Alike guise (one.arrive type key owner waiter).2 (two.arrive type key owner (guise.waiter waiter)).2 := by
  have counted : Alike guise { one with hits := one.hits + 1 } { two with hits := two.hits + 1 } :=
    ⟨alike.entries, alike.waits, congrArg (· + 1) alike.hits, alike.initializations⟩
  unfold Registry.arrive
  by_cases typed : key.type = type
  · rw [if_neg (not_not_intro typed), if_neg (not_not_intro typed), alike.entries]
    cases found : one.entry? key with
    | none => exact ⟨rfl, alike⟩
    | some entry =>
      obtain ⟨value, payload, gate, queue⟩ := entry
      cases value with
      | some stored =>
        simp only [Option.map_some, Guise.entry]
        cases asType key type stored with
        | ok value => exact ⟨rfl, counted⟩
        | error error => exact ⟨rfl, counted⟩
      | none =>
        cases payload with
        | none => exact ⟨rfl, alike⟩
        | some payload =>
          simp only [Option.map_some, Guise.entry]
          rcases alike.link owner key with ⟨error, left, right⟩ | ⟨first, second, left, right, linked⟩
          · rw [left, right]
            exact ⟨rfl, alike⟩
          · rw [left, right]
            have queued := linked.modify key (fun entry => { entry with queue := entry.queue ++ [waiter] })
              (fun entry => { entry with queue := entry.queue ++ [guise.waiter waiter] })
              fun entry => by simp [Guise.entry]
            cases gate with
            | idle => exact ⟨rfl, linked.beginTurn key⟩
            | held => exact ⟨rfl, queued⟩
            | granted ticket => exact ⟨rfl, queued⟩
  · rw [if_pos typed, if_pos typed]
    exact ⟨rfl, alike⟩

theorem gate_iff {gate : Gate} {ticket : Nat} :
    guise.gate gate = .granted (guise.number ticket) ↔ gate = .granted ticket := by
  cases gate with
  | idle | held => simp [Guise.gate]
  | granted other =>
    simp only [Guise.gate, Gate.granted.injEq]
    exact ⟨guise.injective, congrArg guise.number⟩

theorem resume (alike : Alike guise one two) (type : TypeName) (key : Key) (ticket : Nat) :
    (two.resume type key (guise.number ticket)).1 = (one.resume type key ticket).1 ∧
      Alike guise (one.resume type key ticket).2 (two.resume type key (guise.number ticket)).2 := by
  unfold Registry.resume
  rw [alike.entries]
  cases found : one.entry? key with
  | none => exact ⟨rfl, alike⟩
  | some entry =>
    obtain ⟨value, payload, gate, queue⟩ := entry
    cases value with
    | some stored =>
      simp only [Option.map_some, Guise.entry]
      cases asType key type stored with
      | ok value => exact ⟨rfl, alike⟩
      | error error => exact ⟨rfl, alike⟩
    | none =>
      simp only [Option.map_some, Guise.entry, gate_iff]
      split
      · exact ⟨rfl, alike.beginTurn key⟩
      · exact ⟨rfl, alike⟩

theorem queue (alike : Alike guise one two) (key : Key) :
    ((two.entry? key).map Entry.queue).getD [] = (((one.entry? key).map Entry.queue).getD []).map guise.waiter := by
  rw [alike.entries]
  cases one.entry? key <;> rfl

theorem settle (alike : Alike guise one two) (key : Key) (stored : Stored) :
    (two.settle key stored).1 = (one.settle key stored).1.map guise.waiter ∧
      Alike guise (one.settle key stored).2 (two.settle key stored).2 :=
  ⟨alike.queue key, alike.modify key (fun _ => .complete stored) (fun _ => .complete stored) fun _ => rfl⟩

theorem release (alike : Alike guise one two) (key : Key) :
    (two.release key).1 = (one.release key).1.map guise.waiter ∧
      Alike guise (one.release key).2 (two.release key).2 := by
  unfold Registry.release
  rw [alike.queue key]
  cases ((one.entry? key).map Entry.queue).getD [] with
  | nil =>
    have idle := alike.modify key (fun entry => { entry with gate := .idle })
      (fun entry => { entry with gate := .idle }) fun _ => rfl
    exact ⟨rfl, idle⟩
  | cons next rest =>
    have passed := alike.modify key (fun entry => { entry with gate := .granted next.ticket, queue := rest })
      (fun entry =>
        { entry with gate := .granted (guise.number next.ticket), queue := rest.map guise.waiter }) fun _ => rfl
    exact ⟨rfl, passed⟩

theorem withdraw (alike : Alike guise one two) (key : Key) (ticket : Nat) :
    (two.withdraw key (guise.number ticket)).1 = (one.withdraw key ticket).1.map guise.waiter ∧
      Alike guise (one.withdraw key ticket).2 (two.withdraw key (guise.number ticket)).2 := by
  have granted : ((two.entry? key).any fun entry => entry.gate = .granted (guise.number ticket)) =
      (one.entry? key).any fun entry => entry.gate = .granted ticket := by
    rw [alike.entries]
    cases one.entry? key with
    | none => rfl
    | some entry => simp [Guise.entry, gate_iff]
  unfold Registry.withdraw
  rw [granted]
  split
  · exact alike.release key
  · have numbers : ∀ waiter : Waiter, (guise.waiter waiter).ticket = guise.number ticket ↔ waiter.ticket = ticket :=
      fun waiter => ⟨guise.injective, congrArg guise.number⟩
    have gone := alike.modify key
      (fun entry => { entry with queue := entry.queue.filter fun waiter => waiter.ticket ≠ ticket })
      (fun entry => { entry with queue := entry.queue.filter fun waiter => waiter.ticket ≠ guise.number ticket })
      fun entry => by simp [Guise.entry, List.filter_map, Function.comp_def, numbers]
    exact ⟨rfl, gone⟩

/-- Registries that are alike, have their keys in the same order and no numbers to tell apart are the same. -/
theorem eq (alike : Alike guise one two) (keys : two.entries.map (·.1) = one.entries.map (·.1))
    (distinct : (one.entries.map (·.1)).Nodup)
    (plain : ∀ key entry, one.entry? key = some entry → guise.entry entry = entry) : two = one := by
  have entries : two.entries = one.entries := by
    refine OrderedMap.eq_of_get? keys (keys ▸ distinct) fun key => ?_
    show two.entry? key = one.entry? key
    rw [alike.entries]
    cases found : one.entry? key with
    | none => rfl
    | some entry => rw [Option.map_some, plain key entry found]
  obtain ⟨_, _, _, _⟩ := one
  obtain ⟨_, _, _, _⟩ := two
  cases entries
  cases alike.waits
  cases alike.hits
  cases alike.initializations
  rfl

end Registry.Alike

/-- Two worlds that agree up to numbers, timers that the first one does not have, and how much was told. So many more
numbers have been given out in the second. -/
structure World.Alike (guise : Guise) (lag : Nat) (one two : World) : Prop where
  registry : Registry.Alike guise one.registry two.registry
  now : two.now = one.now
  timers : two.timers.filter (fun timer => guise.own timer.id) = one.timers.map guise.timer
  ready : two.ready = one.ready.map guise.strand
  fresh : two.fresh = one.fresh + lag
  starts : two.starts = one.starts
  events : guise.told one.events two.events

theorem Guise.wake (guise : Guise) (queue chain : List Strand) :
    Strand.wake (queue.map guise.strand) (chain.map guise.strand) = (Strand.wake queue chain).map guise.strand := by
  induction chain generalizing queue with
  | nil => rfl
  | cons strand outer ih =>
    have member : guise.strand strand ∈ queue.map guise.strand ↔ strand ∈ queue := by
      refine ⟨fun inside => ?_, fun inside => List.mem_map_of_mem inside⟩
      obtain ⟨other, listed, same⟩ := List.mem_map.mp inside
      exact guise.strand_injective same ▸ listed
    simp only [List.map_cons, Strand.wake, member]
    split
    · rfl
    · rw [← ih, List.map_append]
      rfl

theorem Guise.isElementOf (guise : Guise) (strand : Strand) (fan : Nat) :
    (guise.strand strand).isElementOf (guise.number fan) = strand.isElementOf fan := by
  cases strand with
  | operation id => rfl
  | element id position =>
    have same : guise.number id = guise.number fan ↔ id = fan := ⟨guise.injective, congrArg guise.number⟩
    simp [Guise.strand, Strand.isElementOf, same]

namespace World.Alike

variable {guise : Guise} {lag : Nat} {one two : World}

theorem emit (alike : Alike guise lag one two) (event : Event) :
    Alike guise lag (one.emit event) (two.emit event) :=
  { alike with events := guise.tells event alike.events }

theorem wake (alike : Alike guise lag one two) (strands : List Strand) :
    Alike guise lag (one.wake strands) (two.wake (strands.map guise.strand)) :=
  { alike with ready := by rw [World.wake, alike.ready, guise.wake]; rfl }

theorem wakeAll (alike : Alike guise lag one two) (waiters : List Waiter) :
    Alike guise lag (one.wakeAll waiters) (two.wakeAll (waiters.map guise.waiter)) := by
  induction waiters generalizing one two with
  | nil => exact alike
  | cons waiter rest ih => exact ih (alike.wake waiter.strands)

theorem count (alike : Alike guise lag one two) (counter : Nat) :
    Alike guise lag (one.count counter) (two.count counter) :=
  { alike with starts := by simp only [World.count, World.startsOf, alike.starts] }

theorem dropTimer (alike : Alike guise lag one two) (id : Nat) :
    Alike guise lag (one.dropTimer id) (two.dropTimer (guise.number id)) :=
  { alike with
    timers := by
      have numbers : ∀ timer : Timer, (guise.timer timer).id = guise.number id ↔ timer.id = id :=
        fun timer => ⟨guise.injective, congrArg guise.number⟩
      simp only [World.dropTimer]
      rw [List.filter_comm, alike.timers, List.filter_map]
      simp [Function.comp_def, numbers] }

/-- If the next number corresponds, the numbers that are taken do. -/
theorem take (alike : Alike guise lag one two) (numbered : guise.number one.fresh = one.fresh + lag) :
    two.take.1 = guise.number one.take.1 ∧ Alike guise lag one.take.2 two.take.2 :=
  ⟨alike.fresh.trans numbered.symm, { alike with fresh := by simp only [World.take, alike.fresh]; omega }⟩

theorem setTimer (alike : Alike guise lag one two) (numbered : guise.number one.fresh = one.fresh + lag) (due : Nat)
    (strands : List Strand) :
    (two.setTimer due (strands.map guise.strand)).1 = guise.number (one.setTimer due strands).1 ∧
      Alike guise lag (one.setTimer due strands).2 (two.setTimer due (strands.map guise.strand)).2 := by
  have same : two.fresh = guise.number one.fresh := alike.fresh.trans numbered.symm
  refine ⟨same, { (alike.take numbered).2 with timers := ?_ }⟩
  simp only [World.setTimer, World.take, List.filter_append, alike.timers, List.map_append]
  simp [same, guise.own_number, Guise.timer]

theorem with_registry (alike : Alike guise lag one two) {first second : Registry}
    (registry : Registry.Alike guise first second) :
    Alike guise lag { one with registry := first } { two with registry := second } :=
  { alike with registry }

theorem with_ready (alike : Alike guise lag one two) {first second : List Strand}
    (ready : second = first.map guise.strand) :
    Alike guise lag { one with ready := first } { two with ready := second } :=
  { alike with ready }

theorem arrive (alike : Alike guise lag one two) (type : TypeName) (key : Key) (owner : Option Key) (waiter : Waiter) :
    (two.arrive type key owner (guise.waiter waiter)).1 = (one.arrive type key owner waiter).1 ∧
      Alike guise lag (one.arrive type key owner waiter).2 (two.arrive type key owner (guise.waiter waiter)).2 :=
  have both := alike.registry.arrive type key owner waiter
  ⟨both.1, alike.with_registry both.2⟩

theorem resume (alike : Alike guise lag one two) (type : TypeName) (key : Key) (ticket : Nat) :
    (two.resume type key (guise.number ticket)).1 = (one.resume type key ticket).1 ∧
      Alike guise lag (one.resume type key ticket).2 (two.resume type key (guise.number ticket)).2 :=
  have both := alike.registry.resume type key ticket
  ⟨both.1, alike.with_registry both.2⟩

theorem unlink (alike : Alike guise lag one two) (owner : Option Key) (key : Key) :
    Alike guise lag (one.unlink owner key) (two.unlink owner key) :=
  alike.with_registry (alike.registry.unlink owner key)

/-- The waiters that a registry names are woken. -/
theorem answered (alike : Alike guise lag one two) {first second : List Waiter × Registry}
    (both : second.1 = first.1.map guise.waiter ∧ Registry.Alike guise first.2 second.2) :
    Alike guise lag ({ one with registry := first.2 }.wakeAll first.1)
      ({ two with registry := second.2 }.wakeAll second.1) := by
  rw [both.1]
  exact (alike.with_registry both.2).wakeAll first.1

theorem settle (alike : Alike guise lag one two) (key : Key) (stored : Stored) :
    Alike guise lag (one.settle key stored) (two.settle key stored) :=
  alike.answered (alike.registry.settle key stored)

theorem release (alike : Alike guise lag one two) (key : Key) :
    Alike guise lag (one.release key) (two.release key) :=
  alike.answered (alike.registry.release key)

theorem withdraw (alike : Alike guise lag one two) (key : Key) (ticket : Nat) :
    Alike guise lag (one.withdraw key ticket) (two.withdraw key (guise.number ticket)) :=
  alike.answered (alike.registry.withdraw key ticket)

theorem forget (alike : Alike guise lag one two) (fan : Nat) :
    Alike guise lag (one.forget fan) (two.forget (guise.number fan)) :=
  alike.with_ready (by simp [alike.ready, List.filter_map, Function.comp_def, guise.isElementOf])

theorem erase (alike : Alike guise lag one two) (strand : Strand) :
    Alike guise lag { one with ready := one.ready.erase strand }
      { two with ready := two.ready.erase (guise.strand strand) } :=
  alike.with_ready (by
    rw [alike.ready]
    exact (List.map_erase (fun _ _ same => guise.strand_injective same) one.ready).symm)

theorem cancelParts {parts : List (Part Task)}
    (each : ∀ task, .running task ∈ parts → ∀ {one two : World}, Alike guise lag one two →
      Alike guise lag (one.cancel task) (two.cancel (guise.task task))) (alike : Alike guise lag one two) :
    Alike guise lag (one.cancelParts parts) (two.cancelParts (parts.map guise.part)) := by
  induction parts with
  | nil => simpa [World.cancelParts] using alike
  | cons part rest ih =>
    have later := ih fun task member => each task (List.mem_cons_of_mem _ member)
    cases part with
    | done value => simpa [World.cancelParts] using later
    | running task => simpa [World.cancelParts] using each task List.mem_cons_self later

theorem cancelElements {elements : List (Nat × Task)}
    (each : ∀ element ∈ elements, ∀ {one two : World}, Alike guise lag one two →
      Alike guise lag (one.cancel element.2) (two.cancel (guise.task element.2))) (alike : Alike guise lag one two) :
    Alike guise lag (one.cancelElements elements) (two.cancelElements (elements.map guise.element)) := by
  induction elements generalizing one two with
  | nil => simpa [World.cancelElements] using alike
  | cons element rest ih =>
    have first := each element List.mem_cons_self alike
    simpa [World.cancelElements, Guise.element] using
      ih (fun other member => each other (List.mem_cons_of_mem _ member)) first

/-- Dropping the same task leaves worlds that agree. -/
theorem cancel (task : Task) {one two : World} (alike : Alike guise lag one two) :
    Alike guise lag (one.cancel task) (two.cancel (guise.task task)) := by
  induction task using Task.induction generalizing one two with
  | node | shell | variant | field | forever => simpa [World.cancel] using alike
  | delay due timer next => simpa [World.cancel] using alike.dropTimer timer
  | waiting fetch ticket =>
    simpa [World.cancel] using (alike.withdraw fetch.key ticket).unlink fetch.scope.owner fetch.key
  | inside frame task ih =>
    cases frame with
    | fetching fetch =>
      simpa [World.cancel, Guise.frame] using ((ih alike).release fetch.key).unlink fetch.scope.owner fetch.key
    | _ => simpa [World.cancel, Guise.frame] using ih alike
  | join parts each => simpa [World.cancel] using alike.cancelParts fun task member {_ _} => each task member
  | fan fan _ each =>
    have dropped := alike.cancelElements fun element member {_ _} => each element member
    simpa [World.cancel, Guise.fan] using dropped.forget fan.id

end World.Alike

end Blueprint
