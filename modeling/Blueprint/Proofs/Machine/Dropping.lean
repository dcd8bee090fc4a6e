import Blueprint.Proofs.Machine.Account
import Blueprint.Proofs.Minding
/-! A task that is dropped takes its marks with it, and nobody who stays is left behind. -/

namespace Blueprint

/-- Whoever stands in a queue has a claim. -/
theorem Ledger.claim_of_queued {contents : Contents} {registry : Registry} {fresh : Nat}
    {holds : Multiset Hold} (ledger : Ledger contents registry fresh holds) {key : Key} {waiter : Waiter}
    (queued : waiter ∈ registry.queue key) : some waiter.ticket ∈ Hold.claims holds key := by
  cases found : registry.entry? key with
  | none => simp [Registry.queue, found] at queued
  | some entry =>
    have fits := ledger.fits key entry found
    simp only [Registry.queue, found, Option.map_some, Option.getD_some] at queued
    generalize Hold.claims holds key = claims at fits
    cases fits with
    | complete => simp [Entry.complete] at queued
    | deferred _ seated =>
      cases seated with
      | idle => simp at queued
      | held queue =>
        exact Multiset.mem_cons_of_mem (Multiset.mem_coe.mpr (List.mem_map.mpr ⟨waiter, queued, rfl⟩))
      | granted ticket queue =>
        exact Multiset.mem_cons_of_mem (Multiset.mem_coe.mpr (List.mem_map.mpr ⟨waiter, queued, rfl⟩))

/-- A fetch that has given up its ticket stands in no queue. -/
theorem Ledger.gone {contents : Contents} {registry after : Registry} {fresh later : Nat} {owner : Option Key}
    {key : Key} {ticket : Nat} {holds left : Multiset Hold}
    (ledger : Ledger contents registry fresh (⟨owner, key, some ticket⟩ ::ₘ holds))
    (struck : Ledger contents after later left) (same : Hold.tickets left = Hold.tickets holds)
    (other : Key) (waiter : Waiter) (queued : waiter ∈ after.queue other) : waiter.ticket ≠ ticket := by
  have distinct := ledger.tickets
  rw [Hold.tickets_cons_waiting, Multiset.nodup_cons] at distinct
  have claimed := Hold.mem_tickets_of_claims (struck.claim_of_queued queued)
  rw [same] at claimed
  exact fun equal => distinct.1 (equal ▸ claimed)

namespace Marks

variable {rest : Marks} {chain : List Strand}

theorem Headed.add_elements (headed : rest.Headed) {id : Nat} (marked : (chain, .fan id) ∈ rest)
    (elements : List (Nat × Task)) : (marksOfElements id chain elements + rest).Headed := by
  induction elements with
  | nil => simpa using headed
  | cons element later ih =>
    rw [marksOfElements_cons, add_assoc]
    exact ih.add_task (Multiset.mem_add.mpr (.inr marked)) element.2

theorem Headed.add_fan (headed : rest.Headed) (rooted : rest.Rooted chain) (id : Nat) :
    Headed ((chain, .fan id) ::ₘ rest) := by
  have later : ∀ mark ∈ rest, mark ∈ (chain, Mark.fan id) ::ₘ rest := fun _ => Multiset.mem_cons_of_mem
  intro mark member
  rcases Multiset.mem_cons.mp member with rfl | old
  · exact rooted.mono later
  · exact (headed mark old).mono later

/-- A number outside. -/
theorem Watched.foreign {first : Marks} {world : World} (watched : (first + rest).Watched world) {number : Nat}
    (own : number ∈ first.numbers) : number ∉ rest.numbers := by
  have distinct := watched.distinct
  rw [numbers_add] at distinct
  exact fun other => Multiset.disjoint_left.mp (Multiset.nodup_add.mp distinct).2.2 own other

end Marks

section Cancel

variable {contents : Contents} {meanings : Lookup → Prop}

/-- Dropping a task leaves its marks out and nobody behind, whatever others claim and wait for. -/
def Drops (contents : Contents) (meanings : Lookup → Prop) (task : Task) : Prop :=
  ∀ (owner : Option Key) (world : World) (others : Multiset Hold) (chain : List Strand) (rest : Marks),
    task.Sound meanings → Stakes.Anchored (task.stakes owner) →
    Ledger contents world.registry world.fresh (Stakes.holds (task.stakes owner) + others) →
    rest.Headed → rest.Rooted chain → (task.marks chain + rest).Watched world →
      rest.Watched (world.cancel task) ∧ world.Minds rest (world.cancel task)

theorem cancelParts_drops {parts : List (Part Task)}
    (each : ∀ task, .running task ∈ parts → Drops contents meanings task) {owner : Option Key}
    {world : World} {others : Multiset Hold} {chain : List Strand} {rest : Marks}
    (sound : SoundParts meanings parts) (anchored : Stakes.Anchored (stakesOfParts owner parts))
    (ledger : Ledger contents world.registry world.fresh
      (Stakes.holds (stakesOfParts owner parts) + others))
    (headed : rest.Headed) (rooted : rest.Rooted chain)
    (watched : (marksOfParts chain parts + rest).Watched world) :
    rest.Watched (world.cancelParts parts) ∧ world.Minds rest (world.cancelParts parts) := by
  induction parts generalizing world others rest with
  | nil =>
    rw [marksOfParts_nil, zero_add] at watched
    exact ⟨watched, .refl _ _⟩
  | cons part later ih =>
    have after := fun task member => each task (List.mem_cons_of_mem _ member)
    cases part with
    | done value =>
      exact ih after (by simpa using sound) (by simpa using anchored) (by simpa using ledger) headed rooted
        (by simpa using watched)
    | running task =>
      rw [soundParts_running] at sound
      rw [stakesOfParts_running] at anchored ledger
      rw [Stakes.anchored_add] at anchored
      rw [Stakes.holds_add, add_comm (Stakes.holds (task.stakes owner)), add_assoc] at ledger
      rw [marksOfParts_running, add_comm (task.marks chain), add_assoc] at watched
      have inside : ∀ mark ∈ rest, mark ∈ task.marks chain + rest := fun mark member =>
        Multiset.mem_add.mpr (.inr member)
      have first := ih after sound.2 anchored.2 ledger (headed.add_task rooted task) (rooted.mono inside) watched
      have struck := cancelParts_struck (fun task _ => cancel_struck task) owner world _ sound.2 anchored.2 ledger
      have second := each task List.mem_cons_self owner _ others chain rest sound.1 anchored.1 struck.ledger
        headed rooted first.1
      exact ⟨second.1, (first.2.mono (Multiset.le_add_left _ _)).trans second.2⟩

theorem cancelElements_drops {elements : List (Nat × Task)}
    (each : ∀ element ∈ elements, Drops contents meanings element.2) {owner : Option Key} {id : Nat}
    {world : World} {others : Multiset Hold} {chain : List Strand} {rest : Marks}
    (sound : SoundElements meanings elements) (anchored : Stakes.Anchored (stakesOfElements owner elements))
    (ledger : Ledger contents world.registry world.fresh
      (Stakes.holds (stakesOfElements owner elements) + others))
    (headed : rest.Headed) (marked : (chain, .fan id) ∈ rest)
    (watched : (marksOfElements id chain elements + rest).Watched world) :
    rest.Watched (world.cancelElements elements) ∧ world.Minds rest (world.cancelElements elements) := by
  induction elements generalizing world others rest with
  | nil =>
    rw [marksOfElements_nil, zero_add] at watched
    exact ⟨watched, .refl _ _⟩
  | cons element later ih =>
    rw [soundElements_iff] at sound
    rw [stakesOfElements_cons] at anchored ledger
    rw [Stakes.anchored_add] at anchored
    rw [Stakes.holds_add, add_assoc] at ledger
    rw [marksOfElements_cons, add_assoc] at watched
    have present : (marksOfElements id chain later + rest).Rooted (.element id element.1 :: chain) :=
      Multiset.mem_add.mpr (.inr marked)
    have first := each element List.mem_cons_self owner world _ _ _ (sound element List.mem_cons_self) anchored.1
      ledger (headed.add_elements marked later) present watched
    have struck := cancel_struck element.2 owner world _ (sound element List.mem_cons_self) anchored.1 ledger
    have second := ih (fun other member => each other (List.mem_cons_of_mem _ member))
      (soundElements_iff.mpr fun other member => sound other (List.mem_cons_of_mem _ member)) anchored.2
      struck.ledger headed marked first.1
    exact ⟨second.1, (first.2.mono (Multiset.le_add_left _ _)).trans second.2⟩

theorem cancel_drops (task : Task) : Drops contents meanings task := by
  induction task using Task.induction with
  | node | shell | variant | field =>
    exact fun owner world others chain rest _ _ _ _ _ watched =>
      ⟨Marks.Watched.idle_iff.mp watched, .refl _ _⟩
  | forever =>
    intro owner world others chain rest _ _ _ _ _ watched
    rw [Task.marks_forever, zero_add] at watched
    exact ⟨watched, .refl _ _⟩
  | delay due timer next ih =>
    intro owner world others chain rest _ _ _ _ _ watched
    have foreign := watched.foreign (Marks.number_of_timer (Multiset.mem_singleton_self _))
    exact ⟨watched.drop_timer, .dropTimer foreign⟩
  | waiting fetch ticket =>
    intro owner world others chain rest sound anchored ledger headed rooted watched
    have own : fetch.scope.owner = owner := anchored _ (Multiset.mem_singleton_self _)
    have whole := headed.add_task rooted (.waiting fetch ticket)
    have foreign := watched.foreign (Marks.number_of_seat (Multiset.mem_singleton_self _))
    rw [Task.stakes_waiting, Stakes.holds_waiting, Multiset.singleton_add] at ledger
    have struck := World.Struck.withdraw ledger
    rw [World.cancel, own]
    have left := (watched.withdraw fetch.key ticket).unlink owner fetch.key
    exact ⟨left.drop_seat fun waiter queued => ledger.gone struck.ledger rfl _ waiter queued,
      (World.Minds.withdraw watched whole (Multiset.le_add_left _ _) fetch.key foreign).trans (.unlink _ _)⟩
  | inside frame task ih =>
    intro owner world others chain rest sound anchored ledger headed rooted watched
    rw [Task.sound_inside] at sound
    rw [Task.stakes_inside] at anchored ledger
    rw [Stakes.anchored_add] at anchored
    rw [Stakes.holds_add] at ledger
    rw [Task.marks_inside] at watched
    cases frame with
    | fetching fetch =>
      rw [Frame.stakes, Stakes.holds_turn, add_assoc, add_left_comm, Multiset.singleton_add] at ledger
      have inner := ih _ world _ chain rest sound.2 anchored.2 ledger headed rooted watched
      rw [World.cancel]
      exact ⟨(inner.1.release fetch.key).unlink _ _,
        (inner.2.trans (.release inner.1 headed fetch.key)).trans (.unlink _ _)⟩
    | present | tagged | folding | stage =>
      refine ih owner world others chain rest sound.2 anchored.2 ?_ headed rooted watched
      simpa [Frame.stakes, Frame.owner] using ledger
  | join parts ih =>
    intro owner world others chain rest sound anchored ledger headed rooted watched
    rw [Task.sound_join] at sound
    rw [Task.stakes_join] at anchored ledger
    refine cancelParts_drops ih sound anchored ledger headed rooted ?_
    rw [Task.marks_join] at watched
    split at watched
    next complete =>
      obtain ⟨values, known⟩ := Option.isSome_iff_exists.mp complete
      rw [parts_done known, marksOfParts_done_all, zero_add]
      exact Marks.Watched.idle_iff.mp watched
    next => exact watched
  | fan fan queued running =>
    intro owner world others chain rest sound anchored ledger headed rooted watched
    rw [Task.sound_fan] at sound
    rw [Task.stakes_fan] at anchored ledger
    rw [Stakes.anchored_add] at anchored
    rw [Stakes.holds_add, holds_queued sound.1.unstarted, zero_add] at ledger
    have marked : Marks.Watched ((chain, .fan fan.id) ::ₘ (marksOfElements fan.id chain fan.running + rest))
        world := by
      rw [Task.marks_fan] at watched
      split at watched
      · rw [Multiset.cons_add, add_assoc, Multiset.singleton_add, Multiset.cons_swap] at watched
        exact Marks.Watched.idle_iff.mp watched
      · simpa [Multiset.cons_add] using watched
    rw [← Multiset.add_cons] at marked
    have dropped := cancelElements_drops running sound.2.2 anchored.2 ledger (headed.add_fan rooted fan.id)
      (Multiset.mem_cons_self _ _) marked
    have distinct := dropped.1.distinct
    rw [Marks.numbers_cons_fan, Multiset.nodup_cons] at distinct
    rw [World.cancel]
    refine ⟨(dropped.1.drop_fan).fewer (Nat.le_refl _) (fun _ _ member => member) rfl rfl, ?_⟩
    exact (dropped.2.mono (Multiset.le_cons_self _ _)).trans (.forget headed distinct.1)

end Cancel

end Blueprint
