import Blueprint.Proofs.System.Every
import Blueprint.Proofs.Task.Flows
/-! Work that should not come to stand still. In every state that can be reached, whatever an operation does on
behalf of its call or of an entry is without a stalled shell if the tree of the call or entry is. -/

namespace Blueprint

/-- What flows leads only to what flows, if the nodes of the entries that should flow do. -/
theorem flowing_handedOn {free : Option Key → Prop} {contents : Contents}
    (meant : ∀ key node, contents.node? key = some node → free (some key) → node.Flows) :
    (flowing free).HandedOn contents where
  literal _ _ _ := fun _ => trivial
  nested known := known
  record known field planned wanted := fieldsFlow_iff.mp (known wanted) field (EntityType.mem_of_mem_plan planned)
  union known := known
  variant known := known
  stalled known := known
  delayed known := known
  required known := known
  optional known := known
  repeated known _ inside wanted := itemsFlow_iff.mp (known wanted) _ (List.getElem_mem inside)
  keyed known _ inside :=
    have both := fun wanted => pairsFlow_iff.mp (known wanted) _ (List.getElem_mem inside)
    ⟨fun wanted => (both wanted).1, fun wanted => (both wanted).2⟩
  fetch _ _ _ := trivial
  begin _ found wanted := meant _ _ found wanted

/-- No shell in the own tree of a call is stalled. -/
def Call.Flows : Call → Prop
  | resolve _ node | within _ (.node node) => node.Flows
  | within _ (.field _ _ slot) => slot.Flows
  | within _ (.variant _ shell) => shell.Flows

/-- The owners in whose trees no shell is stalled; nobody stands for the call itself. -/
def Contents.Free (contents : Contents) (call : Call) : Option Key → Prop
  | none => call.Flows
  | some key => ∀ node, contents.node? key = some node → node.Flows

namespace Contents

variable {contents more : Contents} {call : Call}

theorem Free.fewer (wider : contents.Extends more) {owner : Option Key} (free : more.Free call owner) :
    contents.Free call owner := by
  cases owner with
  | none => exact free
  | some key => exact fun node found => free node (wider.node? found)

/-- No stalled shell can be reached from a call, through its own tree and through references. -/
def Flowing (contents : Contents) (call : Call) : Prop :=
  call.Flows ∧ ∀ key, contents.Reaches call.references key → contents.Free call (some key)

end Contents

theorem Call.operation_flows (call : Call) (id : Nat) (world : World) (contents : Contents) :
    (call.operation id world).task.Flows (contents.Free call) none := by
  cases call with
  | resolve config node => exact fun flows => flows
  | within scope work => cases work <;> exact fun flows => flows

/-- To flow is a condition that the work of every call meets, and goes on to meet. -/
theorem flowing_lasting : Demand.Lasting fun contents call => flowing (contents.Free call) where
  begins contents call id world := call.operation_flows id world contents
  handed _ _ := flowing_handedOn fun _ node found wanted => wanted node found
  wider wider known := flowing_mono (fun _ => Contents.Free.fewer wider) known

/-- The work of all operations flows where it should. -/
theorem System.Reachable.flowing {system : System} (reachable : system.Reachable) :
    system.Every fun contents call => Blueprint.flowing (contents.Free call) :=
  reachable.every flowing_lasting

end Blueprint
