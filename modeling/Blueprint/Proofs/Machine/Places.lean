import Mathlib.Algebra.GroupWithZero.Nat
import Blueprint.Proofs.Task.Marks
/-! The marks of a machine: those of the task it is at, and those of the layers around it. Some of them it
is on its way to; the others are asleep, and only their strands can bring them to be looked at. -/

namespace Blueprint

namespace Layer

/-- The strands around what lies in a layer. -/
def within (chain : List Strand) (layer : Layer) : List Strand :=
  match layer.strand? with
  | some strand => strand :: chain
  | none => chain

theorem strands_cons (layer : Layer) (layers : List Layer) (operation : Nat) :
    strands (layer :: layers) operation = layer.within (strands layers operation) := by
  cases layer <;> rfl

/-- The marks of a layer without those of the task inside. -/
def marks (chain : List Strand) : Layer → Marks
  | inside _ => 0
  | joining before after => marksOfParts chain before + marksOfParts chain after
  | fanning fan _ _ => (chain, .fan fan.id) ::ₘ marksOfElements fan.id chain fan.running

theorem marks_around (layer : Layer) (chain : List Strand) (task : Task) :
    (layer.around task).marks chain = task.marks (layer.within chain) + layer.marks chain := by
  cases layer with
  | inside frame => simp [around, within, strand?, marks]
  | joining before after =>
    rw [around, Task.marks_join_open chain (not_over_of_running task (by simp))]
    simp [within, strand?, marks, add_left_comm]
  | fanning fan position tally =>
    simp [around, within, strand?, marks, Task.marks_fan]

/-- The marks of a layer that a look has passed by or does not come to. -/
def asleep (chain : List Strand) : Layer → Marks
  | inside _ => 0
  | joining before after => marksOfParts chain before + (marksOfParts chain after).beyond chain
  | fanning fan _ _ => marksOfElements fan.id chain fan.running

theorem asleep_le (layer : Layer) (chain : List Strand) : layer.asleep chain ≤ layer.marks chain := by
  cases layer with
  | inside frame => exact le_refl _
  | joining before after => exact add_le_add_right (Marks.beyond_le _ _) _
  | fanning fan position tally => exact Multiset.le_cons_self _ _

end Layer

/-- The marks of layers without those of the task in the middle. -/
def marksAround (operation : Nat) : List Layer → Marks
  | [] => 0
  | layer :: outer => layer.marks (Layer.strands outer operation) + marksAround operation outer

theorem marks_surround (operation : Nat) (layers : List Layer) (task : Task) :
    (surround layers task).marks [.operation operation] =
      task.marks (Layer.strands layers operation) + marksAround operation layers := by
  induction layers generalizing task with
  | nil => simp [surround, marksAround, Layer.strands]
  | cons layer outer ih =>
    rw [surround, ih, layer.marks_around, marksAround, Layer.strands_cons, add_assoc]

def asleepAround (operation : Nat) : List Layer → Marks
  | [] => 0
  | layer :: outer => layer.asleep (Layer.strands outer operation) + asleepAround operation outer

theorem asleepAround_le (operation : Nat) (layers : List Layer) :
    asleepAround operation layers ≤ marksAround operation layers := by
  induction layers with
  | nil => exact le_refl _
  | cons layer outer ih => exact add_le_add (layer.asleep_le _) ih

/-- The collections around a place are marked. -/
theorem around_rooted (operation : Nat) (layers : List Layer) :
    (marksAround operation layers).Rooted (Layer.strands layers operation) := by
  induction layers with
  | nil => exact rfl
  | cons layer outer ih =>
    have later : (marksAround operation (layer :: outer)).Rooted (Layer.strands outer operation) :=
      ih.mono fun other found => Multiset.mem_add.mpr (.inr found)
    rw [Layer.strands_cons]
    cases layer with
    | inside frame => exact later
    | joining before after => exact later
    | fanning fan place tally =>
      simp [Layer.within, Layer.strand?, Marks.Rooted, marksAround, Layer.marks]

theorem around_headed (operation : Nat) (layers : List Layer) : (marksAround operation layers).Headed := by
  induction layers with
  | nil =>
    intro mark member
    simp [marksAround] at member
  | cons layer outer ih =>
    -- a task that waits for nothing adds no marks in the middle
    have whole := ih.add_task (around_rooted operation outer) (layer.around .forever)
    rwa [layer.marks_around, Task.marks_forever, zero_add] at whole

/-- What a step of waking costs at most: each strand costs more than all those around it together. -/
def toll (chain : List Strand) : Nat := 2 ^ chain.length

theorem toll_pos (chain : List Strand) : 0 < toll chain := Nat.two_pow_pos _

theorem toll_cons (strand : Strand) (chain : List Strand) : toll (strand :: chain) = 2 * toll chain := by
  simp [toll, Nat.pow_succ, Nat.mul_comm]

/-- What is put by for a collection that may have to be looked at again. -/
def Layer.credit (chain : List Strand) : Layer → Nat
  | fanning _ _ _ => toll chain - 1
  | inside _ | joining _ _ => 0

def creditAround (operation : Nat) : List Layer → Nat
  | [] => 0
  | layer :: outer => layer.credit (Layer.strands outer operation) + creditAround operation outer

/-- How far a look still has to go through a layer. -/
noncomputable def Layer.trip : Layer → Nat
  | joining _ after => sizeOf after
  | inside _ | fanning _ _ _ => 1

namespace Control

/-- The marks at a place that only their strands can bring to be looked at. -/
def asleep (chain : List Strand) : Control → Marks
  | poll task => (task.marks chain).beyond chain
  | rest task => task.marks chain
  | finish _ => 0

noncomputable def trip : Control → Nat
  | poll task => sizeOf task
  | rest _ | finish _ => 0

end Control

namespace Machine

def marks (machine : Machine) : Marks :=
  machine.whole.marks [.operation machine.operation]

theorem marks_eq (machine : Machine) : machine.marks =
    machine.control.task.marks machine.strands + marksAround machine.operation machine.layers :=
  marks_surround _ _ _

def asleep (machine : Machine) : Marks :=
  machine.control.asleep machine.strands + asleepAround machine.operation machine.layers

def credit (machine : Machine) : Nat := creditAround machine.operation machine.layers

/-- How far a look still has to go. -/
noncomputable def trip (machine : Machine) : Nat :=
  machine.control.trip + (machine.layers.map Layer.trip).sum

end Machine

end Blueprint
