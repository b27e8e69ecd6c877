import Relink.Library.Run

/-! A bounded queue that drops its oldest element.

A push on a full queue takes the head out, so that a push never fails. Whatever was pushed leaves in
the order of the pushes, by a pop, by a drop or by a `clear`, and what has not left is the queue. -/
namespace DropOldest
open Transition
variable {α : Type}

inductive Op (α : Type) where
  | push (value : α)
  | pop
  | clear
deriving DecidableEq, Repr

/-- A push answers whether it dropped an element. -/
inductive Answer (α : Type) where
  | pushed (dropped : Bool)
  | popped (value : Option α)
  | cleared
deriving DecidableEq, Repr

def push (capacity : Nat) (queue : List α) (value : α) : List α × Bool :=
  if queue.length = capacity then (queue.tail ++ [value], true) else (queue ++ [value], false)

def step (capacity : Nat) (queue : List α) : Op α → List α × Answer α
  | .push value => ((push capacity queue value).1, .pushed (push capacity queue value).2)
  | .pop => (queue.tail, .popped queue.head?)
  | .clear => ([], .cleared)

def run (capacity : Nat) (ops : List (Op α)) : List α :=
  ops.foldl (fun queue op => (step capacity queue op).1) []

/-- The elements that leave, oldest first. -/
def leaving (capacity : Nat) (queue : List α) : Op α → List α
  | .push _ => if queue.length = capacity then queue.take 1 else []
  | .pop => queue.take 1
  | .clear => queue

/-- All that left the queue in a run, in order. -/
def departed (capacity : Nat) : List α → List (Op α) → List α
  | _, [] => []
  | queue, op :: ops => leaving capacity queue op ++ departed capacity (step capacity queue op).1 ops

def Op.pushed : Op α → List α
  | .push value => [value]
  | _ => []

/-! ### What a run does -/

variable {capacity : Nat} {queue : List α}

theorem push_length (hpos : 0 < capacity) (h : queue.length ≤ capacity) (value : α) :
    (push capacity queue value).1.length ≤ capacity := by
  unfold push
  split
  · simp only [List.length_append, List.length_tail, List.length_singleton]
    omega
  · simp only [List.length_append, List.length_singleton]
    omega

theorem step_length (hpos : 0 < capacity) (h : queue.length ≤ capacity) (op : Op α) :
    (step capacity queue op).1.length ≤ capacity := by
  cases op with
  | push value => exact push_length hpos h value
  | pop =>
    simp only [step, List.length_tail]
    omega
  | clear => exact Nat.zero_le _

theorem run_length (hpos : 0 < capacity) (ops : List (Op α)) :
    (run capacity ops).length ≤ capacity :=
  foldl_invariant (fun queue : List α => queue.length ≤ capacity) (fun _ => True) _
    (fun _ op h _ => step_length hpos h op) ops [] (Nat.zero_le _) fun _ _ => trivial

/-- An operation puts its element behind those that stay. -/
theorem leaving_step (capacity : Nat) (queue : List α) (op : Op α) :
    leaving capacity queue op ++ (step capacity queue op).1 = queue ++ op.pushed := by
  have hhead : queue.take 1 ++ queue.tail = queue := by cases queue <;> rfl
  cases op with
  | push value =>
    simp only [leaving, step, push]
    split
    · rw [← List.append_assoc, hhead]
      rfl
    · rfl
  | pop => exact hhead.trans (List.append_nil queue).symm
  | clear => rfl

theorem departed_append (capacity : Nat) (queue : List α) (ops : List (Op α)) :
    departed capacity queue ops ++ ops.foldl (fun queue op => (step capacity queue op).1) queue =
      queue ++ ops.flatMap Op.pushed := by
  induction ops generalizing queue with
  | nil => exact (List.append_nil queue).symm
  | cons op ops ih =>
    rw [departed, List.foldl_cons, List.append_assoc, ih, ← List.append_assoc,
      leaving_step, List.append_assoc, List.flatMap_cons]

/-- **Nothing is lost but what leaves**, and nothing overtakes. -/
theorem departed_run (capacity : Nat) (ops : List (Op α)) :
    departed capacity [] ops ++ run capacity ops = ops.flatMap Op.pushed :=
  departed_append capacity [] ops

end DropOldest
