import CryptoLakehouse.LibraryRuns

/-! A first-in first-out channel seen from outside: what was put into it, and how much of that, in
the same order, has been delivered. The delivered part is a prefix of what was put by construction,
so a component that refines the channel neither loses, doubles nor reorders a message. -/

structure Fifo (M : Type*) where
  added : List M
  delivered : List M
  delivered_isPrefix : delivered <+: added

namespace Fifo

variable {M : Type*}

/-- What was put and is still to be delivered. -/
def pending (q : Fifo M) : List M := q.added.drop q.delivered.length

inductive Op (M : Type*) where
  | put (m : M)
  | deliver (count : Nat)

def empty : Fifo M := ⟨[], [], List.prefix_rfl⟩

theorem delivered_append_pending (q : Fifo M) : q.delivered ++ q.pending = q.added :=
  List.prefix_iff_eq_append.mp q.delivered_isPrefix

def put (q : Fifo M) (m : M) : Fifo M :=
  ⟨q.added ++ [m], q.delivered, q.delivered_isPrefix.trans (List.prefix_append _ _)⟩

/-- Deliver the next `count` pending messages, or all of them when there are fewer. -/
def deliver (q : Fifo M) (count : Nat) : Fifo M :=
  ⟨q.added, q.delivered ++ q.pending.take count, by
    conv_rhs => rw [← q.delivered_append_pending]
    exact (List.prefix_append_right_inj q.delivered).mpr (List.take_prefix count q.pending)⟩

def step (q : Fifo M) : Op M → Option (Fifo M)
  | .put m => some (q.put m)
  | .deliver count => some (q.deliver count)

@[simp] theorem added_put (q : Fifo M) (m : M) : (q.put m).added = q.added ++ [m] := rfl
@[simp] theorem delivered_put (q : Fifo M) (m : M) : (q.put m).delivered = q.delivered := rfl
@[simp] theorem added_deliver (q : Fifo M) (count : Nat) : (q.deliver count).added = q.added := rfl
@[simp] theorem delivered_deliver (q : Fifo M) (count : Nat) :
    (q.deliver count).delivered = q.delivered ++ q.pending.take count := rfl

theorem pending_put (q : Fifo M) (m : M) : (q.put m).pending = q.pending ++ [m] := by
  rw [pending, added_put, delivered_put, List.drop_append_of_le_length q.delivered_isPrefix.length_le]
  rfl

theorem pending_deliver (q : Fifo M) (count : Nat) :
    (q.deliver count).pending = q.pending.drop count := by
  apply List.append_cancel_left
  have hall := (q.deliver count).delivered_append_pending
  rw [delivered_deliver, added_deliver] at hall
  rw [hall, List.append_assoc, List.take_append_drop, delivered_append_pending]

end Fifo
