import Mathlib.Data.List.Basic
import Mathlib.Data.List.DropRight
import Mathlib.Tactic.Common

/-! A queue that keeps at most `maxlen` items: an item put into a full queue pushes the oldest out. -/

structure BoundedQueue (M : Type*) (maxlen : Nat) where
  items : List M
  bounded : items.length ≤ maxlen

namespace BoundedQueue

variable {M : Type*} {maxlen : Nat}

def empty : BoundedQueue M maxlen := ⟨[], Nat.zero_le _⟩

def append (q : BoundedQueue M maxlen) (m : M) : BoundedQueue M maxlen :=
  ⟨(q.items ++ [m]).drop ((q.items ++ [m]).length - maxlen), by
    rw [List.length_drop]
    omega⟩

/-- The newest item is never the one pushed out. -/
theorem append_ne_nil (h : 0 < maxlen) (q : BoundedQueue M maxlen) (m : M) :
    (q.append m).items ≠ [] := by
  rw [append, ne_eq, List.drop_eq_nil_iff, List.length_append, List.length_singleton]
  omega

theorem items_append (q : BoundedQueue M maxlen) (m : M) : (q.append m).items = (q.items ++ [m]).rtake maxlen :=
  rfl

/-- What was pushed out before is not missed later. -/
theorem rtake_append (xs ys : List M) : (xs.rtake maxlen ++ ys).rtake maxlen = (xs ++ ys).rtake maxlen := by
  unfold List.rtake
  rw [List.length_append, List.length_drop, List.length_append, List.drop_append, List.drop_append,
    List.drop_drop, List.length_drop]
  congr 2 <;> omega

/-- A queue holds the last of all the items ever put into it. -/
theorem items_foldl_append (q : BoundedQueue M maxlen) (ms : List M) :
    (ms.foldl append q).items = (q.items ++ ms).rtake maxlen := by
  induction ms generalizing q with
  | nil =>
      have hall : q.items.length - maxlen = 0 := Nat.sub_eq_zero_of_le q.bounded
      rw [List.foldl_nil, List.append_nil, List.rtake, hall, List.drop_zero]
  | cons m ms ih =>
      calc ((m :: ms).foldl append q).items = ((q.append m).items ++ ms).rtake maxlen := ih (q.append m)
        _ = ((q.items ++ [m]).rtake maxlen ++ ms).rtake maxlen := by rw [items_append]
        _ = (q.items ++ [m] ++ ms).rtake maxlen := rtake_append _ _
        _ = (q.items ++ m :: ms).rtake maxlen := by rw [List.append_assoc, List.singleton_append]

end BoundedQueue
