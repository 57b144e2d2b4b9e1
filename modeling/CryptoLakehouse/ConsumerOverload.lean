import CryptoLakehouse.ConsumerBatchBuffer
import CryptoLakehouse.LibraryRuns

/-! `is_overloaded` against the buffer it speaks of. `add` recomputes the flag and a claiming `flush` clears
it with the buffer, but the locked section that gives a failed batch back leaves it as it is. -/

namespace CryptoLakehouse.BatchBuffer

variable {T M : Type}

/-- The flag says whether the buffer exceeds twice the batch size. -/
def Obj.Truthful (b : Obj M) : Prop := b.isOverloaded = true ↔ (b.buffer.length : Int) > 2 * b.batchSize

/-- A batch that goes back does not take the buffer over the threshold: the two stay within it together, or
the messages that came meanwhile are beyond it already. -/
def ReturnsWithin (s : System T M) (a : Action T M) : Prop :=
  ∀ th batch, a = .giveBack th → s.pc th = .raised batch →
    ((batch ++ s.obj.buffer).length : Int) ≤ 2 * s.obj.batchSize ∨
      (s.obj.buffer.length : Int) > 2 * s.obj.batchSize

namespace Obj

variable {b : Obj M}

theorem truthful_add (m : M) : (b.add m).1.Truthful := by
  show decide _ = true ↔ _
  rw [decide_eq_true_eq]
  rfl

theorem truthful_cleared (hsize : 0 ≤ b.batchSize) :
    ({ b with flushing := true, buffer := [], isOverloaded := false } : Obj M).Truthful := by
  refine iff_of_false Bool.false_ne_true ?_
  show ¬((0 : Nat) : Int) > 2 * b.batchSize
  omega

/-- The flag was about the newer messages, and is taken for all of them. -/
theorem truthful_giveBack_iff (h : b.Truthful) (batch : List M) :
    (b.giveBack batch).Truthful ↔
      ((batch ++ b.buffer).length : Int) ≤ 2 * b.batchSize ∨ (b.buffer.length : Int) > 2 * b.batchSize := by
  have hlength : (b.buffer.length : Int) ≤ (batch ++ b.buffer).length := by
    rw [List.length_append]
    omega
  show (b.isOverloaded = true ↔ ((batch ++ b.buffer).length : Int) > 2 * b.batchSize) ↔ _
  rw [show (b.isOverloaded = true) = _ from propext h]
  constructor
  · intro hiff
    by_cases hover : (b.buffer.length : Int) > 2 * b.batchSize
    · exact .inr hover
    · exact .inl (Int.not_lt.mp fun hall => hover (hiff.mpr hall))
  · rintro (hwithin | hover)
    · exact iff_of_false (by omega) (by omega)
    · exact iff_of_true hover (by omega)

end Obj

variable [DecidableEq T]

/-- What keeps the flag true: in every step but one nothing is asked. -/
theorem truthful_step_iff {s s' : System T M} {a : Action T M} (hsize : 0 ≤ s.obj.batchSize)
    (h : s.obj.Truthful) (hstep : step s a = some s') : s'.obj.Truthful ↔ ReturnsWithin s a := by
  cases transition_of_step hstep with
  | giveBack th batch hpc =>
      calc (s.obj.giveBack batch).Truthful
          ↔ ((batch ++ s.obj.buffer).length : Int) ≤ 2 * s.obj.batchSize ∨
              (s.obj.buffer.length : Int) > 2 * s.obj.batchSize := Obj.truthful_giveBack_iff h batch
        _ ↔ ReturnsWithin s (.giveBack th) := by
            constructor
            · rintro hwithin th' batch' ⟨⟩ hpc'
              obtain rfl : batch = batch' := Pc.raised.inj (hpc.symm.trans hpc')
              exact hwithin
            · exact fun hreturns => hreturns th batch rfl hpc
  | add t m => exact iff_of_true (Obj.truthful_add m) (by rintro _ _ ⟨⟩)
  | addFull t m => exact iff_of_true (Obj.truthful_add m) (by rintro _ _ ⟨⟩)
  | claim th => exact iff_of_true (Obj.truthful_cleared hsize) (by rintro _ _ ⟨⟩)
  | _ => exact iff_of_true h (by rintro _ _ ⟨⟩)

theorem batchSize_step {s s' : System T M} {a : Action T M} (hstep : step s a = some s') :
    s'.obj.batchSize = s.obj.batchSize := by
  cases transition_of_step hstep <;> rfl

theorem returnsWithin_of_stuck {s : System T M} {a : Action T M} (hstuck : step s a = none) :
    ReturnsWithin s a := by
  rintro th batch rfl hpc
  rw [step, hpc] at hstuck
  cases hstuck

theorem truthful_init {batchSize : Int} (hsize : 0 ≤ batchSize) :
    (init batchSize : System T M).obj.Truthful := by
  refine iff_of_false Bool.false_ne_true ?_
  show ¬((0 : Nat) : Int) > 2 * batchSize
  omega

/-- The flag is true to the buffer in every state of a run exactly when no failed batch takes the buffer over
the threshold on its way back. -/
theorem overload_truthful_iff {batchSize : Int} (hsize : 1 ≤ batchSize) (as : List (Action T M)) :
    (∀ done, done <+: as → ∀ s, Runs.run step (init batchSize) done = some s → s.obj.Truthful) ↔
      Runs.Meets step ReturnsWithin (init batchSize) as := by
  have hinit : (init batchSize : System T M).obj.Truthful := truthful_init (by omega)
  -- the batch size is carried along, as the threshold is a multiple of it
  have hstep : ∀ (s : System T M) a, (s.obj.Truthful ∧ 1 ≤ s.obj.batchSize) →
      ((∀ t, step s a = some t → t.obj.Truthful) ↔ ReturnsWithin s a) := by
    intro s a ⟨htrue, hone⟩
    cases ha : step s a with
    | none => exact iff_of_true (by simp) (returnsWithin_of_stuck ha)
    | some t =>
        rw [← truthful_step_iff (by omega) htrue ha]
        simp
  calc (∀ done, done <+: as → ∀ s, Runs.run step (init batchSize) done = some s → s.obj.Truthful)
      ↔ ∀ done, done ≠ [] → done <+: as →
          ∀ s, Runs.run step (init batchSize) done = some s → s.obj.Truthful := by
        constructor
        · exact fun h done _ => h done
        · intro h done hgrows s hrun
          by_cases hnil : done = []
          · subst hnil
            cases hrun
            exact hinit
          · exact h done hnil hgrows s hrun
    _ ↔ Runs.Meets step (fun s a => ∀ t, step s a = some t → t.obj.Truthful) (init batchSize) as :=
        Runs.meets_after_iff.symm
    _ ↔ Runs.Meets step ReturnsWithin (init batchSize) as := by
        refine Runs.meets_congr hstep ?_ ⟨hinit, hsize⟩
        rintro s a t ⟨-, hone⟩ hafter ht
        exact ⟨hafter t ht, by rwa [batchSize_step ht]⟩

/-- A failing flush that meets one newer message within the threshold. -/
def failedFlush : List (Action Nat Nat) :=
  [.add 0 10, .add 1 11, .claim (.caller 1), .add 0 12, .insertRaises (.caller 1), .giveBack (.caller 1)]

theorem overload_truthful_iff_failedFlush :
    (∀ done, done <+: failedFlush → ∀ s, Runs.run step (init 2) done = some s → s.obj.Truthful) ↔
      Runs.Meets step ReturnsWithin (init 2) failedFlush :=
  overload_truthful_iff (by decide) failedFlush

/-- The database fails while two more messages come in: three wait under a batch size of one, and the flag is
down. -/
theorem overload_unnoticed : ∃ s : System Nat Nat,
    Runs.run step (init 1) [.add 0 10, .claim (.caller 0), .add 1 11, .claim (.caller 1), .add 1 12,
      .claim (.caller 1), .insertRaises (.caller 0), .giveBack (.caller 0)] = some s ∧
      s.obj.buffer = [10, 11, 12] ∧ s.obj.isOverloaded = false ∧ ¬s.obj.Truthful := by
  refine ⟨_, rfl, rfl, rfl, fun htrue => ?_⟩
  exact Bool.false_ne_true (htrue.mpr (by decide))

end CryptoLakehouse.BatchBuffer
