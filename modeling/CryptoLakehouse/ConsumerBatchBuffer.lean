import CryptoLakehouse.LibraryRuns
import Mathlib.Logic.Function.Basic

/-! `consumer/batch_buffer.py`: the object, its timers and the threads inside its methods. Each
section that runs under `self.lock` is one step; `insert_batch` runs between two of them with the
lock free, so every other step may fall between its call and its return. `T` names the threads that
call `add`, `flush` and `stop` from outside (the consumer, the main thread); each started timer is a
thread of its own. A call of `add` is here the moment it gets the lock; `ConsumerStop` has the wait for it. -/

namespace CryptoLakehouse

inductive Thread (T : Type) where
  | caller (t : T)
  | timer (k : Nat)
  deriving DecidableEq

namespace BatchBuffer

/-- The fields of the object. `timer` is the position of `self._timer` among the timers started. -/
structure Obj (M : Type) where
  batchSize : Int
  buffer : List M
  isOverloaded : Bool
  flushing : Bool
  timer : Option Nat

namespace Obj

variable {M : Type}

/-- The locked section of `add`, with the local `size` it leaves behind. -/
def add (b : Obj M) (m : M) : Obj M × Int :=
  let buffer := b.buffer ++ [m]
  let size : Int := buffer.length
  ({ b with buffer := buffer, isOverloaded := decide (size > 2 * b.batchSize) }, size)

/-- The first locked section of `flush`: `none` is its early return, otherwise the copied batch. -/
def claim (b : Obj M) : Option (List M × Obj M) :=
  if b.flushing || b.buffer.isEmpty then none
  else some (b.buffer, { b with flushing := true, buffer := [], isOverloaded := false })

/-- The locked section of the `except` branch. -/
def giveBack (b : Obj M) (batch : List M) : Obj M := { b with buffer := batch ++ b.buffer }

/-- The locked section of the `finally` branch. -/
def release (b : Obj M) : Obj M := { b with flushing := false }

theorem claim_eq_none {b : Obj M} : b.claim = none ↔ b.flushing = true ∨ b.buffer = [] := by
  unfold claim
  split <;> simp_all

theorem claim_of_open {b : Obj M} (hopen : b.flushing = false) (hne : b.buffer ≠ []) :
    b.claim = some (b.buffer, { b with flushing := true, buffer := [], isOverloaded := false }) := by
  simp [claim, hopen, hne]

theorem claim_eq_some {b b' : Obj M} {batch : List M} (h : b.claim = some (batch, b')) :
    b.flushing = false ∧ batch ≠ [] ∧ batch = b.buffer ∧
      b' = { b with flushing := true, buffer := [], isOverloaded := false } := by
  unfold claim at h
  split at h
  · cases h
  · rename_i hopen
    cases h
    simp_all

end Obj

/-- `threading.Timer` is one-shot: once expired it runs `flush` and never fires again. -/
inductive TimerState where
  | pending
  | cancelled
  | expired
  deriving DecidableEq

/-- Where a thread stands in `add` or `flush`. -/
inductive Pc (M : Type) where
  /-- in neither method -/
  | outside
  /-- about to take the lock at the head of `flush` -/
  | entering
  /-- `insert_batch(batch)` is running -/
  | inserting (batch : List M)
  /-- `insert_batch` raised, the batch has not gone back yet -/
  | raised (batch : List M)
  /-- in `finally`, about to clear `_flushing` -/
  | releasing
  /-- about to run `_reset_timer` -/
  | rearming
  deriving DecidableEq

namespace Pc

variable {M : Type}

/-- Between claiming and releasing a flush. -/
def Holds : Pc M → Prop
  | .inserting _ | .raised _ | .releasing => True
  | _ => False

instance : DecidablePred (@Holds M) := fun pc => by
  cases pc <;> simp only [Holds] <;> infer_instance

/-- The batch held in the local variable and neither committed nor back in the buffer. -/
def batch : Pc M → List M
  | .inserting batch | .raised batch => batch
  | _ => []

end Pc

/-- The object, the timers ever started, the threads, and two histories: the messages in the order
their `add` took the lock, and the batches whose `insert_batch` returned. -/
structure System (T M : Type) where
  obj : Obj M
  timers : List TimerState
  pc : Thread T → Pc M
  added : List M
  flushed : List (List M)

namespace System

variable {T M : Type} [DecidableEq T]

def goto (s : System T M) (th : Thread T) (pc : Pc M) : System T M :=
  { s with pc := Function.update s.pc th pc }

@[simp] theorem goto_obj (s : System T M) (th : Thread T) (pc : Pc M) : (s.goto th pc).obj = s.obj := rfl
@[simp] theorem goto_added (s : System T M) (th : Thread T) (pc : Pc M) :
    (s.goto th pc).added = s.added := rfl
@[simp] theorem goto_flushed (s : System T M) (th : Thread T) (pc : Pc M) :
    (s.goto th pc).flushed = s.flushed := rfl
@[simp] theorem goto_pc_self (s : System T M) (th : Thread T) (pc : Pc M) :
    (s.goto th pc).pc th = pc := Function.update_self ..
theorem goto_pc_of_ne (s : System T M) {th th' : Thread T} (pc : Pc M) (h : th' ≠ th) :
    (s.goto th pc).pc th' = s.pc th' := Function.update_of_ne h ..

/-- `Timer.cancel` on `self._timer`; it has no effect on a timer that has expired. -/
def cancelTimer (s : System T M) : System T M :=
  match s.obj.timer with
  | none => s
  | some k => { s with timers := s.timers.modify k fun
      | .pending => .cancelled
      | state => state }

def startTimer (s : System T M) : System T M :=
  { s with obj := { s.obj with timer := some s.timers.length }, timers := s.timers ++ [.pending] }

def resetTimer (s : System T M) : System T M := s.cancelTimer.startTimer

def stop (s : System T M) : System T M :=
  { s.cancelTimer with obj := { s.cancelTimer.obj with timer := none } }

omit [DecidableEq T] in
theorem cancelTimer_eq (s : System T M) : ∃ timers, s.cancelTimer = { s with timers := timers } := by
  unfold cancelTimer
  split
  · exact ⟨s.timers, rfl⟩
  · exact ⟨_, rfl⟩

omit [DecidableEq T] in
/-- Re-arming touches the timers and `self._timer` only, and leaves a pending timer. -/
theorem resetTimer_eq (s : System T M) : ∃ timers k, timers[k]? = some TimerState.pending ∧
    s.resetTimer = { s with obj := { s.obj with timer := some k }, timers := timers } := by
  obtain ⟨timers, h⟩ := cancelTimer_eq s
  refine ⟨timers ++ [.pending], timers.length, by simp, ?_⟩
  rw [resetTimer, h]
  rfl

end System

/-- The object as `__init__` leaves it, its first timer started. -/
def init {T M : Type} [DecidableEq T] (batchSize : Int) : System T M :=
  System.startTimer ⟨⟨batchSize, [], false, false, none⟩, [], fun _ => .outside, [], []⟩

/-- One step of one thread, with the choices of the environment: who calls what, which timer
expires, and whether `insert_batch` returns or raises. -/
inductive Action (T M : Type) where
  | add (t : T) (m : M)
  | flush (t : T)
  | stop (t : T)
  | expire (k : Nat)
  | claim (th : Thread T)
  | insertReturns (th : Thread T)
  | insertRaises (th : Thread T)
  | giveBack (th : Thread T)
  | release (th : Thread T)
  | resetTimer (th : Thread T)
  deriving DecidableEq

variable {T M : Type} [DecidableEq T]

def step (s : System T M) : Action T M → Option (System T M)
  | .add t m =>
      match s.pc (.caller t) with
      | .outside =>
          let (obj, size) := s.obj.add m
          let s' := { s with obj := obj, added := s.added ++ [m] }
          some (if size ≥ s.obj.batchSize then s'.goto (.caller t) .entering else s')
      | _ => none
  | .flush t =>
      match s.pc (.caller t) with
      | .outside => some (s.goto (.caller t) .entering)
      | _ => none
  | .stop t =>
      match s.pc (.caller t) with
      | .outside => some s.stop
      | _ => none
  | .expire k =>
      match s.timers[k]?, s.pc (.timer k) with
      | some .pending, .outside =>
          some ({ s with timers := s.timers.set k .expired }.goto (.timer k) .entering)
      | _, _ => none
  | .claim th =>
      match s.pc th with
      | .entering =>
          match s.obj.claim with
          | none => some (s.goto th .outside)
          | some (batch, obj) => some ({ s with obj := obj }.goto th (.inserting batch))
      | _ => none
  | .insertReturns th =>
      match s.pc th with
      | .inserting batch => some ({ s with flushed := s.flushed ++ [batch] }.goto th .releasing)
      | _ => none
  | .insertRaises th =>
      match s.pc th with
      | .inserting batch => some (s.goto th (.raised batch))
      | _ => none
  | .giveBack th =>
      match s.pc th with
      | .raised batch => some ({ s with obj := s.obj.giveBack batch }.goto th .releasing)
      | _ => none
  | .release th =>
      match s.pc th with
      | .releasing => some ({ s with obj := s.obj.release }.goto th .rearming)
      | _ => none
  | .resetTimer th =>
      match s.pc th with
      | .rearming => some (s.resetTimer.goto th .outside)
      | _ => none

/-- What a step can do, case by case: the guard it found and the state it left. -/
inductive Transition (s : System T M) : Action T M → System T M → Prop where
  | add (t : T) (m : M) (hpc : s.pc (.caller t) = .outside)
      (hsize : ((s.obj.buffer ++ [m]).length : Int) < s.obj.batchSize) :
      Transition s (.add t m) { s with obj := (s.obj.add m).1, added := s.added ++ [m] }
  | addFull (t : T) (m : M) (hpc : s.pc (.caller t) = .outside)
      (hsize : s.obj.batchSize ≤ ((s.obj.buffer ++ [m]).length : Int)) :
      Transition s (.add t m)
        ({ s with obj := (s.obj.add m).1, added := s.added ++ [m] }.goto (.caller t) .entering)
  | flush (t : T) (hpc : s.pc (.caller t) = .outside) :
      Transition s (.flush t) (s.goto (.caller t) .entering)
  | stop (t : T) (hpc : s.pc (.caller t) = .outside) (timers : List TimerState) :
      Transition s (.stop t) { s with obj := { s.obj with timer := none }, timers := timers }
  | expire (k : Nat) (hpc : s.pc (.timer k) = .outside) (hk : s.timers[k]? = some .pending) :
      Transition s (.expire k)
        ({ s with timers := s.timers.set k .expired }.goto (.timer k) .entering)
  | skip (th : Thread T) (hpc : s.pc th = .entering)
      (hguard : s.obj.flushing = true ∨ s.obj.buffer = []) :
      Transition s (.claim th) (s.goto th .outside)
  | claim (th : Thread T) (hpc : s.pc th = .entering) (hopen : s.obj.flushing = false)
      (hne : s.obj.buffer ≠ []) :
      Transition s (.claim th)
        ({ s with obj := { s.obj with flushing := true, buffer := [], isOverloaded := false } }.goto th
          (.inserting s.obj.buffer))
  | insertReturns (th : Thread T) (batch : List M) (hpc : s.pc th = .inserting batch) :
      Transition s (.insertReturns th) ({ s with flushed := s.flushed ++ [batch] }.goto th .releasing)
  | insertRaises (th : Thread T) (batch : List M) (hpc : s.pc th = .inserting batch) :
      Transition s (.insertRaises th) (s.goto th (.raised batch))
  | giveBack (th : Thread T) (batch : List M) (hpc : s.pc th = .raised batch) :
      Transition s (.giveBack th) ({ s with obj := s.obj.giveBack batch }.goto th .releasing)
  | release (th : Thread T) (hpc : s.pc th = .releasing) :
      Transition s (.release th) ({ s with obj := s.obj.release }.goto th .rearming)
  | resetTimer (th : Thread T) (hpc : s.pc th = .rearming) (timers : List TimerState) (k : Nat)
      (hk : timers[k]? = some .pending) :
      Transition s (.resetTimer th)
        ({ s with obj := { s.obj with timer := some k }, timers := timers }.goto th .outside)

theorem transition_of_step {s s' : System T M} {a : Action T M} (h : step s a = some s') :
    Transition s a s' := by
  cases a with
  | add t m =>
      cases hpc : s.pc (.caller t) <;> simp only [step, hpc] at h <;> cases h
      by_cases hsize : ((s.obj.buffer ++ [m]).length : Int) ≥ s.obj.batchSize
      · rw [Obj.add, if_pos hsize]
        exact .addFull t m hpc hsize
      · rw [Obj.add, if_neg hsize]
        exact .add t m hpc (Int.not_le.mp hsize)
  | flush t =>
      cases hpc : s.pc (.caller t) <;> simp only [step, hpc] at h <;> cases h
      exact .flush t hpc
  | stop t =>
      cases hpc : s.pc (.caller t) <;> simp only [step, hpc] at h <;> cases h
      obtain ⟨timers, hcancel⟩ := System.cancelTimer_eq s
      rw [System.stop, hcancel]
      exact .stop t hpc timers
  | expire k =>
      simp only [step] at h
      split at h
      · rename_i hk hpc
        cases h
        exact .expire k hpc hk
      · cases h
  | claim th =>
      cases hpc : s.pc th <;> simp only [step, hpc] at h <;> try cases h
      split at h <;> cases h
      · rename_i hclaim
        exact .skip th hpc (Obj.claim_eq_none.mp hclaim)
      · rename_i batch obj hclaim
        obtain ⟨hopen, hne, hbatch, hobj⟩ := Obj.claim_eq_some hclaim
        subst hbatch hobj
        exact .claim th hpc hopen hne
  | insertReturns th =>
      cases hpc : s.pc th <;> simp only [step, hpc] at h <;> cases h
      exact .insertReturns th _ hpc
  | insertRaises th =>
      cases hpc : s.pc th <;> simp only [step, hpc] at h <;> cases h
      exact .insertRaises th _ hpc
  | giveBack th =>
      cases hpc : s.pc th <;> simp only [step, hpc] at h <;> cases h
      exact .giveBack th _ hpc
  | release th =>
      cases hpc : s.pc th <;> simp only [step, hpc] at h <;> cases h
      exact .release th hpc
  | resetTimer th =>
      cases hpc : s.pc th <;> simp only [step, hpc] at h <;> cases h
      obtain ⟨timers, k, hk, hreset⟩ := System.resetTimer_eq s
      rw [hreset]
      exact .resetTimer th hpc timers k hk

/-- The thread that takes a step. -/
def Action.actor : Action T M → Thread T
  | .add t _ | .flush t | .stop t => .caller t
  | .expire k => .timer k
  | .claim th | .insertReturns th | .insertRaises th | .giveBack th | .release th | .resetTimer th => th

/-- A step moves the thread that takes it and no other. -/
theorem pc_step {s s' : System T M} {a : Action T M} {th : Thread T} (hne : th ≠ a.actor)
    (h : step s a = some s') : s'.pc th = s.pc th := by
  cases transition_of_step h <;> first | rfl | exact System.goto_pc_of_ne _ _ hne

/-- A thread about to take the lock of `flush` takes it next. -/
theorem entering_step {s s' : System T M} {a : Action T M} {th : Thread T} (hpc : s.pc th = .entering)
    (h : step s a = some s') : a = .claim th ∨ s'.pc th = .entering := by
  by_cases hactor : th = a.actor
  · subst hactor
    cases a <;> simp_all [step, Action.actor]
  · rw [pc_step hactor h]
    exact .inr hpc

/-- A thread leaves `insert_batch` by its own return or exception only. -/
theorem inserting_step {s s' : System T M} {a : Action T M} {th : Thread T} {batch : List M}
    (hpc : s.pc th = .inserting batch) (h : step s a = some s') :
    a = .insertReturns th ∨ a = .insertRaises th ∨ s'.pc th = .inserting batch := by
  by_cases hactor : th = a.actor
  · subst hactor
    cases a <;> simp_all [step, Action.actor]
  · rw [pc_step hactor h]
    exact .inr (.inr hpc)

/-- The message a step appends to the buffer. -/
def Action.puts : Action T M → List M
  | .add _ m => [m]
  | _ => []

/-- The batch whose `insert_batch` returns in a step. -/
def flushes (s : System T M) : Action T M → List (List M)
  | .insertReturns th => [(s.pc th).batch]
  | _ => []

theorem history_step {s s' : System T M} {a : Action T M} (h : step s a = some s') :
    s'.added = s.added ++ a.puts ∧ s'.flushed = s.flushed ++ flushes s a := by
  cases transition_of_step h with
  | insertReturns th batch hpc => simp [Action.puts, flushes, hpc, Pc.batch]
  | _ => simp [Action.puts, flushes]

end BatchBuffer
end CryptoLakehouse
