/-
  The worker pool.

  The main thread hands each worker its data, posts the semaphore each of them waits on, and then
  collects the workers that have set their flag, each time the completion semaphore lets it through.
  A step is what a thread does between two accesses to what it shares with others; which thread
  steps next is up to the scheduler.
-/
import Ovn.Lib.Run
import Mathlib.Data.Fintype.Basic

namespace Ovn.WorkerPool

inductive Thread (D : Type*)
  /-- In `wait_for_work`. -/
  | waiting
  | woken
  /-- At work, on the data it has read. -/
  | working (data : Option D)
  /-- About to set its flag in `post_completed_work`. -/
  | worked
  /-- The flag is set, and the completion semaphore is yet to be posted. -/
  | posting

/-- `struct worker_control`, with the thread of the worker and the fragment of the result that is
    its own.  The two counts at the end are history. -/
structure Control (D R : Type*) where
  fire : ℕ
  finished : Bool
  data : Option D
  thread : Thread D
  frag : R
  starts : ℕ
  works : ℕ

inductive Main (n : ℕ)
  /-- Not in `ovn_run_pool_callback`. -/
  | caller
  | firing (index : ℕ)
  /-- In `wait_for_work_completion`. -/
  | waiting (completed : ℕ)
  | scanning (index completed : ℕ)
  /-- The flag of a worker was found set and is cleared; the helper is next. -/
  | helping (index : Fin n) (completed : ℕ)
  | clearing (index : Fin n) (completed : ℕ)
  deriving DecidableEq

/-- `helper_func`: what becomes of the result and of the fragment of a worker. -/
abbrev Helper (n : ℕ) (R F : Type*) := Fin n → F → R → F × R

/-- `struct worker_pool` with its threads and the arguments of `ovn_run_pool_callback`.  What comes
    after `main` is history: how often the function was called and has returned, what the workers
    and the result were when it was called, and for whom the helper was called since. -/
structure State (n : ℕ) (D R F : Type*) where
  controls : Fin n → Control D R
  done : ℕ
  fin : F
  helper : Helper n R F
  main : Main n
  calls : ℕ
  returns : ℕ
  given : Fin n → Option D × R
  fin₀ : F
  helped : List (Fin n)

inductive Action (n : ℕ) (D R F : Type*)
  /-- The caller sets the data and the fragment of a worker. -/
  | set (i : Fin n) (data : Option D) (frag : R)
  | call (fin : F) (helper : Helper n R F)
  | main
  | worker (i : Fin n)

variable {n : ℕ} {D R F : Type*}

/-- A step of the thread of a worker, and whether it posts the completion semaphore. -/
def Control.step (work : Option D → R → R) (c : Control D R) : Option (Control D R × Bool) :=
  match c.thread with
  | .waiting =>
    if c.fire = 0 then none
    else some ({ c with fire := c.fire - 1, thread := .woken, starts := c.starts + 1 }, false)
  | .woken => some ({ c with thread := .working c.data }, false)
  | .working data =>
    some ({ c with thread := .worked, frag := work data c.frag, works := c.works + 1 }, false)
  | .worked => some ({ c with finished := true, thread := .posting }, false)
  | .posting => some ({ c with thread := .waiting }, true)

namespace State

variable (s : State n D R F)

def setControl (i : Fin n) (c : Control D R) : State n D R F :=
  { s with controls := Function.update s.controls i c }

def mainStep : Option (State n D R F) :=
  match s.main with
  | .caller => none
  | .firing index =>
    if h : index < n then
      let c := s.controls ⟨index, h⟩
      some { s.setControl ⟨index, h⟩ { c with fire := c.fire + 1 } with
        main := .firing (index + 1) }
    else some { s with main := .waiting 0 }
  | .waiting completed =>
    if s.done = 0 then none
    else some { s with done := s.done - 1, main := .scanning 0 completed }
  | .scanning index completed =>
    if h : index < n then
      let c := s.controls ⟨index, h⟩
      if c.finished then
        some { s.setControl ⟨index, h⟩ { c with finished := false } with
          main := .helping ⟨index, h⟩ completed }
      else some { s with main := .scanning (index + 1) completed }
    else if completed < n then some { s with main := .waiting completed }
    else some { s with main := .caller, returns := s.returns + 1 }
  | .helping index completed =>
    let c := s.controls index
    let (fin, frag) := s.helper index s.fin c.frag
    some { s.setControl index { c with frag := frag } with
      fin := fin, main := .clearing index completed, helped := s.helped ++ [index] }
  | .clearing index completed =>
    let c := s.controls index
    some { s.setControl index { c with data := none } with
      main := .scanning (index + 1) (completed + 1) }

def step (work : Fin n → Option D → R → R) : Action n D R F → Option (State n D R F)
  | .set i data frag =>
    if s.main = .caller then some (s.setControl i { s.controls i with data := data, frag := frag })
    else none
  | .call fin helper =>
    if s.main = .caller then
      some { s with
        fin := fin
        helper := helper
        main := .firing 0
        calls := s.calls + 1
        given := fun i => ((s.controls i).data, (s.controls i).frag)
        fin₀ := fin
        helped := [] }
    else none
  | .main => s.mainStep
  | .worker i =>
    ((s.controls i).step (work i)).map fun (c, posts) =>
      { s.setControl i c with done := if posts then s.done + 1 else s.done }

/-- The state `init_controls` and `init_threads` leave. -/
def init (frag : Fin n → R) (fin : F) : State n D R F where
  controls i := ⟨0, false, none, .waiting, frag i, 0, 0⟩
  done := 0
  fin := fin
  helper _ F r := (F, r)
  main := .caller
  calls := 0
  returns := 0
  given i := (none, frag i)
  fin₀ := fin
  helped := []

end State

def pool (work : Fin n → Option D → R → R) (frag : Fin n → R) (fin : F) :
    System (State n D R F) (Action n D R F) :=
  ⟨.init frag fin, fun s => s.step work⟩

end Ovn.WorkerPool
