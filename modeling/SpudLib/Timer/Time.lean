import SpudLib.Foundation.Memory

/-!
# Timers

`struct timeval`, its macros from `<sys/time.h>`, and the timers of
`src/ls_timer.c`.  A timer's callback is known by its address; what calling it
does is left to the loop that calls it.
-/

namespace SpudLib

structure Timeval where
  tvSec : Int
  tvUsec : Int
  deriving DecidableEq, Repr

namespace Timeval

/-- `timercmp`: seconds decide unless they are equal. -/
def timercmp (cmp : Int → Int → Bool) (a b : Timeval) : Bool :=
  if a.tvSec = b.tvSec then cmp a.tvUsec b.tvUsec else cmp a.tvSec b.tvSec

/-- `timeradd`, carrying at most one second. -/
def timeradd (a b : Timeval) : Timeval :=
  let sec := a.tvSec + b.tvSec
  let usec := a.tvUsec + b.tvUsec
  if usec ≥ 1000000 then ⟨sec + 1, usec - 1000000⟩ else ⟨sec, usec⟩

/-- `timersub`, borrowing at most one second. -/
def timersub (a b : Timeval) : Timeval :=
  let sec := a.tvSec - b.tvSec
  let usec := a.tvUsec - b.tvUsec
  if usec < 0 then ⟨sec - 1, usec + 1000000⟩ else ⟨sec, usec⟩

/-- The instant a cancelled timer carries. -/
def epoch : Timeval := ⟨0, 0⟩

def After (a b : Timeval) : Prop := timercmp (fun x y => decide (x > y)) a b = true

instance (a b : Timeval) : Decidable (After a b) := inferInstanceAs (Decidable (_ = true))

theorem after_iff {a b : Timeval} :
    After a b ↔ b.tvSec < a.tvSec ∨ (a.tvSec = b.tvSec ∧ b.tvUsec < a.tvUsec) := by
  unfold After timercmp
  split <;> rename_i same <;> simp <;> omega

theorem After.irrefl (a : Timeval) : ¬ After a a := by
  rw [after_iff]; omega

theorem not_after_trans {a b c : Timeval} (first : ¬ After a b) (second : ¬ After b c) :
    ¬ After a c := by
  rw [after_iff] at *; omega

end Timeval

/-- `struct _ls_timer`: the callback, its context and the time it is due. -/
structure LsTimer where
  cb : Nat
  context : Nat
  tv : Timeval
  deriving DecidableEq, Repr

namespace LsTimer

/-- The `then` of `ls_timer_create_ms`: the instant `ms` milliseconds after `now`. -/
def dueTime (now : Timeval) (ms : Nat) : Timeval :=
  now.timeradd ⟨(ms / 1000 : Nat), ((ms % 1000) * 1000 : Nat)⟩

/-- `ls_timer_create`: the new timer's address, or nothing when memory is refused. -/
def lsTimerCreate (mallocOk : Bool) (actual : Timeval) (cb context : Nat)
    (timers : Memory LsTimer) : Option (Nat × Memory LsTimer) :=
  if mallocOk then some (timers.fresh, timers.alloc ⟨cb, context, actual⟩) else none

def lsTimerCreateMs (mallocOk : Bool) (now : Timeval) (ms cb context : Nat)
    (timers : Memory LsTimer) : Option (Nat × Memory LsTimer) :=
  lsTimerCreate mallocOk (dueTime now ms) cb context timers

def lsTimerCancel (timer : LsTimer) : LsTimer := { timer with tv := Timeval.epoch }

def lsTimerIsCancelled (timer : LsTimer) : Bool :=
  Timeval.timercmp (fun x y => decide (x = y)) timer.tv Timeval.epoch

/-- `ls_timer_get_time`: NULL for a cancelled timer. -/
def lsTimerGetTime (timer : LsTimer) : Option Timeval :=
  if timer.lsTimerIsCancelled then none else some timer.tv

def lsTimerLess (a b : LsTimer) : Bool :=
  Timeval.timercmp (fun x y => decide (x < y)) a.tv b.tv

def lsTimerGreater (a b : LsTimer) : Bool :=
  Timeval.timercmp (fun x y => decide (x > y)) a.tv b.tv

def lsTimerGreaterTv (a : LsTimer) (b : Timeval) : Bool :=
  Timeval.timercmp (fun x y => decide (x > y)) a.tv b

theorem lsTimerLess_iff (a b : LsTimer) : a.lsTimerLess b = true ↔ b.tv.After a.tv := by
  rw [Timeval.after_iff]
  unfold lsTimerLess Timeval.timercmp
  split <;> rename_i same <;> simp <;> omega

theorem lsTimerIsCancelled_iff (timer : LsTimer) :
    timer.lsTimerIsCancelled = true ↔ timer.tv = Timeval.epoch := by
  obtain ⟨cb, context, sec, usec⟩ := timer
  unfold lsTimerIsCancelled Timeval.timercmp Timeval.epoch
  dsimp only
  split <;> rename_i same <;> simp <;> omega

@[simp] theorem lsTimerGreater_iff (a b : LsTimer) :
    a.lsTimerGreater b = true ↔ a.tv.After b.tv := Iff.rfl

@[simp] theorem lsTimerGreaterTv_iff (a : LsTimer) (b : Timeval) :
    a.lsTimerGreaterTv b = true ↔ a.tv.After b := Iff.rfl

end LsTimer

end SpudLib
