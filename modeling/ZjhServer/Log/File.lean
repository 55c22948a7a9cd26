/-
ZjhServer/Log/File.lean

`FileLogAppender` (server/log.cc): any threads log events to one file by its name, while others
rename it away or make it impossible to open.

A call tests the time of its event against `m_lastTime` without the lock; `reopen` and the writing
of a line are under it, so each is one step here, and the calls interleave in between.  A call that
has written has one whole line, in one of the files there have been, and every other has none;
where the file can always be opened and the system takes every line, every call writes
(`lines_once`).  A file that has been renamed away gets no more lines but of events less than
three seconds later than some event whose call had run `reopen` before, whether or not the file
could be opened then (`rotation_followed`).

`reopen` closes the stream only if it is good, and an open stream cannot be opened.  So one line
that is broken off silences the appender for good; a failed open does not (`silenced_iff`).

A line ends on `%n`, as that of the default pattern does, and `std::endl` writes the buffer out:
there is nothing left for `close` to write.  Formatting is `LogFormatter.format`; the lines here
have the time of their event.
-/
import ZjhServer.Lib.Counting
import ZjhServer.Lib.Lts

namespace Will

namespace FileLogAppender

/-! ### The source -/

/-- A `std::ofstream`: the file it has open, and `fail()`. -/
structure Stream where
  is_open : Option Nat
  fail : Bool
  deriving DecidableEq, Repr

/-- `m_filestream.close()` -/
def Stream.close (m_filestream : Stream) : Stream :=
  match m_filestream.is_open with
  | none => { m_filestream with fail := true }
  | some _ => { m_filestream with is_open := none }

/-- What a call has put into a file. -/
structure Line where
  call : Nat
  /-- `event->getTime()` -/
  now : UInt64
  whole : Bool
  deriving DecidableEq, Repr

inductive Result
  | written
  /-- `m_reopenError` -/
  | dropped
  /-- "format error" -/
  | failed
  deriving DecidableEq, Repr

/-- Where a call of `log` is. -/
inductive Pc
  /-- before the test of `m_lastTime` -/
  | test
  | reopen
  /-- before `m_lastTime = now` -/
  | stamp
  /-- before the test of `m_reopenError` -/
  | check
  | write
  | ended (result : Result)
  deriving DecidableEq, Repr

structure Call where
  now : UInt64
  pc : Pc
  deriving DecidableEq, Repr

structure State where
  m_filestream : Stream
  m_lastTime : UInt64
  m_reopenError : Bool
  calls : List Call
  /-- what has been written to each file there has ever been -/
  files : List (List Line)
  /-- the file that has the name `m_filename` -/
  name : Option Nat
  /-- it can be opened, or made -/
  allowed : Bool
  /-- the times of the calls that have run `reopen`, and 0 for the constructor -/
  reopened : List UInt64
  deriving DecidableEq, Repr

namespace State

def goto (s : State) (i : Nat) (c : Call) (pc : Pc) : State :=
  { s with calls := s.calls.set i { c with pc := pc } }

/-- `m_filestream.open(m_filename, std::ios::app)` -/
def openFile (s : State) : State :=
  match s.m_filestream.is_open with
  -- an open stream is left as it is
  | some _ => { s with m_filestream := { s.m_filestream with fail := true } }
  | none =>
      if s.allowed then
        match s.name with
        | some f => { s with m_filestream := ⟨some f, false⟩ }
        | none =>
            { s with
              m_filestream := ⟨some s.files.length, false⟩
              files := s.files ++ [[]]
              name := some s.files.length }
      else { s with m_filestream := { s.m_filestream with fail := true } }

/-- `reopen()`, by a call with an event of this time -/
def reopen (now : UInt64) (s : State) : State :=
  let s := if !s.m_filestream.fail then { s with m_filestream := s.m_filestream.close } else s
  let s := s.openFile
  { s with m_reopenError := s.m_filestream.fail, reopened := s.reopened ++ [now] }

/-- A line goes to the end of a file. -/
def put (s : State) (f : Nat) (l : Line) : State :=
  { s with files := s.files.modify f (· ++ [l]) }

end State

inductive Action
  | log (now : UInt64)
  | test (i : Nat)
  | reopen (i : Nat)
  | stamp (i : Nat)
  | check (i : Nat)
  /-- the system takes the line, or breaks it off -/
  | write (i : Nat) (ok : Bool)
  /-- somebody renames the file, or removes it -/
  | rename
  | allow (allowed : Bool)

/-- A call, where it is. -/
def stepCall (s : State) (i : Nat) (c : Call) : Action → Option State
  | .test _ =>
      if c.pc = .test then
        some (s.goto i c (if c.now ≥ s.m_lastTime + 3 then .reopen else .check))
      else none
  | .reopen _ => if c.pc = .reopen then some ((s.reopen c.now).goto i c .stamp) else none
  | .stamp _ =>
      if c.pc = .stamp then some { s.goto i c .check with m_lastTime := c.now } else none
  | .check _ =>
      if c.pc = .check then
        some (s.goto i c (if s.m_reopenError then .ended .dropped else .write))
      else none
  | .write _ ok =>
      if c.pc = .write then
        if s.m_filestream.fail then some (s.goto i c (.ended .failed))
        else
          match s.m_filestream.is_open with
          | none =>
              some { s.goto i c (.ended .failed) with
                m_filestream := { s.m_filestream with fail := true } }
          | some f =>
              if ok then some ((s.put f ⟨i, c.now, true⟩).goto i c (.ended .written))
              else
                some { (s.put f ⟨i, c.now, false⟩).goto i c (.ended .failed) with
                  m_filestream := { s.m_filestream with fail := true } }
      else none
  | _ => none

def Action.call : Action → Option Nat
  | .test i => some i
  | .reopen i => some i
  | .stamp i => some i
  | .check i => some i
  | .write i _ => some i
  | _ => none

def step (s : State) (a : Action) : Option State :=
  match a with
  | .log now => some { s with calls := s.calls ++ [⟨now, .test⟩] }
  | .rename => some { s with name := none }
  | .allow allowed => some { s with allowed := allowed }
  | a => do
      let i ← a.call
      let c ← s.calls[i]?
      stepCall s i c a

/-- The appender has been constructed, with a file of that name or without. -/
def start (there allowed : Bool) : State :=
  State.reopen 0 {
    m_filestream := ⟨none, false⟩
    m_lastTime := 0
    m_reopenError := false
    calls := []
    files := if there then [[]] else []
    name := if there then some 0 else none
    allowed := allowed
    reopened := [] }

/-! ### What a step does -/

/-- An open stream that has failed: `reopen` leaves it as it is. -/
def Stream.Stuck (m_filestream : Stream) : Prop := ∃ f, m_filestream = ⟨some f, true⟩

/-- What `reopen` leaves: the stream, the files and the file of the name. -/
inductive Opens (s : State) : Stream → List (List Line) → Option Nat → Prop
  | stuck (f : Nat) (h : s.m_filestream = ⟨some f, true⟩) :
      Opens s ⟨some f, true⟩ s.files s.name
  | refused (h : ¬s.m_filestream.Stuck) (hallowed : s.allowed = false) :
      Opens s ⟨none, true⟩ s.files s.name
  | found (f : Nat) (h : ¬s.m_filestream.Stuck) (hallowed : s.allowed = true)
      (hname : s.name = some f) : Opens s ⟨some f, false⟩ s.files (some f)
  | made (h : ¬s.m_filestream.Stuck) (hallowed : s.allowed = true) (hname : s.name = none) :
      Opens s ⟨some s.files.length, false⟩ (s.files ++ [[]]) (some s.files.length)

theorem reopen_opens (s : State) (now : UInt64) :
    ∃ stream files name, Opens s stream files name ∧
      s.reopen now = { s with
        m_filestream := stream
        files := files
        name := name
        m_reopenError := stream.fail
        reopened := s.reopened ++ [now] } := by
  obtain ⟨⟨is_open, fail⟩, m_lastTime, m_reopenError, calls, files, name, allowed, reopened⟩ := s
  cases is_open with
  | some f =>
      cases fail with
      | true => exact ⟨_, _, _, .stuck f rfl, rfl⟩
      | false =>
          have hfree : ¬Stream.Stuck ⟨some f, false⟩ := fun ⟨g, hg⟩ => by cases hg
          cases allowed with
          | false => exact ⟨_, _, _, .refused hfree rfl, rfl⟩
          | true =>
              cases name with
              | none => exact ⟨_, _, _, .made hfree rfl rfl, rfl⟩
              | some g => exact ⟨_, _, _, .found g hfree rfl rfl, rfl⟩
  | none =>
      have hfree : ¬Stream.Stuck ⟨none, fail⟩ := fun ⟨g, hg⟩ => by cases hg
      cases allowed with
      | false => cases fail <;> exact ⟨_, _, _, .refused hfree rfl, rfl⟩
      | true =>
          cases name with
          | none => cases fail <;> exact ⟨_, _, _, .made hfree rfl rfl, rfl⟩
          | some g => cases fail <;> exact ⟨_, _, _, .found g hfree rfl rfl, rfl⟩

/-- What a step can be. -/
inductive Moves (s : State) : Action → State → Prop
  | log (now : UInt64) : Moves s (.log now) { s with calls := s.calls ++ [⟨now, .test⟩] }
  | rename : Moves s .rename { s with name := none }
  | allow (allowed : Bool) : Moves s (.allow allowed) { s with allowed := allowed }
  | recent {i : Nat} {c : Call} (hc : s.calls[i]? = some c) (hpc : c.pc = .test)
      (hnow : ¬c.now ≥ s.m_lastTime + 3) : Moves s (.test i) (s.goto i c .check)
  | late {i : Nat} {c : Call} (hc : s.calls[i]? = some c) (hpc : c.pc = .test)
      (hnow : c.now ≥ s.m_lastTime + 3) : Moves s (.test i) (s.goto i c .reopen)
  | reopen {i : Nat} {c : Call} {stream : Stream} {files : List (List Line)} {name : Option Nat}
      (hc : s.calls[i]? = some c) (hpc : c.pc = .reopen) (hopens : Opens s stream files name) :
      Moves s (.reopen i) (State.goto { s with
        m_filestream := stream
        files := files
        name := name
        m_reopenError := stream.fail
        reopened := s.reopened ++ [c.now] } i c .stamp)
  | stamp {i : Nat} {c : Call} (hc : s.calls[i]? = some c) (hpc : c.pc = .stamp) :
      Moves s (.stamp i) (State.goto { s with m_lastTime := c.now } i c .check)
  | drop {i : Nat} {c : Call} (hc : s.calls[i]? = some c) (hpc : c.pc = .check)
      (herror : s.m_reopenError = true) : Moves s (.check i) (s.goto i c (.ended .dropped))
  | pass {i : Nat} {c : Call} (hc : s.calls[i]? = some c) (hpc : c.pc = .check)
      (herror : s.m_reopenError = false) : Moves s (.check i) (s.goto i c .write)
  | failed {i : Nat} {c : Call} {ok : Bool} (hc : s.calls[i]? = some c) (hpc : c.pc = .write)
      (hfail : s.m_filestream.fail = true) : Moves s (.write i ok) (s.goto i c (.ended .failed))
  | unopened {i : Nat} {c : Call} {ok : Bool} (hc : s.calls[i]? = some c) (hpc : c.pc = .write)
      (hstream : s.m_filestream = ⟨none, false⟩) :
      Moves s (.write i ok)
        (State.goto { s with m_filestream := ⟨none, true⟩ } i c (.ended .failed))
  | written {i : Nat} {c : Call} {f : Nat} (hc : s.calls[i]? = some c) (hpc : c.pc = .write)
      (hstream : s.m_filestream = ⟨some f, false⟩) :
      Moves s (.write i true) ((s.put f ⟨i, c.now, true⟩).goto i c (.ended .written))
  | broken {i : Nat} {c : Call} {f : Nat} (hc : s.calls[i]? = some c) (hpc : c.pc = .write)
      (hstream : s.m_filestream = ⟨some f, false⟩) :
      Moves s (.write i false)
        (State.goto { s.put f ⟨i, c.now, false⟩ with m_filestream := ⟨some f, true⟩ } i c
          (.ended .failed))

theorem step_moves {s t : State} {a : Action} (h : step s a = some t) : Moves s a t := by
  have hcall : ∀ i, a.call = some i → (∃ c, s.calls[i]? = some c ∧ stepCall s i c a = some t) →
      Moves s a t := by
    rintro i hi ⟨c, hc, hstep⟩
    cases a with
    | log now => cases hi
    | rename => cases hi
    | allow allowed => cases hi
    | test j =>
        obtain rfl := Option.some.inj hi
        simp only [stepCall] at hstep
        by_cases hpc : c.pc = .test
        · rw [if_pos hpc] at hstep
          obtain rfl := Option.some.inj hstep
          by_cases hnow : c.now ≥ s.m_lastTime + 3
          · rw [if_pos hnow]
            exact .late hc hpc hnow
          · rw [if_neg hnow]
            exact .recent hc hpc hnow
        · rw [if_neg hpc] at hstep
          cases hstep
    | reopen j =>
        obtain rfl := Option.some.inj hi
        simp only [stepCall] at hstep
        by_cases hpc : c.pc = .reopen
        · rw [if_pos hpc] at hstep
          obtain rfl := Option.some.inj hstep
          obtain ⟨stream, files, name, hopens, heq⟩ := reopen_opens s c.now
          rw [heq]
          exact .reopen hc hpc hopens
        · rw [if_neg hpc] at hstep
          cases hstep
    | stamp j =>
        obtain rfl := Option.some.inj hi
        simp only [stepCall] at hstep
        by_cases hpc : c.pc = .stamp
        · rw [if_pos hpc] at hstep
          obtain rfl := Option.some.inj hstep
          exact .stamp hc hpc
        · rw [if_neg hpc] at hstep
          cases hstep
    | check j =>
        obtain rfl := Option.some.inj hi
        simp only [stepCall] at hstep
        by_cases hpc : c.pc = .check
        · rw [if_pos hpc] at hstep
          obtain rfl := Option.some.inj hstep
          by_cases herror : s.m_reopenError = true
          · rw [if_pos herror]
            exact .drop hc hpc herror
          · rw [if_neg herror]
            exact .pass hc hpc (Bool.eq_false_iff.mpr herror)
        · rw [if_neg hpc] at hstep
          cases hstep
    | write j ok =>
        obtain rfl := Option.some.inj hi
        simp only [stepCall] at hstep
        by_cases hpc : c.pc = .write
        · rw [if_pos hpc] at hstep
          by_cases hfail : s.m_filestream.fail = true
          · rw [if_pos hfail] at hstep
            obtain rfl := Option.some.inj hstep
            exact .failed hc hpc hfail
          · rw [if_neg hfail] at hstep
            have hstream : s.m_filestream = ⟨s.m_filestream.is_open, false⟩ := by
              rw [← Bool.eq_false_iff.mpr hfail]
            cases hopen : s.m_filestream.is_open with
            | none =>
                rw [hopen] at hstep hstream
                obtain rfl := Option.some.inj hstep
                exact .unopened hc hpc hstream
            | some f =>
                rw [hopen] at hstep hstream
                cases ok with
                | true =>
                    obtain rfl := Option.some.inj hstep
                    exact .written hc hpc hstream
                | false =>
                    obtain rfl := Option.some.inj hstep
                    exact .broken hc hpc hstream
        · rw [if_neg hpc] at hstep
          cases hstep
  cases a with
  | log now => exact Option.some.inj h ▸ .log now
  | rename => exact Option.some.inj h ▸ .rename
  | allow allowed => exact Option.some.inj h ▸ .allow allowed
  | test i => exact hcall i rfl (Option.bind_eq_some_iff.mp h)
  | reopen i => exact hcall i rfl (Option.bind_eq_some_iff.mp h)
  | stamp i => exact hcall i rfl (Option.bind_eq_some_iff.mp h)
  | check i => exact hcall i rfl (Option.bind_eq_some_iff.mp h)
  | write i ok => exact hcall i rfl (Option.bind_eq_some_iff.mp h)

/-! ### The invariant -/

structure Inv (s : State) : Prop where
  good : s.m_filestream.fail = false → ∃ f, s.m_filestream.is_open = some f ∧ f < s.files.length
  named : ∀ f, s.name = some f → f < s.files.length
  last : s.m_lastTime ∈ s.reopened
  stamped : ∀ (i : Nat) (c : Call), s.calls[i]? = some c → c.pc = .stamp → c.now ∈ s.reopened
  near : ∀ (i : Nat) (c : Call), s.calls[i]? = some c → c.pc = .check ∨ c.pc = .write →
    ∃ time ∈ s.reopened, c.now.toNat < time.toNat + 3

theorem Inv.open_lt {s : State} (hs : Inv s) {f : Nat}
    (hstream : s.m_filestream = ⟨some f, false⟩) : f < s.files.length := by
  obtain ⟨g, hg, hlt⟩ := hs.good (by rw [hstream])
  rw [hstream] at hg
  obtain rfl := Option.some.inj hg
  exact hlt

/-- Calls other than the one that moves. -/
theorem goto_cases {s : State} {i j : Nat} {c c' : Call} {pc : Pc}
    (h : (s.goto i c pc).calls[j]? = some c') :
    j = i ∧ c' = { c with pc := pc } ∨ j ≠ i ∧ s.calls[j]? = some c' := by
  have hset : (s.calls.set i { c with pc := pc })[j]? = some c' := h
  rw [List.getElem?_set] at hset
  by_cases hij : i = j
  · rw [if_pos hij] at hset
    split_ifs at hset
    exact .inl ⟨hij.symm, (Option.some.inj hset).symm⟩
  · rw [if_neg hij] at hset
    exact .inr ⟨fun h => hij h.symm, hset⟩

theorem log_cases {calls : List Call} {j : Nat} {c x : Call} (h : (calls ++ [x])[j]? = some c) :
    calls[j]? = some c ∨ c = x := by
  rw [List.getElem?_append] at h
  split_ifs at h
  · exact .inl h
  · exact .inr (List.mem_singleton.mp (List.mem_of_getElem? h))

section Steps

variable {s : State} {i : Nat} {c : Call}

theorem Inv.goto (hs : Inv s) {pc : Pc} (hstamp : pc = .stamp → c.now ∈ s.reopened)
    (hnear : pc = .check ∨ pc = .write → ∃ time ∈ s.reopened, c.now.toNat < time.toNat + 3) :
    Inv (s.goto i c pc) where
  good := hs.good
  named := hs.named
  last := hs.last
  stamped j c' hc' hpc := by
    rcases goto_cases hc' with ⟨-, rfl⟩ | ⟨-, hold⟩
    · exact hstamp hpc
    · exact hs.stamped j c' hold hpc
  near j c' hc' hpc := by
    rcases goto_cases hc' with ⟨-, rfl⟩ | ⟨-, hold⟩
    · exact hnear hpc
    · exact hs.near j c' hold hpc

theorem Opens.inv {stream : Stream} {files : List (List Line)} {name : Option Nat}
    (h : Opens s stream files name) (hs : Inv s) :
    (stream.fail = false → ∃ f, stream.is_open = some f ∧ f < files.length) ∧
      ∀ f, name = some f → f < files.length := by
  cases h with
  | stuck f h => exact ⟨nofun, hs.named⟩
  | refused h hallowed => exact ⟨nofun, hs.named⟩
  | found f h hallowed hname =>
      refine ⟨fun _ => ⟨f, rfl, hs.named f hname⟩, fun g hg => ?_⟩
      obtain rfl := Option.some.inj hg
      exact hs.named f hname
  | made h hallowed hname =>
      have hlt : s.files.length < (s.files ++ [[]]).length := by simp
      refine ⟨fun _ => ⟨_, rfl, hlt⟩, fun g hg => ?_⟩
      obtain rfl := Option.some.inj hg
      exact hlt

theorem Inv.reopen (hs : Inv s) {stream : Stream} {files : List (List Line)} {name : Option Nat}
    (hopens : Opens s stream files name) (now : UInt64) :
    Inv { s with
      m_filestream := stream
      files := files
      name := name
      m_reopenError := stream.fail
      reopened := s.reopened ++ [now] } where
  good := (hopens.inv hs).1
  named := (hopens.inv hs).2
  last := List.mem_append_left _ hs.last
  stamped j c hc hpc := List.mem_append_left _ (hs.stamped j c hc hpc)
  near j c hc hpc := by
    obtain ⟨time, htime, hlt⟩ := hs.near j c hc hpc
    exact ⟨time, List.mem_append_left _ htime, hlt⟩

theorem length_put (s : State) (f : Nat) (l : Line) :
    (s.put f l).files.length = s.files.length := List.length_modify ..

theorem Inv.put (hs : Inv s) (f : Nat) (l : Line) : Inv (s.put f l) where
  good h := by
    rw [length_put]
    exact hs.good h
  named g hg := by
    rw [length_put]
    exact hs.named g hg
  last := hs.last
  stamped := hs.stamped
  near := hs.near

theorem Inv.failed (hs : Inv s) (is_open : Option Nat) :
    Inv { s with m_filestream := ⟨is_open, true⟩ } where
  good := nofun
  named := hs.named
  last := hs.last
  stamped := hs.stamped
  near := hs.near

/-- A time that passes the test is less than three seconds after `m_lastTime`. -/
theorem near_of_recent {now m_lastTime : UInt64} (h : ¬now ≥ m_lastTime + 3) :
    now.toNat < m_lastTime.toNat + 3 := by
  have hlt : now.toNat < (m_lastTime + 3).toNat := UInt64.lt_iff_toNat_lt.mp (UInt64.not_le.mp h)
  rw [UInt64.toNat_add] at hlt
  exact Nat.lt_of_lt_of_le hlt (Nat.mod_le _ _)

theorem Moves.inv {a : Action} {t : State} (h : Moves s a t) (hs : Inv s) : Inv t := by
  cases h with
  | log now =>
      refine ⟨hs.good, hs.named, hs.last, fun j c hc hpc => ?_, fun j c hc hpc => ?_⟩
      · rcases log_cases hc with h | rfl
        · exact hs.stamped j c h hpc
        · cases hpc
      · rcases log_cases hc with h | rfl
        · exact hs.near j c h hpc
        · rcases hpc with hpc | hpc <;> cases hpc
  | rename => exact ⟨hs.good, nofun, hs.last, hs.stamped, hs.near⟩
  | allow allowed => exact ⟨hs.good, hs.named, hs.last, hs.stamped, hs.near⟩
  | recent hc hpc hnow =>
      exact hs.goto nofun fun _ => ⟨_, hs.last, near_of_recent hnow⟩
  | late hc hpc hnow => exact hs.goto nofun nofun
  | @reopen i c stream files name hc hpc hopens =>
      exact (hs.reopen hopens c.now).goto
        (fun _ => List.mem_append_right _ (List.mem_singleton.mpr rfl)) nofun
  | @stamp i c hc hpc =>
      have hnow := hs.stamped i c hc hpc
      have hlast : Inv { s with m_lastTime := c.now } :=
        ⟨hs.good, hs.named, hnow, hs.stamped, hs.near⟩
      exact hlast.goto nofun fun _ => ⟨_, hnow, Nat.lt_add_of_pos_right (by decide)⟩
  | drop hc hpc herror => exact hs.goto nofun nofun
  | pass hc hpc herror => exact hs.goto nofun fun _ => hs.near _ _ hc (.inl hpc)
  | failed hc hpc hfail => exact hs.goto nofun nofun
  | unopened hc hpc hstream => exact (hs.failed none).goto nofun nofun
  | written hc hpc hstream => exact (hs.put _ _).goto nofun nofun
  | broken hc hpc hstream => exact ((hs.put _ _).failed _).goto nofun nofun

end Steps

theorem start_inv (there allowed : Bool) : Inv (start there allowed) := by
  cases there <;> cases allowed <;>
    exact ⟨by decide, by decide, by decide, nofun, nofun⟩

theorem reach_inv {there allowed : Bool} {s : State}
    (h : Lts.Reach step Lts.Any (start there allowed) s) : Inv s :=
  h.invariant (start_inv there allowed) fun _ _ _ hs _ hstep => (step_moves hstep).inv hs

/-! ### Lines -/

/-- The whole lines of a call. -/
def wholeLines (i : Nat) (files : List (List Line)) : Nat :=
  files.flatten.countP fun l => decide (l.call = i) && l.whole

/-- The lines that a call should have. -/
def due (s : State) (i : Nat) : Nat :=
  match s.calls[i]? with
  | some c => if c.pc = .ended .written then 1 else 0
  | none => 0

/-- A line more, in whichever file. -/
theorem perm_put {files : List (List Line)} {f : Nat} (hf : f < files.length) (l : Line) :
    (files.modify f (· ++ [l])).flatten.Perm (l :: files.flatten) := by
  induction files generalizing f with
  | nil => cases hf
  | cons file files ih =>
      cases f with
      | zero =>
          rw [List.modify_zero_cons, List.flatten_cons, List.flatten_cons, List.append_assoc]
          exact List.perm_middle
      | succ f =>
          rw [List.modify_succ_cons, List.flatten_cons, List.flatten_cons]
          exact ((ih (Nat.lt_of_succ_lt_succ hf)).append_left file).trans List.perm_middle

theorem wholeLines_put {files : List (List Line)} {f : Nat} (hf : f < files.length) (l : Line)
    (i : Nat) : wholeLines i (files.modify f (· ++ [l])) =
      wholeLines i files + if (decide (l.call = i) && l.whole) = true then 1 else 0 :=
  ((perm_put hf l).countP_eq _).trans List.countP_cons

theorem due_goto {s : State} {i : Nat} {c : Call} (hc : s.calls[i]? = some c) (pc : Pc) (j : Nat) :
    due (s.goto i c pc) j =
      if j = i then if pc = .ended .written then 1 else 0 else due s j := by
  have hlt : i < s.calls.length := (List.getElem?_eq_some_iff.mp hc).1
  show (match (s.calls.set i { c with pc := pc })[j]? with
    | some c => if c.pc = Pc.ended .written then 1 else 0
    | none => 0) = _
  rw [List.getElem?_set]
  by_cases hij : j = i
  · rw [if_pos hij, if_pos hij.symm, if_pos (by omega)]
  · rw [if_neg hij, if_neg fun h => hij h.symm]
    rfl

/-- A call that has not written yet has no line due. -/
theorem due_zero {s : State} {i : Nat} {c : Call} (hc : s.calls[i]? = some c)
    (hpc : c.pc ≠ .ended .written) : due s i = 0 := by
  rw [due, hc]
  exact if_neg hpc

/-- A step to a place other than the end of a written line leaves what is due. -/
theorem due_same {s : State} {i : Nat} {c : Call} (hc : s.calls[i]? = some c) {old : Pc}
    (hpc : c.pc = old) (hold : old ≠ .ended .written) {pc : Pc} (hnew : pc ≠ .ended .written)
    (j : Nat) : due (s.goto i c pc) j = due s j := by
  rw [due_goto hc]
  by_cases hij : j = i
  · rw [if_pos hij, if_neg hnew, hij, due_zero hc (hpc ▸ hold)]
  · rw [if_neg hij]

/-- The lines of each call, up to a step. -/
theorem Moves.once {s t : State} {a : Action} (h : Moves s a t) (hs : Inv s)
    (honce : ∀ i, wholeLines i s.files = due s i) (i : Nat) : wholeLines i t.files = due t i := by
  cases h with
  | log now =>
      rw [honce i, due, due]
      show _ = match (s.calls ++ [⟨now, .test⟩])[i]? with
        | some c => if c.pc = Pc.ended .written then 1 else 0
        | none => 0
      rw [List.getElem?_append]
      by_cases hlt : i < s.calls.length
      · rw [if_pos hlt]
      · rw [if_neg hlt, List.getElem?_eq_none (Nat.le_of_not_lt hlt)]
        cases i - s.calls.length <;> rfl
  | rename => exact honce i
  | allow allowed => exact honce i
  | recent hc hpc hnow => exact (honce i).trans (due_same hc hpc (by decide) (by decide) i).symm
  | late hc hpc hnow => exact (honce i).trans (due_same hc hpc (by decide) (by decide) i).symm
  | @reopen j c stream files name hc hpc hopens =>
      have hfiles : wholeLines i files = wholeLines i s.files := by
        cases hopens with
        | stuck f h => rfl
        | refused h hallowed => rfl
        | found f h hallowed hname => rfl
        | made h hallowed hname => simp [wholeLines]
      exact (hfiles.trans (honce i)).trans (due_same hc hpc (by decide) (by decide) i).symm
  | stamp hc hpc => exact (honce i).trans (due_same hc hpc (by decide) (by decide) i).symm
  | drop hc hpc herror => exact (honce i).trans (due_same hc hpc (by decide) (by decide) i).symm
  | pass hc hpc herror => exact (honce i).trans (due_same hc hpc (by decide) (by decide) i).symm
  | failed hc hpc hfail => exact (honce i).trans (due_same hc hpc (by decide) (by decide) i).symm
  | unopened hc hpc hstream =>
      exact (honce i).trans (due_same hc hpc (by decide) (by decide) i).symm
  | @written j c f hc hpc hstream =>
      have hlt := hs.open_lt hstream
      show wholeLines i (s.files.modify f (· ++ [_])) = due (s.goto j c (.ended .written)) i
      rw [wholeLines_put hlt, honce i, due_goto hc, if_pos rfl]
      by_cases hij : i = j
      · rw [if_pos hij, hij, due_zero hc (hpc ▸ by decide)]
        simp
      · rw [if_neg hij]
        simp [show ¬j = i from fun h => hij h.symm]
  | @broken j c f hc hpc hstream =>
      have hlt := hs.open_lt hstream
      show wholeLines i (s.files.modify f (· ++ [_])) = due (s.goto j c (.ended .failed)) i
      rw [wholeLines_put hlt, honce i, due_same hc hpc (by decide) (by decide) i]
      simp

/-- The file can be opened throughout, and the system takes every line. -/
def Smooth (_ : State) (a : Action) : Prop := a ≠ .allow false ∧ ∀ i, a ≠ .write i false

/-- Nothing has gone wrong. -/
structure Fine (s : State) : Prop where
  allowed : s.allowed = true
  stream : s.m_filestream.fail = false
  noError : s.m_reopenError = false
  ended : ∀ (i : Nat) (c : Call) (r : Result), s.calls[i]? = some c → c.pc = .ended r →
    r = .written

theorem Fine.goto {s : State} (hs : Fine s) {i : Nat} {c : Call} {pc : Pc}
    (hpc : ∀ r, pc = .ended r → r = .written) : Fine (s.goto i c pc) where
  allowed := hs.allowed
  stream := hs.stream
  noError := hs.noError
  ended j c' r hc' hr := by
    rcases goto_cases hc' with ⟨-, rfl⟩ | ⟨-, hold⟩
    · exact hpc r hr
    · exact hs.ended j c' r hold hr

theorem Moves.fine {s t : State} {a : Action} (h : Moves s a t) (hsmooth : Smooth s a)
    (hinv : Inv s) (hs : Fine s) : Fine t := by
  cases h with
  | log now =>
      refine ⟨hs.allowed, hs.stream, hs.noError, fun j c r hc hr => ?_⟩
      rcases log_cases hc with h | rfl
      · exact hs.ended j c r h hr
      · cases hr
  | rename => exact ⟨hs.allowed, hs.stream, hs.noError, hs.ended⟩
  | allow allowed =>
      cases allowed with
      | false => exact absurd rfl hsmooth.1
      | true => exact ⟨rfl, hs.stream, hs.noError, hs.ended⟩
  | recent hc hpc hnow => exact hs.goto nofun
  | late hc hpc hnow => exact hs.goto nofun
  | @reopen i c stream files name hc hpc hopens =>
      have hfail : stream.fail = false := by
        cases hopens with
        | stuck f h =>
            have hstream := hs.stream
            rw [h] at hstream
            cases hstream
        | refused h hallowed => rw [hs.allowed] at hallowed; cases hallowed
        | found f h hallowed hname => rfl
        | made h hallowed hname => rfl
      have hopened : Fine { s with
          m_filestream := stream
          files := files
          name := name
          m_reopenError := stream.fail
          reopened := s.reopened ++ [c.now] } := ⟨hs.allowed, hfail, hfail, hs.ended⟩
      exact hopened.goto nofun
  | @stamp i c hc hpc =>
      have hlast : Fine { s with m_lastTime := c.now } :=
        ⟨hs.allowed, hs.stream, hs.noError, hs.ended⟩
      exact hlast.goto nofun
  | drop hc hpc herror => rw [hs.noError] at herror; cases herror
  | pass hc hpc herror => exact hs.goto nofun
  | failed hc hpc hfail => rw [hs.stream] at hfail; cases hfail
  | unopened hc hpc hstream =>
      obtain ⟨f, hf, -⟩ := hinv.good hs.stream
      rw [hstream] at hf
      cases hf
  | @written i c f hc hpc hstream =>
      have hput : Fine (s.put f ⟨i, c.now, true⟩) :=
        ⟨hs.allowed, hs.stream, hs.noError, hs.ended⟩
      refine hput.goto fun r hr => ?_
      cases hr
      rfl
  | @broken i c f hc hpc hstream => exact absurd rfl (hsmooth.2 i)

theorem start_once (there allowed : Bool) (i : Nat) :
    wholeLines i (start there allowed).files = due (start there allowed) i := by
  cases there <;> cases allowed <;> rfl

/-- **Every event is written once**: in every state of every run a call whose event the appender
has written has one whole line in all the files there have been, and every other call has none;
and where the file can always be opened and the system takes every line, a call that has ended has
written. -/
theorem lines_once {there allowed : Bool} {s : State} :
    (Lts.Reach step Lts.Any (start there allowed) s → ∀ i, wholeLines i s.files = due s i) ∧
      (Lts.Reach step Smooth (start there true) s → ∀ (i : Nat) (c : Call) (r : Result),
        s.calls[i]? = some c → c.pc = .ended r → r = .written ∧ wholeLines i s.files = 1) := by
  have honce : ∀ {allowed : Bool}, Lts.Reach step Lts.Any (start there allowed) s →
      ∀ i, wholeLines i s.files = due s i := fun {allowed} h =>
    (h.invariant (I := fun s => Inv s ∧ ∀ i, wholeLines i s.files = due s i)
      ⟨start_inv there allowed, start_once there allowed⟩ fun _ _ _ hs _ hstep =>
        ⟨(step_moves hstep).inv hs.1, (step_moves hstep).once hs.1 hs.2⟩).2
  refine ⟨honce, fun h i c r hc hr => ?_⟩
  have hfine : Inv s ∧ Fine s := by
    refine h.invariant (I := fun s => Inv s ∧ Fine s) ⟨start_inv there true, ?_⟩
      fun _ _ _ hs hsmooth hstep =>
        ⟨(step_moves hstep).inv hs.1, (step_moves hstep).fine hsmooth hs.1 hs.2⟩
    cases there <;> exact ⟨rfl, rfl, rfl, nofun⟩
  obtain rfl := hfine.2.ended i c r hc hr
  refine ⟨rfl, ?_⟩
  rw [honce (h.mono fun _ _ _ => trivial), due, hc]
  exact if_pos hr

/-- Two events, and a renaming between their reopenings: a line in each file. -/
def bothEvents : List Action :=
  [.log 5, .log 9, .test 0, .test 1, .reopen 0, .rename, .stamp 0, .check 0, .write 0 true,
    .reopen 1, .stamp 1, .check 1, .write 1 true]

def bothLines : State := (Lts.run step bothEvents (start true true)).getD (start true true)

theorem lines_once_two : (∀ i, wholeLines i bothLines.files = due bothLines i) ∧
    bothLines.files = [[⟨0, 5, true⟩], [⟨1, 9, true⟩]] ∧
    wholeLines 0 bothLines.files = 1 ∧ wholeLines 1 bothLines.files = 1 := by
  have hrun : Lts.run step bothEvents (start true true) = some bothLines := rfl
  have hsmooth : ∀ a ∈ bothEvents, ∀ s, Smooth s a := by
    intro a ha s
    simp only [bothEvents, List.mem_cons, List.not_mem_nil, or_false] at ha
    rcases ha with rfl | rfl | rfl | rfl | rfl | rfl | rfl | rfl | rfl | rfl | rfl | rfl | rfl <;>
      simp [Smooth]
  have hall := (@lines_once true true bothLines).2 (Lts.Reach.init.run hsmooth hrun)
  exact ⟨(@lines_once true true bothLines).1 (Lts.reach_of_run hrun), rfl,
    (hall 0 ⟨5, .ended .written⟩ .written rfl rfl).2,
    (hall 1 ⟨9, .ended .written⟩ .written rfl rfl).2⟩

/-! ### A file that is renamed away -/

/-- What is in a file. -/
def State.content (s : State) (f : Nat) : List Line := s.files[f]?.getD []

theorem content_put {s : State} {f g : Nat} {l l' : Line} (h : l' ∈ (s.put g l).content f) :
    l' ∈ s.content f ∨ g = f ∧ l' = l := by
  have hput : l' ∈ ((s.files.modify g (· ++ [l]))[f]?).getD [] := h
  rw [List.getElem?_modify] at hput
  by_cases hgf : g = f
  · cases hfile : s.files[f]? with
    | none =>
        rw [hfile] at hput
        cases hput
    | some file =>
        rw [hfile] at hput
        simp only [hgf, if_pos, Option.map_eq_map, Option.map_some, Option.getD_some,
          List.mem_append, List.mem_singleton] at hput
        refine hput.imp (fun hmem => ?_) fun heq => ⟨hgf, heq⟩
        rwa [State.content, hfile]
  · simp only [if_neg hgf, Option.map_eq_map, Option.map_id_fun', id] at hput
    exact .inl hput

/-- After the file has been renamed away, with what it had then and the times there were then. -/
structure Rotated (f : Nat) (old : List Line) (reopened : List UInt64) (s : State) : Prop where
  inv : Inv s
  lt : f < s.files.length
  name : s.name ≠ some f
  opened : s.m_filestream = ⟨some f, false⟩ → s.reopened = reopened
  lines : ∀ l ∈ s.content f, l ∈ old ∨ ∃ time ∈ reopened, l.now.toNat < time.toNat + 3

theorem Rotated.put {f : Nat} {old : List Line} {reopened : List UInt64} {s : State}
    (hs : Rotated f old reopened s) {i g : Nat} {c : Call} (hc : s.calls[i]? = some c)
    (hpc : c.pc = .write) (hstream : s.m_filestream = ⟨some g, false⟩) (whole : Bool) :
    ∀ l ∈ (s.put g ⟨i, c.now, whole⟩).content f,
      l ∈ old ∨ ∃ time ∈ reopened, l.now.toNat < time.toNat + 3 := by
  intro l hl
  rcases content_put hl with hl | ⟨rfl, rfl⟩
  · exact hs.lines l hl
  · obtain ⟨time, htime, hlt⟩ := hs.inv.near i c hc (.inr hpc)
    rw [hs.opened hstream] at htime
    exact .inr ⟨time, htime, hlt⟩

theorem Moves.rotated {f : Nat} {old : List Line} {reopened : List UInt64} {s t : State}
    {a : Action} (h : Moves s a t) (hs : Rotated f old reopened s) :
    Rotated f old reopened t := by
  have hinv := h.inv hs.inv
  cases h with
  | log now => exact ⟨hinv, hs.lt, hs.name, hs.opened, hs.lines⟩
  | rename => exact ⟨hinv, hs.lt, nofun, hs.opened, hs.lines⟩
  | allow allowed => exact ⟨hinv, hs.lt, hs.name, hs.opened, hs.lines⟩
  | recent hc hpc hnow => exact ⟨hinv, hs.lt, hs.name, hs.opened, hs.lines⟩
  | late hc hpc hnow => exact ⟨hinv, hs.lt, hs.name, hs.opened, hs.lines⟩
  | reopen hc hpc hopens =>
      cases hopens with
      | stuck g h => exact ⟨hinv, hs.lt, hs.name, nofun, hs.lines⟩
      | refused h hallowed => exact ⟨hinv, hs.lt, hs.name, nofun, hs.lines⟩
      | found g h hallowed hname =>
          have hne : some g ≠ some f := fun heq => hs.name (hname.trans heq)
          exact ⟨hinv, hs.lt, hne, fun heq => absurd (congrArg Stream.is_open heq) hne, hs.lines⟩
      | made h hallowed hname =>
          have hne : some s.files.length ≠ some f := fun heq =>
            Nat.lt_irrefl _ (Option.some.inj heq ▸ hs.lt)
          have hlt : f < (s.files ++ [[]]).length :=
            Nat.lt_of_lt_of_le hs.lt (by simp)
          refine ⟨hinv, hlt, hne, fun heq => absurd (congrArg Stream.is_open heq) hne,
            fun l hl => hs.lines l ?_⟩
          have happend : l ∈ ((s.files ++ [[]])[f]?).getD [] := hl
          rwa [List.getElem?_append_left hs.lt] at happend
  | stamp hc hpc => exact ⟨hinv, hs.lt, hs.name, hs.opened, hs.lines⟩
  | drop hc hpc herror => exact ⟨hinv, hs.lt, hs.name, hs.opened, hs.lines⟩
  | pass hc hpc herror => exact ⟨hinv, hs.lt, hs.name, hs.opened, hs.lines⟩
  | failed hc hpc hfail => exact ⟨hinv, hs.lt, hs.name, hs.opened, hs.lines⟩
  | unopened hc hpc hstream => exact ⟨hinv, hs.lt, hs.name, nofun, hs.lines⟩
  | written hc hpc hstream =>
      exact ⟨hinv, (length_put s _ _).symm ▸ hs.lt, hs.name, hs.opened,
        hs.put hc hpc hstream true⟩
  | broken hc hpc hstream =>
      exact ⟨hinv, (length_put s _ _).symm ▸ hs.lt, hs.name, nofun, hs.put hc hpc hstream false⟩

/-- **A rotation is followed**: once the file of the name has been renamed away, at any moment,
the only lines it still gets are of events less than three seconds later than an event whose call
had run `reopen` before that. -/
theorem rotation_followed {there allowed : Bool} {s s' t : State} {f : Nat}
    (hs : Lts.Reach step Lts.Any (start there allowed) s) (hname : s.name = some f)
    (hrename : step s .rename = some s') (ht : Lts.Reach step Lts.Any s' t) {l : Line}
    (hl : l ∈ t.content f) :
    l ∈ s.content f ∨ ∃ time ∈ s.reopened, l.now.toNat < time.toNat + 3 := by
  have hinv := reach_inv hs
  obtain rfl := Option.some.inj hrename
  have hrotated : Rotated f (s.content f) s.reopened { s with name := none } :=
    ⟨⟨hinv.good, nofun, hinv.last, hinv.stamped, hinv.near⟩, hinv.named f hname, nofun,
      fun _ => rfl, fun _ => .inl⟩
  exact (ht.invariant hrotated fun _ _ _ hs _ hstep => (step_moves hstep).rotated hs).lines l hl

/-- The second event is past its test when the file is renamed. -/
def twoEvents : List Action :=
  [.log 5, .test 0, .reopen 0, .stamp 0, .check 0, .write 0 true, .log 6, .test 1, .check 1]

def beforeRename : State := (Lts.run step twoEvents (start true true)).getD (start true true)

def afterRename : State := { beforeRename with name := none }

def lateLine : State := (step afterRename (.write 1 true)).getD afterRename

theorem rotation_followed_late : ⟨1, 6, true⟩ ∈ beforeRename.content 0 ∨
    ∃ time ∈ beforeRename.reopened, (6 : UInt64).toNat < time.toNat + 3 :=
  @rotation_followed true true beforeRename afterRename lateLine 0
    (Lts.reach_of_run (show Lts.run step twoEvents (start true true) = some beforeRename from rfl))
    rfl rfl (.step (.write 1 true) .init trivial rfl) ⟨1, 6, true⟩ (by decide)

/-! ### Silence -/

theorem Moves.silent {s t : State} {a : Action} (h : Moves s a t) {f : Nat}
    (hs : s.m_filestream = ⟨some f, true⟩) :
    t.m_filestream = ⟨some f, true⟩ ∧ t.files = s.files := by
  cases h with
  | log now => exact ⟨hs, rfl⟩
  | rename => exact ⟨hs, rfl⟩
  | allow allowed => exact ⟨hs, rfl⟩
  | recent hc hpc hnow => exact ⟨hs, rfl⟩
  | late hc hpc hnow => exact ⟨hs, rfl⟩
  | reopen hc hpc hopens =>
      cases hopens with
      | stuck g h => exact ⟨h.symm.trans hs, rfl⟩
      | refused h hallowed => exact absurd ⟨f, hs⟩ h
      | found g h hallowed hname => exact absurd ⟨f, hs⟩ h
      | made h hallowed hname => exact absurd ⟨f, hs⟩ h
  | stamp hc hpc => exact ⟨hs, rfl⟩
  | drop hc hpc herror => exact ⟨hs, rfl⟩
  | pass hc hpc herror => exact ⟨hs, rfl⟩
  | failed hc hpc hfail => exact ⟨hs, rfl⟩
  | unopened hc hpc hstream => cases hs.symm.trans hstream
  | written hc hpc hstream => cases hs.symm.trans hstream
  | broken hc hpc hstream => cases hs.symm.trans hstream

/-- Some line has been broken off. -/
def Broken (files : List (List Line)) : Prop := ∃ l ∈ files.flatten, l.whole = false

/-- The stream is stuck from the first line that has been broken off. -/
theorem Moves.stuck_iff {s t : State} {a : Action} (h : Moves s a t) (hinv : Inv s)
    (hs : s.m_filestream.Stuck ↔ Broken s.files) : t.m_filestream.Stuck ↔ Broken t.files := by
  have hfine : ∀ {stream : Stream} {files : List (List Line)}, ¬s.m_filestream.Stuck →
      ¬stream.Stuck → files.flatten = s.files.flatten → (stream.Stuck ↔ Broken files) := by
    intro stream files hold hnew hfiles
    refine iff_of_false hnew fun hbroken => hold (hs.mpr ?_)
    rwa [Broken, hfiles] at hbroken
  cases h with
  | log now => exact hs
  | rename => exact hs
  | allow allowed => exact hs
  | recent hc hpc hnow => exact hs
  | late hc hpc hnow => exact hs
  | reopen hc hpc hopens =>
      cases hopens with
      | stuck g h => exact h ▸ hs
      | refused h hallowed => exact hfine h nofun rfl
      | found g h hallowed hname => exact hfine h nofun rfl
      | made h hallowed hname =>
          have hflat : (s.files ++ [[]]).flatten = s.files.flatten := by simp
          exact hfine h nofun hflat
  | stamp hc hpc => exact hs
  | drop hc hpc herror => exact hs
  | pass hc hpc herror => exact hs
  | failed hc hpc hfail => exact hs
  | unopened hc hpc hstream => exact hfine (hstream ▸ nofun) nofun rfl
  | @written i c f hc hpc hstream =>
      have hlt := hinv.open_lt hstream
      have hold : ¬s.m_filestream.Stuck := hstream ▸ nofun
      refine iff_of_false hold ?_
      rintro ⟨l, hl, hwhole⟩
      rcases List.mem_cons.mp ((perm_put hlt _).mem_iff.mp hl) with rfl | hl
      · cases hwhole
      · exact hold (hs.mpr ⟨l, hl, hwhole⟩)
  | @broken i c f hc hpc hstream =>
      have hlt := hinv.open_lt hstream
      exact iff_of_true ⟨f, rfl⟩
        ⟨_, (perm_put hlt ⟨i, c.now, false⟩).mem_iff.mpr (List.mem_cons_self ..), rfl⟩

/-- Where a call stands after its step. -/
theorem goto_self {s : State} {i : Nat} {c : Call} (hc : s.calls[i]? = some c) (pc : Pc) :
    (s.goto i c pc).calls[i]? = some { c with pc := pc } :=
  List.getElem?_set_self (List.getElem?_eq_some_iff.mp hc).1

theorem step_call {s : State} {a : Action} {i : Nat} {c : Call} (ha : a.call = some i)
    (hc : s.calls[i]? = some c) : step s a = stepCall s i c a := by
  have hbind : (a.call.bind fun i => s.calls[i]?.bind fun c => stepCall s i c a) =
      stepCall s i c a := by
    rw [ha, Option.bind_some, hc, Option.bind_some]
  cases a with
  | log now => cases ha
  | rename => cases ha
  | allow allowed => cases ha
  | test j => exact hbind
  | reopen j => exact hbind
  | stamp j => exact hbind
  | check j => exact hbind
  | write j ok => exact hbind

/-- A stream that is not stuck opens, where the file can be opened. -/
theorem Opens.opened {s : State} {stream : Stream} {files : List (List Line)} {name : Option Nat}
    (h : Opens s stream files name) (hs : Inv s) (hfree : ¬s.m_filestream.Stuck)
    (hallowed : s.allowed = true) :
    ∃ f, stream = ⟨some f, false⟩ ∧ f < files.length ∧ files.flatten = s.files.flatten := by
  cases h with
  | stuck f h => exact absurd ⟨f, h⟩ hfree
  | refused h hallowed' => cases hallowed.symm.trans hallowed'
  | found f h hallowed' hname => exact ⟨f, rfl, hs.named f hname, rfl⟩
  | made h hallowed' hname => exact ⟨_, rfl, by simp, by simp⟩

section Run

variable {s : State} {i : Nat} {c : Call}

theorem test_step (hc : s.calls[i]? = some c) (hpc : c.pc = .test)
    (hlate : c.now ≥ s.m_lastTime + 3) : step s (.test i) = some (s.goto i c .reopen) := by
  rw [step_call rfl hc]
  simp only [stepCall]
  rw [if_pos hpc, if_pos hlate]

theorem reopen_step (hc : s.calls[i]? = some c) (hpc : c.pc = .reopen) :
    step s (.reopen i) = some ((s.reopen c.now).goto i c .stamp) := by
  rw [step_call rfl hc]
  exact if_pos hpc

theorem stamp_step (hc : s.calls[i]? = some c) (hpc : c.pc = .stamp) :
    step s (.stamp i) = some { s.goto i c .check with m_lastTime := c.now } := by
  rw [step_call rfl hc]
  exact if_pos hpc

theorem check_step (hc : s.calls[i]? = some c) (hpc : c.pc = .check)
    (herror : s.m_reopenError = false) : step s (.check i) = some (s.goto i c .write) := by
  rw [step_call rfl hc]
  simp only [stepCall, herror]
  exact if_pos hpc

theorem write_step {f : Nat} (hc : s.calls[i]? = some c) (hpc : c.pc = .write)
    (hstream : s.m_filestream = ⟨some f, false⟩) :
    step s (.write i true) = some ((s.put f ⟨i, c.now, true⟩).goto i c (.ended .written)) := by
  rw [step_call rfl hc]
  simp only [stepCall, hstream]
  exact if_pos hpc

end Run

/-- An event later than the last reopens the file, and comes to its line. -/
theorem opens_run {s : State} (hs : Inv s) (hfree : ¬s.m_filestream.Stuck) :
    ∃ (t : State) (f : Nat) (c : Call), Lts.Reach step Lts.Any s t ∧
      t.files.flatten = s.files.flatten ∧ t.m_filestream = ⟨some f, false⟩ ∧
      f < t.files.length ∧ t.calls[s.calls.length]? = some c ∧ c.pc = .write := by
  let now := s.m_lastTime + 3
  let i := s.calls.length
  let s₁ : State := { s with allowed := true, calls := s.calls ++ [⟨now, .test⟩] }
  have hs₁ : Inv s₁ := Moves.inv (.log now) (Moves.inv (.allow true) hs)
  have h₁ : Lts.Reach step Lts.Any s s₁ :=
    .step (.log now) (.step (.allow true) .init trivial rfl) trivial rfl
  have hc₁ : s₁.calls[i]? = some ⟨now, .test⟩ := List.getElem?_concat_length
  have hstep₁ := test_step hc₁ rfl (UInt64.le_refl now)
  have hc₂ := goto_self hc₁ .reopen
  have hs₂ := (step_moves hstep₁).inv hs₁
  have hstep₂ := reopen_step hc₂ rfl
  -- what is opened
  obtain ⟨stream, files, name, hopens, heq⟩ := reopen_opens (s₁.goto i ⟨now, .test⟩ .reopen) now
  obtain ⟨f, rfl, hlt, hflat⟩ := hopens.opened hs₂ hfree rfl
  rw [heq] at hstep₂
  let s₂ : State := { s₁ with
    m_filestream := ⟨some f, false⟩
    calls := (s₁.goto i ⟨now, .test⟩ .reopen).calls
    files := files
    name := name
    m_reopenError := false
    reopened := s.reopened ++ [now] }
  have hc₃ := goto_self (s := s₂) hc₂ .stamp
  have hstep₃ := stamp_step hc₃ rfl
  let s₄ : State := { s₂ with
    m_lastTime := now
    calls := ((s₂.goto i ⟨now, .reopen⟩ .stamp).goto i ⟨now, .stamp⟩ .check).calls }
  have hc₄ : s₄.calls[i]? = some ⟨now, .check⟩ := goto_self hc₃ .check
  have hstep₄ := check_step hc₄ rfl rfl
  exact ⟨_, f, _, .step _ (.step _ (.step _ (.step _ h₁ trivial hstep₁) trivial hstep₂) trivial
    hstep₃) trivial hstep₄, hflat, rfl, hlt, goto_self hc₄ .write, rfl⟩

theorem start_stuck_iff (there allowed : Bool) :
    (start there allowed).m_filestream.Stuck ↔ Broken (start there allowed).files := by
  have hstream : (start there allowed).m_filestream = ⟨some 0, false⟩ ∨
      (start there allowed).m_filestream = ⟨none, true⟩ := by
    cases there <;> cases allowed <;> decide
  have hfiles : (start there allowed).files.flatten = [] := by
    cases there <;> cases allowed <;> rfl
  refine iff_of_false ?_ ?_
  · rintro ⟨f, hf⟩
    rcases hstream with h | h
    · cases h.symm.trans hf
    · cases h.symm.trans hf
  · rintro ⟨l, hl, -⟩
    rw [hfiles] at hl
    cases hl

/-- **Silence**: the appender never writes again exactly when one of its lines has been broken
off: the stream is then open and not good, so that `reopen` neither closes nor opens it.  Where
none has, a further call can come to its end with its line written. -/
theorem silenced_iff {there allowed : Bool} {s : State}
    (h : Lts.Reach step Lts.Any (start there allowed) s) :
    ((∀ t, Lts.Reach step Lts.Any s t → t.files.flatten = s.files.flatten) ↔ Broken s.files) ∧
    (¬Broken s.files → ∃ t now, Lts.Reach step Lts.Any s t ∧
      t.calls[s.calls.length]? = some ⟨now, .ended .written⟩ ∧
      t.files.flatten.Perm (⟨s.calls.length, now, true⟩ :: s.files.flatten)) := by
  obtain ⟨hinv, hstuck⟩ := h.invariant
    (I := fun s => Inv s ∧ (s.m_filestream.Stuck ↔ Broken s.files))
    ⟨start_inv there allowed, start_stuck_iff there allowed⟩ fun _ _ _ hs _ hstep =>
      ⟨(step_moves hstep).inv hs.1, (step_moves hstep).stuck_iff hs.1 hs.2⟩
  have hwrites : ¬Broken s.files → ∃ t now, Lts.Reach step Lts.Any s t ∧
      t.calls[s.calls.length]? = some ⟨now, .ended .written⟩ ∧
      t.files.flatten.Perm (⟨s.calls.length, now, true⟩ :: s.files.flatten) := by
    intro hwhole
    obtain ⟨t, f, c, ht, hflat, hstream, hlt, hc, hpc⟩ := opens_run hinv (mt hstuck.mp hwhole)
    refine ⟨_, c.now, .step (.write s.calls.length true) ht trivial (write_step hc hpc hstream),
      goto_self (s := t.put f ⟨_, c.now, true⟩) hc _, ?_⟩
    exact hflat ▸ perm_put hlt _
  refine ⟨⟨fun hsilent => ?_, fun hbroken t ht => ?_⟩, hwrites⟩
  · by_contra hwhole
    obtain ⟨t, now, ht, -, hperm⟩ := hwrites hwhole
    have hlength := hperm.length_eq
    rw [hsilent t ht, List.length_cons] at hlength
    exact Nat.succ_ne_self _ hlength.symm
  · obtain ⟨f, hf⟩ := hstuck.mpr hbroken
    have hfiles := (ht.invariant
      (I := fun t => t.m_filestream = ⟨some f, true⟩ ∧ t.files = s.files)
      ⟨hf, rfl⟩ fun _ _ _ hs _ hstep => by
        obtain ⟨hstream, hfiles⟩ := (step_moves hstep).silent hs.1
        exact ⟨hstream, hfiles.trans hs.2⟩).2
    rw [hfiles]

def brokenEvent : List Action := [.log 5, .test 0, .reopen 0, .stamp 0, .check 0, .write 0 false]

def brokenOff : State := (Lts.run step brokenEvent (start true true)).getD (start true true)

/-- One open has failed, and no line has been broken off. -/
def refusedEvent : List Action :=
  [.log 5, .test 0, .allow false, .reopen 0, .stamp 0, .check 0]

def refusedOpen : State := (Lts.run step refusedEvent (start true true)).getD (start true true)

theorem silenced_iff_broken :
    (∀ t, Lts.Reach step Lts.Any brokenOff t → t.files.flatten = brokenOff.files.flatten) ∧
      ∃ t now, Lts.Reach step Lts.Any refusedOpen t ∧
        t.calls[1]? = some ⟨now, .ended .written⟩ := by
  have hbroken : Broken brokenOff.files := ⟨⟨0, 5, false⟩, by decide, rfl⟩
  have hrun : Lts.run step brokenEvent (start true true) = some brokenOff := rfl
  have hrefused : Lts.run step refusedEvent (start true true) = some refusedOpen := rfl
  have hwhole : ¬Broken refusedOpen.files := by
    rintro ⟨l, hl, -⟩
    exact absurd hl (List.not_mem_nil (a := l))
  obtain ⟨t, now, ht, hcall, -⟩ :=
    (@silenced_iff true true refusedOpen (Lts.reach_of_run hrefused)).2 hwhole
  exact ⟨(@silenced_iff true true brokenOff (Lts.reach_of_run hrun)).1.mpr hbroken,
    t, now, ht, hcall⟩

end FileLogAppender

end Will
