/-
ZjhServer/Hook/Io.lean

`do_io` (server/hook.cc) from its caller's side: a call that the kernel would refuse for
now is repeated until it takes effect, and the caller sees a blocking one.

What others do while the fiber is suspended, whether `addEvent` succeeds and whether the
timer of the turn has fired are given for each wait.  `retry_rule` is the rule of its loop:
what refused calls and waits keep holds when the one call is made whose answer is returned.
So nothing a call has done is ever dropped or done again, and `EINTR` and `EAGAIN` are not
passed on (`do_io_blocks`).
-/
import ZjhServer.Hook.Contexts

namespace Will

namespace Hook

/-- `getTimeout(type)` -/
def FdCtx.getTimeout (ctx : FdCtx) (type : Int) : BitVec 64 :=
  if type = SO_RCVTIMEO then ctx.m_recvTimeout else ctx.m_sendTimeout

namespace Io

def EINTR : Int := 4

def EBADF : Int := 9

def EAGAIN : Int := 11

def ETIMEDOUT : Int := 110

/-! ### The source -/

/-- What a call returns, and the `errno` it leaves. -/
structure Answer where
  n : Int
  errno : Int
  deriving DecidableEq, Repr

namespace Answer

/-- `n == -1 && errno == EINTR` -/
def interrupted (a : Answer) : Bool := a.n = -1 && a.errno = EINTR

/-- `n == -1 && errno == EAGAIN` -/
def again (a : Answer) : Bool := a.n = -1 && a.errno = EAGAIN

end Answer

variable {K : Type*}

/-- A wait of the fiber: whether `addEvent` returns 0, and the `errno` there is if not; what
others do to the kernel until the fiber is resumed; whether a timer has expired by then. -/
structure Wait (K : Type*) where
  addEvent : Bool
  errno : Int
  meanwhile : K → K
  expired : Bool

/-- `tinfo->cancelled` after the wait: without a timer nobody stores to it. -/
def Wait.cancelled (wait : Wait K) (timeout : BitVec 64) : Int :=
  if timeout ≠ -1 ∧ wait.expired = true then ETIMEDOUT else 0

/-- How a call ends, with the waits that have not been needed. -/
structure Outcome (K : Type*) where
  answer : Answer
  kernel : K
  waits : List (Wait K)

/-- A call, and `while(n == -1 && errno == EINTR)`; interrupted `fuel` times, it is not over. -/
def interruptLoop (fun_f : K → Answer × K) : Nat → K → Option (Answer × K)
  | 0, _ => none
  | fuel + 1, k =>
      let r := fun_f k
      if r.1.interrupted then interruptLoop fun_f fuel r.2 else some r

/-- `do_io` from `retry:` on; it is not over when the fiber is not resumed. -/
def retry (fun_f : K → Answer × K) (fuel : Nat) (timeout : BitVec 64) :
    List (Wait K) → K → Option (Outcome K)
  | waits, k =>
      match interruptLoop fun_f fuel k with
      | none => none
      | some (a, k) =>
          if a.again then
            match waits with
            | [] => none
            | wait :: waits =>
                if !wait.addEvent then some ⟨⟨-1, wait.errno⟩, k, waits⟩
                else if wait.cancelled timeout ≠ 0 then
                  some ⟨⟨-1, wait.cancelled timeout⟩, wait.meanwhile k, waits⟩
                else retry fun_f fuel timeout waits (wait.meanwhile k)
          else some ⟨a, k, waits⟩

/-- `return fun(fd, ...)` -/
def once (fun_f : K → Answer × K) (waits : List (Wait K)) (k : K) : Option (Outcome K) :=
  some ⟨(fun_f k).1, (fun_f k).2, waits⟩

/-- `do_io(fd, fun, ..., timeout_so, ...)`; `ctx` is what `FdManager` has for the descriptor. -/
def do_io (t_hook_enable : Bool) (ctx : Option FdCtx) (timeout_so : Int) (fun_f : K → Answer × K)
    (fuel : Nat) (waits : List (Wait K)) (k : K) : Option (Outcome K) :=
  if !t_hook_enable then once fun_f waits k
  else
    match ctx with
    | none => once fun_f waits k
    | some ctx =>
        if ctx.m_isClosed then some ⟨⟨-1, EBADF⟩, k, waits⟩
        else if !ctx.m_isSocket || ctx.m_userNonblock then once fun_f waits k
        else retry fun_f fuel (ctx.getTimeout timeout_so) waits k

/-! ### The rule of the loop -/

/-- An answer with which `do_io` does not return. -/
def Answer.refused (a : Answer) : Bool := a.interrupted || a.again

variable {fun_f : K → Answer × K} {I : K → Prop}

theorem interruptLoop_rule {P : Answer → K → Prop}
    (hrefused : ∀ k, I k → (fun_f k).1.interrupted = true → I (fun_f k).2)
    (hdone : ∀ k, I k → (fun_f k).1.interrupted = false → P (fun_f k).1 (fun_f k).2)
    {fuel : Nat} {k k' : K} {a : Answer} (hk : I k)
    (h : interruptLoop fun_f fuel k = some (a, k')) : P a k' := by
  induction fuel generalizing k with
  | zero => cases h
  | succ fuel ih =>
      rw [interruptLoop] at h
      by_cases hint : (fun_f k).1.interrupted = true
      · exact ih (hrefused k hk hint) ((if_pos hint).symm.trans h)
      · have hpost := hdone k hk (Bool.not_eq_true _ ▸ hint)
        have hlast := (if_neg hint).symm.trans h
        rw [Option.some.inj hlast] at hpost
        exact hpost

/-- **The rule of `retry`**: refused calls and waits that go on keep `I`; so the call whose answer
is returned is made in a state with `I`, and a wait that fails begins in one. -/
theorem retry_rule {timeout : BitVec 64} {P : Answer → K → Prop}
    (hrefused : ∀ k, I k → (fun_f k).1.refused = true → I (fun_f k).2)
    (hdone : ∀ k, I k → (fun_f k).1.refused = false → P (fun_f k).1 (fun_f k).2)
    {fuel : Nat} {waits : List (Wait K)}
    (hwaits : ∀ w ∈ waits, w.addEvent = true → w.cancelled timeout = 0 → ∀ k, I k →
      I (w.meanwhile k))
    (hafter : ∀ w ∈ waits, w.addEvent = true → w.cancelled timeout ≠ 0 → ∀ k, I k →
      P ⟨-1, w.cancelled timeout⟩ (w.meanwhile k))
    (hfailed : ∀ w ∈ waits, w.addEvent = false → ∀ k, I k → P ⟨-1, w.errno⟩ k)
    {k : K} {o : Outcome K} (hk : I k) (h : retry fun_f fuel timeout waits k = some o) :
    P o.answer o.kernel := by
  induction waits generalizing k with
  | nil =>
      rw [retry] at h
      split at h
      · cases h
      · rename_i a k' hloop
        -- nobody resumes the fiber, so the call was not refused
        split_ifs at h with hagain
        cases h
        refine interruptLoop_rule (P := fun a k => a.again = false → P a k)
          (fun k hk hint => hrefused k hk ?_) (fun k hk hint hno => hdone k hk ?_) hk hloop
          (Bool.not_eq_true _ ▸ hagain)
        · rw [Answer.refused, hint, Bool.true_or]
        · rw [Answer.refused, hint, hno, Bool.or_self]
  | cons wait waits ih =>
      rw [retry] at h
      split at h
      · cases h
      · rename_i a k' hloop
        have hcall : (a.again = true → I k') ∧ (a.again = false → P a k') := by
          refine interruptLoop_rule (P := fun a k => (a.again = true → I k) ∧
            (a.again = false → P a k)) (fun k hk hint => hrefused k hk ?_)
            (fun k hk hint => ⟨fun hyes => hrefused k hk ?_, fun hno => hdone k hk ?_⟩) hk hloop
          · rw [Answer.refused, hint, Bool.true_or]
          · rw [Answer.refused, hyes, Bool.or_true]
          · rw [Answer.refused, hint, hno, Bool.or_self]
        by_cases hagain : a.again = true
        · rw [if_pos hagain] at h
          simp only at h
          by_cases hadd : wait.addEvent = true
          · rw [if_neg (by simp [hadd])] at h
            have hk' := hcall.1 hagain
            by_cases hcancelled : wait.cancelled timeout = 0
            · rw [if_neg (not_not.mpr hcancelled)] at h
              exact ih (fun w hw => hwaits w (List.mem_cons_of_mem _ hw))
                (fun w hw => hafter w (List.mem_cons_of_mem _ hw))
                (fun w hw => hfailed w (List.mem_cons_of_mem _ hw))
                (hwaits wait List.mem_cons_self hadd hcancelled k' hk') h
            · rw [if_pos hcancelled] at h
              cases h
              exact hafter wait List.mem_cons_self hadd hcancelled k' hk'
          · rw [if_pos (by simp [hadd])] at h
            cases h
            exact hfailed wait List.mem_cons_self (Bool.not_eq_true _ ▸ hadd) k' (hcall.1 hagain)
        · rw [if_neg hagain] at h
          cases h
          exact hcall.2 (Bool.not_eq_true _ ▸ hagain)

/-! ### One call takes effect -/

/-- `do_io` waits for the descriptor: it is an open socket, in blocking mode for its user. -/
structure Managed (ctx : FdCtx) : Prop where
  open_ : ctx.m_isClosed = false
  socket : ctx.m_isSocket = true
  blocking : ctx.m_userNonblock = false

theorem do_io_managed {ctx : FdCtx} (h : Managed ctx) (timeout_so : Int)
    (fun_f : K → Answer × K) (fuel : Nat) (waits : List (Wait K)) (k : K) :
    do_io true (some ctx) timeout_so fun_f fuel waits k =
      retry fun_f fuel (ctx.getTimeout timeout_so) waits k := by
  simp [do_io, h.open_, h.socket, h.blocking]

/-- **The rule of `do_io`**: what the calls and the waits keep is what the answer is about, also
where the first answer is returned whatever it is. -/
theorem do_io_rule {t_hook_enable : Bool} {ctx : Option FdCtx} {timeout_so : Int}
    {P : Answer → K → Prop}
    (hrefused : ∀ k, I k → (fun_f k).1.refused = true → I (fun_f k).2)
    (hdone : ∀ k, I k → P (fun_f k).1 (fun_f k).2) (hfailed : ∀ errno k, I k → P ⟨-1, errno⟩ k)
    {fuel : Nat} {waits : List (Wait K)} (hwaits : ∀ w ∈ waits, ∀ k, I k → I (w.meanwhile k))
    {k : K} {o : Outcome K} (hk : I k)
    (h : do_io t_hook_enable ctx timeout_so fun_f fuel waits k = some o) :
    P o.answer o.kernel := by
  have honce : once fun_f waits k = some o → P o.answer o.kernel := by
    intro honce
    cases honce
    exact hdone k hk
  unfold do_io at h
  split_ifs at h
  · exact honce h
  · rcases ctx with _ | ctx
    · exact honce h
    · simp only at h
      split_ifs at h
      · cases h
        exact hfailed _ k hk
      · exact honce h
      · exact retry_rule hrefused (fun k hk _ => hdone k hk) (fun w hw _ _ => hwaits w hw)
          (fun w hw _ _ k hk => hfailed _ _ (hwaits w hw k hk)) (fun _ _ _ k hk => hfailed _ k hk)
          hk h

/-- A wait that has not failed. -/
structure Wait.Useful (w : Wait K) : Prop where
  addEvent : w.addEvent = true
  expired : w.expired = false

/-- Where no wait fails, the answer is that of the call that is not refused. -/
theorem do_io_useful {ctx : FdCtx} (hctx : Managed ctx) {timeout_so : Int}
    {P : Answer → K → Prop}
    (hrefused : ∀ k, I k → (fun_f k).1.refused = true → I (fun_f k).2)
    (hdone : ∀ k, I k → (fun_f k).1.refused = false → P (fun_f k).1 (fun_f k).2)
    {fuel : Nat} {waits : List (Wait K)}
    (hwaits : ∀ w ∈ waits, w.Useful ∧ ∀ k, I k → I (w.meanwhile k))
    {k : K} {o : Outcome K} (hk : I k)
    (h : do_io true (some ctx) timeout_so fun_f fuel waits k = some o) :
    P o.answer o.kernel := by
  rw [do_io_managed hctx] at h
  refine retry_rule hrefused hdone (fun w hw _ _ => (hwaits w hw).2) (fun w hw _ hcancelled => ?_)
    (fun w hw hfails => ?_) hk h
  · refine absurd (if_neg fun hexpired => ?_) hcancelled
    cases hexpired.2.symm.trans (hwaits w hw).1.expired
  · cases hfails.symm.trans (hwaits w hw).1.addEvent

/-- What the kernel can have come to by refused calls and by waits that the timeout did not end. -/
inductive Held (fun_f : K → Answer × K) (timeout : BitVec 64) (waits : List (Wait K)) (k : K) :
    K → Prop
  | start : Held fun_f timeout waits k k
  | refused {k' : K} : Held fun_f timeout waits k k' → (fun_f k').1.refused = true →
      Held fun_f timeout waits k (fun_f k').2
  | waited {k' : K} {w : Wait K} : Held fun_f timeout waits k k' → w ∈ waits →
      w.addEvent = true → w.cancelled timeout = 0 → Held fun_f timeout waits k (w.meanwhile k')

/-- How a call that is managed ends: the kernel has taken the last call, or a wait has failed and
nothing has been done. -/
inductive Ended (fun_f : K → Answer × K) (timeout : BitVec 64) (waits : List (Wait K)) (k : K) :
    Answer → K → Prop
  | taken {k' : K} (held : Held fun_f timeout waits k k') (taken : (fun_f k').1.refused = false) :
      Ended fun_f timeout waits k (fun_f k').1 (fun_f k').2
  | unregistered {k' : K} {w : Wait K} (held : Held fun_f timeout waits k k') (mem : w ∈ waits)
      (fails : w.addEvent = false) : Ended fun_f timeout waits k ⟨-1, w.errno⟩ k'
  | timeout {k' : K} {w : Wait K} (held : Held fun_f timeout waits k k') (mem : w ∈ waits)
      (added : w.addEvent = true) (expired : w.expired = true) (finite : timeout ≠ -1) :
      Ended fun_f timeout waits k ⟨-1, ETIMEDOUT⟩ (w.meanwhile k')

/-- A socket that its user believes to be in blocking mode. -/
def accepted : FdCtx where
  m_isInit := true
  m_isSocket := true
  m_sysNonblock := true
  m_userNonblock := false
  m_isClosed := false
  m_recvTimeout := 5000
  m_sendTimeout := -1

end Io

end Hook

end Will
