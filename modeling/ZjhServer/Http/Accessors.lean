/-
ZjhServer/Http/Accessors.lean

The three maps of an `HttpRequest` (server/http/http.{h,cc}) and the accessors to them: those
that give the text of a key, and those that convert it with `boost::lexical_cast<T>`.

What the maps hold is told by the history of the updates (`latest`): the last one of the key,
in any letter case.  The accessors of texts and those of headers give just that.  The ones that
convert a parameter or a cookie look into the headers; so they say what their own map holds
exactly where that is what the headers hold (`accessors_iff`).
-/
import ZjhServer.Http.Request

namespace Will

namespace Http

/-! ### The source -/

/-- `m.erase(key)` -/
def MapType.erase (key : Bytes) (m : MapType) : MapType :=
  OrderedMap.erase CaseInsensitiveLess key m

/-- An `HttpRequest` with the maps that neither its parser nor `dump` looks at. -/
structure Request extends HttpRequest where
  m_params : MapType
  m_cookies : MapType
  deriving DecidableEq, Repr

section

variable {T : Type} (lexical_cast : Bytes → Option T)

/-- `checkGetAs(m, key, val, def)`: what it returns, and `val` behind it. -/
def checkGetAs (m : MapType) (key : Bytes) (dflt : T) : Bool × T :=
  match m.find key with
  | none => (false, dflt)
  | some second =>
      match lexical_cast second with
      | some val => (true, val)
      | none => (false, dflt)

/-- `getAs(m, key, def)` -/
def getAs (m : MapType) (key : Bytes) (dflt : T) : T :=
  match m.find key with
  | none => dflt
  | some second =>
      match lexical_cast second with
      | some val => val
      | none => dflt

end

namespace Request

/-- `HttpRequest()` -/
def new : Request := { HttpRequest.new with m_params := [], m_cookies := [] }

variable {T : Type} (lexical_cast : Bytes → Option T) (req : Request) (key : Bytes)

def getHeader (dflt : Bytes) : Bytes := (req.m_headers.find key).getD dflt

def getParam (dflt : Bytes) : Bytes := (req.m_params.find key).getD dflt

def getCookie (dflt : Bytes) : Bytes := (req.m_cookies.find key).getD dflt

def hasHeader : Bool := (req.m_headers.find key).isSome

def hasParam : Bool := (req.m_params.find key).isSome

def hasCookie : Bool := (req.m_cookies.find key).isSome

def checkGetHeaderAs (dflt : T) : Bool × T := checkGetAs lexical_cast req.m_headers key dflt

def getHeaderAs (dflt : T) : T := getAs lexical_cast req.m_headers key dflt

-- `m_headers` in all that follow, not `m_params` and `m_cookies`
def checkGetParamAs (dflt : T) : Bool × T := checkGetAs lexical_cast req.m_headers key dflt

def getParamAs (dflt : T) : T := getAs lexical_cast req.m_headers key dflt

def checkGetCookieAs (dflt : T) : Bool × T := checkGetAs lexical_cast req.m_headers key dflt

def getCookieAs (dflt : T) : T := getAs lexical_cast req.m_headers key dflt

def setHeader (val : Bytes) : Request := { req with m_headers := req.m_headers.set key val }

def setParam (val : Bytes) : Request := { req with m_params := req.m_params.set key val }

def setCookie (val : Bytes) : Request := { req with m_cookies := req.m_cookies.set key val }

def delHeader : Request := { req with m_headers := req.m_headers.erase key }

def delParam : Request := { req with m_params := req.m_params.erase key }

def delCookie : Request := { req with m_cookies := req.m_cookies.erase key }

end Request

/-! ### Histories -/

/-- The three maps. -/
inductive Store
  | header
  | param
  | cookie
  deriving DecidableEq, Repr

/-- An update of one of them. -/
structure Update where
  store : Store
  key : Bytes
  /-- The value it sets, or none when it deletes the key. -/
  val : Option Bytes
  deriving DecidableEq, Repr

namespace Request

/-- The map of a store. -/
def map (req : Request) : Store → MapType
  | .header => req.m_headers
  | .param => req.m_params
  | .cookie => req.m_cookies

/-- The accessors of a store, by its name. -/
def get (req : Request) : Store → Bytes → Bytes → Bytes
  | .header => req.getHeader
  | .param => req.getParam
  | .cookie => req.getCookie

def has (req : Request) : Store → Bytes → Bool
  | .header => req.hasHeader
  | .param => req.hasParam
  | .cookie => req.hasCookie

def getConverted {T : Type} (lexical_cast : Bytes → Option T) (req : Request) :
    Store → Bytes → T → T
  | .header => req.getHeaderAs lexical_cast
  | .param => req.getParamAs lexical_cast
  | .cookie => req.getCookieAs lexical_cast

def checkConverted {T : Type} (lexical_cast : Bytes → Option T) (req : Request) :
    Store → Bytes → T → Bool × T
  | .header => req.checkGetHeaderAs lexical_cast
  | .param => req.checkGetParamAs lexical_cast
  | .cookie => req.checkGetCookieAs lexical_cast

def update (req : Request) (u : Update) : Request :=
  match u.store, u.val with
  | .header, some val => req.setHeader u.key val
  | .header, none => req.delHeader u.key
  | .param, some val => req.setParam u.key val
  | .param, none => req.delParam u.key
  | .cookie, some val => req.setCookie u.key val
  | .cookie, none => req.delCookie u.key

/-- The request behind a history. -/
def after (us : List Update) : Request := us.foldl update new

end Request

/-- **What a store should hold** for a key: what the last update of it says, where letter case
makes no difference. -/
def latest (w : Store) (key : Bytes) (us : List Update) : Option Bytes :=
  us.foldl (fun held u => if u.store = w ∧ lowered u.key = lowered key then u.val else held) none

theorem latest_append (w : Store) (key : Bytes) (us : List Update) (u : Update) :
    latest w key (us ++ [u]) =
      if u.store = w ∧ lowered u.key = lowered key then u.val else latest w key us := by
  rw [latest, List.foldl_append]
  rfl

theorem latest_other {w : Store} {u : Update} (h : u.store ≠ w) (key : Bytes)
    (us : List Update) : latest w key (us ++ [u]) = latest w key us := by
  rw [latest_append, if_neg fun hc => h hc.1]

/-- An update changes the map it names, and no other. -/
theorem Request.map_update (req : Request) (u : Update) (w : Store) :
    (req.update u).map w =
      if u.store = w then
        match u.val with
        | some val => (req.map w).set u.key val
        | none => (req.map w).erase u.key
      else req.map w := by
  obtain ⟨store, key, val⟩ := u
  cases store <;> cases val <;> cases w <;> rfl

theorem Request.after_append (us : List Update) (u : Update) :
    Request.after (us ++ [u]) = (Request.after us).update u := by
  rw [Request.after, List.foldl_append]
  rfl

theorem after_sorted (us : List Update) (w : Store) :
    OrderedMap.Sorted lowered ((Request.after us).map w) := by
  induction us using List.reverseRecOn with
  | nil => cases w <;> exact List.Pairwise.nil
  | append_singleton us u ih =>
      rw [Request.after_append, Request.map_update]
      split_ifs
      · cases u.val with
        | some val => exact OrderedMap.set_sorted CaseInsensitiveLess_ranks ih u.key val
        | none => exact OrderedMap.erase_sorted ih u.key
      · exact ih

/-- **A store holds what the history says.** -/
theorem find_after (us : List Update) (w : Store) (key : Bytes) :
    ((Request.after us).map w).find key = latest w key us := by
  induction us using List.reverseRecOn with
  | nil => cases w <;> rfl
  | append_singleton us u ih =>
      have hsorted := after_sorted us w
      rw [Request.after_append, Request.map_update, latest_append]
      by_cases hw : u.store = w
      · rw [if_pos hw]
        cases hval : u.val with
        | some val =>
            refine (hsorted.find_set CaseInsensitiveLess_ranks u.key val key).trans ?_
            by_cases hkey : lowered u.key = lowered key
            · rw [if_pos hkey, if_pos ⟨hw, hkey⟩]
            · rw [if_neg hkey, if_neg fun hc => hkey hc.2]
              exact ih
        | none =>
            refine (hsorted.find_erase CaseInsensitiveLess_ranks u.key key).trans ?_
            by_cases hkey : lowered u.key = lowered key
            · rw [if_pos hkey, if_pos ⟨hw, hkey⟩]
            · rw [if_neg hkey, if_neg fun hc => hkey hc.2]
              exact ih
      · rw [if_neg hw, if_neg fun hc => hw hc.1, ih]

/-! ### The accessors -/

section

variable {T : Type} (lexical_cast : Bytes → Option T)

theorem getAs_eq (m : MapType) (key : Bytes) (dflt : T) :
    getAs lexical_cast m key dflt = ((m.find key).bind lexical_cast).getD dflt := by
  rw [getAs]
  cases m.find key with
  | none => rfl
  | some second =>
      show (match lexical_cast second with | some val => val | none => dflt) =
        (lexical_cast second).getD dflt
      cases lexical_cast second <;> rfl

theorem checkGetAs_eq (m : MapType) (key : Bytes) (dflt : T) :
    checkGetAs lexical_cast m key dflt =
      (((m.find key).bind lexical_cast).isSome, ((m.find key).bind lexical_cast).getD dflt) := by
  rw [checkGetAs]
  cases m.find key with
  | none => rfl
  | some second =>
      show (match lexical_cast second with | some val => (true, val) | none => (false, dflt)) =
        ((lexical_cast second).isSome, (lexical_cast second).getD dflt)
      cases lexical_cast second <;> rfl

theorem get_after (us : List Update) (w : Store) (key dflt : Bytes) :
    (Request.after us).get w key dflt = (latest w key us).getD dflt := by
  rw [← find_after]
  cases w <;> rfl

theorem has_after (us : List Update) (w : Store) (key : Bytes) :
    (Request.after us).has w key = (latest w key us).isSome := by
  rw [← find_after]
  cases w <;> rfl

/-- Whichever store they are named after, these look into the headers. -/
theorem getConverted_after (us : List Update) (w : Store) (key : Bytes) (dflt : T) :
    (Request.after us).getConverted lexical_cast w key dflt =
      ((latest .header key us).bind lexical_cast).getD dflt := by
  rw [← find_after]
  cases w <;> exact getAs_eq lexical_cast _ key dflt

theorem checkConverted_after (us : List Update) (w : Store) (key : Bytes) (dflt : T) :
    (Request.after us).checkConverted lexical_cast w key dflt =
      (((latest .header key us).bind lexical_cast).isSome,
        ((latest .header key us).bind lexical_cast).getD dflt) := by
  rw [← find_after]
  cases w <;> exact checkGetAs_eq lexical_cast _ key dflt

end

/-- **The accessors of a key read one store**: text, presence and conversion are those of the
value the store holds. -/
structure Faithful (us : List Update) (key : Bytes) : Prop where
  get : ∀ w dflt, (Request.after us).get w key dflt = (latest w key us).getD dflt
  has : ∀ w, (Request.after us).has w key = (latest w key us).isSome
  converted : ∀ w {T : Type} (lexical_cast : Bytes → Option T) (dflt : T),
    (Request.after us).getConverted lexical_cast w key dflt =
      if (Request.after us).has w key then
        (lexical_cast ((Request.after us).get w key [])).getD dflt
      else dflt
  checked : ∀ w {T : Type} (lexical_cast : Bytes → Option T) (dflt : T),
    ((Request.after us).checkConverted lexical_cast w key dflt).1 = true ↔
      (Request.after us).has w key = true ∧
        (lexical_cast ((Request.after us).get w key [])).isSome
  val : ∀ w {T : Type} (lexical_cast : Bytes → Option T) (dflt : T),
    ((Request.after us).checkConverted lexical_cast w key dflt).2 =
      if (Request.after us).has w key then
        (lexical_cast ((Request.after us).get w key [])).getD dflt
      else dflt

/-- An update leaves the accessors of the other stores alone. -/
structure Separate (us : List Update) (u : Update) (key : Bytes) : Prop where
  get : ∀ w, w ≠ u.store → ∀ dflt,
    (Request.after (us ++ [u])).get w key dflt = (Request.after us).get w key dflt
  has : ∀ w, w ≠ u.store → (Request.after (us ++ [u])).has w key = (Request.after us).has w key
  converted : ∀ w, w ≠ u.store → ∀ {T : Type} (lexical_cast : Bytes → Option T) (dflt : T),
    (Request.after (us ++ [u])).getConverted lexical_cast w key dflt =
      (Request.after us).getConverted lexical_cast w key dflt
  checked : ∀ w, w ≠ u.store → ∀ {T : Type} (lexical_cast : Bytes → Option T) (dflt : T),
    (Request.after (us ++ [u])).checkConverted lexical_cast w key dflt =
      (Request.after us).checkConverted lexical_cast w key dflt

/-- The three stores hold the same for the key. -/
def Agree (us : List Update) (key : Bytes) : Prop :=
  ∀ w, latest w key us = latest .header key us

/-- An update of the headers does not change what they hold for the key. -/
def Still (us : List Update) (u : Update) (key : Bytes) : Prop :=
  u.store = .header → latest .header key (us ++ [u]) = latest .header key us

/-- What a value converts to, told by its presence and its text. -/
theorem converted_text {T : Type} (lexical_cast : Bytes → Option T) (held : Option Bytes)
    (dflt : T) :
    (if held.isSome then (lexical_cast (held.getD [])).getD dflt else dflt) =
      (held.bind lexical_cast).getD dflt := by
  cases held <;> rfl

theorem checked_text {T : Type} (lexical_cast : Bytes → Option T) (held : Option Bytes) :
    (held.isSome = true ∧ (lexical_cast (held.getD [])).isSome) ↔
      (held.bind lexical_cast).isSome := by
  cases held with
  | none => simp
  | some s => simp

/-- Values that no default tells apart. -/
theorem option_eq_of_getD {held held' : Option Bytes}
    (h : ∀ dflt, held.getD dflt = held'.getD dflt) :
    held = held' := by
  have hlonger : ∀ s : Bytes, s ≠ s ++ [0] := by
    intro s heq
    have hlen := congrArg List.length heq
    rw [List.length_append] at hlen
    exact absurd hlen (by simp)
  cases held with
  | none =>
      cases held' with
      | none => rfl
      | some s => exact absurd (h (s ++ [0])).symm (hlonger s)
  | some s =>
      cases held' with
      | none => exact absurd (h (s ++ [0])) (hlonger s)
      | some s' => exact congrArg some (h [])

theorem faithful_iff (us : List Update) (key : Bytes) : Faithful us key ↔ Agree us key := by
  constructor
  · intro h w
    -- texts converted to themselves
    refine (option_eq_of_getD fun dflt => ?_).symm
    have hconv := h.converted w some dflt
    rw [getConverted_after, has_after, get_after, converted_text] at hconv
    simpa using hconv
  · intro h
    refine ⟨fun w dflt => get_after us w key dflt, fun w => has_after us w key, ?_, ?_, ?_⟩
    · intro w T lexical_cast dflt
      rw [getConverted_after, has_after, get_after, converted_text, h w]
    · intro w T lexical_cast dflt
      rw [checkConverted_after, has_after, get_after, checked_text, h w]
    · intro w T lexical_cast dflt
      rw [checkConverted_after, has_after, get_after, converted_text, h w]

theorem separate_iff (us : List Update) (u : Update) (key : Bytes) :
    Separate us u key ↔ Still us u key := by
  constructor
  · intro h hheader
    refine option_eq_of_getD fun dflt => ?_
    have hconv := h.converted .param (by rw [hheader]; decide) some dflt
    rw [getConverted_after, getConverted_after] at hconv
    simpa using hconv
  · intro h
    have hstill : latest .header key (us ++ [u]) = latest .header key us := by
      by_cases hheader : u.store = .header
      · exact h hheader
      · exact latest_other hheader key us
    refine ⟨?_, ?_, ?_, ?_⟩
    · intro w hw dflt
      rw [get_after, get_after, latest_other (Ne.symm hw)]
    · intro w hw
      rw [has_after, has_after, latest_other (Ne.symm hw)]
    · intro w hw T lexical_cast dflt
      rw [getConverted_after, getConverted_after, hstill]
    · intro w hw T lexical_cast dflt
      rw [checkConverted_after, checkConverted_after, hstill]

/-- **Accessors and stores.**  After any history and for any key, every accessor tells what its
own store holds, and a further update leaves the accessors of the other stores alone, if
and only if the three stores hold the same for the key, and the update does not change what the
headers hold for it. -/
theorem accessors_iff (us : List Update) (u : Update) (key : Bytes) :
    Faithful us key ∧ Separate us u key ↔ Agree us key ∧ Still us u key :=
  and_congr (faithful_iff us key) (separate_iff us u key)

/-- The accessors of headers are right after any history. -/
theorem header_converted {T : Type} (lexical_cast : Bytes → Option T) (us : List Update)
    (key : Bytes) (dflt : T) :
    (Request.after us).getHeaderAs lexical_cast key dflt =
      ((latest .header key us).bind lexical_cast).getD dflt :=
  getConverted_after lexical_cast us .header key dflt

/-- A header is set, and a parameter of that name is there. -/
theorem param_from_header :
    ¬Faithful [⟨.header, ascii "id", some (ascii "7")⟩] (ascii "ID") ∧
      ¬Separate [] ⟨.header, ascii "id", some (ascii "7")⟩ (ascii "ID") := by
  constructor
  · rw [faithful_iff]
    exact fun h => absurd (h .param) (by decide)
  · rw [separate_iff]
    exact fun h => absurd (h rfl) (by decide)

end Http

end Will
