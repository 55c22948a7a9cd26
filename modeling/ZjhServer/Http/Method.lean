/-
ZjhServer/Http/Method.lean

The two recognisers of `HTTP_METHOD_MAP` (server/http/http.cc).

`StringToHttpMethod` compares a whole string, `CharsToHttpMethod` the length of a name: it
takes the first name that is a prefix of what it sees.  On a token and a blank behind it
the two agree unless a name is a proper prefix of the token, because no name is one of
another name (`names_prefix_free`); `recognition_exact_iff` has the condition.
-/
import ZjhServer.Http.Dump
import ZjhServer.Http.Parser

namespace Will

namespace Http

/-- `strcmp(s, t) == 0` -/
def strcmpEq : Bytes → Bytes → Bool
  | [], t => t.headD 0 == 0
  | c :: s, t => c == t.headD 0 && (c == 0 || strcmpEq s t.tail)

/-- `StringToHttpMethod`: the first method whose name is the string. -/
def StringToHttpMethod (m : Bytes) : HttpMethod :=
  ((HTTP_METHOD_MAP.find? fun x => strcmpEq (ascii x.2) m).map Prod.fst).getD .INVALID_METHOD

/-- `Method = ( upper | digit ){1,20}` -/
structure MethodToken (t : Bytes) : Prop where
  length : 1 ≤ t.length ∧ t.length ≤ 20
  letters : ∀ c ∈ t, (65 ≤ c ∧ c ≤ 90) ∨ (48 ≤ c ∧ c ≤ 57)

/-! ### The comparisons -/

/-- `strncmp` with the length of a name looks for the name as a prefix. -/
theorem strncmpEq_iff {name : Bytes} (hname : ∀ c ∈ name, c ≠ 0) (t : Bytes) :
    strncmpEq name t name.length = true ↔ name <+: t := by
  induction name generalizing t with
  | nil => simp [strncmpEq]
  | cons c name ih =>
      obtain ⟨hc, hname⟩ := List.forall_mem_cons.mp hname
      rw [List.length_cons, strncmpEq, List.headD_cons, beq_false_of_ne hc, Bool.false_or,
        Bool.and_eq_true, beq_iff_eq, List.tail_cons, ih hname]
      cases t with
      | nil => simp [hc]
      | cons d t => rw [List.headD_cons, List.tail_cons, List.cons_prefix_cons]

/-- `strcmp` compares strings without a NUL. -/
theorem strcmpEq_iff {name : Bytes} (hname : ∀ c ∈ name, c ≠ 0) {t : Bytes}
    (ht : ∀ c ∈ t, c ≠ 0) : strcmpEq name t = true ↔ t = name := by
  induction name generalizing t with
  | nil =>
      cases t with
      | nil => simp [strcmpEq]
      | cons d t =>
          have hd := ht d (List.mem_cons_self ..)
          simp [strcmpEq, hd]
  | cons c name ih =>
      obtain ⟨hc, hname⟩ := List.forall_mem_cons.mp hname
      rw [strcmpEq, beq_false_of_ne hc, Bool.false_or, Bool.and_eq_true, beq_iff_eq]
      cases t with
      | nil => simp [hc]
      | cons d t =>
          rw [List.headD_cons, List.tail_cons, ih hname (List.forall_mem_cons.mp ht).2,
            List.cons_eq_cons, eq_comm]

/-! ### The table -/

theorem names_nul_free : ∀ x ∈ HTTP_METHOD_MAP, ∀ c ∈ ascii x.2, c ≠ 0 := by decide +kernel

theorem names_back : ∀ x ∈ HTTP_METHOD_MAP,
    x.1 ≠ .INVALID_METHOD ∧ HttpMethodToString x.1 = ascii x.2 := by decide +kernel

/-- **No name is a prefix of another.** -/
theorem names_prefix_free : ∀ x ∈ HTTP_METHOD_MAP, ∀ y ∈ HTTP_METHOD_MAP,
    ascii x.2 <+: ascii y.2 → x = y := by decide +kernel

/-- A search of the table: the method of a name that matches, or none. -/
theorem find_method {hit : HttpMethod × String → Bool} {m : HttpMethod}
    (h : ((HTTP_METHOD_MAP.find? hit).map Prod.fst).getD .INVALID_METHOD = m) :
    (∃ x ∈ HTTP_METHOD_MAP, x.1 = m ∧ hit x = true) ∨
      (m = .INVALID_METHOD ∧ ∀ x ∈ HTTP_METHOD_MAP, hit x = false) := by
  cases hfind : HTTP_METHOD_MAP.find? hit with
  | none =>
      rw [hfind] at h
      refine .inr ⟨h.symm, fun x hx => ?_⟩
      exact Bool.eq_false_iff.mpr (List.find?_eq_none.mp hfind x hx)
  | some x =>
      rw [hfind] at h
      exact .inl ⟨x, List.mem_of_find?_eq_some hfind, h, List.find?_some hfind⟩

theorem MethodToken.nul_free {t : Bytes} (h : MethodToken t) : ∀ c ∈ t, c ≠ 0 := by
  rintro c hc rfl
  exact absurd (h.letters 0 hc) (by decide)

/-- What the prefix search gives on a token and a blank. -/
theorem CharsToHttpMethod_cases (t rest : Bytes) :
    (∃ x ∈ HTTP_METHOD_MAP, x.1 = CharsToHttpMethod (t ++ 32 :: rest) ∧ ascii x.2 <+: t) ∨
      (CharsToHttpMethod (t ++ 32 :: rest) = .INVALID_METHOD ∧
        ∀ x ∈ HTTP_METHOD_MAP, ¬ascii x.2 <+: t) := by
  rw [CharsToHttpMethod_blank]
  rcases find_method (rfl : _ = CharsToHttpMethod t) with ⟨x, hx, hm, hhit⟩ | ⟨hm, hnone⟩
  · exact .inl ⟨x, hx, hm, (strncmpEq_iff (names_nul_free x hx) t).mp hhit⟩
  · refine .inr ⟨hm, fun x hx hprefix => ?_⟩
    rw [← strncmpEq_iff (names_nul_free x hx)] at hprefix
    rw [hnone x hx] at hprefix
    cases hprefix

/-- What the whole comparison gives on a token. -/
theorem StringToHttpMethod_cases {t : Bytes} (ht : MethodToken t) :
    (∃ x ∈ HTTP_METHOD_MAP, x.1 = StringToHttpMethod t ∧ t = ascii x.2) ∨
      (StringToHttpMethod t = .INVALID_METHOD ∧ ∀ x ∈ HTTP_METHOD_MAP, t ≠ ascii x.2) := by
  rcases find_method (rfl : _ = StringToHttpMethod t) with ⟨x, hx, hm, hhit⟩ | ⟨hm, hnone⟩
  · exact .inl ⟨x, hx, hm, (strcmpEq_iff (names_nul_free x hx) ht.nul_free).mp hhit⟩
  · refine .inr ⟨hm, fun x hx heq => ?_⟩
    rw [← strcmpEq_iff (names_nul_free x hx) ht.nul_free] at heq
    rw [hnone x hx] at heq
    cases heq

/-! ### Recognition -/

/-- The callback on a token. -/
theorem on_request_method_eq {t : Bytes} (ht : MethodToken t) (rest : Bytes) (d : ParserData) :
    on_request_method d (t ++ 32 :: rest) t.length =
      if CharsToHttpMethod (t ++ 32 :: rest) = .INVALID_METHOD then some { d with m_error := 1000 }
      else some { d with m_data := { d.m_data with
        m_method := CharsToHttpMethod (t ++ 32 :: rest) } } := by
  have hlength := ht.length.2
  have hstring : string (t ++ 32 :: rest) t.length = some ((t ++ 32 :: rest).take t.length) :=
    if_pos (by omega)
  unfold on_request_method
  rw [hstring]
  rfl

/-- What is asked of the recognition of the token `t`, with a blank and `rest` behind it:
the two recognisers agree; the callback stores the method that `t` is the name of, and sets
the error 1000 if there is none; and the name of a method that is accepted is `t`. -/
structure Recognised (t rest : Bytes) : Prop where
  agree : CharsToHttpMethod (t ++ 32 :: rest) = StringToHttpMethod t
  stored : ∀ x ∈ HTTP_METHOD_MAP, t = ascii x.2 → ∀ d : ParserData,
    on_request_method d (t ++ 32 :: rest) t.length =
      some { d with m_data := { d.m_data with m_method := x.1 } }
  refused : (∀ x ∈ HTTP_METHOD_MAP, t ≠ ascii x.2) → ∀ d : ParserData,
    on_request_method d (t ++ 32 :: rest) t.length = some { d with m_error := 1000 }
  back : CharsToHttpMethod (t ++ 32 :: rest) ≠ .INVALID_METHOD →
    HttpMethodToString (CharsToHttpMethod (t ++ 32 :: rest)) = t

/-- **Recognition is exact** for a token of the grammar, whatever is behind the blank, if
and only if no name of the table is a proper prefix of it. -/
theorem recognition_exact_iff {t : Bytes} (ht : MethodToken t) (rest : Bytes) :
    Recognised t rest ↔ ∀ x ∈ HTTP_METHOD_MAP, ascii x.2 <+: t → t = ascii x.2 := by
  constructor
  · intro h x hx hprefix
    rcases CharsToHttpMethod_cases t rest with ⟨y, hy, hm, -⟩ | ⟨-, hnone⟩
    · -- the method found has the token for its name, and then the prefix is that name
      obtain ⟨hvalid, hback⟩ := names_back y hy
      have hname := h.back (hm ▸ hvalid)
      rw [← hm, hback] at hname
      rw [← hname] at hprefix ⊢
      rw [names_prefix_free x hx y hy hprefix]
    · exact absurd hprefix (hnone x hx)
  · intro h
    have hcallback := on_request_method_eq ht rest
    rcases CharsToHttpMethod_cases t rest with ⟨x, hx, hm, hprefix⟩ | ⟨hm, hnone⟩
    · obtain ⟨hvalid, hback⟩ := names_back x hx
      have hname := h x hx hprefix
      have honly : ∀ y ∈ HTTP_METHOD_MAP, t = ascii y.2 → x = y := fun y hy hty =>
        names_prefix_free x hx y hy (by rw [← hname, ← hty])
      refine ⟨?_, fun y hy hty d => ?_, fun hnone => absurd hname (hnone x hx), fun _ => ?_⟩
      · rcases StringToHttpMethod_cases ht with ⟨y, hy, hmy, hty⟩ | ⟨-, hnone⟩
        · rw [← hm, ← hmy, honly y hy hty]
        · exact absurd hname (hnone x hx)
      · rw [hcallback, if_neg (hm ▸ hvalid), ← hm, honly y hy hty]
      · rw [← hm, hback, hname]
    · refine ⟨?_, fun y hy hty => ?_, fun _ d => ?_, fun hvalid => absurd hm hvalid⟩
      · rcases StringToHttpMethod_cases ht with ⟨y, hy, -, hty⟩ | ⟨hmy, -⟩
        · exact absurd (by rw [← hty]) (hnone y hy)
        · rw [hm, hmy]
      · exact absurd (by rw [← hty]) (hnone y hy)
      · rw [hcallback, if_pos hm]

/-- The token `GET`. -/
theorem recognition_exact_iff_get : Recognised (ascii "GET") (ascii "/ HTTP/1.1") :=
  (recognition_exact_iff ⟨by decide, forall_ascii (by decide +kernel)⟩ _).mpr (by decide +kernel)

/-- **The token `GETX`** is accepted as `GET`. -/
theorem getx_accepted : ¬ ∀ t rest : Bytes, MethodToken t → Recognised t rest := by
  intro h
  have hback := (h (ascii "GETX") [] ⟨by decide, forall_ascii (by decide +kernel)⟩).back
  revert hback
  decide +kernel

end Http

end Will
