import UcxClient.Text.InPlace
import UcxClient.Text.TokenWise

/-!
# What a parse touches

Each parameter that the parser visits is decoded inside its token (`Visit.InPlace`): a store is at the
terminator, or at a character of the token that the decoder has read, or it is the terminator that `s` puts
over the last character of a quoted token before it reads on; so what lies behind the terminator is as
before after each access.

`parse_accesses`: this holds for every parameter of every line, in any format. The accesses are those of
`uCxAtUtilParseParamsVaList`, since their result and memory are the same.
-/

open ByteMem Logged

namespace Accesses

/-- A store that the parser may make to a token, which may be a quoted one of the case `s`. -/
def Allowed (quoted : Prop) (pParam pParamEnd : Nat) (front : List Access) (i : Nat) (b : UInt8) : Prop :=
  pParam ≤ i ∧ i ≤ pParamEnd ∧
    (i = pParamEnd ∨ .read i ∈ front ∨
      (quoted ∧ i + 1 = pParamEnd ∧ b = 0 ∧ ∀ j d, .store j d ∈ front → j = pParamEnd))

/-- What is allowed is still allowed behind the terminator. -/
theorem Allowed.behind {quoted quoted' : Prop} {p e i : Nat} {b : UInt8} {before front : List Access}
    (h : Allowed quoted p e front i b) (hq : quoted → quoted') (hbefore : ∀ j d, .store j d ∈ before → j = e) :
    Allowed quoted' p e (before ++ front) i b := by
  obtain ⟨hp, he, hstore⟩ := h
  refine ⟨hp, he, ?_⟩
  rcases hstore with hend | hread | ⟨hquoted, hi, hb, hfirst⟩
  · exact .inl hend
  · exact .inr (.inl (List.mem_append_right _ hread))
  · refine .inr (.inr ⟨hq hquoted, hi, hb, fun j d hmem => ?_⟩)
    exact (List.mem_append.1 hmem).elim (hbefore j d) (hfirst j d)

/-- The token of a visit is a quoted one of the case `s`. -/
def Visit.Quoted (v : Visit) : Prop := v.c = ch 's' ∧ v.m.getD v.pParam 0 = ch '"'

/-- A parameter is decoded in its place. -/
structure Visit.InPlace (v : Visit) : Prop where
  token : v.pParam ≤ v.pParamEnd ∧
    uCxAtUtilFindParamEnd (cstr v.m v.pParam) = some (v.pParamEnd - v.pParam)
  stores : Guarded (Allowed v.Quoted v.pParam v.pParamEnd) v.accesses
  behind : ∀ front back, v.accesses = front ++ back →
    (replay v.m front).drop (v.pParamEnd + 1) = v.m.drop (v.pParamEnd + 1)

/-- What is behind the terminator is kept if no store is. -/
theorem behind_of_stores {quoted : Prop} {m : List UInt8} {p e : Nat} {as : List Access}
    (h : Guarded (Allowed quoted p e) as) (front back : List Access) (heq : as = front ++ back) :
    (replay m front).drop (e + 1) = m.drop (e + 1) := by
  refine replay_kept fun i b hmem => ?_
  obtain ⟨before, after, rfl⟩ := List.append_of_mem hmem
  have hi := (h before i b (after ++ back) (by rw [heq, List.append_assoc]; rfl)).2.1
  omega

/-! ## The string of a parameter -/

variable {quoted : Prop} {p e : Nat}

/-- A decoder that works on a part of the token. -/
theorem allowed_of_sweep {lo hi f : Nat} {as : List Access} (h : Sweep lo hi lo f as) (hlo : p ≤ lo)
    (hhi : hi ≤ e) (front : List Access) : Guarded (fun front' => Allowed quoted p e (front ++ front')) as :=
  h.guarded.mono fun _ _ _ ⟨hi₁, hi₂, hread⟩ =>
    ⟨by omega, by omega, .inr (.inl (List.mem_append_right _ hread))⟩

end Accesses

/-- A string behind `q` in a token, up to its end or to the terminator in place of its last character. -/
theorem unescape_accesses {body : List UInt8} (h0 : 0 ∉ body) (pre q pad post : List UInt8)
    (hpad : pad = [] ∨ pad = [0]) :
    ∃ as f, (Accesses.unescape (pre.length + q.length)).run (pre ++ (q ++ body ++ pad) ++ 0 :: post) =
        (some (unescapeString (pre ++ (q ++ body ++ pad) ++ 0 :: post) (pre.length + q.length)).2, as) ∧
      replay (pre ++ (q ++ body ++ pad) ++ 0 :: post) as =
        (unescapeString (pre ++ (q ++ body ++ pad) ++ 0 :: post) (pre.length + q.length)).1 ∧
      Sweep (pre.length + q.length) (pre.length + q.length + body.length) (pre.length + q.length) f as := by
  obtain ⟨behind, hbehind⟩ : ∃ behind, pad ++ 0 :: post = 0 :: behind := by
    rcases hpad with rfl | rfl
    · exact ⟨_, rfl⟩
    · exact ⟨_, rfl⟩
  have hm : pre ++ (q ++ body ++ pad) ++ 0 :: post = pre ++ q ++ body ++ 0 :: behind := by
    rw [← hbehind]
    simp only [List.append_assoc]
  rw [hm, ← List.length_append]
  obtain ⟨as, hrun, heq, -, hsweep⟩ := unescapeString_accesses (n := (pre ++ q ++ body ++ 0 :: behind).length -
    (pre ++ q).length) h0 (by simp; omega) (pre ++ q) behind
  refine ⟨[] ++ as, _, ?_, ?_, hsweep⟩
  · rw [heq]
    exact bind_eq (run_block _) hrun
  · rw [heq]
    rfl

namespace Accesses
variable (m : List UInt8) (p e : Nat)

theorem run_skipQuotes_plain (h : m.getD p 0 ≠ ch '"') : (skipQuotes p e).run m = (p, [.read p]) := by
  simp only [skipQuotes, run_bind, run_read, h, ↓reduceIte, run_pure, List.append_nil]

theorem run_skipQuotes (h : m.getD p 0 = ch '"') :
    (skipQuotes p e).run m = (p + 1, [.read p, .store (e - 1) 0]) := by
  simp only [skipQuotes, run_bind, run_read, h, ↓reduceIte, run_store, run_pure, List.append_nil,
    List.cons_append, List.nil_append]

theorem run_skipQuotesBin_plain (h : m.getD p 0 ≠ ch '"') : (skipQuotesBin p e).run m = (p, [.read p]) := by
  simp only [skipQuotesBin, run_bind, run_read, h, ↓reduceIte, run_pure, List.append_nil]

theorem run_skipQuotesBin (h : m.getD p 0 = ch '"') (hp : p + 1 < e) (h' : m.getD (e - 1) 0 = ch '"') :
    (skipQuotesBin p e).run m = (p + 1, [.read p, .read (e - 1), .store (e - 1) 0]) := by
  simp only [skipQuotesBin, run_bind, run_read, h, h', hp, ↓reduceIte, run_store, run_pure, replay_read,
    replay_nil, List.append_nil, List.cons_append, List.nil_append]

theorem run_skipQuotesBin_open (h : m.getD p 0 = ch '"') (hp : p + 1 < e) (h' : m.getD (e - 1) 0 ≠ ch '"') :
    (skipQuotesBin p e).run m = (p + 1, [.read p, .read (e - 1)]) := by
  simp only [skipQuotesBin, run_bind, run_read, h, h', hp, ↓reduceIte, run_pure, replay_read,
    replay_nil, List.append_nil, List.cons_append, List.nil_append]

end Accesses

/-! ## The case of a format character -/

/-- What is said of a case: it has the result and the memory of `ParseParams.param`, by stores that are
allowed. -/
def ParamAccesses (c : UInt8) (m : List UInt8) (p e : Nat) : Prop :=
  ∃ out as, (Accesses.param c p e).run m = (out, as) ∧
    out.result (replay m as) = ParseParams.param c m p e ∧
    Guarded (Accesses.Allowed (c = ch 's' ∧ m.getD p 0 = ch '"') p e) as

section
variable {m : List UInt8} {p e p' len : Nat} {as₀ as : List Access}

theorem run_param_s (hquotes : (Accesses.skipQuotes p e).run m = (p', as₀))
    (hrun : (Accesses.unescape p').run (replay m as₀) = (some len, as)) :
    (Accesses.param (ch 's') p e).run m = (.done (some (.str p')), as₀ ++ (as ++ [])) := by
  rw [Accesses.param, if_pos rfl]
  exact bind_eq hquotes (bind_eq hrun (run_pure _ _))

theorem run_param_binStr (hquotes : (Accesses.skipQuotesBin p e).run m = (p', as₀))
    (hrun : (Accesses.unescape p').run (replay m as₀) = (some len, as)) :
    (Accesses.param (ch '$') p e).run m = (.done (some (.binStr p' len)), as₀ ++ (as ++ [])) := by
  rw [Accesses.param, if_neg (by decide), if_pos rfl]
  exact bind_eq hquotes (bind_eq hrun (run_pure _ _))

/-- The quotes, and the string between them. -/
theorem ParamAccesses.of_string {c : UInt8} {o : Output} {hi f : Nat}
    (hrun : (Accesses.param c p e).run m = (.done (some o), as₀ ++ (as ++ [])))
    (hmem : replay (replay m as₀) as = (unescapeString (replay m as₀) p').1)
    (hparam : ParseParams.param c m p e = .done (unescapeString (replay m as₀) p').1 (some o))
    (hguard : Guarded (Accesses.Allowed (c = ch 's' ∧ m.getD p 0 = ch '"') p e) as₀)
    (hsweep : Sweep p' hi p' f as) (hp : p ≤ p') (he : hi ≤ e) : ParamAccesses c m p e := by
  refine ⟨.done (some o), as₀ ++ (as ++ []), hrun, ?_, ?_⟩
  · rw [List.append_nil, replay_append, hmem, hparam]
    rfl
  · rw [List.append_nil]
    exact guarded_append.2 ⟨hguard, Accesses.allowed_of_sweep hsweep hp he as₀⟩

end

section
variable {t : List UInt8} (h0 : 0 ∉ t) (pre post : List UInt8)
include h0

theorem param_s_accesses (ht : t ≠ [ch '"']) :
    ParamAccesses (ch 's') (pre ++ t ++ 0 :: post) pre.length (pre.length + t.length) := by
  have hdrop : (pre ++ t ++ 0 :: post).drop pre.length = t ++ 0 :: post := by
    rw [List.append_assoc, List.drop_left]
  have hhead := getD_eq_headD hdrop
  by_cases hq : t.headD 0 = ch '"'
  · obtain ⟨body, c, rfl⟩ := quoted_cases hq ht
    have hbody : 0 ∉ body := fun h => h0 (by simp [h])
    have hset : replay (pre ++ ([ch '"'] ++ body ++ [c]) ++ 0 :: post) [.read pre.length,
        .store (pre.length + ([ch '"'] ++ body ++ [c]).length - 1) 0] =
          pre ++ ([ch '"'] ++ body ++ [0]) ++ 0 :: post :=
      (set_last pre ([ch '"'] ++ body) c (0 :: post)).trans (by simp)
    obtain ⟨as, f, hrun, hmem, hsweep⟩ := unescape_accesses hbody pre [ch '"'] [0] post (.inr rfl)
    rw [← hset] at hrun hmem
    refine .of_string (run_param_s (Accesses.run_skipQuotes _ _ _ (hhead.trans hq)) hrun) hmem
      (ParseParams.param_s _ _ _ (hhead.trans hq)) ?_ hsweep (Nat.le_add_right _ _) (by simp; omega)
    -- the terminator comes before anything else is written
    refine .read (.store ⟨by simp, by omega, .inr (.inr ⟨⟨rfl, hhead.trans hq⟩, ?_, rfl, ?_⟩)⟩ .nil)
    · simp only [List.length_append, List.length_cons, List.length_nil]
      omega
    · intro j d hmem
      cases List.mem_singleton.1 hmem
  · obtain ⟨as, f, hrun, hmem, hsweep⟩ := unescape_accesses h0 pre [] [] post (.inl rfl)
    rw [List.nil_append, List.append_nil] at hrun hmem
    exact .of_string (run_param_s (Accesses.run_skipQuotes_plain _ _ _ (by rwa [hhead])) hrun) hmem
      (ParseParams.param_s_plain _ _ _ (by rwa [hhead])) (.read .nil) hsweep (Nat.le_refl _)
      (Nat.le_refl _)

theorem param_binStr_accesses (ht : t ≠ [ch '"']) :
    ParamAccesses (ch '$') (pre ++ t ++ 0 :: post) pre.length (pre.length + t.length) := by
  have hdrop : (pre ++ t ++ 0 :: post).drop pre.length = t ++ 0 :: post := by
    rw [List.append_assoc, List.drop_left]
  have hhead := getD_eq_headD hdrop
  by_cases hq : t.headD 0 = ch '"'
  · obtain ⟨body, c, rfl⟩ := quoted_cases hq ht
    have hlast := getD_last pre ([ch '"'] ++ body) c (0 :: post)
    have hpos : pre.length + 1 < pre.length + ([ch '"'] ++ body ++ [c]).length := by
      simp only [List.length_append, List.length_cons, List.length_nil]
      omega
    by_cases hc : c = ch '"'
    · have hbody : 0 ∉ body := fun h => h0 (by simp [h])
      have hset : replay (pre ++ ([ch '"'] ++ body ++ [c]) ++ 0 :: post) [.read pre.length,
          .read (pre.length + ([ch '"'] ++ body ++ [c]).length - 1),
          .store (pre.length + ([ch '"'] ++ body ++ [c]).length - 1) 0] =
            pre ++ ([ch '"'] ++ body ++ [0]) ++ 0 :: post :=
        (set_last pre ([ch '"'] ++ body) c (0 :: post)).trans (by simp)
      obtain ⟨as, f, hrun, hmem, hsweep⟩ := unescape_accesses hbody pre [ch '"'] [0] post (.inr rfl)
      rw [← hset] at hrun hmem
      have hquotes := Accesses.run_skipQuotesBin _ _ _ (hhead.trans hq) hpos (hlast.trans hc)
      refine .of_string (run_param_binStr hquotes hrun) hmem
        (ParseParams.param_binStr _ _ _ (hhead.trans hq) hpos (hlast.trans hc)) ?_ hsweep
        (Nat.le_add_right _ _) (by simp; omega)
      -- the last character has been read
      exact .read (.read (.store ⟨by simp, by omega, .inr (.inl (by simp))⟩ .nil))
    · have hrest : 0 ∉ body ++ [c] := fun h => h0 (by
        rw [List.append_assoc]
        exact List.mem_append_right _ h)
      have hm : pre ++ ([ch '"'] ++ (body ++ [c]) ++ []) ++ 0 :: post =
          pre ++ ([ch '"'] ++ body ++ [c]) ++ 0 :: post := by simp
      obtain ⟨as, f, hrun, hmem, hsweep⟩ := unescape_accesses hrest pre [ch '"'] [] post (.inl rfl)
      rw [hm] at hrun hmem
      have hquotes := Accesses.run_skipQuotesBin_open _ _ _ (hhead.trans hq) hpos fun h =>
        hc (hlast.symm.trans h)
      refine .of_string (run_param_binStr hquotes hrun) hmem
        (ParseParams.param_binStr_open _ _ _ (hhead.trans hq) fun h => hc (hlast.symm.trans h.2)) ?_ hsweep
        (Nat.le_add_right _ _) (by simp; omega)
      exact .read (.read .nil)
  · obtain ⟨as, f, hrun, hmem, hsweep⟩ := unescape_accesses h0 pre [] [] post (.inl rfl)
    rw [List.nil_append, List.append_nil] at hrun hmem
    exact .of_string (run_param_binStr (Accesses.run_skipQuotesBin_plain _ _ _ (by rwa [hhead])) hrun) hmem
      (ParseParams.param_binStr_plain _ _ _ (by rwa [hhead])) (.read .nil) hsweep (Nat.le_refl _)
      (Nat.le_refl _)

theorem param_l_accesses :
    ParamAccesses (ch 'l') (pre ++ t ++ 0 :: post) pre.length (pre.length + t.length) := by
  obtain ⟨as, f, hrun, hmem, hsweep⟩ := stringToIntList_accesses h0 pre post
  have hguard : Guarded (Accesses.Allowed (ch 'l' = ch 's' ∧
      (pre ++ t ++ 0 :: post).getD pre.length 0 = ch '"') pre.length (pre.length + t.length)) as :=
    Accesses.allowed_of_sweep hsweep (Nat.le_refl _) (Nat.le_refl _) []
  rw [ParamAccesses, ParseParams.param_l, ← hmem]
  rw [Accesses.param, if_neg (by decide), if_neg (by decide), if_pos rfl]
  cases hints : (uCxStringToIntList (pre ++ t ++ 0 :: post) pre.length).2 with
  | none =>
    rw [hints] at hrun
    refine ⟨.failed, as ++ [], bind_eq hrun (run_pure _ _), ?_, ?_⟩
    · rw [List.append_nil]
      rfl
    · rwa [List.append_nil]
  | some ints =>
    rw [hints] at hrun
    refine ⟨.done (some (.intList ints)), as ++ [], bind_eq hrun (run_pure _ _), ?_, ?_⟩
    · rw [List.append_nil]
      rfl
    · rwa [List.append_nil]

theorem param_h_accesses :
    ParamAccesses (ch 'h') (pre ++ t ++ 0 :: post) pre.length (pre.length + t.length) := by
  have hstr := cstr_mid h0 pre post
  rw [ParamAccesses, Accesses.param, if_neg (by decide), if_neg (by decide), if_neg (by decide), if_pos rfl]
  by_cases heven : t.length % 2 = 0
  · obtain ⟨as, f, hrun, hmem, hsweep⟩ := hexLoop_accesses (t.length / 2) 0 pre.length
      (pre.length + t.length) (pre ++ t ++ 0 :: post) (by omega)
    rw [Nat.zero_mul, Nat.add_zero] at hsweep
    have hguard : Guarded (Accesses.Allowed (ch 'h' = ch 's' ∧
        (pre ++ t ++ 0 :: post).getD pre.length 0 = ch '"') pre.length (pre.length + t.length)) as :=
      Accesses.allowed_of_sweep hsweep (Nat.le_refl _) (Nat.le_refl _) []
    rw [ParseParams.param_h _ _ _ (by rw [hstr]; exact heven), hstr, ← hmem]
    cases hok : (ParseParams.hexLoop pre.length (t.length / 2) 0 (pre ++ t ++ 0 :: post)).2 with
    | false =>
      rw [hok] at hrun
      refine ⟨.failed, as, ?_, rfl, hguard⟩
      simp only [run_bind, run_block, replay_nil, hstr, heven, ne_eq, not_true_eq_false, ↓reduceIte, hrun,
        Bool.false_eq_true, run_pure, List.nil_append, List.append_nil]
    | true =>
      rw [hok] at hrun
      refine ⟨.done (some (.bytes pre.length (t.length / 2))), as, ?_, rfl, hguard⟩
      simp only [run_bind, run_block, replay_nil, hstr, heven, ne_eq, not_true_eq_false, ↓reduceIte, hrun,
        run_pure, List.nil_append, List.append_nil]
  · refine ⟨.failed, [], ?_, ?_, .nil⟩
    · simp only [run_bind, run_block, replay_nil, hstr, heven, ne_eq, not_false_eq_true, ↓reduceIte, run_pure,
        List.append_nil]
    · simp only [ParseParams.param, hstr, heven, ne_eq, not_false_eq_true, if_true]
      rfl

end

/-- The cases that do not write to the line have no accesses. -/
theorem param_other_accesses {c : UInt8} (hs : c ≠ ch 's') (hbin : c ≠ ch '$') (hl : c ≠ ch 'l')
    (hh : c ≠ ch 'h') (m : List UInt8) (p e : Nat) : ParamAccesses c m p e := by
  refine ⟨Accesses.outcome (ParseParams.param c m p e), [], ?_, ?_, .nil⟩
  · rw [Accesses.param, if_neg hs, if_neg hbin, if_neg hl, if_neg hh]
    rfl
  · have hconverted : ∀ output, (Accesses.outcome (ParseParams.converted m output)).result m =
        ParseParams.converted m output := by
      intro output
      cases output <;> rfl
    cases ha : assigns c with
    | false =>
      rw [param_of_not_assigns ha]
      rfl
    | true =>
      rcases assigns_iff.1 ha with rfl | rfl | rfl | rfl | rfl | rfl | rfl | rfl
      · exact hconverted _
      · exact absurd rfl hs
      · exact absurd rfl hbin
      · exact hconverted _
      · exact hconverted _
      · cases hbd : uCxStringToBdAddress m p with
        | none =>
          have hparam : ParseParams.param (ch 'b') m p e = .undefined := by
            simp only [ParseParams.param, hbd]
            rfl
          rw [hparam]
          rfl
        | some bd =>
          rw [ParseParams.param_b _ _ _ hbd]
          exact hconverted _
      · exact absurd rfl hl
      · exact absurd rfl hh

/-- **Every case of a format character** decodes the token in its place. -/
theorem param_accesses {t : List UInt8} (h0 : 0 ∉ t) (ht : t ≠ [ch '"']) (c : UInt8)
    (pre post : List UInt8) :
    ParamAccesses c (pre ++ t ++ 0 :: post) pre.length (pre.length + t.length) := by
  by_cases hs : c = ch 's'
  · subst hs
    exact param_s_accesses h0 pre post ht
  · by_cases hbin : c = ch '$'
    · subst hbin
      exact param_binStr_accesses h0 pre post ht
    · by_cases hl : c = ch 'l'
      · subst hl
        exact param_l_accesses h0 pre post
      · by_cases hh : c = ch 'h'
        · subst hh
          exact param_h_accesses h0 pre post
        · exact param_other_accesses hs hbin hl hh _ _ _

/-! ## The loop -/

namespace Accesses

theorem run_terminate_last {m : List UInt8} {e : Nat} (h : m.getD e 0 = 0) :
    (terminate e).run m = (true, [.read e]) := by
  simp only [terminate, run_bind, run_read, h, ↓reduceIte, run_pure, List.append_nil]

theorem run_terminate {m : List UInt8} {e : Nat} (h : m.getD e 0 ≠ 0) :
    (terminate e).run m = (false, [.read e, .store e 0]) := by
  simp only [terminate, run_bind, run_read, run_store, h, ↓reduceIte, run_pure, List.append_nil,
    List.cons_append, List.nil_append]

end Accesses

/-- A turn for a token, with the character `d` behind it in the memory before. -/
theorem turn_accesses {t : List UInt8} (h0 : 0 ∉ t) (hc : Closed t) (c d : UInt8) (pre post : List UInt8) :
    ∃ out as, (Accesses.turn c pre.length (pre.length + t.length)).run (pre ++ t ++ d :: post) =
        ((d == 0, out), as) ∧
      out.result (replay (pre ++ t ++ d :: post) as) =
        ParseParams.param c (pre ++ t ++ 0 :: post) pre.length (pre.length + t.length) ∧
      Guarded (Accesses.Allowed (c = ch 's' ∧ (pre ++ t ++ d :: post).getD pre.length 0 = ch '"') pre.length
        (pre.length + t.length)) as := by
  obtain ⟨out, as, hrun, hres, hguard⟩ := param_accesses h0 hc.ne_quote c pre post
  have hget : (pre ++ t ++ d :: post).getD (pre.length + t.length) 0 = d := getD_behind _ _ _ _
  have hset : (pre ++ t ++ d :: post).set (pre.length + t.length) 0 = pre ++ t ++ 0 :: post := by
    simp
  -- the quote is not what the terminator replaces
  have hquoted : (pre ++ t ++ 0 :: post).getD pre.length 0 = ch '"' →
      (pre ++ t ++ d :: post).getD pre.length 0 = ch '"' := by
    cases t with
    | nil =>
      intro h
      rw [List.append_nil, getD_mid] at h
      exact absurd h (by decide)
    | cons c t => simp
  have hbehind : ∀ before : List Access, (∀ j d, .store j d ∈ before → j = pre.length + t.length) →
      Guarded (fun front => Accesses.Allowed
        (c = ch 's' ∧ (pre ++ t ++ d :: post).getD pre.length 0 = ch '"') pre.length (pre.length + t.length)
        (before ++ front)) as :=
    fun before hbefore => hguard.mono fun _ _ _ h => h.behind (fun hq => ⟨hq.1, hquoted hq.2⟩) hbefore
  by_cases hd : d = 0
  · subst hd
    refine ⟨out, [.read (pre.length + t.length)] ++ (as ++ []), ?_, ?_, ?_⟩
    · exact bind_eq (Accesses.run_terminate_last hget) (bind_eq hrun (run_pure _ _))
    · rw [List.append_nil, replay_append, replay_read, replay_nil, hres]
    · rw [List.append_nil]
      exact .read (hbehind [.read _] fun j d h => by cases List.mem_singleton.1 h)
  · have hlast : (d == 0) = false := beq_false_of_ne hd
    refine ⟨out, [.read (pre.length + t.length), .store (pre.length + t.length) 0] ++ (as ++ []), ?_, ?_, ?_⟩
    · rw [← hset] at hrun
      rw [hlast]
      exact bind_eq (Accesses.run_terminate (by rwa [hget])) (bind_eq hrun (run_pure _ _))
    · rw [List.append_nil, replay_append, replay_read, replay_store, replay_nil, hset, hres]
    · rw [List.append_nil]
      refine .read (.store ⟨Nat.le_add_right _ _, Nat.le_refl _, .inl rfl⟩
        (hbehind [.read (pre.length + t.length), .store (pre.length + t.length) 0] ?_))
      intro j d hmem
      simp only [List.mem_cons, List.not_mem_nil, or_false] at hmem
      rcases hmem with hmem | hmem <;> cases hmem
      rfl

/-- A visit to the token `t` and what the loop goes on with. -/
theorem visit_inPlace {t : List UInt8} {c d : UInt8} {pre post : List UInt8} {as : List Access}
    (hend : uCxAtUtilFindParamEnd (cstr (pre ++ t ++ d :: post) pre.length) = some t.length)
    (hguard : Guarded (Accesses.Allowed (c = ch 's' ∧ (pre ++ t ++ d :: post).getD pre.length 0 = ch '"')
      pre.length (pre.length + t.length)) as) :
    Accesses.Visit.InPlace ⟨c, pre.length, pre.length + t.length, pre ++ t ++ d :: post, as⟩ := by
  refine ⟨⟨Nat.le_add_right _ _, ?_⟩, hguard, Accesses.behind_of_stores hguard⟩
  rw [hend, Nat.add_sub_cancel_left]

/-- What is said of the loop over the format for a line from `pre` to `post`. -/
def LoopAccesses (fmt pre line post : List UInt8) (ret : Int) (outputs : List Output) : Prop :=
  (Accesses.loop fmt (pre ++ line ++ 0 :: post) pre.length ret outputs).2 =
      ParseParams.loop fmt (pre ++ line ++ 0 :: post) pre.length ret outputs ∧
    ∀ v ∈ (Accesses.loop fmt (pre ++ line ++ 0 :: post) pre.length ret outputs).1,
      pre.length ≤ v.pParam ∧ v.pParamEnd ≤ pre.length + line.length ∧ v.InPlace

theorem loop_accesses (fmt : List UInt8) {line : List UInt8} (h0 : 0 ∉ line) (pre post : List UInt8)
    (ret : Int) (outputs : List Output) : LoopAccesses fmt pre line post ret outputs := by
  induction fmt generalizing line pre ret outputs with
  | nil => exact ⟨rfl, by rintro _ ⟨⟩⟩
  | cons c fmt ih =>
    have hstr := cstr_mid h0 pre post
    rcases tokens_cases line with ⟨hc, -⟩ | ⟨hend, -⟩ | ⟨t, rest, rfl, hc, -⟩
    · -- the last token
      obtain ⟨out, as, hrun, hres, hguard⟩ := turn_accesses h0 hc c 0 pre post
      have hlast : (pre ++ line ++ 0 :: post).getD (pre.length + line.length) 0 = 0 := getD_behind _ _ _ _
      have hvisit := visit_inPlace (by rw [hstr, findParamEnd_end hc]) hguard
      simp only [LoopAccesses, Accesses.loop, ParseParams.loop, hstr, findParamEnd_end hc, hlast,
        beq_self_eq_true, if_true, hrun, ← hres]
      have hone : ∀ v ∈ [(⟨c, pre.length, pre.length + line.length, pre ++ line ++ 0 :: post, as⟩ :
          Accesses.Visit)], pre.length ≤ v.pParam ∧ v.pParamEnd ≤ pre.length + line.length ∧ v.InPlace :=
        List.forall_mem_singleton.2 ⟨Nat.le_refl _, Nat.le_refl _, hvisit⟩
      cases out with
      | undefined => exact ⟨rfl, hone⟩
      | failed => exact ⟨rfl, hone⟩
      | done output => exact ⟨rfl, hone⟩
    · -- a malformed token
      simp only [LoopAccesses, Accesses.loop, ParseParams.loop, hstr, hend]
      exact ⟨trivial, by rintro _ ⟨⟩⟩
    · -- a token and the comma behind it
      have h0t : 0 ∉ t := fun h => h0 (List.mem_append_left _ h)
      have h0r : 0 ∉ rest := fun h => h0 (List.mem_append_right _ (List.mem_cons_of_mem _ h))
      have hm : pre ++ (t ++ ch ',' :: rest) ++ 0 :: post = pre ++ t ++ ch ',' :: (rest ++ 0 :: post) := by
        simp
      have hget := getD_behind pre t (ch ',') (rest ++ 0 :: post)
      have hset : (pre ++ t ++ ch ',' :: (rest ++ 0 :: post)).set (pre.length + t.length) 0 =
          pre ++ t ++ 0 :: (rest ++ 0 :: post) := by simp
      have hcomma : (ch ',' == 0) = false := rfl
      rw [hm] at hstr
      obtain ⟨out, as, hrun, hres, hguard⟩ := turn_accesses h0t hc c (ch ',') pre (rest ++ 0 :: post)
      have hvisit := visit_inPlace (by rw [hstr, findParamEnd_comma hc]) hguard
      rw [hcomma] at hrun
      have hinside : pre.length + t.length ≤ pre.length + (t ++ ch ',' :: rest).length := by
        rw [List.length_append]
        omega
      have hone : ∀ v ∈ [(⟨c, pre.length, pre.length + t.length,
          pre ++ t ++ ch ',' :: (rest ++ 0 :: post), as⟩ : Accesses.Visit)],
            pre.length ≤ v.pParam ∧ v.pParamEnd ≤ pre.length + (t ++ ch ',' :: rest).length ∧ v.InPlace :=
        List.forall_mem_singleton.2 ⟨Nat.le_refl _, hinside, hvisit⟩
      simp only [LoopAccesses, Accesses.loop, ParseParams.loop, hm, hstr, findParamEnd_comma hc, hget, hcomma,
        Bool.false_eq_true, if_false, hset, hrun, ← hres]
      cases out with
      | undefined => exact ⟨rfl, hone⟩
      | failed => exact ⟨rfl, hone⟩
      | done output =>
        -- the memory behind a token that is accepted
        obtain ⟨t', hlen, hmem⟩ := mem_of_param_done h0t hc hres.symm
        have hbehind : pre ++ t' ++ 0 :: (rest ++ 0 :: post) = pre ++ t' ++ [0] ++ rest ++ 0 :: post := by
          simp
        have hpos : pre.length + t.length + 1 = (pre ++ t' ++ [0]).length := by
          simp only [List.length_append, hlen, List.length_cons, List.length_nil]
        simp only [Accesses.Outcome.result, hmem, hbehind, hpos]
        obtain ⟨hloop, hvisits⟩ := ih h0r (pre ++ t' ++ [0]) (ret + 1) (outputs ++ output.toList)
        refine ⟨hloop, fun v hv => ?_⟩
        rcases List.mem_cons.1 hv with rfl | hv
        · exact hone _ (List.mem_singleton_self _)
        · obtain ⟨hstart, hstop, hinPlace⟩ := hvisits v hv
          rw [← hpos] at hstart hstop
          rw [List.length_append, List.length_cons]
          exact ⟨by omega, by omega, hinPlace⟩

/-- **Decoding stays inside its parameter.** -/
theorem parse_accesses {line : List UInt8} (h0 : 0 ∉ line) (pre post : List UInt8) :
    (∀ fmt, (Accesses.uCxAtUtilParseParamsVaList (pre ++ line ++ 0 :: post) pre.length fmt).2 =
        uCxAtUtilParseParamsVaList (pre ++ line ++ 0 :: post) pre.length fmt ∧
      ∀ v ∈ (Accesses.uCxAtUtilParseParamsVaList (pre ++ line ++ 0 :: post) pre.length fmt).1,
        pre.length ≤ v.pParam ∧ v.pParamEnd ≤ pre.length + line.length ∧ v.InPlace) ∧
    ∀ n, line.length < n → ∃ len as,
      (Accesses.unescapeString n pre.length).run (pre ++ line ++ 0 :: post) = (some len, as) ∧
        unescapeString (pre ++ line ++ 0 :: post) pre.length =
          (replay (pre ++ line ++ 0 :: post) as, len) ∧
        len ≤ line.length ∧
        (∀ i, .read i ∈ as → i ≤ pre.length + line.length) ∧
        Guarded (fun front i _ => pre.length ≤ i ∧ i ≤ pre.length + line.length ∧ .read i ∈ front) as := by
  refine ⟨fun fmt => loop_accesses fmt h0 pre post 0 [], fun n hn => ?_⟩
  obtain ⟨as, hrun, heq, hlen, hsweep⟩ := unescapeString_accesses h0 hn pre post
  exact ⟨_, as, hrun, heq, hlen, hsweep.inside, hsweep.guarded⟩

/-- A quoted string with an unknown escape, and a list of integers. -/
def quotedLine : List UInt8 := text "\"a\\q\",[1,2]"

theorem parse_accesses_quoted :
    ((Accesses.uCxAtUtilParseParamsVaList ([] ++ quotedLine ++ 0 :: []) ([] : List UInt8).length (text "sl")).2 =
        uCxAtUtilParseParamsVaList ([] ++ quotedLine ++ 0 :: []) ([] : List UInt8).length (text "sl") ∧
      ∀ v ∈ (Accesses.uCxAtUtilParseParamsVaList ([] ++ quotedLine ++ 0 :: []) ([] : List UInt8).length
          (text "sl")).1,
        ([] : List UInt8).length ≤ v.pParam ∧ v.pParamEnd ≤ ([] : List UInt8).length + quotedLine.length ∧
          v.InPlace) ∧
    ∃ len as,
      (Accesses.unescapeString 12 ([] : List UInt8).length).run ([] ++ quotedLine ++ 0 :: []) = (some len, as) ∧
        unescapeString ([] ++ quotedLine ++ 0 :: []) ([] : List UInt8).length =
          (replay ([] ++ quotedLine ++ 0 :: []) as, len) ∧
        len ≤ quotedLine.length ∧
        (∀ i, .read i ∈ as → i ≤ ([] : List UInt8).length + quotedLine.length) ∧
        Guarded (fun front i _ => ([] : List UInt8).length ≤ i ∧
          i ≤ ([] : List UInt8).length + quotedLine.length ∧ .read i ∈ front) as := by
  have hline : 0 ∉ quotedLine := by decide
  have h := parse_accesses hline [] []
  exact ⟨h.1 (text "sl"), h.2 12 (by decide)⟩
