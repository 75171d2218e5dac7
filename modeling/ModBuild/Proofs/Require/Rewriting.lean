import ModBuild.Proofs.Text.Cutting
import ModBuild.Require.Reference
import Mathlib.Data.List.Infix

/-!
# Rewriting calls

The text between two calls is kept as it stands, and nothing that resolving
writes can be read as the beginning of a call. So one pass over a module
resolves all there is to resolve, whatever is passed over on the way: calls
of several arguments, openings without an end, and references that hold
the beginning of a call themselves.
-/

set_option autoImplicit false

namespace ModBuild.Require

/-- The text in front of each of the calls, counted from an offset, and the
text behind the last one. -/
def segments (s : Text) : Nat → List Call → List Text
  | n, [] => [s.drop n]
  | n, c :: cs => (s.drop n).take (c.start-n) :: segments s c.stop cs

def interleave : List Text → List Text → Text
  | seg :: segs, p :: ps => seg ++ p ++ interleave segs ps
  | segs, _ => segs.flatten

def rewritten (scope : Scope) (ts : List Token) : Text := ts.flatMap (resolveToken scope)

theorem segments_length (s : Text) (n : Nat) (cs : List Call) :
    (segments s n cs).length = cs.length+1 := by
  induction cs generalizing n with
  | nil => rfl
  | cons c cs ih => simp [segments, ih]

/-- What each call becomes is left open: the call itself gives the text back,
and the resolved call gives the rewritten one. -/
def woven (f : Text → Text) : Token → Text
  | .plain c => [c]
  | .call r => f r

theorem interleave_segments (f : Text → Text) (ts : List Token) (before begun : Text) :
    interleave
        (segments (before ++ begun ++ ts.flatMap Token.text) before.length
          (locate (before.length+begun.length) ts))
        ((locate (before.length+begun.length) ts).map fun c => f c.reference) =
      begun ++ ts.flatMap (woven f) := by
  -- `begun` is the segment that has begun; it ends with the next call.
  induction ts generalizing before begun with
  | nil => simp [locate, segments, interleave]
  | cons t ts ih =>
    cases t with
    | plain c =>
      have h := ih before (begun ++ [c])
      simpa [locate, woven, Token.text, Nat.add_assoc] using h
    | call r =>
      have h := ih (before ++ begun ++ emitted r) []
      have hn : (before ++ begun ++ emitted r).length =
          before.length+begun.length+(emitted r).length := by simp [Nat.add_assoc]
      rw [hn] at h
      simp only [List.append_nil, List.length_nil, Nat.add_zero, List.nil_append] at h
      simp only [locate, segments, interleave, List.map_cons, List.flatMap_cons, Token.text, woven,
        ← List.append_assoc, h]
      simp

theorem woven_emitted : woven emitted = Token.text := by
  funext t
  cases t <;> rfl

theorem woven_hostCall (scope : Scope) :
    woven (fun r => hostCall (resolve scope r).path) = resolveToken scope := by
  funext t
  cases t <;> rfl

theorem interleave_calls (f : Text → Text) (s : Text) :
    interleave (segments s 0 (calls s)) ((calls s).map fun c => f c.reference) =
      (tokens s).flatMap (woven f) := by
  have h := interleave_segments f (tokens s) [] []
  simpa [calls, flatMap_text_tokens] using h

def Foreign (c : Char) : Prop := c ≠ '.' ∧ c ≠ '/' ∧ ∀ s : Scope, c ∉ s.text

theorem newline_foreign : Foreign '\n' :=
  ⟨by decide, by decide, fun s => by cases s <;> decide⟩

theorem quote_foreign : Foreign '"' :=
  ⟨by decide, by decide, fun s => by cases s <;> decide⟩

theorem count_slashed (c : Char) (hc : Foreign c) (r : Text) :
    (slashed r).count c = r.count c := by
  induction r with
  | nil => rfl
  | cons x r ih =>
    rw [slashed] at ih ⊢
    by_cases hx : x = '.'
    · simp [hx, ih, Ne.symm hc.1, Ne.symm hc.2.1]
    · simp [hx, ih, List.count_cons]

theorem count_cutScopes (c : Char) (hc : Foreign c) (path : Text) :
    (cutScopes path).2.count c = path.count c := by
  fun_induction cutScopes path with
  | case1 path h => rfl
  | case2 path s rest h scopes last hcut ih =>
    have hs : s.text.count c = 0 := List.count_eq_zero.mpr (hc.2.2 s)
    rw [hcut] at ih
    rw [eq_of_cutScope? h, List.count_append, List.count_cons, hs, ih]
    simp [Ne.symm hc.2.1]

theorem count_resolved_path (c : Char) (hc : Foreign c) (scope : Scope) (r : Text) :
    (resolve scope r).path.count c = r.count c := by
  have h : (resolve scope r).path = (cutScopes (slashed r)).2 := by
    simp only [resolve]
    split <;> rfl
  rw [h, count_cutScopes c hc, count_slashed c hc]

theorem opening_chars : opening = ['r', 'e', 'q', 'u', 'i', 'r', 'e', '(', '"'] := rfl

theorem hostCall_chars (path : Text) : hostCall path =
    ['r', 'e', 'q', 'u', 'i', 'r', 'e', '(', '\''] ++ path ++ ['\'', ')'] := rfl

theorem emitted_chars (r : Text) : emitted r =
    ['r', 'e', 'q', 'u', 'i', 'r', 'e', '(', '"'] ++ r ++ ['"', ')'] := rfl

theorem count_rewritten (scope : Scope) (ts : List Token) :
    (rewritten scope ts).count '\n' = (ts.flatMap Token.text).count '\n' := by
  induction ts with
  | nil => simp [rewritten]
  | cons t ts ih =>
    rw [rewritten, List.flatMap_cons, List.flatMap_cons, List.count_append, List.count_append]
    rw [rewritten] at ih
    rw [ih]
    cases t with
    | plain c => rw [resolveToken, Token.text]
    | call r =>
      rw [resolveToken, Token.text, hostCall_chars, emitted_chars]
      simp [count_resolved_path '\n' newline_foreign]

theorem quote_mem_tail (w : Text) (hw : w <:+ opening) (hne : w ≠ []) : '"' ∈ w := by
  obtain ⟨v, hv⟩ := hw
  have h : (v ++ w).getLast? = some '"' := by rw [hv, opening_chars]; rfl
  rw [List.getLast?_append_of_ne_nil v hne] at h
  exact List.mem_of_getLast? h

theorem quote_not_mem_start (path rest w : Text) (h : w <+: hostCall path ++ rest)
    (hlen : w.length ≤ 9) : '"' ∉ w := by
  intro hq
  rw [hostCall_chars, List.append_assoc, List.append_assoc] at h
  have hcut : w <+: ['r', 'e', 'q', 'u', 'i', 'r', 'e', '(', '\''] :=
    List.prefix_of_prefix_length_le h (List.prefix_append _ _) hlen
  exact absurd (hcut.subset hq) (by decide)

/-- A proper tail of the opening that begins the rewritten text begins the
text itself: the quote that ends it is in no rewritten call. -/
theorem tail_of_rewritten (scope : Scope) (ts : List Token) (w : Text) (hw : w <:+ opening)
    (h : w <+: rewritten scope ts) : w <+: ts.flatMap Token.text := by
  induction ts generalizing w with
  | nil => simpa [rewritten] using h
  | cons t ts ih =>
    cases w with
    | nil => exact List.nil_prefix
    | cons a w =>
      cases t with
      | plain c =>
        obtain ⟨hac, hrest⟩ := List.cons_prefix_cons.mp h
        exact List.cons_prefix_cons.mpr
          ⟨hac, ih w ((List.suffix_cons a w).trans hw) hrest⟩
      | call r =>
        have hq := quote_mem_tail (a :: w) hw (List.cons_ne_nil a w)
        exact absurd hq (quote_not_mem_start _ _ _ h hw.length_le)

theorem head_rewritten (scope : Scope) (ts : List Token) :
    (rewritten scope ts).head? = (ts.flatMap Token.text).head? := by
  cases ts with
  | nil => simp [rewritten]
  | cons t ts =>
    rw [rewritten, List.flatMap_cons, List.flatMap_cons]
    cases t with
    | plain c => simp [resolveToken, Token.text]
    | call r => simp [resolveToken, Token.text, hostCall_chars, emitted_chars]

theorem tokens_cons_plain (c : Char) (s : Text) (h : ¬ opening <+: c :: s) :
    tokens (c :: s) = .plain c :: tokens s := by
  have hn := (Text.after?_eq_none_iff opening (c :: s)).mpr h
  rw [tokens]
  split
  · rfl
  · next literal hs => simp [hn] at hs

theorem opening_not_prefix (u s : Text) (hu : ')' ∈ u) (hq : '"' ∉ u) :
    ¬ opening <+: u ++ s := by
  intro h
  rcases Nat.lt_or_ge u.length opening.length with hlt | hge
  · have hcut : u <+: opening :=
      List.prefix_of_prefix_length_le (List.prefix_append u s) h (by omega)
    exact absurd (hcut.subset hu) (by decide)
  · have hcut : opening <+: u := List.prefix_of_prefix_length_le h (List.prefix_append u s) hge
    exact hq (hcut.subset (by decide))

theorem quote_not_mem_hostCall (scope : Scope) (r : Text) (hr : '"' ∉ r) :
    '"' ∉ hostCall (resolve scope r).path := by
  have hp := count_resolved_path '"' quote_foreign scope r
  rw [List.count_eq_zero.mpr hr, List.count_eq_zero] at hp
  rw [hostCall_chars]
  simp [hp]

/-- The closing parenthesis of a resolved call keeps an opening from beginning
in it and ending behind it. -/
theorem tokens_append (u s : Text) (hq : '"' ∉ u) :
    tokens (u ++ ')' :: s) = (u ++ [')']).map .plain ++ tokens s := by
  induction u with
  | nil =>
    have h : ¬ opening <+: [')'] ++ s := opening_not_prefix [')'] s (by decide) (by decide)
    exact tokens_cons_plain ')' s h
  | cons c u ih =>
    have hc : '"' ∉ c :: u ++ [')'] := by simpa using hq
    have h : ¬ opening <+: c :: (u ++ ')' :: s) := by
      simpa using opening_not_prefix (c :: u ++ [')']) s (by simp) hc
    rw [List.cons_append, tokens_cons_plain c _ h, ih (fun hm => hq (List.mem_cons_of_mem c hm))]
    rfl

theorem tokens_hostCall (scope : Scope) (r s : Text) (hr : '"' ∉ r) :
    tokens (hostCall (resolve scope r).path ++ s) =
      (hostCall (resolve scope r).path).map .plain ++ tokens s := by
  have hq := quote_not_mem_hostCall scope r hr
  obtain ⟨u, hu⟩ : ∃ u, hostCall (resolve scope r).path = u ++ [')'] :=
    ⟨['r', 'e', 'q', 'u', 'i', 'r', 'e', '(', '\''] ++ (resolve scope r).path ++ ['\''],
      by simp [hostCall_chars]⟩
  rw [hu] at hq ⊢
  rw [List.append_assoc]
  exact tokens_append u s fun hm => hq (List.mem_append_left _ hm)

theorem tokens_passed (passed s : Text) (hq : '"' ∉ passed) (hs : s.head? ≠ some ')') :
    tokens (opening ++ passed ++ '"' :: s) =
      (opening ++ passed ++ ['"']).map .plain ++ tokens s := by
  have hlit : Text.after? opening (opening ++ passed ++ '"' :: s) = some (passed ++ '"' :: s) :=
    (Text.after?_eq_some_iff _ _ _).mpr (List.append_assoc _ _ _)
  have hcut : Text.cutAt? '"' (passed ++ '"' :: s) = some (passed, s) :=
    (Text.cutAt?_eq_some_iff _ _ _ _).mpr ⟨rfl, hq⟩
  rw [tokens]
  split
  · next h => exact absurd (h.symm.trans hlit) (by simp)
  · next literal h =>
    rw [hlit, Option.some.injEq] at h
    subst h
    split
    · next h => exact absurd (h.symm.trans hcut) (by simp)
    · next reference rest h =>
      rw [hcut, Option.some.injEq, Prod.mk.injEq] at h
      simp [h.2] at hs
    · next a b _ h =>
      rw [hcut, Option.some.injEq, Prod.mk.injEq] at h
      rw [← h.1, ← h.2]

theorem tokens_nil : tokens [] = [] := by
  rw [tokens]
  rfl

theorem tokens_unclosed (s literal : Text) (hlit : Text.after? opening s = some literal)
    (hcut : Text.cutAt? '"' literal = none) : tokens s = s.map .plain := by
  rw [tokens]
  split
  · next h => exact absurd (h.symm.trans hlit) (by simp)
  · next l h =>
    rw [hlit, Option.some.injEq] at h
    subst h
    rw [hcut]

theorem rewritten_plain (scope : Scope) (s : Text) : rewritten scope (s.map .plain) = s := by
  induction s with
  | nil => rfl
  | cons c s ih =>
    rw [rewritten] at ih
    rw [rewritten, List.map_cons, List.flatMap_cons, ih]
    rfl

theorem rewritten_append (scope : Scope) (a b : List Token) :
    rewritten scope (a ++ b) = rewritten scope a ++ rewritten scope b := List.flatMap_append

theorem rewritten_cons (scope : Scope) (t : Token) (ts : List Token) :
    rewritten scope (t :: ts) = resolveToken scope t ++ rewritten scope ts := List.flatMap_cons

/-- The scanner finds its way back behind every rewritten call, and behind
everything that it passes over. -/
theorem tokens_rewritten (scope : Scope) (s : Text) :
    tokens (rewritten scope (tokens s)) = (rewritten scope (tokens s)).map .plain := by
  fun_induction tokens s with
  | case1 => exact tokens_nil
  | case2 c rest hnone ih =>
    -- no opening begins here: its tail would have begun the text behind `c`, too
    have hstart : ¬ opening <+: c :: rewritten scope (tokens rest) := by
      intro h
      rw [opening_chars] at h
      obtain ⟨hc, htail⟩ := List.cons_prefix_cons.mp h
      have hsuf : ['e', 'q', 'u', 'i', 'r', 'e', '(', '"'] <:+ opening := by
        rw [opening_chars]
        exact List.suffix_cons 'r' _
      have hback := tail_of_rewritten scope (tokens rest) _ hsuf htail
      rw [flatMap_text_tokens] at hback
      apply (Text.after?_eq_none_iff opening (c :: rest)).mp hnone
      rw [opening_chars]
      exact List.cons_prefix_cons.mpr ⟨hc, hback⟩
    rw [rewritten_cons, resolveToken, List.singleton_append, tokens_cons_plain c _ hstart, ih,
      List.map_cons]
  | case3 s literal hlit hcut =>
    rw [rewritten_plain]
    exact tokens_unclosed s literal hlit hcut
  | case4 s literal hlit reference rest hcut ih =>
    have hq := ((Text.cutAt?_eq_some_iff _ _ _ _).mp hcut).2
    rw [rewritten_cons, resolveToken, tokens_hostCall scope reference _ hq, ih, List.map_append]
  | case5 s literal hlit passed rest hpar hcut ih =>
    -- a literal that no parenthesis closes still has none behind it
    have hq := ((Text.cutAt?_eq_some_iff _ _ _ _).mp hcut).2
    have hhead : (rewritten scope (tokens rest)).head? ≠ some ')' := by
      rw [head_rewritten, flatMap_text_tokens]
      cases rest with
      | nil => simp
      | cons c rest => simpa using fun hc => hpar rest (by rw [hc])
    rw [rewritten_append, rewritten_plain, List.append_assoc, List.singleton_append,
      tokens_passed passed _ hq hhead, ih]
    simp

theorem locate_plain (n : Nat) (s : Text) : locate n (s.map .plain) = [] := by
  induction s generalizing n with
  | nil => rfl
  | cons c s ih => exact ih (n+1)

/-- Resolving keeps every segment and resolves every call, and there is
nothing left to resolve in what it gives, in whatever scope it is read. -/
theorem resolveAll_exact_and_stable (scope : Scope) (s : Text) :
    let segs := segments s 0 (calls s)
    let out := resolveAll scope s
    segs.length = (calls s).length+1 ∧
    s = interleave segs ((calls s).map fun c => emitted c.reference) ∧
    out.text = interleave segs
      ((calls s).map fun c => hostCall (resolve scope c.reference).path) ∧
    out.violations = (calls s).filterMap (fun c => (resolve scope c.reference).violation) ∧
    out.text.count '\n' = s.count '\n' ∧
    ∀ other : Scope, resolveAll other out.text = ⟨out.text, []⟩ := by
  intro segs out
  have hout : out.text = rewritten scope (tokens s) := rfl
  refine ⟨segments_length s 0 (calls s), ?_, ?_, rfl, ?_, ?_⟩
  · rw [interleave_calls emitted, woven_emitted, flatMap_text_tokens]
  · rw [interleave_calls (fun r => hostCall (resolve scope r).path), woven_hostCall, hout,
      rewritten]
  · rw [hout, count_rewritten, flatMap_text_tokens]
  · intro other
    have ht := tokens_rewritten scope s
    rw [← hout] at ht
    have htext : (resolveAll other out.text).text = out.text := by
      change rewritten other (tokens out.text) = out.text
      rw [ht, rewritten_plain]
    have hnone : (resolveAll other out.text).violations = [] := by
      change (calls out.text).filterMap _ = []
      rw [calls, ht, locate_plain, List.filterMap_nil]
    cases h : resolveAll other out.text
    rw [h] at htext hnone
    rw [ResolvedText.mk.injEq]
    exact ⟨htext, hnone⟩

end ModBuild.Require
