import ModBuild.Proofs.Require.Resolving
import ModBuild.Proofs.Require.Rewriting

/-!
# Resolved calls as the host reads them

The host reads a literal up to the first quote of its kind that no backslash
escapes. A resolved call puts single quotes where double ones stood and leaves
the reference between them as it is, but for dots and scopes. So the host reads
the resolved path exactly where the reference could have stood between single
quotes from the start.
-/

set_option autoImplicit false

namespace ModBuild.Require

/-- Whether a text escapes the character behind it: it ends with a backslash
that is not escaped itself. -/
def escapes (s : Text) : Bool := s.foldl (fun escaped c => !escaped && c == '\\') false

/-- A literal as it is read behind its opening quote: what stands in front of the
first quote that is not escaped, and what follows that quote. -/
def literal? (quote : Char) : Text → Option (Text × Text)
  | [] => none
  | '\\' :: c :: s => (literal? quote s).map fun (a, b) => ('\\' :: c :: a, b)
  | c :: s => if c = quote then some ([], s) else (literal? quote s).map fun (a, b) => (c :: a, b)

/-- The text can stand between two quotes: every such quote in it is escaped, and
it does not escape the one behind it. -/
structure Quotable (quote : Char) (r : Text) : Prop where
  inside : ∀ a b, r = a ++ quote :: b → escapes a = true
  behind : escapes r = false

theorem escapes_cons {c : Char} (hc : c ≠ '\\') (s : Text) : escapes (c :: s) = escapes s := by
  rw [escapes, List.foldl_cons, beq_false_of_ne hc]
  rfl

theorem quotable_nil (quote : Char) : Quotable quote [] := ⟨fun a b h => by simp at h, rfl⟩

theorem not_quotable_quote (quote : Char) (r : Text) : ¬ Quotable quote (quote :: r) :=
  fun h => absurd (h.inside [] r rfl) (by decide)

theorem quotable_cons {quote c : Char} (hc : c ≠ '\\') (hne : c ≠ quote) (r : Text) :
    Quotable quote (c :: r) ↔ Quotable quote r := by
  constructor
  · intro ⟨hinside, hbehind⟩
    refine ⟨fun a b h => ?_, by rwa [escapes_cons hc] at hbehind⟩
    subst h
    have hescapes := hinside (c :: a) b rfl
    rwa [escapes_cons hc] at hescapes
  · intro ⟨hinside, hbehind⟩
    refine ⟨fun a b h => ?_, by rwa [escapes_cons hc]⟩
    cases a with
    | nil => exact absurd (List.cons.inj h).1 hne
    | cons x a =>
      obtain ⟨rfl, htail⟩ := List.cons.inj h
      rw [escapes_cons hc]
      exact hinside a b htail

section

variable {quote : Char} (hquote : quote ≠ '\\')
include hquote

theorem quotable_escape (c : Char) (r : Text) :
    Quotable quote ('\\' :: c :: r) ↔ Quotable quote r := by
  constructor
  · intro ⟨hinside, hbehind⟩
    refine ⟨fun a b h => ?_, hbehind⟩
    subst h
    exact hinside ('\\' :: c :: a) b rfl
  · intro ⟨hinside, hbehind⟩
    refine ⟨fun a b h => ?_, hbehind⟩
    rcases a with _ | ⟨x, _ | ⟨y, a⟩⟩
    · exact absurd (List.cons.inj h).1.symm hquote
    · rw [← (List.cons.inj h).1]
      rfl
    · simp only [List.cons_append, List.cons.injEq] at h
      obtain ⟨rfl, rfl, h⟩ := h
      exact hinside a b h

/-- What is read of a literal is the text in front of the first quote that can
stand between two of them. -/
theorem literal?_eq_some_iff (s a b : Text) :
    literal? quote s = some (a, b) ↔ s = a ++ quote :: b ∧ Quotable quote a := by
  fun_induction literal? quote s generalizing a b with
  | case1 => simp
  | case2 c s ih =>
    simp only [Option.map_eq_some_iff, Prod.exists, Prod.mk.injEq, ih]
    constructor
    · rintro ⟨a, b', ⟨rfl, ha⟩, rfl, rfl⟩
      exact ⟨rfl, (quotable_escape hquote c a).mpr ha⟩
    · rintro ⟨hs, ha⟩
      rcases a with _ | ⟨x, _ | ⟨y, a⟩⟩
      · exact absurd (List.cons.inj hs).1.symm hquote
      · obtain ⟨rfl, -⟩ := List.cons.inj hs
        exact absurd ha.behind (by decide)
      · simp only [List.cons_append, List.cons.injEq] at hs
        obtain ⟨rfl, rfl, hs⟩ := hs
        exact ⟨a, b, ⟨hs, (quotable_escape hquote _ a).mp ha⟩, rfl, rfl⟩
  | case3 s hnot =>
    rw [Option.some.injEq, Prod.mk.injEq]
    constructor
    · rintro ⟨rfl, rfl⟩
      exact ⟨rfl, quotable_nil quote⟩
    · rintro ⟨hs, ha⟩
      cases a with
      | nil => exact ⟨rfl, (List.cons.inj hs).2⟩
      | cons x a =>
        obtain ⟨rfl, -⟩ := List.cons.inj hs
        exact absurd ha (not_quotable_quote _ a)
  | case4 c s hnot hne ih =>
    simp only [Option.map_eq_some_iff, Prod.exists, Prod.mk.injEq, ih]
    have hc (x : Char) (t : Text) (hs : s = x :: t) : c ≠ '\\' := fun hc => hnot x t hc hs
    constructor
    · rintro ⟨a, b', ⟨hs, ha⟩, rfl, rfl⟩
      obtain ⟨x, t, ht⟩ := List.exists_cons_of_ne_nil (by rw [hs]; simp : s ≠ [])
      exact ⟨by rw [hs]; rfl, (quotable_cons (hc x t ht) hne a).mpr ha⟩
    · rintro ⟨hs, ha⟩
      cases a with
      | nil => exact absurd (List.cons.inj hs).1 hne
      | cons x a =>
        obtain ⟨rfl, htail⟩ := List.cons.inj hs
        obtain ⟨x, t, ht⟩ := List.exists_cons_of_ne_nil (by rw [htail]; simp : s ≠ [])
        exact ⟨a, b, ⟨htail, (quotable_cons (hc x t ht) hne a).mp ha⟩, rfl, rfl⟩

end

/-- A text stays as quotable as it was where its characters change and neither
backslashes nor quotes do. -/
theorem quotable_map {quote : Char} {f : Char → Char} (hf : ∀ c, f c = '\\' ↔ c = '\\')
    (hquote : ∀ c, f c = quote ↔ c = quote) (r : Text) :
    Quotable quote (r.map f) ↔ Quotable quote r := by
  have hescapes (a : Text) : escapes (a.map f) = escapes a := by
    have hstep (c : Char) : (f c == '\\') = (c == '\\') := by
      rw [Bool.eq_iff_iff, beq_iff_eq, beq_iff_eq, hf]
    simp only [escapes, List.foldl_map, hstep]
  constructor
  · intro ⟨hinside, hbehind⟩
    refine ⟨fun a b h => ?_, by rwa [hescapes] at hbehind⟩
    rw [← hescapes]
    apply hinside _ (b.map f)
    rw [h, List.map_append, List.map_cons, (hquote quote).mpr rfl]
  · intro ⟨hinside, hbehind⟩
    refine ⟨fun a b h => ?_, by rwa [hescapes]⟩
    obtain ⟨a, t, rfl, rfl, ht⟩ := List.map_eq_append_iff.mp h
    obtain ⟨c, b, rfl, hc, -⟩ := List.map_eq_cons_iff.mp ht
    rw [hescapes]
    exact hinside a b (by rw [(hquote c).mp hc])

theorem quotable_append {quote : Char} {pre : Text} (hplain : '\\' ∉ pre) (hpre : quote ∉ pre)
    (r : Text) : Quotable quote (pre ++ r) ↔ Quotable quote r := by
  induction pre with
  | nil => rfl
  | cons c pre ih =>
    obtain ⟨hc, hplain⟩ := not_or.mp (mt List.mem_cons.mpr hplain)
    obtain ⟨hne, hpre⟩ := not_or.mp (mt List.mem_cons.mpr hpre)
    rw [List.cons_append, quotable_cons (Ne.symm hc) (Ne.symm hne), ih hplain hpre]

theorem backslash_foreign : Foreign '\\' :=
  ⟨by decide, by decide, fun s => by cases s <;> decide⟩

theorem singleQuote_foreign : Foreign '\'' :=
  ⟨by decide, by decide, fun s => by cases s <;> decide⟩

theorem quotable_resolved {quote : Char} (hquote : Foreign quote) (scope : Scope) (r : Text) :
    Quotable quote (resolve scope r).path ↔ Quotable quote r := by
  have hfront {c : Char} (hc : Foreign c) (scopes : List Scope) : c ∉ Scope.segments scopes := by
    intro hmem
    obtain ⟨s, -, hs⟩ := List.mem_flatMap.mp hmem
    rcases List.mem_append.mp hs with hs | hs
    · exact hc.2.2 s hs
    · exact hc.2.1 (List.mem_singleton.mp hs)
  have hslashed {c : Char} (hc : Foreign c) (x : Char) :
      (if x = '.' then '/' else x) = c ↔ x = c := by
    split
    · next hx => exact iff_of_false (Ne.symm hc.2.1) fun h => hc.1 (h.symm.trans hx)
    · rfl
  have hparts := (cutScopes_parts (slashed r)).2.1
  rw [resolve_eq, ← quotable_append (hfront backslash_foreign _) (hfront hquote _), ← hparts,
    slashed, quotable_map (hslashed backslash_foreign) (hslashed hquote)]

theorem tokens_emitted {r : Text} (hr : '"' ∉ r) (s : Text) :
    tokens (emitted r ++ s) = .call r :: tokens s := by
  have hlit : Text.after? opening (emitted r ++ s) = some (r ++ '"' :: ')' :: s) :=
    (Text.after?_eq_some_iff _ _ _).mpr (by simp [emitted])
  have hcut : Text.cutAt? '"' (r ++ '"' :: ')' :: s) = some (r, ')' :: s) :=
    (Text.cutAt?_eq_some_iff _ _ _ _).mpr ⟨rfl, hr⟩
  rw [tokens]
  split
  · next h => exact absurd (h.symm.trans hlit) (by simp)
  · next literal h =>
    rw [hlit, Option.some.injEq] at h
    subst h
    rw [hcut]
    rfl

theorem call_not_mem_plain (r s : Text) : Token.call r ∉ s.map .plain := by
  intro h
  obtain ⟨c, -, hc⟩ := List.mem_map.mp h
  cases hc

theorem tokens_around {s r : Text} {front back : List Token}
    (h : tokens s = front ++ .call r :: back) : '"' ∉ r ∧ ∃ a b, s = a ++ emitted r ++ b ∧
      tokens a = front ∧ tokens b = back := by
  fun_induction tokens s generalizing front with
  | case1 => simp at h
  | case2 c rest hnone ih =>
    cases front with
    | nil => simp at h
    | cons t front =>
      obtain ⟨rfl, hrest⟩ := List.cons.inj h
      obtain ⟨hr, a, b, rfl, rfl, rfl⟩ := ih hrest
      refine ⟨hr, c :: a, b, rfl, tokens_cons_plain c a fun hopen => ?_, rfl⟩
      apply (Text.after?_eq_none_iff opening _).mp hnone
      exact hopen.trans ⟨emitted r ++ b, by simp⟩
  | case3 s literal hlit hcut => exact absurd (h ▸ by simp) (call_not_mem_plain r s)
  | case4 s literal hlit reference rest hcut ih =>
    obtain ⟨hliteral, hreference⟩ := (Text.cutAt?_eq_some_iff _ _ _ _).mp hcut
    have hs : s = emitted reference ++ rest := by
      rw [(Text.after?_eq_some_iff _ _ _).mp hlit, hliteral]
      simp [emitted]
    cases front with
    | nil =>
      obtain ⟨hcall, rfl⟩ := List.cons.inj h
      obtain rfl := Token.call.inj hcall
      exact ⟨hreference, [], rest, hs, tokens_nil, rfl⟩
    | cons t front =>
      obtain ⟨rfl, hrest⟩ := List.cons.inj h
      obtain ⟨hr, a, b, rfl, rfl, rfl⟩ := ih hrest
      exact ⟨hr, emitted reference ++ a, b, by simp [hs], tokens_emitted hreference a, rfl⟩
  | case5 s literal hlit passed rest hpar hcut ih =>
    obtain ⟨hliteral, hpassed⟩ := (Text.cutAt?_eq_some_iff _ _ _ _).mp hcut
    have hs : s = opening ++ passed ++ '"' :: rest := by
      rw [(Text.after?_eq_some_iff _ _ _).mp hlit, hliteral, List.append_assoc]
    -- the call comes behind all that is passed over
    obtain ⟨front, rfl, hrest⟩ : ∃ front',
        front = (opening ++ passed ++ ['"']).map .plain ++ front' ∧
          tokens rest = front' ++ .call r :: back := by
      rcases List.append_eq_append_iff.mp h with ⟨front', hfront, hrest⟩ | ⟨t, ht, hrest⟩
      · exact ⟨front', hfront, hrest⟩
      · cases t with
        | nil => exact ⟨[], by simpa using ht.symm, hrest.symm⟩
        | cons x t =>
          obtain ⟨rfl, -⟩ := List.cons.inj hrest
          exact absurd (ht ▸ by simp) (call_not_mem_plain r (opening ++ passed ++ ['"']))
    obtain ⟨hr, a, b, rfl, rfl, rfl⟩ := ih hrest
    refine ⟨hr, opening ++ passed ++ '"' :: a, b, by simp [hs], ?_, rfl⟩
    refine tokens_passed passed a hpassed fun hhead => ?_
    obtain ⟨a, rfl⟩ := List.head?_eq_some_iff.mp hhead
    exact hpar (a ++ emitted r ++ b) rfl

theorem split_of_mem_locate {n : Nat} {ts : List Token} {c : Call} (h : c ∈ locate n ts) :
    ∃ front back, ts = front ++ .call c.reference :: back ∧
      c.start = n + (front.flatMap Token.text).length ∧
      c.stop = c.start + (emitted c.reference).length := by
  induction ts generalizing n with
  | nil => cases h
  | cons t ts ih =>
    cases t with
    | plain x =>
      obtain ⟨front, back, rfl, hstart, hstop⟩ := ih h
      exact ⟨.plain x :: front, back, rfl, by simp [hstart, Token.text]; omega, hstop⟩
    | call r =>
      rcases List.mem_cons.mp h with rfl | h
      · exact ⟨[], ts, rfl, rfl, rfl⟩
      · obtain ⟨front, back, rfl, hstart, hstop⟩ := ih h
        exact ⟨.call r :: front, back, rfl, by simp [hstart, Token.text]; omega, hstop⟩

/-- A call divides a text: what stands in front of it and what stands behind it
are resolved on their own. -/
theorem resolveAll_around {s : Text} {c : Call} (hc : c ∈ calls s) (scope : Scope) :
    '"' ∉ c.reference ∧ s.drop c.start = emitted c.reference ++ s.drop c.stop ∧
      (resolveAll scope s).text = (resolveAll scope (s.take c.start)).text ++
        hostCall (resolve scope c.reference).path ++ (resolveAll scope (s.drop c.stop)).text := by
  obtain ⟨front, back, hts, hstart, hstop⟩ := split_of_mem_locate hc
  obtain ⟨hr, a, b, rfl, rfl, rfl⟩ := tokens_around hts
  rw [flatMap_text_tokens, Nat.zero_add] at hstart
  have htake : (a ++ emitted c.reference ++ b).take c.start = a := by
    rw [hstart, List.append_assoc, List.take_left]
  have hdrop : (a ++ emitted c.reference ++ b).drop c.stop = b := by
    rw [hstop, hstart, ← List.length_append, List.drop_left]
  refine ⟨hr, ?_, ?_⟩
  · rw [hdrop, hstart, List.append_assoc, List.drop_left]
  · rw [htake, hdrop]
    change rewritten scope (tokens _) = _
    rw [hts, rewritten_append, rewritten_cons, List.append_assoc]
    rfl

theorem hostCall_append (path rest : Text) :
    hostCall path ++ rest = "require('".toList ++ (path ++ '\'' :: ')' :: rest) := by
  have hopen : "require('".toList = ['r', 'e', 'q', 'u', 'i', 'r', 'e', '(', '\''] := rfl
  rw [hostCall_chars, hopen, List.append_assoc, List.append_assoc]
  rfl

/-- A resolved call stands between the resolved text in front of the call and
the resolved text behind it. Read as a literal from its opening quote, it gives
the resolved path and then the closing parenthesis exactly if every single quote
in the reference is escaped and the reference escapes nothing behind it. The
call as it was emitted gives its reference exactly if that escapes nothing
behind it. -/
theorem resolved_call_read_iff {s : Text} {c : Call} (hc : c ∈ calls s) (scope : Scope) :
    let path := (resolve scope c.reference).path
    let back := (resolveAll scope (s.drop c.stop)).text
    (resolveAll scope s).text = (resolveAll scope (s.take c.start)).text ++
      "require('".toList ++ (path ++ '\'' :: ')' :: back) ∧
    (literal? '\'' (path ++ '\'' :: ')' :: back) = some (path, ')' :: back) ↔
      Quotable '\'' c.reference) ∧
    (literal? '"' (s.drop (c.start + opening.length)) = some (c.reference, ')' :: s.drop c.stop) ↔
      escapes c.reference = false) := by
  intro path back
  obtain ⟨hr, hdrop, hout⟩ := resolveAll_around hc scope
  refine ⟨?_, ?_, ?_⟩
  · rw [List.append_assoc, ← hostCall_append, ← List.append_assoc]
    exact hout
  · rw [literal?_eq_some_iff (by decide), quotable_resolved singleQuote_foreign]
    exact and_iff_right rfl
  · have hsource : s.drop (c.start + opening.length) =
        c.reference ++ '"' :: ')' :: s.drop c.stop := by
      rw [← List.drop_drop, hdrop, emitted, List.append_assoc, List.append_assoc, List.drop_left]
      rfl
    rw [literal?_eq_some_iff (by decide), hsource, and_iff_right rfl]
    refine ⟨Quotable.behind, fun hbehind => ⟨fun a b h => ?_, hbehind⟩⟩
    exact absurd (by simp [h]) hr

theorem calls_emitted {r : Text} (hr : '"' ∉ r) :
    calls (emitted r) = [⟨0, (emitted r).length, r⟩] := by
  have htokens := tokens_emitted hr []
  rw [List.append_nil, tokens_nil] at htokens
  rw [calls, htokens, locate, locate, Nat.zero_add]

/-! Modules that are one call, whose reference has a single quote in it: first an
escaped one, and then one that is not. -/

def sampleEscaped : Text := "it\\'s".toList

def sampleBare : Text := "it's".toList

def sampleCall (r : Text) : Call := ⟨0, (emitted r).length, r⟩

theorem mem_calls_sample {r : Text} (hr : '"' ∉ r) : sampleCall r ∈ calls (emitted r) := by
  rw [calls_emitted hr]
  exact List.mem_singleton_self _

theorem resolve_sample {r : Text} (hdot : '.' ∉ r) (hcut : cutScope? r = none) :
    resolve .client r = ⟨r, none⟩ :=
  resolve_resolved hdot ((cutScope?_eq_none_iff r).mp hcut) .client

theorem sample_escaped_read : sampleCall sampleEscaped ∈ calls (emitted sampleEscaped) ∧
    (resolveAll .client (emitted sampleEscaped)).text = "require('it\\'s')".toList ∧
    literal? '\'' "it\\'s')".toList = some (sampleEscaped, [')']) := by
  have hcall := mem_calls_sample (r := sampleEscaped) (by decide)
  have hquotable : Quotable '\'' sampleEscaped :=
    ((literal?_eq_some_iff (by decide) (sampleEscaped ++ ['\'']) _ []).mp (by decide)).2
  have h := resolved_call_read_iff hcall .client
  have hpath := resolve_sample (r := sampleEscaped) (by decide) (by decide)
  have hnil : (resolveAll .client []).text = [] := congrArg (rewritten .client) tokens_nil
  simp only [sampleCall, hpath, List.take_zero, List.drop_length, hnil] at h
  exact ⟨hcall, h.1, h.2.1.mpr hquotable⟩

theorem sample_bare_cut : ¬ ∀ (scope : Scope) (s : Text) (c : Call), c ∈ calls s →
    let path := (resolve scope c.reference).path
    let back := (resolveAll scope (s.drop c.stop)).text
    literal? '\'' (path ++ '\'' :: ')' :: back) = some (path, ')' :: back) := by
  intro h
  have hread := h .client _ _ (mem_calls_sample (r := sampleBare) (by decide))
  rw [sampleCall, resolve_sample (r := sampleBare) (by decide) (by decide)] at hread
  have hquotable := ((literal?_eq_some_iff (by decide) _ _ _).mp hread).2
  exact absurd (hquotable.inside "it".toList "s".toList (by decide)) (by decide)

end ModBuild.Require
