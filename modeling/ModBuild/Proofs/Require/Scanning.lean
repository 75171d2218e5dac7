import ModBuild.Proofs.Require.Rewriting
import ModBuild.Proofs.Text.Lines

/-!
# Which calls are found

A search from the left finds every call but those that an earlier opening has
swallowed: an opening takes the next quote for the end of its literal, and that
may be the quote of another opening. Openings that are chained so are taken in
turn, one to read and one to pass over, so a call is found if and only if the
number of openings chained in front of it is even.
-/

set_option autoImplicit false

namespace ModBuild.Require

variable {s : Text}

def Opens (s : Text) (p : Nat) : Prop := opening <+: s.drop p

/-- The literal of a call that begins at the offset `p` ends at `e`, where the
first quote behind the opening stands. -/
def Ends (s : Text) (p e : Nat) : Prop :=
  p+9 ≤ e ∧ s[e]? = some '"' ∧ ∀ j, p+9 ≤ j → j < e → s[j]? ≠ some '"'

def CallAt (s : Text) (p : Nat) (r : Text) : Prop := emitted r <+: s.drop p ∧ '"' ∉ r

/-- The opening at `q` ends its literal with the quote of the opening at `p`. -/
def Swallows (s : Text) (q p : Nat) : Prop := Opens s q ∧ Ends s q (p+8)

/-- The opening at the offset has a number of others in front of it, each of
which swallows the next one. -/
inductive Chained (s : Text) : Nat → Nat → Prop
  | first {p : Nat} (here : Opens s p) (free : ∀ q, ¬ Swallows s q p) : Chained s 0 p
  | next {k q p : Nat} (before : Chained s k q) (here : Opens s p) (swallows : Swallows s q p) :
      Chained s (k+1) p

theorem opening_quote_iff : ∀ i < 9, (opening[i]? = some '"' ↔ i = 8) := by decide

theorem Opens.getElem? {p : Nat} (h : Opens s p) (i : Nat) (hi : i < 9) :
    s[p+i]? = opening[i]? := by
  obtain ⟨rest, hrest⟩ := h
  rw [← List.getElem?_drop, ← hrest]
  exact List.getElem?_append_left hi

theorem Opens.quote_iff {p : Nat} (h : Opens s p) (i : Nat) (hi : i < 9) :
    s[p+i]? = some '"' ↔ i = 8 := by
  rw [h.getElem? i hi]
  exact opening_quote_iff i hi

theorem CallAt.opens {p : Nat} {r : Text} (h : CallAt s p r) : Opens s p := by
  have hpre : opening <+: emitted r := by
    rw [emitted, List.append_assoc]
    exact List.prefix_append _ _
  exact hpre.trans h.1

theorem not_opens_of_paren {p : Nat} (h : s[p]? = some ')') : ¬ Opens s p := by
  intro hopens
  have hletter := hopens.getElem? 0 (by omega)
  rw [Nat.add_zero, h] at hletter
  exact absurd hletter (by decide)

theorem Opens.apart {p q : Nat} (hp : Opens s p) (hq : Opens s q) (h : p < q) : p+9 ≤ q := by
  by_contra hlt
  have hquote : s[p+8]? = some '"' := (hp.quote_iff 8 (by omega)).2 rfl
  have hoff : p+8 = q+(p+8-q) := by omega
  rw [hoff, hq.quote_iff (p+8-q) (by omega)] at hquote
  omega

theorem Ends.unique {p e e' : Nat} (h : Ends s p e) (h' : Ends s p e') : e = e' := by
  rcases Nat.lt_trichotomy e e' with hlt | heq | hgt
  · exact absurd h.2.1 (h'.2.2 e h.1 hlt)
  · exact heq
  · exact absurd h'.2.1 (h.2.2 e' h'.1 hgt)

theorem Opens.swallowed {n e p : Nat} (hn : Opens s n) (he : Ends s n e) (hp : Opens s p)
    (hlt : n < p) (hle : p ≤ e) : Swallows s n p := by
  have hapart := hn.apart hp hlt
  have hquote : s[p+8]? = some '"' := (hp.quote_iff 8 (by omega)).2 rfl
  have hlast : e = p+8 := by
    by_contra hne
    by_cases hin : p+8 < e
    · exact he.2.2 (p+8) (by omega) hin hquote
    · have hoff : e = p+(e-p) := by omega
      have hmid := he.2.1
      rw [hoff, hp.quote_iff (e-p) (by omega)] at hmid
      omega
  exact ⟨hn, hlast ▸ he⟩

theorem Swallows.lt {q p : Nat} (h : Swallows s q p) : q < p := by
  have hend := h.2.1
  omega

theorem Swallows.unique {q q' p : Nat} (h : Swallows s q p) (h' : Swallows s q' p) :
    q = q' := by
  -- the later one of two would have a quote within the literal of the earlier one
  have hnone (a b : Nat) (ha : Swallows s a p) (hb : Swallows s b p) : ¬ a < b := by
    intro hlt
    have hapart := ha.1.apart hb.1 hlt
    have hquote : s[b+8]? = some '"' := (hb.1.quote_iff 8 (by omega)).2 rfl
    have hin := hb.lt
    exact ha.2.2.2 (b+8) (by omega) (by omega) hquote
  have h₁ := hnone q q' h h'
  have h₂ := hnone q' q h' h
  omega

theorem Chained.unique {k l p : Nat} (h : Chained s k p) (h' : Chained s l p) : k = l := by
  induction h generalizing l with
  | first here free =>
    cases h' with
    | first => rfl
    | next before here swallows => exact absurd swallows (free _)
  | next before here swallows ih =>
    cases h' with
    | first here free => exact absurd swallows (free _)
    | next before' here' swallows' =>
      have hq := swallows.unique swallows'
      subst hq
      rw [ih before']

def Past (s : Text) (n : Nat) : Prop :=
  ∀ q p, q < n → n ≤ p → Opens s p → Swallows s q p → ∃ k, Chained s (2*k+1) q

theorem Past.head {n : Nat} (h : Past s n) (hn : Opens s n) : ∃ k, Chained s (2*k) n := by
  by_cases hfree : ∃ q, Swallows s q n
  · obtain ⟨q, hq⟩ := hfree
    obtain ⟨k, hk⟩ := h q n hq.lt (Nat.le_refl n) hn hq
    exact ⟨k+1, .next hk hn hq⟩
  · exact ⟨0, .first hn fun q hq => hfree ⟨q, hq⟩⟩

theorem Past.inside {n e p : Nat} (h : Past s n) (hn : Opens s n) (he : Ends s n e)
    (hp : Opens s p) (hlt : n < p) (hle : p ≤ e) : ∃ k, Chained s (2*k+1) p := by
  obtain ⟨k, hk⟩ := h.head hn
  exact ⟨k, .next hk hp (hn.swallowed he hp hlt hle)⟩

theorem Past.swallowed {n e p : Nat} (h : Past s n) (hn : Opens s n) (he : Ends s n e)
    (hp : Opens s p) (hlt : n < p) (hle : p ≤ e) : ¬ ∃ k, Chained s (2*k) p := by
  rintro ⟨k, hk⟩
  obtain ⟨l, hl⟩ := h.inside hn he hp hlt hle
  have hparity := hk.unique hl
  omega

theorem Past.plain {n : Nat} (h : Past s n) (hn : ¬ Opens s n) : Past s (n+1) := by
  intro q p hq hp hopen hswallows
  by_cases hqn : q = n
  · subst hqn
    exact absurd hswallows.1 hn
  · exact h q p (by omega) (by omega) hopen hswallows

theorem Past.literal {n e : Nat} (h : Past s n) (hn : Opens s n) (he : Ends s n e) :
    Past s (e+1) := by
  intro q p hq hp hopen hswallows
  rcases Nat.lt_trichotomy q n with hlt | heq | hgt
  · have hend := he.1
    exact h q p hlt (by omega) hopen hswallows
  · subst heq
    have hlast := he.unique hswallows.2
    omega
  · exact h.inside hn he hswallows.1 hgt (by omega)

theorem drop_append_of_drop {n : Nat} {u v : Text} (h : s.drop n = u ++ v) :
    s.drop (n+u.length) = v := by
  rw [← List.drop_drop, h, List.drop_left]

theorem getElem?_of_drop {n : Nat} {u v : Text} (h : s.drop n = u ++ v) (i : Nat) :
    s[n+u.length+i]? = v[i]? := by
  rw [← List.getElem?_drop, drop_append_of_drop h]

theorem ends_of_drop {n : Nat} {passed rest : Text}
    (h : s.drop n = opening ++ passed ++ '"' :: rest) (hq : '"' ∉ passed) :
    Ends s n (n+9+passed.length) := by
  have hlen : opening.length = 9 := rfl
  refine ⟨by omega, ?_, ?_⟩
  · have hget := getElem?_of_drop h 0
    rw [List.length_append, hlen] at hget
    simpa [Nat.add_assoc] using hget
  · intro j hlow hhigh hquote
    rw [List.append_assoc] at h
    have hget := getElem?_of_drop h (j-(n+9))
    rw [hlen, show n+9+(j-(n+9)) = j by omega, hquote,
      List.getElem?_append_left (by omega)] at hget
    exact hq (List.mem_of_getElem? hget.symm)

theorem emitted_append (r rest : Text) :
    emitted r ++ rest = opening ++ r ++ '"' :: ')' :: rest := by
  simp [emitted]

theorem CallAt.parts {p : Nat} {r : Text} (h : CallAt s p r) :
    ∃ rest, s.drop p = opening ++ r ++ '"' :: ')' :: rest := by
  obtain ⟨rest, hrest⟩ := h.1
  exact ⟨rest, by rw [← hrest, emitted_append]⟩

theorem CallAt.ends {p : Nat} {r : Text} (h : CallAt s p r) : Ends s p (p+9+r.length) := by
  obtain ⟨rest, hrest⟩ := h.parts
  exact ends_of_drop hrest h.2

theorem CallAt.reference_eq {p : Nat} {r r' : Text} (h : CallAt s p r) (h' : CallAt s p r') :
    r = r' := by
  obtain ⟨rest, hrest⟩ := h.parts
  obtain ⟨rest', hrest'⟩ := h'.parts
  rw [hrest, List.append_assoc, List.append_assoc] at hrest'
  exact ((Text.append_cons_inj h.2 h'.2).1 (List.append_cancel_left hrest')).1

theorem length_emitted (r : Text) : (emitted r).length = 9+r.length+2 := by
  rw [emitted, List.length_append, List.length_append]
  rfl

theorem length_literal (passed : Text) :
    (opening ++ passed ++ ['"']).length = 9 + passed.length + 1 := by
  rw [List.length_append, List.length_append]
  rfl

theorem drop_literal {t literal passed rest : Text} {n : Nat} (ht : s.drop n = t)
    (hlit : Text.after? opening t = some literal)
    (hcut : Text.cutAt? '"' literal = some (passed, rest)) :
    s.drop n = opening ++ passed ++ '"' :: rest ∧ '"' ∉ passed := by
  obtain ⟨hliteral, hq⟩ := (Text.cutAt?_eq_some_iff _ _ _ _).1 hcut
  rw [ht, (Text.after?_eq_some_iff _ _ _).1 hlit, hliteral, List.append_assoc]
  exact ⟨rfl, hq⟩

theorem opens_of_after? {t literal : Text} {n : Nat} (ht : s.drop n = t)
    (hlit : Text.after? opening t = some literal) : Opens s n :=
  ⟨literal, by rw [ht, (Text.after?_eq_some_iff _ _ _).1 hlit]⟩

theorem locate_plain_append (n : Nat) (u : Text) (ts : List Token) :
    locate n (u.map .plain ++ ts) = locate (n+u.length) ts := by
  induction u generalizing n with
  | nil => rfl
  | cons c u ih =>
    rw [List.map_cons, List.cons_append, locate, ih]
    simp [Nat.add_comm, Nat.add_left_comm]

theorem quote_not_mem_of_cutAt? {t : Text} (h : Text.cutAt? '"' t = none) : '"' ∉ t := by
  intro hmem
  obtain ⟨a, b, hab, ha⟩ := List.eq_append_cons_of_mem hmem
  have hsome := (Text.cutAt?_eq_some_iff '"' t a b).2 ⟨hab, ha⟩
  rw [h] at hsome
  cases hsome

theorem locate_sound (t : Text) (n : Nat) (ht : s.drop n = t) :
    (locate n (tokens t)).Pairwise (fun a b => a.stop ≤ b.start) ∧
    ∀ c ∈ locate n (tokens t), n ≤ c.start ∧ c.stop = c.start+(emitted c.reference).length ∧
      CallAt s c.start c.reference := by
  fun_induction tokens t generalizing n with
  | case1 => simp [locate]
  | case2 c rest _ ih =>
    have hrest : s.drop (n+1) = rest := drop_append_of_drop (u := [c]) ht
    obtain ⟨hsorted, hcalls⟩ := ih (n+1) hrest
    rw [locate]
    refine ⟨hsorted, fun d hd => ?_⟩
    obtain ⟨hle, hrestd⟩ := hcalls d hd
    exact ⟨by omega, hrestd⟩
  | case3 t _ _ _ => simp [locate_plain]
  | case4 t literal hlit reference rest hcut ih =>
    obtain ⟨hdrop, hq⟩ := drop_literal ht hlit hcut
    have hcall : s.drop n = emitted reference ++ rest := hdrop.trans (emitted_append _ _).symm
    obtain ⟨hsorted, hcalls⟩ := ih _ (drop_append_of_drop hcall)
    rw [locate]
    refine ⟨List.pairwise_cons.2 ⟨fun d hd => (hcalls d hd).1, hsorted⟩, fun d hd => ?_⟩
    rcases List.mem_cons.1 hd with rfl | hd
    · exact ⟨Nat.le_refl n, rfl, ⟨rest, hcall.symm⟩, hq⟩
    · obtain ⟨hle, hrestd⟩ := hcalls d hd
      exact ⟨by omega, hrestd⟩
  | case5 t literal hlit passed rest _ hcut ih =>
    have hpassed : s.drop n = opening ++ passed ++ ['"'] ++ rest := by
      rw [(drop_literal ht hlit hcut).1, List.append_assoc _ ['"'], List.singleton_append]
    obtain ⟨hsorted, hcalls⟩ := ih _ (drop_append_of_drop hpassed)
    rw [locate_plain_append]
    refine ⟨hsorted, fun d hd => ?_⟩
    obtain ⟨hle, hrestd⟩ := hcalls d hd
    exact ⟨by omega, hrestd⟩

/-- Nothing is found within a literal that is left behind, and what opens there is an odd link
of its chain. -/
theorem Past.within {n e m p : Nat} {rest : Text} (h : Past s n) (hn : Opens s n)
    (he : Ends s n e) (hp : Opens s p) (hlt : n < p) (hle : p ≤ e) (hrest : s.drop m = rest)
    (hm : e < m) : (∃ c ∈ locate m (tokens rest), c.start = p) ↔ ∃ k, Chained s (2*k) p := by
  refine iff_of_false ?_ (h.swallowed hn he hp hlt hle)
  rintro ⟨c, hc, rfl⟩
  have hbehind := ((locate_sound rest m hrest).2 c hc).1
  omega

/-- From an offset that has left nothing open behind it, the search finds the calls with an
even number of openings chained in front. -/
theorem locate_complete (t : Text) (n : Nat) (ht : s.drop n = t) (hpast : Past s n) (p : Nat)
    (r : Text) (hp : n ≤ p) (hcall : CallAt s p r) :
    (∃ c ∈ locate n (tokens t), c.start = p) ↔ ∃ k, Chained s (2*k) p := by
  fun_induction tokens t generalizing n with
  | case1 =>
    have hlen : s.length ≤ n := List.drop_eq_nil_iff.1 ht
    have hnil : s.drop p = [] := List.drop_eq_nil_iff.2 (by omega)
    have hopens := hcall.opens
    rw [Opens, hnil, List.prefix_nil] at hopens
    exact absurd hopens (by decide)
  | case2 c rest hnone ih =>
    have hclosed : ¬ Opens s n := by
      rw [Opens, ht]
      exact (Text.after?_eq_none_iff _ _).1 hnone
    by_cases hpn : p = n
    · subst hpn
      exact absurd hcall.opens hclosed
    · have hrest : s.drop (n+1) = rest := drop_append_of_drop (u := [c]) ht
      exact ih (n+1) hrest (hpast.plain hclosed) (by omega)
  | case3 t literal hlit hcut =>
    -- no quote is left behind the opening, so no call is
    have hopening := (Text.after?_eq_some_iff _ _ _).1 hlit
    have hend := hcall.ends
    have hget := getElem?_of_drop (ht.trans hopening) (p+r.length-n)
    rw [show n+opening.length+(p+r.length-n) = p+9+r.length from by
      rw [show opening.length = 9 from rfl]; omega, hend.2.1] at hget
    exact absurd (List.mem_of_getElem? hget.symm) (quote_not_mem_of_cutAt? hcut)
  | case4 t literal hlit reference rest hcut ih =>
    obtain ⟨hdrop, hq⟩ := drop_literal ht hlit hcut
    have hn : Opens s n := opens_of_after? ht hlit
    have hend := ends_of_drop hdrop hq
    have hstop : s.drop (n+(emitted reference).length) = rest :=
      drop_append_of_drop (hdrop.trans (emitted_append _ _).symm)
    have hparen : s[n+9+reference.length+1]? = some ')' := by
      have hget := getElem?_of_drop hdrop 1
      rw [List.length_append, show opening.length = 9 from rfl, ← Nat.add_assoc] at hget
      exact hget
    have hclosed := not_opens_of_paren hparen
    have hlen : n+(emitted reference).length = n+9+reference.length+1+1 := by
      rw [length_emitted]
      omega
    have hpast' : Past s (n+(emitted reference).length) := by
      rw [hlen]
      exact (hpast.literal hn hend).plain hclosed
    rw [locate]
    by_cases hpn : p = n
    · subst hpn
      exact ⟨fun _ => hpast.head hn, fun _ => ⟨_, List.mem_cons_self, rfl⟩⟩
    · simp only [List.exists_mem_cons_iff, Ne.symm hpn, false_or]
      by_cases hin : p ≤ n+9+reference.length
      · exact hpast.within hn hend hcall.opens (by omega) hin hstop (by omega)
      · have hne : p ≠ n+9+reference.length+1 := by
          rintro rfl
          exact hclosed hcall.opens
        exact ih _ hstop hpast' (by omega)
  | case5 t literal hlit passed rest hpar hcut ih =>
    obtain ⟨hdrop, hq⟩ := drop_literal ht hlit hcut
    have hn : Opens s n := opens_of_after? ht hlit
    have hend := ends_of_drop hdrop hq
    have hstop : s.drop (n+9+passed.length+1) = rest := by
      have hpassed : s.drop n = opening ++ passed ++ ['"'] ++ rest := by
        rw [hdrop, List.append_assoc _ ['"'], List.singleton_append]
      have hrest := drop_append_of_drop hpassed
      rwa [length_literal, show n+(9+passed.length+1) = n+9+passed.length+1 by omega] at hrest
    rw [locate_plain_append, length_literal,
      show n+(9+passed.length+1) = n+9+passed.length+1 by omega]
    by_cases hpn : p = n
    · -- the parenthesis of the call would stand behind the quote
      subst hpn
      obtain ⟨behind, hbehind⟩ := hcall.parts
      rw [hdrop, List.append_assoc, List.append_assoc] at hbehind
      have hsame := List.append_cancel_left hbehind
      exact absurd ((Text.append_cons_inj hq hcall.2).1 hsame).2 (hpar behind)
    · by_cases hin : p ≤ n+9+passed.length
      · exact hpast.within hn hend hcall.opens (by omega) hin hstop (by omega)
      · exact ih _ hstop (hpast.literal hn hend) (by omega)

/-- The calls that are found follow one another within the text, and each of them is the
text between its offsets. Every call of the text is found, unless an earlier opening swallows
it, and those that are swallowed are found, too, where the chain in front of them is even. -/
theorem calls_sound_and_complete (s : Text) :
    (calls s).Pairwise (fun a b => a.stop ≤ b.start) ∧
    (∀ c ∈ calls s, c.start < c.stop ∧ c.stop ≤ s.length ∧
      (s.take c.stop).drop c.start = emitted c.reference ∧ '"' ∉ c.reference) ∧
    (∀ p r, CallAt s p r → (∀ q < p, ¬ Swallows s q p) →
      (⟨p, p+(emitted r).length, r⟩ : Call) ∈ calls s) ∧
    (∀ p r, CallAt s p r →
      ((⟨p, p+(emitted r).length, r⟩ : Call) ∈ calls s ↔ ∃ k, Chained s (2*k) p)) := by
  obtain ⟨hsorted, hsound⟩ := locate_sound s 0 rfl
  have hpast : Past s 0 := fun q p hq => absurd hq (Nat.not_lt_zero q)
  have hfound (p : Nat) (r : Text) (h : CallAt s p r) :
      (⟨p, p+(emitted r).length, r⟩ : Call) ∈ calls s ↔ ∃ k, Chained s (2*k) p := by
    rw [← locate_complete s 0 rfl hpast p r (Nat.zero_le p) h]
    constructor
    · intro hmem
      exact ⟨_, hmem, rfl⟩
    · rintro ⟨⟨start, stop, reference⟩, hc, rfl⟩
      obtain ⟨-, hstop, hcall⟩ := hsound _ hc
      have hreference : reference = r := hcall.reference_eq h
      subst hreference
      have hstop' : stop = start+(emitted reference).length := hstop
      subst hstop'
      exact hc
  refine ⟨hsorted, fun c hc => ?_, fun p r h hfree => ?_, hfound⟩
  · obtain ⟨-, hstop, ⟨rest, hrest⟩, hquote⟩ := hsound c hc
    have hlen := length_emitted c.reference
    have hwithin := congrArg List.length hrest
    rw [List.length_append, List.length_drop] at hwithin
    refine ⟨by omega, by omega, ?_, hquote⟩
    rw [List.drop_take, ← hrest, hstop, Nat.add_sub_cancel_left, List.take_left]
  · exact (hfound p r h).2 ⟨0, .first h.opens fun q hq => hfree q hq.lt hq⟩

/-- Of three openings in a chain the second one is swallowed, and the third one is found. -/
example : calls "require(\"require(\"require(\"a\")".toList = [⟨18, 30, ['a']⟩] := by
  decide +kernel

end ModBuild.Require
