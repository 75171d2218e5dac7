import ModBuild.Declaration.Merge
import ModBuild.Proofs.Text.Rows
import ModBuild.Proofs.Text.Spans

/-!
# Banners are comments, if the owner fits on a row

A template is cut into lines, each of which becomes a comment, and only then
the owner is put into them. So what a banner adds is comments row by row
exactly if no line of a template breaks into rows that are none. An owner that
is written on one row never breaks a line; one that is not keeps every template
a comment only if it brings the comment marks for its later rows along.
-/

set_option autoImplicit false

namespace ModBuild.Banner

open Text (Unbroken join lines rows)

def heading (template : Option Text) (tokens : Tokens) : Text :=
  let header := render template tokens luaMark
  if header = [] then [] else join ['\n'] header ++ "\n\n".toList

def closing (template : Option Text) (tokens : Tokens) : Text :=
  let footer := render template tokens luaMark
  if footer = [] then [] else '\n' :: join ['\n'] footer

def signature (template : Option Text) (tokens : Tokens) : Text :=
  (render template tokens typeScriptMark).flatMap (· ++ ['\n'])

def Silent (row : Text) : Prop := row = [] ∨ luaMark <+: row

instance (row : Text) : Decidable (Silent row) :=
  inferInstanceAs (Decidable (row = [] ∨ luaMark <+: row))

theorem luaMark_unbroken : Unbroken luaMark := by decide

theorem typeScriptMark_unbroken : Unbroken typeScriptMark := by decide

theorem around_eq (config : Config) (tokens : Tokens) (s : Text) :
    around config tokens s = heading config.header tokens ++ s ++ closing config.footer tokens := by
  rw [around, heading, closing]
  split <;> split <;> simp

theorem heading_ends (template : Option Text) (tokens : Tokens) :
    heading template tokens = [] ∨ ∃ t, heading template tokens = t ++ ['\n'] := by
  rw [heading]
  split
  · exact .inl rfl
  · exact .inr ⟨join ['\n'] (render template tokens luaMark) ++ ['\n'], by simp⟩

theorem closing_begins (template : Option Text) (tokens : Tokens) :
    closing template tokens = [] ∨ ∃ t, closing template tokens = '\n' :: t := by
  rw [closing]
  split
  · exact .inl rfl
  · exact .inr ⟨_, rfl⟩

theorem comment_eq {mark : Text} (hmark : Unbroken mark) (line : Text) :
    ∃ p, mark <+: p ∧ Unbroken p ∧ comment mark line = p ++ line := by
  rw [comment]
  split
  · next h => exact ⟨mark, List.prefix_refl mark, hmark, by rw [h, List.append_nil]⟩
  · exact ⟨mark ++ [' '], List.prefix_append _ _, by simpa [Unbroken] using hmark, by simp⟩

section

variable {Q : Text → Prop} {mark : Text}

theorem forall_rows_comment (hmark : Unbroken mark) (hQ : ∀ row, mark <+: row → Q row)
    (line : Text) :
    (∀ row ∈ rows (comment mark line), Q row) ↔ ∀ row ∈ (rows line).tail, Q row := by
  obtain ⟨p, hp, hplain, hcomment⟩ := comment_eq hmark line
  obtain ⟨q, qs, hline⟩ := Text.rows_eq_cons line
  rw [hcomment, Text.rows_unbroken_append hplain hline, hline, List.forall_mem_cons, List.tail_cons]
  exact and_iff_right (hQ _ (hp.trans (List.prefix_append p q)))

theorem forall_rows_ended (hmark : Unbroken mark) (hQ : ∀ row, mark <+: row → Q row)
    (line : Text) : (∀ row ∈ (rows (comment mark line ++ ['\n'])).dropLast, Q row) ↔
      ∀ row ∈ (rows (line ++ ['\n'])).dropLast.tail, Q row := by
  obtain ⟨p, hp, hplain, hcomment⟩ := comment_eq hmark line
  obtain ⟨q, qs, hline⟩ := Text.rows_eq_cons (line ++ ['\n'])
  rw [hcomment, List.append_assoc, Text.rows_unbroken_append hplain hline, hline]
  cases qs with
  | nil => simp
  | cons r qs =>
    rw [List.dropLast_cons_cons, List.dropLast_cons_cons, List.tail_cons, List.forall_mem_cons]
    exact and_iff_right (hQ _ (hp.trans (List.prefix_append p q)))

/-- The rows behind the first one have a property, and the last of them begins with the mark, so
that it has the property whatever follows. -/
def Trails (Q : Text → Prop) (mark s : Text) : Prop :=
  ∀ inner last, (rows s).tail = inner ++ [last] → (∀ row ∈ inner, Q row) ∧ mark <+: last

theorem Trails.append {a b : Text} (hne : mark ≠ []) (hQ : ∀ row, mark <+: row → Q row)
    (ha : Trails Q mark a) (hb : ∀ row ∈ (rows b).tail, Q row) :
    ∀ row ∈ (rows (a ++ b)).tail, Q row := by
  obtain ⟨p, ps, hp⟩ := Text.rows_eq_cons a
  obtain ⟨q, qs, hq⟩ := Text.rows_eq_cons b
  rw [Trails, hp, List.tail_cons] at ha
  rw [hq, List.tail_cons] at hb
  rcases List.eq_nil_or_concat ps with rfl | ⟨inner, last, rfl⟩
  · have hone : rows a = [] ++ [p] := hp
    rw [Text.rows_append hone hq fun h => absurd h (Text.getLast?_ne_carriage hone (absurd rfl))]
    exact hb
  · obtain ⟨hinner, hlast⟩ := ha inner last (List.concat_eq_append ..)
    have hmore : rows a = p :: inner ++ [last] := by rw [hp, List.concat_eq_append]; rfl
    have hopen : last ≠ [] := by
      rintro rfl
      exact hne (List.prefix_nil.mp hlast)
    have hlone := Text.getLast?_ne_carriage hmore fun _ => hopen
    rw [Text.rows_append hmore hq fun h => absurd h hlone, List.cons_append, List.tail_cons,
      List.forall_mem_append, List.forall_mem_cons]
    exact ⟨hinner, hQ _ (hlast.trans (List.prefix_append last q)), hb⟩

theorem Trails.join {owner : Text} (hne : mark ≠ []) (hQ : ∀ row, mark <+: row → Q row)
    (h : Trails Q mark owner) {pieces : List Text} (hpieces : ∀ p ∈ pieces, Unbroken p) :
    ∀ row ∈ (rows (join owner pieces)).tail, Q row := by
  induction pieces with
  | nil => simp [Text.join, rows, Text.unifyBreaks, Text.splitOn]
  | cons p ps ih =>
    obtain ⟨hp, hps⟩ := List.forall_mem_cons.mp hpieces
    cases ps with
    | nil =>
      rw [Text.join, List.intercalate_singleton, Text.rows_unbroken hp]
      simp
    | cons r ps =>
      have hrest := Trails.append hne hQ h (ih hps)
      obtain ⟨q, qs, hq⟩ := Text.rows_eq_cons (owner ++ Text.join owner (r :: ps))
      rw [hq] at hrest
      rw [Text.join, List.intercalate_cons_cons, List.append_assoc, ← Text.join,
        Text.rows_unbroken_append hp hq]
      exact hrest

theorem trails_of_append {a : Text} {c : Char} (hc : Unbroken [c])
    (hopen : ∀ row, Q (row ++ [c]) → mark <+: row)
    (h : ∀ row ∈ (rows (a ++ [c])).tail, Q row) : Trails Q mark a := by
  intro inner last hlast
  obtain ⟨p, ps, hp⟩ := Text.rows_eq_cons a
  rw [hp, List.tail_cons] at hlast
  have hmore : rows a = p :: inner ++ [last] := by rw [hp, hlast]; rfl
  rw [Text.rows_append hmore (Text.rows_unbroken hc) fun _ h => hc.1 (List.mem_of_mem_head? h),
    List.cons_append, List.tail_cons, List.forall_mem_append, List.forall_mem_singleton] at h
  exact ⟨h.1, hopen last h.2⟩

end

theorem fill_pieces {tokens : Tokens} (hyear : Unbroken tokens.year) {line : Text}
    (hline : Unbroken line) :
    ∃ pieces, (∀ p ∈ pieces, Unbroken p) ∧ tokens.fill line = join tokens.owner pieces := by
  have hfilled := Text.unbroken_replaceAll Tokens.yearMark hyear hline
  obtain ⟨pieces, -, hjoin, howner⟩ := Text.replaceAll_pieces Tokens.ownerMark tokens.owner
    (Text.replaceAll Tokens.yearMark tokens.year line)
  refine ⟨pieces, fun p hp => ?_, howner⟩
  rw [hjoin] at hfilled
  exact ⟨fun hc => hfilled.1 (Text.mem_of_join hp hc), fun hc => hfilled.2 (Text.mem_of_join hp hc)⟩

def ownerLine : Text := "{LICENSE_OWNER}.".toList

theorem fill_ownerLine (tokens : Tokens) : tokens.fill ownerLine = tokens.owner ++ ['.'] := by
  have hyear : Text.cut? Tokens.yearMark ownerLine = none := by decide
  have howner : Text.cut? Tokens.ownerMark ownerLine = some ([], ['.']) := by decide
  have hrest : Text.cut? Tokens.ownerMark ['.'] = none := by decide
  rw [Tokens.fill, Text.replaceAll_none hyear, Text.replaceAll_some (by decide) howner,
    Text.replaceAll_none hrest]
  rfl

section

variable {Q : Text → Prop} {mark : Text} (tokens : Tokens)

theorem forall_rows_rendered (hmark : Unbroken mark) (hQ : ∀ row, mark <+: row → Q row)
    (hnil : Q []) (template : Option Text) :
    (∀ row ∈ rows (join ['\n'] (render template tokens mark)), Q row) ↔
      ∀ line ∈ lines (template.getD []), ∀ row ∈ (rows (tokens.fill line)).tail, Q row := by
  by_cases hne : lines (template.getD []) = []
  · simp [render, hne, join, rows, Text.unifyBreaks, Text.splitOn, hnil]
  · rw [Text.forall_rows_join hnil (by rwa [render, ne_eq, List.map_eq_nil_iff]), render,
      List.forall_mem_map]
    exact forall₂_congr fun line _ => forall_rows_comment hmark hQ (tokens.fill line)

theorem forall_rows_heading (template : Option Text) :
    (∀ row ∈ rows (heading template tokens), Silent row) ↔
      ∀ line ∈ lines (template.getD []), ∀ row ∈ (rows (tokens.fill line)).tail, Silent row := by
  rw [← forall_rows_rendered tokens luaMark_unbroken (fun _ => .inr) (.inl rfl), heading]
  split
  · next h => rw [h]; rfl
  · have hfeeds : "\n\n".toList = '\n' :: '\n' :: [] := rfl
    rw [hfeeds, Text.forall_rows_feed (.inl rfl)]
    exact and_iff_left (by decide)

theorem forall_rows_closing (template : Option Text) :
    (∀ row ∈ rows (closing template tokens), Silent row) ↔
      ∀ line ∈ lines (template.getD []), ∀ row ∈ (rows (tokens.fill line)).tail, Silent row := by
  rw [← forall_rows_rendered tokens luaMark_unbroken (fun _ => .inr) (.inl rfl), closing]
  split
  · next h => rw [h]; rfl
  · rw [← List.nil_append ('\n' :: _), Text.forall_rows_feed (.inl rfl)]
    exact and_iff_right (by decide)

theorem forall_rows_signature (template : Option Text) :
    (∀ row ∈ (rows (signature template tokens)).dropLast, typeScriptMark <+: row) ↔
      ∀ line ∈ lines (template.getD []), ∀ row ∈ (rows (tokens.fill line ++ ['\n'])).dropLast.tail,
        typeScriptMark <+: row := by
  rw [signature, Text.rows_feeds, List.forall_mem_flatMap, render, List.forall_mem_map]
  exact forall₂_congr fun line _ =>
    forall_rows_ended typeScriptMark_unbroken (fun _ => id) (tokens.fill line)

end

theorem namesOwner_iff (template : Option Text) :
    Tokens.namesOwner template = true ↔ Tokens.ownerMark <:+: template.getD [] :=
  Text.occurs_iff _ _

theorem render_unnamed {template : Option Text} (h : Tokens.namesOwner template = false)
    (year : Nat) (owner owner' mark : Text) :
    render template ⟨Text.ofNat year, owner⟩ mark =
      render template ⟨Text.ofNat year, owner'⟩ mark := by
  have hunnamed : ¬ Tokens.ownerMark <:+: template.getD [] := by
    rw [← namesOwner_iff, h]
    exact Bool.false_ne_true
  refine List.map_congr_left fun line hline => ?_
  have hnone : Text.cut? Tokens.ownerMark
      (Text.replaceAll Tokens.yearMark (Text.ofNat year) line) = none := by
    rw [Text.cut?_eq_none_iff]
    intro hin
    -- a year is digits, so filling it in makes no mark of the owner that was not there
    have hplain (c : Char) (hc : c ∈ Text.ofNat year) : c ∉ Tokens.ownerMark := by
      have hdigit : c.isDigit = true := Nat.isDigit_of_mem_toDigits (by decide) (by decide) hc
      have hmark : Tokens.ownerMark.any Char.isDigit = false := by decide
      exact fun hin => List.any_eq_false.mp hmark c hin hdigit
    exact hunnamed ((Text.infix_of_replaceAll _ Nat.toDigits_ne_nil hplain hin).trans
      (Text.infix_of_mem_lines hline))
  rw [Tokens.fill, Tokens.fill, Text.replaceAll_none hnone, Text.replaceAll_none hnone]

/-- An owner that is no text cannot be filled in: with a template that names it there are no
tokens, and otherwise the templates become what they become for any owner. -/
theorem ofConfig?_garbled {config : Config} (h : CodePoint.text? config.owner = none) (year : Nat) :
    (Tokens.ofConfig? config year = none ↔ Tokens.ownerMark <:+: config.header.getD [] ∨
      Tokens.ownerMark <:+: config.footer.getD []) ∧
    ∀ tokens, Tokens.ofConfig? config year = some tokens → ∀ owner mark,
      render config.header tokens mark = render config.header ⟨Text.ofNat year, owner⟩ mark ∧
      render config.footer tokens mark = render config.footer ⟨Text.ofNat year, owner⟩ mark := by
  rw [← namesOwner_iff, ← namesOwner_iff, ← Bool.or_eq_true, Tokens.ofConfig?, h]
  dsimp only
  cases hnames : Tokens.namesOwner config.header || Tokens.namesOwner config.footer with
  | true => simp
  | false =>
    obtain ⟨hheader, hfooter⟩ := Bool.or_eq_false_iff.mp hnames
    refine ⟨by simp, ?_⟩
    rintro tokens ⟨⟩ owner mark
    exact ⟨render_unnamed hheader year [] owner mark, render_unnamed hfooter year [] owner mark⟩

theorem around_named (config : Config) (year : Nat) (owner s : Text) :
    wrap? { config with owner := CodePoint.ofText owner } year s =
      some (heading config.header ⟨Text.ofNat year, owner⟩ ++ s ++
        closing config.footer ⟨Text.ofNat year, owner⟩) := by
  rw [wrap?, Tokens.ofConfig?, CodePoint.text?_ofText, Option.map_some, around_eq]

theorem merge?_signed (consolidated : List Text) (files : List Declaration.SourceFile)
    (config : Config) (tokens : Tokens) :
    Declaration.merge? consolidated files config tokens =
      (Declaration.merge? consolidated files { config with footer := none } tokens).map
        (· ++ signature config.footer tokens) := by
  have hsigned (body footer : List Text) (hne : body ≠ []) :
      join ['\n'] (body ++ footer) ++ ['\n'] =
        join ['\n'] body ++ ['\n'] ++ footer.flatMap (· ++ ['\n']) := by
    rw [Text.join_feed (by simp [hne]), Text.join_feed hne, List.flatMap_append]
  rw [Declaration.merge?, Declaration.merge?]
  split
  · rfl
  · rw [Option.map_some, Declaration.merged, Declaration.merged, hsigned, signature]
    · simp [render, Text.lines]
    · simp [Declaration.mergedBody]

theorem merge?_ends {consolidated : List Text} {files : List Declaration.SourceFile}
    {config : Config} {tokens : Tokens} {t : Text}
    (h : t ∈ Declaration.merge? consolidated files config tokens) : ∃ s, t = s ++ ['\n'] := by
  rw [Declaration.merge?] at h
  split at h
  · cases h
  · obtain rfl := Option.mem_some.mp h
    exact ⟨_, rfl⟩

section

variable {Q : Text → Prop} {mark : Text} {tokens : Tokens}

theorem Trails.fill (hyear : Unbroken tokens.year) (hne : mark ≠ [])
    (hQ : ∀ row, mark <+: row → Q row) (h : Trails Q mark tokens.owner) {template line : Text}
    (hline : line ∈ lines template) : ∀ row ∈ (rows (tokens.fill line)).tail, Q row := by
  obtain ⟨pieces, hpieces, hfill⟩ := fill_pieces hyear (Text.unbroken_of_mem_lines hline)
  rw [hfill]
  exact Trails.join hne hQ h hpieces

theorem trails_of_ownerLine (hopen : ∀ row, Q (row ++ ['.']) → mark <+: row)
    (h : ∀ row ∈ (rows (tokens.fill ownerLine)).tail, Q row) : Trails Q mark tokens.owner := by
  rw [fill_ownerLine] at h
  exact trails_of_append (by decide) hopen h

theorem prefix_of_concat {c : Char} {row : Text} (hc : mark.getLast? ≠ some c)
    (h : mark <+: row ++ [c]) : mark <+: row := by
  rcases List.prefix_concat_iff.mp h with rfl | h
  · exact absurd (List.getLast?_concat ..) hc
  · exact h

theorem silent_iff_trails (hyear : Unbroken tokens.year) :
    (∀ config : Config, ∀ row ∈ rows (heading config.header tokens) ++
      rows (closing config.footer tokens), Silent row) ↔ Trails Silent luaMark tokens.owner := by
  constructor
  · intro h
    have hrows := (forall_rows_heading tokens (some ownerLine)).mp
      fun row hrow => h { header := some ownerLine } row (List.mem_append_left _ hrow)
    refine trails_of_ownerLine (fun row hrow => ?_) (hrows ownerLine (by decide))
    exact prefix_of_concat (by decide) (hrow.resolve_left (by simp))
  · intro h config
    have hlines {template line : Text} (hline : line ∈ lines template) :=
      h.fill hyear (by decide) (fun _ => .inr) hline
    rw [List.forall_mem_append]
    exact ⟨(forall_rows_heading tokens _).mpr fun line => hlines,
      (forall_rows_closing tokens _).mpr fun line => hlines⟩

theorem signed_iff_trails (hyear : Unbroken tokens.year) :
    (∀ template, ∀ row ∈ (rows (signature template tokens)).dropLast, typeScriptMark <+: row) ↔
      Trails (typeScriptMark <+: ·) typeScriptMark tokens.owner := by
  constructor
  · intro h
    have hrows := (forall_rows_signature tokens (some ownerLine)).mp (h (some ownerLine)) ownerLine
      (by decide)
    refine trails_of_ownerLine (fun row => prefix_of_concat (by decide)) fun row hrow => ?_
    apply hrows
    rw [fill_ownerLine] at hrow ⊢
    rwa [Text.rows_ended (by simp)]
  · intro h template
    refine (forall_rows_signature tokens template).mpr fun line hline row hrow => ?_
    exact h.fill hyear (by decide) (fun _ => id) hline row (Text.mem_tail_rows_of_ended hrow)

end

/-- Banners stand around a module and behind the merged declarations. All their rows are comments
exactly if the filled lines of the templates are comments behind their first rows, and they are so
whatever the templates exactly if the later rows of the owner bring their own marks along. -/
theorem banners_silent_iff (year : Nat) (owner : Text) :
    let tokens : Tokens := ⟨Text.ofNat year, owner⟩
    (∀ (config : Config) s, wrap? { config with owner := CodePoint.ofText owner } year s =
        some (heading config.header tokens ++ s ++ closing config.footer tokens) ∧
      (heading config.header tokens = [] ∨ ∃ t, heading config.header tokens = t ++ ['\n']) ∧
      (closing config.footer tokens = [] ∨ ∃ t, closing config.footer tokens = '\n' :: t)) ∧
    (∀ consolidated files config, Declaration.merge? consolidated files config tokens =
      (Declaration.merge? consolidated files { config with footer := none } tokens).map
        (· ++ signature config.footer tokens) ∧
      ∀ t ∈ Declaration.merge? consolidated files config tokens, ∃ s, t = s ++ ['\n']) ∧
    (∀ config : Config, (∀ row ∈ rows (heading config.header tokens) ++
        rows (closing config.footer tokens), Silent row) ↔
      ∀ line ∈ lines (config.header.getD []) ++ lines (config.footer.getD []),
        ∀ row ∈ (rows (tokens.fill line)).tail, Silent row) ∧
    (∀ template, (∀ row ∈ (rows (signature template tokens)).dropLast, typeScriptMark <+: row) ↔
      ∀ line ∈ lines (template.getD []), ∀ row ∈ (rows (tokens.fill line ++ ['\n'])).dropLast.tail,
        typeScriptMark <+: row) ∧
    ((∀ config : Config, ∀ row ∈ rows (heading config.header tokens) ++
        rows (closing config.footer tokens), Silent row) ↔ Trails Silent luaMark owner) ∧
    ((∀ template, ∀ row ∈ (rows (signature template tokens)).dropLast, typeScriptMark <+: row) ↔
      Trails (typeScriptMark <+: ·) typeScriptMark owner) := by
  intro tokens
  have hyear : Unbroken tokens.year := Text.unbroken_ofNat year
  refine ⟨fun config s => ⟨around_named config year owner s, heading_ends _ _, closing_begins _ _⟩,
    fun consolidated files config => ⟨merge?_signed consolidated files config tokens,
      fun t ht => merge?_ends ht⟩, fun config => ?_, forall_rows_signature tokens,
    silent_iff_trails hyear, signed_iff_trails hyear⟩
  rw [List.forall_mem_append, List.forall_mem_append, forall_rows_heading, forall_rows_closing]

theorem sample_owner_breaks : ¬ ∀ (config : Config) (year : Nat) (owner s : Text),
    ∃ before after, wrap? { config with owner := CodePoint.ofText owner } year s =
      some (before ++ s ++ after) ∧ ∀ row ∈ rows before ++ rows after, Silent row := by
  intro h
  let s := "return 1\n".toList
  let written := "--- Note\nos.exit()\n\nreturn 1\n".toList
  obtain ⟨before, after, hwrap, hsilent⟩ :=
    h { header := some "{LICENSE_OWNER}\n".toList } 2026 "Note\nos.exit()".toList s
  have hwritten : before ++ s ++ after = written :=
    Option.some.inj (hwrap.symm.trans (by decide +kernel))
  have hplaces : ∀ n < 30, written.take n ++ s ++ written.drop (n+s.length) = written →
      ∃ row ∈ rows (written.take n) ++ rows (written.drop (n+s.length)), ¬ Silent row := by
    decide +kernel
  have hlen : before.length < 30 := by
    have hlengths : (before ++ s ++ after).length = 29 := congrArg List.length hwritten
    rw [List.length_append, List.length_append] at hlengths
    omega
  have hbefore : written.take before.length = before := by rw [← hwritten]; simp
  have hafter : written.drop (before.length+s.length) = after := by rw [← hwritten]; simp
  obtain ⟨row, hrow, hloud⟩ := hplaces before.length hlen (by rw [hbefore, hafter, hwritten])
  rw [hbefore, hafter] at hrow
  exact hloud (hsilent row hrow)

end ModBuild.Banner
