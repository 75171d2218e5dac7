import ModBuild.Proofs.Project
import ModBuild.Proofs.Text.Cutting
import Mathlib.Data.List.Forall2
import Mathlib.Logic.Relation

/-!
# What a manifest says

The last line with a key says what the key is assigned. So a manifest is read
exactly if some line has the key of each field, and lines may be put in, left out
and moved as long as the lines with one key stay as they are and in their order.
-/

set_option autoImplicit false

namespace ModBuild

namespace Field

def inOrder : List Field := [.id, .name, .poster, .description]

theorem mem_inOrder (f : Field) : f ∈ inOrder := by
  cases f <;> decide

theorem forall_iff {P : Field → Prop} :
    (∀ f, P f) ↔ P .id ∧ P .name ∧ P .poster ∧ P .description := by
  constructor
  · exact fun h => ⟨h _, h _, h _, h _⟩
  · rintro ⟨hid, hname, hposter, hdescription⟩ (_ | _ | _ | _) <;> assumption

end Field

namespace Manifest

def value (m : Manifest) : Field → Text
  | .id => m.id
  | .name => m.name
  | .poster => m.poster
  | .description => m.description

def keys : List Text := "require".toList :: Field.inOrder.map Field.text

/-- A line assigns a value to a key: its first equals sign stands between the two, with
white space around either, and the case of the key is free. -/
def Assigns (line key value : Text) : Prop :=
  ∃ left right name, line = left ++ '=' :: right ∧ '=' ∉ left ∧ Text.Strips left name ∧
    Text.lower name = key ∧ Text.Strips right value

def Keyed (key line : Text) : Prop := ∃ value, Assigns line key value

def Last (ls : List Text) (key value : Text) : Prop :=
  ∃ before line after, ls = before ++ line :: after ∧ Assigns line key value ∧
    ∀ l ∈ after, ¬ Keyed key l

def Assigned (ls : List Text) (key : Text) : Prop := ∃ line ∈ ls, Keyed key line

/-- A value lists what stands between its commas, without the white space around it and
where there is anything else. -/
def Lists (value : Text) (es : List Text) : Prop :=
  ∃ pieces cores, value = Text.join [','] pieces ∧ (∀ piece ∈ pieces, ',' ∉ piece) ∧
    List.Forall₂ Text.Strips pieces cores ∧ es = cores.filter (· ≠ [])

structure Says (ls : List Text) (m : Manifest) : Prop where
  field : ∀ f : Field, Last ls f.text (m.value f)
  require : (∃ value, Last ls "require".toList value ∧ Lists value m.require) ∨
    ¬ Assigned ls "require".toList ∧ m.require = []

def FirstMissing (ls : List Text) (f : Field) : Prop :=
  ¬ Assigned ls f.text ∧ ∃ front back, Field.inOrder = front ++ f :: back ∧
    ∀ g ∈ front, Assigned ls g.text

theorem assigns_iff (line key value : Text) :
    Assigns line key value ↔ assignment? line = some (key, value) := by
  simp only [Assigns, assignment?, Option.map_eq_some_iff, Prod.exists, Text.cutAt?_eq_some_iff,
    Text.strips_iff, exists_and_left, exists_eq_left', Prod.mk.injEq, and_assoc]

theorem keyed_iff (key line : Text) :
    Keyed key line ↔ ((assignment? line).map Prod.fst) = some key := by
  simp only [Keyed, assigns_iff, Option.map_eq_some_iff, Prod.exists, exists_and_right,
    exists_eq_right]

instance (key : Text) : DecidablePred (Keyed key) := fun line =>
  decidable_of_iff _ (keyed_iff key line).symm

theorem forall₂_strips_iff (pieces cores : List Text) :
    List.Forall₂ Text.Strips pieces cores ↔ pieces.map Text.trim = cores := by
  have hstrips : Text.Strips = fun s core => Text.trim s = core :=
    funext₂ fun s core => propext (Text.strips_iff s core)
  rw [hstrips, ← List.forall₂_map_left_iff (R := Eq), List.forall₂_eq_eq_eq]

theorem lists_iff (value : Text) (es : List Text) : Lists value es ↔ entries value = es := by
  constructor
  · rintro ⟨pieces, cores, rfl, hpieces, hcores, rfl⟩
    rw [← (forall₂_strips_iff pieces cores).mp hcores, entries]
    rcases eq_or_ne pieces [] with rfl | hne
    · rfl
    · rw [Text.splitOn_join hne hpieces]
  · rintro rfl
    exact ⟨Text.splitOn ',' value, _, (Text.join_splitOn ',' value).symm,
      fun p hp => Text.not_mem_of_mem_splitOn hp, (forall₂_strips_iff _ _).mpr rfl, rfl⟩

theorem last_concat (ls : List Text) (line key value : Text) :
    Last (ls ++ [line]) key value ↔
      Assigns line key value ∨ ¬ Keyed key line ∧ Last ls key value := by
  constructor
  · rintro ⟨before, l, after, hls, hl, hafter⟩
    rcases List.eq_nil_or_concat' after with rfl | ⟨after, l', rfl⟩
    · obtain ⟨-, hlast⟩ := List.append_inj' hls rfl
      cases hlast
      exact .inl hl
    · rw [← List.cons_append, ← List.append_assoc] at hls
      obtain ⟨rfl, hlast⟩ := List.append_inj' hls rfl
      cases hlast
      refine .inr ⟨hafter line (by simp), before, l, after, rfl, hl, fun l' hl' => ?_⟩
      exact hafter l' (by simp [hl'])
  · rintro (h | ⟨hline, before, l, after, rfl, hl, hafter⟩)
    · exact ⟨ls, line, [], rfl, h, by simp⟩
    · refine ⟨before, l, after ++ [line], by simp, hl, fun l' hl' => ?_⟩
      rcases List.mem_append.mp hl' with hl' | hl'
      · exact hafter l' hl'
      · rwa [List.mem_singleton.mp hl']

theorem last?_concat (key : Text) (as : List (Text × Text)) (a : Text × Text) :
    last? key (as ++ [a]) = if a.1 = key then some a.2 else last? key as := by
  rw [last?, List.reverse_concat, List.find?_cons]
  by_cases h : a.1 = key
  · rw [if_pos h, beq_iff_eq.mpr h]
    rfl
  · rw [if_neg h, beq_eq_false_iff_ne.mpr h]
    rfl

theorem last?_eq_some_iff (ls : List Text) (key value : Text) :
    last? key (ls.filterMap assignment?) = some value ↔ Last ls key value := by
  -- What the last line says overrides the lines in front of it, so the lists grow at the end.
  induction ls using List.reverseRecOn with
  | nil => simp [last?, Last]
  | append_singleton ls line ih =>
    rw [last_concat, assigns_iff, keyed_iff, List.filterMap_append]
    cases h : assignment? line with
    | none => simp [h, ih]
    | some a =>
      rw [List.filterMap_cons_some h, List.filterMap_nil, last?_concat, ← ih]
      obtain ⟨k, v⟩ := a
      by_cases hk : k = key <;> simp [hk]

theorem last?_eq_none_iff (ls : List Text) (key : Text) :
    last? key (ls.filterMap assignment?) = none ↔ ¬ Assigned ls key := by
  rw [last?, Option.map_eq_none_iff, List.find?_eq_none]
  constructor
  · rintro h ⟨line, hline, value, hassigns⟩
    refine h (key, value) ?_ (beq_self_eq_true key)
    rw [List.mem_reverse, List.mem_filterMap]
    exact ⟨line, hline, (assigns_iff line key value).mp hassigns⟩
  · intro h a ha hkey
    rw [List.mem_reverse, List.mem_filterMap] at ha
    obtain ⟨line, hline, hassigns⟩ := ha
    rw [← beq_iff_eq.mp hkey] at h
    exact h ⟨line, hline, a.2, (assigns_iff line a.1 a.2).mpr hassigns⟩

theorem assigned_iff (ls : List Text) (key : Text) :
    Assigned ls key ↔ (last? key (ls.filterMap assignment?)).isSome = true := by
  rw [Option.isSome_iff_ne_none, ne_eq, last?_eq_none_iff, Classical.not_not]

theorem last?_filter (ls : List Text) (key : Text) :
    last? key ((ls.filter (Keyed key)).filterMap assignment?) =
      last? key (ls.filterMap assignment?) := by
  induction ls using List.reverseRecOn with
  | nil => rfl
  | append_singleton ls line ih =>
    by_cases hkeyed : Keyed key line
    · obtain ⟨a, hline, -⟩ := Option.map_eq_some_iff.mp ((keyed_iff key line).mp hkeyed)
      simp [List.filter_append, hkeyed, hline, last?_concat, ih]
    · cases hline : assignment? line with
      | none => simp [List.filter_append, hkeyed, hline, ih]
      | some a =>
        have hkey : a.1 ≠ key := by simpa [keyed_iff, hline] using hkeyed
        simp [List.filter_append, hkeyed, hline, last?_concat, hkey, ih]

variable {s t : Text}

theorem parse_eq_ok_iff (m : Manifest) :
    parse s = .ok m ↔ (∀ f : Field, last? f.text (assignments s) = some (m.value f)) ∧
      m.require = ((last? "require".toList (assignments s)).map entries).getD [] := by
  -- The fields are read one after the other, so the cases are whether each of them is there.
  refine Iff.trans ?_ (and_congr_left' Field.forall_iff.symm)
  simp only [parse, field]
  generalize ((last? "require".toList (assignments s)).map entries).getD [] = require
  obtain ⟨id, name, poster, description, require'⟩ := m
  cases last? Field.id.text (assignments s) <;>
    cases last? Field.name.text (assignments s) <;>
    cases last? Field.poster.text (assignments s) <;>
    cases last? Field.description.text (assignments s) <;>
    simp [bind, Except.bind, pure, Except.pure, value, and_assoc, eq_comm]

theorem parse_eq_error_iff (f : Field) :
    parse s = .error f ↔
      Field.inOrder.find? (fun g => (last? g.text (assignments s)).isNone) = some f := by
  unfold parse field Field.inOrder
  cases hid : last? Field.id.text (assignments s) <;>
    cases hname : last? Field.name.text (assignments s) <;>
    cases hposter : last? Field.poster.text (assignments s) <;>
    cases hdescription : last? Field.description.text (assignments s) <;>
    simp [hid, hname, hposter, hdescription, bind, Except.bind, pure, Except.pure]

theorem parse_ok_iff (m : Manifest) : parse s = .ok m ↔ Says (Text.lines s) m := by
  rw [parse_eq_ok_iff, assignments]
  simp only [last?_eq_some_iff]
  constructor
  · rintro ⟨hfield, hrequire⟩
    refine ⟨hfield, ?_⟩
    cases hlast : last? "require".toList ((Text.lines s).filterMap assignment?) with
    | none =>
      rw [hlast] at hrequire
      exact .inr ⟨(last?_eq_none_iff _ _).mp hlast, hrequire⟩
    | some v =>
      rw [hlast] at hrequire
      exact .inl ⟨v, (last?_eq_some_iff _ _ _).mp hlast, (lists_iff _ _).mpr hrequire.symm⟩
  · rintro ⟨hfield, ⟨v, hlast, hrequire⟩ | ⟨hnone, hrequire⟩⟩
    · rw [(last?_eq_some_iff _ _ _).mpr hlast]
      exact ⟨hfield, ((lists_iff _ _).mp hrequire).symm⟩
    · rw [(last?_eq_none_iff _ _).mpr hnone]
      exact ⟨hfield, hrequire⟩

theorem parse_error_iff (f : Field) : parse s = .error f ↔ FirstMissing (Text.lines s) f := by
  rw [parse_eq_error_iff, List.find?_eq_some_iff_append, assignments, FirstMissing]
  simp only [assigned_iff, Bool.not_eq_true, Bool.not_eq_eq_eq_not, Bool.not_true,
    Option.isSome_eq_false_iff, Option.isNone_eq_false_iff]

theorem parse_succeeds_iff :
    (∃ m, parse s = .ok m) ↔ ∀ f : Field, Assigned (Text.lines s) f.text := by
  constructor
  · rintro ⟨m, h⟩ f
    obtain ⟨_, line, _, hls, hline, -⟩ := ((parse_ok_iff m).mp h).field f
    rw [hls]
    exact ⟨line, by simp, _, hline⟩
  · intro h
    cases hs : parse s with
    | ok m => exact ⟨m, rfl⟩
    | error f => exact absurd (h f) ((parse_error_iff f).mp hs).1

theorem parse_congr (h : ∀ key ∈ keys,
    (Text.lines t).filter (Keyed key) = (Text.lines s).filter (Keyed key)) :
    parse t = parse s := by
  have hlast : ∀ key ∈ keys, last? key (assignments t) = last? key (assignments s) := by
    intro key hkey
    rw [assignments, assignments, ← last?_filter, h key hkey, last?_filter]
  have hfield (f : Field) : field (assignments t) f = field (assignments s) f := by
    rw [field, field, hlast f.text (List.mem_cons_of_mem _ (List.mem_map_of_mem f.mem_inOrder))]
  have hrequire := hlast "require".toList List.mem_cons_self
  simp only [parse, hfield, hrequire]

/-- One edit of the lines of a manifest: a line without a known key comes or goes, or
lines change places and those with the same key keep their order. -/
inductive Edited : List Text → List Text → Prop
  | insert (before after : List Text) {line : Text} (h : ∀ key ∈ keys, ¬ Keyed key line) :
      Edited (before ++ after) (before ++ line :: after)
  | remove (before after : List Text) {line : Text} (h : ∀ key ∈ keys, ¬ Keyed key line) :
      Edited (before ++ line :: after) (before ++ after)
  | reorder {ls ls' : List Text} (h : ls.Perm ls')
      (hkeys : ∀ key, ls'.filter (Keyed key) = ls.filter (Keyed key)) : Edited ls ls'

theorem Edited.filter {ls ls' : List Text} (h : Edited ls ls') {key : Text} (hkey : key ∈ keys) :
    ls'.filter (Keyed key) = ls.filter (Keyed key) := by
  cases h with
  | insert _ _ h => simp [h key hkey]
  | remove _ _ h => simp [h key hkey]
  | reorder _ hkeys => exact hkeys key

theorem Edited.swap (before after : List Text) {line line' : Text}
    (h : ∀ key, Keyed key line → ¬ Keyed key line') :
    Edited (before ++ line :: line' :: after) (before ++ line' :: line :: after) := by
  refine .reorder ((List.Perm.swap line' line after).append_left before) fun key => ?_
  by_cases hline : Keyed key line
  · simp [hline, h key hline]
  · simp [hline, List.filter_cons]

theorem edits_filter {ls ls' : List Text} (h : Relation.ReflTransGen Edited ls ls') {key : Text}
    (hkey : key ∈ keys) : ls'.filter (Keyed key) = ls.filter (Keyed key) := by
  induction h with
  | refl => rfl
  | tail _ hstep ih => rw [hstep.filter hkey, ih]

/-- A manifest is read exactly if there is a line with the key of each field, and the
last lines then say what it is; otherwise the first missing field is reported. No edit
of its lines changes that. -/
theorem parse_last_assignments (s : Text) :
    ((∃ m, parse s = .ok m) ↔ ∀ f : Field, Assigned (Text.lines s) f.text) ∧
      (∀ m, parse s = .ok m ↔ Says (Text.lines s) m) ∧
      (∀ f, parse s = .error f ↔ FirstMissing (Text.lines s) f) ∧
      (∀ p w, w.readText p = .ok s → ∀ f, FirstMissing (Text.lines s) f →
        ∃ defect, Project.loadManifest p w = .error (.manifest defect) w ∧
          defect.message = "mod.info has no ".toList ++ f.text ++ ".".toList) ∧
      ∀ t, Relation.ReflTransGen Edited (Text.lines s) (Text.lines t) → parse t = parse s := by
  refine ⟨parse_succeeds_iff, parse_ok_iff, parse_error_iff, fun p w hread f hf => ?_,
    fun t h => parse_congr fun key hkey => edits_filter h hkey⟩
  refine ⟨.missingField f, ?_, rfl⟩
  rw [Project.loadManifest_of_text hread, (parse_error_iff f).mpr hf]

/-! A manifest with a remark, a field that is assigned twice and a list with gaps, before
and after the remark goes and two lines change places, and a file without a name. -/

def sampleText : Text :=
  "Id = old\nname = a=b\n; remark\nid = new\nposter=\nrequire = a, ,b,\ndescription=d".toList

def sampleEdited : Text :=
  "Id = old\nname = a=b\nposter=\nid = new\nrequire = a, ,b,\ndescription=d".toList

def sampleManifest : Manifest :=
  ⟨"new".toList, "a=b".toList, [], "d".toList, ["a".toList, "b".toList]⟩

def sampleUnnamed : Text := "id = new\nposter=p".toList

def samplePath : Path := Path.ofLocation [Layout.mediaName]

def sampleWorkspace : Workspace where
  tree := (Except.toOption
    (Tree.empty.writeFile [Layout.mediaName] (Text.encode sampleUnnamed))).getD .empty

def sampleFront : List Text := ["Id = old".toList, "name = a=b".toList]

def sampleBack : List Text := ["require = a, ,b,".toList, "description=d".toList]

theorem sample_parsed : parse sampleEdited = .ok sampleManifest ∧
    Says (Text.lines sampleEdited) sampleManifest ∧
    ∃ defect, Project.loadManifest samplePath sampleWorkspace =
        .error (.manifest defect) sampleWorkspace ∧
      defect.message = "mod.info has no name.".toList := by
  have htext : Text.lines sampleText = sampleFront ++ "; remark".toList :: "id = new".toList ::
      "poster=".toList :: sampleBack := by
    decide +kernel
  have hlines : Text.lines sampleEdited = sampleFront ++ "poster=".toList :: "id = new".toList ::
      sampleBack := by
    decide +kernel
  have hremoved := Edited.remove sampleFront ("id = new".toList :: "poster=".toList :: sampleBack)
    (by decide +kernel : ∀ key ∈ keys, ¬ Keyed key "; remark".toList)
  have hswapped : Edited (sampleFront ++ "id = new".toList :: "poster=".toList :: sampleBack)
      (sampleFront ++ "poster=".toList :: "id = new".toList :: sampleBack) := by
    refine .swap sampleFront sampleBack fun key hid hposter => ?_
    rw [keyed_iff] at hid hposter
    exact absurd (hid.trans hposter.symm) (by decide +kernel)
  rw [← htext] at hremoved
  rw [← hlines] at hswapped
  obtain ⟨-, -, -, -, hedited⟩ := parse_last_assignments sampleText
  obtain ⟨-, hmeaning, -⟩ := parse_last_assignments sampleEdited
  obtain ⟨-, -, herror, hload, -⟩ := parse_last_assignments sampleUnnamed
  have hparsed : parse sampleEdited = .ok sampleManifest :=
    (hedited _ (.tail (.single hremoved) hswapped)).trans (by decide +kernel)
  refine ⟨hparsed, (hmeaning _).mp hparsed, ?_⟩
  exact hload _ _ (by decide +kernel) .name ((herror _).mp (by decide +kernel))

end Manifest

end ModBuild
