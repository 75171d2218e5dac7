import ModBuild.Proofs.Version
import ModBuild.Proofs.Workspace.Fitting
import Mathlib.Data.Finset.Basic

/-!
# Host libraries in any order

A directory lists its entries in whatever order it likes. The library that is copied is then still
the same one if the version of every listed name can be read and no two names share the latest one.
Names that differ by a leading zero, or by the writing system of their digits, do share it, and of
them the one that is listed last is copied.
-/

set_option autoImplicit false

namespace ModBuild

theorem Tree.length_le_byteLength (t : Text) : t.length ≤ byteLength t := by
  induction t with
  | nil => exact Nat.zero_le _
  | cons c t ih =>
    rw [← List.singleton_append, byteLength_append, List.singleton_append, List.length_cons]
    have hc := byteLength_pos (List.cons_ne_nil c [])
    omega

namespace Library

def file (library : Name) : Name where
  text := fileName library.text
  valid := by
    have hlen : 4 < (fileName library.text).length := by
      rw [fileName, List.length_append]
      have := List.length_pos_iff.mpr library.valid.1
      change 4 < library.text.length + 4
      omega
    refine ⟨?_, ?_, ?_, ?_⟩
    · exact List.ne_nil_of_length_pos (by omega)
    · intro h
      rw [h] at hlen
      exact absurd hlen (by decide)
    · intro h
      rw [h] at hlen
      exact absurd hlen (by decide)
    · rw [fileName, List.mem_append]
      rintro (h | h)
      · exact library.valid.2.2.2 h
      · exact absurd h (by decide)

def fileOf (typings : Path) (library v : Name) : Path :=
  typings / library.text / v.text / fileName library.text

theorem fileOf_eq (typings : Path) (library v : Name) :
    fileOf typings library v = Asset.along typings [library, v, file library] := by
  change typings / library.text / v.text / (file library).text = _
  rw [Asset.div_name, Asset.div_name, Asset.along_along, Asset.div_name, Asset.along_along]
  rfl

theorem fileOf_injective {typings : Path} {library v v' : Name}
    (h : fileOf typings library v = fileOf typings library v') : v = v' := by
  rw [fileOf_eq, fileOf_eq] at h
  have hloc := congrArg (Path.location []) h
  rw [Asset.location_along, Asset.location_along, List.append_cancel_left_eq] at hloc
  exact (List.cons.inj (List.cons.inj hloc).2).1

def latestAmong? (typings : Path) (library : Name) (order : List Name) :
    Except Failure (Option Path) :=
  match Version.latest? (order.map Name.text) with
  | .error refusal => .error (.version refusal)
  | .ok version => .ok (version.map fun v => typings / library.text / v / fileName library.text)

@[simp] theorem latestAmong_nil (typings : Path) (library : Name) :
    latestAmong? typings library [] = .ok none := by
  rw [latestAmong?, List.map_nil, Version.latest_nil]
  rfl

def Lists (order : List Name) (names : Finset Name) : Prop :=
  order.Nodup ∧ ∀ n, n ∈ order ↔ n ∈ names

def Latest (names : Finset Name) (v : Name) : Prop :=
  v ∈ names ∧ ∀ n ∈ names, Version.NotAfter n.text v.text

section
variable {typings : Path} {library : Name} {names : Finset Name} {order : List Name}

theorem Lists.nil_iff (h : Lists order names) : order = [] ↔ names = ∅ := by
  rw [List.eq_nil_iff_forall_not_mem, Finset.eq_empty_iff_forall_notMem]
  exact forall_congr' fun n => not_congr (h.2 n)

theorem exists_lists_last {v : Name} (hv : v ∈ names) :
    ∃ front, Lists (front ++ [v]) names := by
  refine ⟨(names.erase v).toList, ?_, fun n => ?_⟩
  · rw [List.nodup_append]
    refine ⟨Finset.nodup_toList _, List.nodup_singleton v, fun a ha b hb => ?_⟩
    rw [List.mem_singleton] at hb
    rw [Finset.mem_toList, Finset.mem_erase] at ha
    rw [hb]
    exact ha.1
  · rw [List.mem_append, Finset.mem_toList, Finset.mem_erase, List.mem_singleton]
    constructor
    · rintro (⟨-, h⟩ | rfl)
      · exact h
      · exact hv
    · intro h
      exact (eq_or_ne n v).elim .inr fun hne => .inl ⟨hne, h⟩

theorem latestAmong_ok (typings : Path) (library : Name) (h : Lists order names)
    (hread : ∀ n ∈ names, Version.Readable n.text) (hne : names.Nonempty) :
    ∃ v, Latest names v ∧ latestAmong? typings library order =
      .ok (some (fileOf typings library v)) := by
  have hread' : ∀ t ∈ order.map Name.text, Version.Readable t := by
    rw [List.forall_mem_map]
    exact fun n hn => hread n ((h.2 n).mp hn)
  have hfull : order.map Name.text ≠ [] := by
    rw [Ne, List.map_eq_nil_iff, h.nil_iff]
    exact hne.ne_empty
  obtain ⟨t, ht, hlatest, hmax⟩ := Version.latest_ok hread' hfull
  obtain ⟨v, hv, rfl⟩ := List.mem_map.mp ht
  rw [List.forall_mem_map] at hmax
  refine ⟨v, ⟨(h.2 v).mp hv, fun n hn => hmax n ((h.2 n).mpr hn)⟩, ?_⟩
  rw [latestAmong?, hlatest]
  rfl

theorem latestAmong_last {front : List Name} {v : Name} (h : Lists (front ++ [v]) names)
    (hv : Latest names v) : latestAmong? typings library (front ++ [v]) =
      .ok (some (fileOf typings library v)) := by
  have hlatest : Version.latest? ((front ++ [v]).map Name.text) = .ok (some v.text) := by
    have hnodup := h.1.map fun _ _ => Name.text_injective
    have hmax : ∀ t ∈ (front ++ [v]).map Name.text, Version.NotAfter t v.text := by
      rw [List.forall_mem_map]
      exact fun n hn => hv.2 n ((h.2 n).mp hn)
    rw [List.map_append] at hnodup hmax ⊢
    exact Version.latest_given_last hnodup hmax
  rw [latestAmong?, hlatest]
  rfl

theorem latestAmong_ok_iff (typings : Path) (library : Name) (order : List Name) :
    (∃ file, latestAmong? typings library order = .ok file) ↔
      ∀ n ∈ order, Version.Readable n.text := by
  rw [← List.forall_mem_map (f := Name.text) (P := Version.Readable), ← Version.latest_ok_iff,
    latestAmong?]
  cases Version.latest? (order.map Name.text) <;> simp

theorem exists_latestAmong_iff (v : Name) :
    (∃ order, Lists order names ∧
      latestAmong? typings library order = .ok (some (fileOf typings library v))) ↔
      Latest names v := by
  constructor
  · rintro ⟨order, h, hout⟩
    have hread : ∀ n ∈ names, Version.Readable n.text := fun n hn =>
      (latestAmong_ok_iff typings library order).mp ⟨_, hout⟩ n ((h.2 n).mpr hn)
    have hne : names.Nonempty := by
      rw [Finset.nonempty_iff_ne_empty, Ne, ← h.nil_iff]
      rintro rfl
      rw [latestAmong_nil] at hout
      cases hout
    obtain ⟨v', hv', hout'⟩ := latestAmong_ok typings library h hread hne
    rw [hout] at hout'
    rwa [fileOf_injective (Option.some.inj (Except.ok.inj hout'))]
  · intro hv
    obtain ⟨front, h⟩ := exists_lists_last hv.1
    exact ⟨_, h, latestAmong_last h hv⟩

/-- One and the same comes out in every order exactly if all the versions can be read and only one
name has the latest. -/
theorem latestAmong_const_iff :
    (∃ file, ∀ order, Lists order names → latestAmong? typings library order = .ok file) ↔
      (∀ n ∈ names, Version.Readable n.text) ∧
        ∀ v v', Latest names v → Latest names v' → v = v' := by
  constructor
  · rintro ⟨file, hfile⟩
    constructor
    · intro n hn
      obtain ⟨front, h⟩ := exists_lists_last hn
      exact (latestAmong_ok_iff typings library _).mp ⟨_, hfile _ h⟩ n ((h.2 n).mpr hn)
    · intro v v' hv hv'
      obtain ⟨order, h, hout⟩ := (exists_latestAmong_iff v).mpr hv
      obtain ⟨order', h', hout'⟩ := (exists_latestAmong_iff v').mpr hv'
      rw [hfile _ h, ← hfile _ h', hout'] at hout
      exact (fileOf_injective (Option.some.inj (Except.ok.inj hout))).symm
  · rintro ⟨hread, huniq⟩
    rcases names.eq_empty_or_nonempty with rfl | hne
    · refine ⟨none, fun order h => ?_⟩
      rw [h.nil_iff.mpr rfl, latestAmong_nil]
    · obtain ⟨_, h₀⟩ := exists_lists_last hne.choose_spec
      obtain ⟨v, hv, -⟩ := latestAmong_ok typings library h₀ hread hne
      refine ⟨some (fileOf typings library v), fun order h => ?_⟩
      obtain ⟨v', hv', hout⟩ := latestAmong_ok typings library h hread hne
      rw [hout, huniq v' v hv' hv]

theorem read_decimal {n : Name} (h : Version.Dotted n.text)
    (hfits : Tree.byteLength n.text ≤ Tree.nameLimit) :
    Version.read n.text = .ok ((Version.numbers n.text).map .number) :=
  Version.read_dotted h
    (((Tree.length_le_byteLength n.text).trans hfits).trans (by decide))

theorem latestAmong_decimal (h : Lists order names) (hne : names.Nonempty)
    (hdec : ∀ n ∈ names, Version.Dotted n.text ∧ Tree.byteLength n.text ≤ Tree.nameLimit) :
    ∃ v ∈ names, latestAmong? typings library order = .ok (some (fileOf typings library v)) ∧
      ∀ n ∈ names, Version.numbers n.text ≤ Version.numbers v.text := by
  have hread (n : Name) (hn : n ∈ names) := read_decimal (hdec n hn).1 (hdec n hn).2
  obtain ⟨v, hv, hout⟩ := latestAmong_ok typings library h
    (fun n hn => ⟨_, hread n hn⟩) hne
  refine ⟨v, hv.1, hout, fun n hn => ?_⟩
  obtain ⟨vn, vv, hvn, hvv, hle⟩ := hv.2 n hn
  rw [hread n hn] at hvn
  rw [hread v hv.1] at hvv
  cases hvn
  cases hvv
  exact (Version.le_numbers _ _).mp hle

/-! ## The directory of a library -/

def held (listing : Entries) (library : Name) : List Name :=
  listing.filterMap fun (way, _) =>
    match way with
    | [v, f] => if f = file library then some v else none
    | _ => none

theorem versions_eq (listing : Entries) (library : Name) :
    versions listing library.text = (held listing library).map Name.text := by
  have hfile (f : Name) : f.text = fileName library.text ↔ f = file library :=
    ⟨fun h => Name.text_injective h, fun h => by rw [h]; rfl⟩
  rw [versions, held, List.map_filterMap]
  congr 1
  funext ⟨way, e⟩
  match way with
  | [] => rfl
  | [_] => rfl
  | [v, f] =>
    simp only [hfile]
    split <;> rfl
  | _ :: _ :: _ :: _ => rfl

theorem held_eq_some {way : Location} {v : Name} :
    (match way with
      | [v, f] => if f = file library then some v else none
      | _ => none) = some v ↔ way = [v, file library] := by
  match way with
  | [] => simp
  | [_] => simp
  | [v', f] =>
    by_cases hf : f = file library
    · simp [hf]
    · simp [hf]
  | _ :: _ :: _ :: _ => simp

theorem mem_held_iff {t : Tree} {l : Location} {v : Name} :
    v ∈ held (t.below l) library ↔ (t.get? (l ++ [v, file library])).isSome := by
  rw [held, List.mem_filterMap, Option.isSome_iff_exists]
  constructor
  · rintro ⟨⟨way, e⟩, hmem, hv⟩
    rw [held_eq_some] at hv
    rw [Tree.mem_below_iff, hv] at hmem
    exact ⟨e, hmem.2⟩
  · rintro ⟨e, he⟩
    exact ⟨⟨[v, file library], e⟩, (Tree.mem_below_iff ..).mpr ⟨by simp, he⟩,
      held_eq_some.mpr rfl⟩

theorem lists_held {t : Tree} {l : Location}
    (h : ∀ v, v ∈ names ↔ (t.get? (l ++ [v, file library])).isSome) :
    Lists (held (t.below l) library) names := by
  constructor
  · rw [held, List.Nodup, List.pairwise_filterMap]
    apply (t.ordered_below l).imp
    rintro ⟨way, e⟩ ⟨way', e'⟩ hlt v hv v' hv' rfl
    rw [held_eq_some] at hv hv'
    rw [hv, hv'] at hlt
    exact List.lt_irrefl _ hlt
  · exact fun v => mem_held_iff.trans (h v).symm

theorem latest_eq {w : Workspace} (hs : w.Stands (typings / library.text)) :
    latest? typings library.text w = Action.ofExcept (latestAmong? typings library
      (held (w.tree.below ((typings / library.text).location w.current)) library)) w := by
  have hbelow : w.below (typings / library.text) =
      .ok (w.tree.below ((typings / library.text).location w.current)) := by
    rw [Workspace.below, hs]
    change (w.resolve _ >>= fun l => pure (w.tree.below l)) = _
    rw [hs.resolve]
    rfl
  have hask : Action.ask (·.below (typings / library.text)) w =
      .ok (w.tree.below ((typings / library.text).location w.current)) w := by
    rw [Action.ask, hbelow]
  unfold latest?
  simp only [bind, EStateM.bind, hask, versions_eq, latestAmong?]
  cases Version.latest? ((held _ library).map Name.text) <;> rfl

end

/-- The file that is copied for a library, in whatever order the versions are listed: it can be that
of each name with the latest version, and of no other; it is always the same one exactly if there is
one such name and all versions can be read. Of decimal versions the greatest is chosen. -/
theorem latest_settled (typings : Path) (library : Name) (names : Finset Name) :
    (∀ v, (∃ order, Lists order names ∧
        latestAmong? typings library order = .ok (some (fileOf typings library v))) ↔
      Latest names v) ∧
    ((∃ file, ∀ order, Lists order names → latestAmong? typings library order = .ok file) ↔
      (∀ n ∈ names, Version.Readable n.text) ∧
        ∀ v v', Latest names v → Latest names v' → v = v') ∧
    (names.Nonempty →
      (∀ n ∈ names, Version.Dotted n.text ∧ Tree.byteLength n.text ≤ Tree.nameLimit) →
      ∀ order, Lists order names → ∃ v ∈ names,
        latestAmong? typings library order = .ok (some (fileOf typings library v)) ∧
        ∀ n ∈ names, Version.numbers n.text ≤ Version.numbers v.text) ∧
    ∀ w : Workspace, w.Stands (typings / library.text) →
      (∀ v, v ∈ names ↔ (w.tree.get?
        ((typings / library.text).location w.current ++ [v, file library])).isSome) →
      ∃ order, Lists order names ∧
        latest? typings library.text w =
          Action.ofExcept (latestAmong? typings library order) w := by
  refine ⟨exists_latestAmong_iff, latestAmong_const_iff, fun hne hdec order h => ?_,
    fun w hs hnames => ?_⟩
  · exact latestAmong_decimal h hne hdec
  · exact ⟨_, lists_held hnames, latest_eq hs⟩

/-! ## Samples -/

def sampleTypings : Path := Path.parse "typings".toList

def sampleLibrary : Name := ⟨"PipeWrench".toList, by decide⟩

def ninthVersion : Name := ⟨"1.9".toList, by decide⟩

def tenthVersion : Name := ⟨"1.10".toList, by decide⟩

theorem sample_tenth_settled :
    (∀ n ∈ ({ninthVersion, tenthVersion} : Finset Name),
      Version.Dotted n.text ∧ Tree.byteLength n.text ≤ Tree.nameLimit) ∧
    ∀ order, Lists order {ninthVersion, tenthVersion} →
      latestAmong? sampleTypings sampleLibrary order =
        .ok (some (fileOf sampleTypings sampleLibrary tenthVersion)) := by
  have hdec : ∀ n ∈ ({ninthVersion, tenthVersion} : Finset Name),
      Version.Dotted n.text ∧ Tree.byteLength n.text ≤ Tree.nameLimit := by decide
  refine ⟨hdec, fun order h => ?_⟩
  obtain ⟨-, -, hdecimal, -⟩ :=
    latest_settled sampleTypings sampleLibrary {ninthVersion, tenthVersion}
  obtain ⟨v, hv, hout, hmax⟩ := hdecimal ⟨ninthVersion, by simp⟩ hdec order h
  have hle := hmax tenthVersion (by simp)
  rcases Finset.mem_insert.mp hv with rfl | hv
  · exact absurd hle (by decide)
  · rw [hout, Finset.mem_singleton.mp hv]

def plainVersion : Name := ⟨"1.0".toList, by decide⟩

def paddedVersion : Name := ⟨"01.0".toList, by decide⟩

theorem sample_tie_reordered :
    Lists [plainVersion, paddedVersion] {plainVersion, paddedVersion} ∧
    Lists [paddedVersion, plainVersion] {plainVersion, paddedVersion} ∧
    latestAmong? sampleTypings sampleLibrary [plainVersion, paddedVersion] ≠
      latestAmong? sampleTypings sampleLibrary [paddedVersion, plainVersion] := by
  have hplain : Lists ([paddedVersion] ++ [plainVersion]) {plainVersion, paddedVersion} :=
    ⟨by decide, by simp [or_comm]⟩
  have hpadded : Lists ([plainVersion] ++ [paddedVersion]) {plainVersion, paddedVersion} :=
    ⟨by decide, by simp⟩
  have hlatest : ∀ v ∈ ({plainVersion, paddedVersion} : Finset Name),
      Latest {plainVersion, paddedVersion} v := by
    have hread : ∀ n ∈ ({plainVersion, paddedVersion} : Finset Name),
        Version.read n.text = .ok [.number 1, .number 0] := by decide
    exact fun v hv => ⟨hv, fun n hn => ⟨_, _, hread n hn, hread v hv, rfl⟩⟩
  refine ⟨hpadded, hplain, fun h => ?_⟩
  change latestAmong? _ _ ([plainVersion] ++ [paddedVersion]) =
    latestAmong? _ _ ([paddedVersion] ++ [plainVersion]) at h
  rw [latestAmong_last hpadded (hlatest _ (by simp)),
    latestAmong_last hplain (hlatest _ (by simp))] at h
  exact absurd (fileOf_injective (Option.some.inj (Except.ok.inj h))) (by decide)

end Library

end ModBuild
