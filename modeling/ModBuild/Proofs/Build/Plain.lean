import ModBuild.Proofs.Build.Copying
import ModBuild.Proofs.Build.Mirroring
import ModBuild.Proofs.Workspace.Alike
import ModBuild.Proofs.Text.Rows

/-!
# Copies without banners

A copy reads its source and makes its destination, and what it writes is told by the bytes alone.
Without a header and a footer these are the bytes of the source for every asset that takes no
banners. A Lua module goes through its text: bytes that are no text stop the copy, and line ends
come out as line feeds, so only a module without carriage returns is copied as it is.
-/

set_option autoImplicit false

namespace ModBuild.Asset

variable {source destination : Path} {config : Config} {year : Nat} {w w' : Workspace}
  {bytes : ByteArray}

/-- The directories for a path can be made, and a file can be written there. -/
def Writable (w : Workspace) (p : Path) : Prop :=
  ∃ v w', Action.makeDirectories p.parent w = .ok () v ∧ Action.writeBytes p .empty v = .ok () w'

theorem writeBytes_again {p : Path} {b : ByteArray} {u : Unit}
    (h : Action.writeBytes p b w = .ok u w') (b' : ByteArray) :
    ∃ v, Action.writeBytes p b' w = .ok () v := by
  obtain ⟨l, t, hr, -, ht, -⟩ := Workspace.onTree_ok (Action.change_eq_ok.mp h)
  unfold Tree.writeFile at ht
  split at ht
  · cases ht
  · next hfree =>
    split at ht
    · next hparent => exact Action.writeBytes_free hr hparent hfree b'
    · cases ht

theorem readBytes_after {v : Workspace} {p : Path} {u : Unit} (hv : w.Alike v)
    (hmake : Action.makeDirectories p v = .ok u w') (hread : w.readBytes source = .ok bytes) :
    w'.readBytes source = .ok bytes ∧ w'.tree.file? = w.tree.file? := by
  have hleads := Action.makeDirectories_outer p v
  rw [Action.final_of_ok hmake] at hleads
  have hfiles (l : Location) : w'.tree.file? l = w.tree.file? l := by
    rw [hleads.file_untouched (by simp), hv.tree]
  refine ⟨Workspace.readBytes_kept (hleads.current.trans hv.current) (fun l hl => ?_) (hfiles _)
    hread, funext hfiles⟩
  exact hleads.kept l (by rwa [hv.tree])

theorem copy_ready (config : Config) (year : Nat) (hread : w.readBytes source = .ok bytes)
    (hwritable : Writable w destination) :
    ∃ v, v.readBytes source = .ok bytes ∧ v.tree.file? = w.tree.file? ∧
      (∀ b, ∃ w', Action.writeBytes destination b v = .ok () w') ∧
      copy source destination config year w =
        (if Banner.applies destination then
          Action.readText source >>= fun s =>
            Action.writeText? destination (Banner.wrap? config year s)
        else Action.readBytes source >>= fun b => Action.writeBytes destination b) v := by
  obtain ⟨x, y, hx, hy⟩ := hwritable
  obtain ⟨w₁, hlog, htree, hcurrent⟩ := Build.log_same .info ("Copying \"".toList ++ source.print ++
    "\" to \"".toList ++ destination.print ++ "\"..".toList) w
  have hw₁ : w.Alike w₁ := ⟨htree, hcurrent⟩
  obtain ⟨v, hmake, hv⟩ := (Action.blind_makeDirectories _).ok hw₁ hx
  obtain ⟨z, hz, -⟩ := (Action.blind_writeBytes _ _).ok hv hy
  obtain ⟨hread', hfiles⟩ := readBytes_after hw₁ hmake hread
  refine ⟨v, hread', hfiles, writeBytes_again hz, ?_⟩
  unfold copy
  rw [Action.bind_of_ok hlog, Action.bind_of_ok hmake]

theorem copy_ok_iff (destination : Path) (config : Config) (year : Nat)
    (hread : w.readBytes source = .ok bytes) :
    (∃ w', copy source destination config year w = .ok () w') ↔
      Writable w destination ∧ (content? config year destination bytes).isSome := by
  constructor
  · rintro ⟨w', h⟩
    obtain ⟨v, v', u, read, b, htree, hcurrent, hmake, hbytes, hcontent, hwrite⟩ := copy_steps h
    have hv : w.Alike v := ⟨htree, hcurrent⟩
    rw [(readBytes_after hv hmake hread).1] at hbytes
    obtain rfl := Except.ok.inj hbytes
    obtain ⟨x, hx⟩ := writeBytes_again hwrite .empty
    obtain ⟨y, hy, hyv⟩ := (Action.blind_makeDirectories _).ok hv.symm hmake
    obtain ⟨z, hz, -⟩ := (Action.blind_writeBytes _ _).ok hyv hx
    exact ⟨⟨y, z, hy, hz⟩, by rw [hcontent]; rfl⟩
  · rintro ⟨hwritable, hcontent⟩
    obtain ⟨v, hread', -, hwrite, hcopy⟩ := copy_ready config year hread hwritable
    rw [hcopy]
    exact Build.transfer_ok hread' hcontent hwrite

theorem copy_garbled (config : Config) (year : Nat) (hread : w.readBytes source = .ok bytes)
    (hwritable : Writable w destination) (happ : Banner.applies destination = true)
    (hgarbled : Text.decode? bytes = none) :
    ∃ w', copy source destination config year w = .error .notText w' ∧
      w'.tree.file? = w.tree.file? := by
  obtain ⟨v, hread', hfiles, -, hcopy⟩ := copy_ready config year hread hwritable
  have htext : v.readText source = .error .notText := by
    unfold Workspace.readText
    rw [hread']
    simp only [bind, Except.bind, hgarbled]
    rfl
  have hfail : Action.readText source v = .error .notText v := by
    rw [Action.readText, Action.ask, htext]
  exact ⟨v, by rw [hcopy, if_pos happ, Action.bind_of_error hfail], hfiles⟩

theorem wrap?_blank (hheader : config.header.getD [] = []) (hfooter : config.footer.getD [] = [])
    (year : Nat) (s : Text) : Banner.wrap? config year s = some s := by
  have htokens : ∃ tokens, Banner.Tokens.ofConfig? config year = some tokens := by
    rw [Banner.Tokens.ofConfig?, Banner.Tokens.namesOwner, Banner.Tokens.namesOwner, hheader,
      hfooter]
    cases CodePoint.text? config.owner with
    | some owner => exact ⟨_, rfl⟩
    | none => exact ⟨_, rfl⟩
  obtain ⟨tokens, htokens⟩ := htokens
  rw [Banner.wrap?, htokens, Option.map_some, Banner.around, Banner.render, Banner.render, hheader,
    hfooter]
  rfl

/-- What a file becomes without banners: a Lua module comes out of its text. -/
def plain (destination : Path) (bytes : ByteArray) : Option ByteArray :=
  if Banner.applies destination then
    (Text.decode? bytes).map fun t => Text.encode (Text.unifyBreaks t)
  else some bytes

theorem content?_blank (hheader : config.header.getD [] = []) (hfooter : config.footer.getD [] = [])
    (year : Nat) (destination : Path) (bytes : ByteArray) :
    content? config year destination bytes = plain destination bytes := by
  rw [content?, plain]
  split
  · cases Text.decode? bytes with
    | none => rfl
    | some t => rw [Option.bind_some, wrap?_blank hheader hfooter]; rfl
  · rfl

theorem plain_isSome_iff : (plain destination bytes).isSome ↔
    (Banner.applies destination = true → (Text.decode? bytes).isSome) := by
  rw [plain]
  split
  · next happ => simp [happ]
  · next happ => simp [happ]

theorem plain_eq_iff : plain destination bytes = some bytes ↔ Banner.applies destination = false ∨
    ∃ t, Text.decode? bytes = some t ∧ '\r' ∉ t := by
  rw [plain]
  split
  · next happ =>
    rw [happ, Option.map_eq_some_iff, or_iff_right (by decide)]
    refine exists_congr fun t => and_congr_right fun ht => ?_
    rw [← Text.encode_of_decode? ht]
    constructor
    · intro heq
      have hback := congrArg Text.decode? heq
      rw [Text.decode?_encode, Text.decode?_encode, Option.some.injEq] at hback
      exact Text.unifyBreaks_eq_self_iff.mp hback
    · intro hno
      rw [Text.unifyBreaks_eq_self_iff.mpr hno]
  · next happ => simp [happ]

/-- Without a header and a footer, a file can be copied to wherever a file can be made, unless it is
a Lua module that is no text; then nothing is changed. What is copied has the bytes of the source
exactly if it is no Lua module that takes banners, or is one without carriage returns. -/
theorem copy_keeps_iff (source destination : Path) (config : Config) (year : Nat) (w : Workspace)
    (bytes : ByteArray) (hheader : config.header.getD [] = [])
    (hfooter : config.footer.getD [] = []) (hread : w.readBytes source = .ok bytes)
    (hapart : source.location w.current ≠ destination.location w.current) :
    ((∃ w', copy source destination config year w = .ok () w') ↔ Writable w destination ∧
      (Banner.applies destination = true → (Text.decode? bytes).isSome)) ∧
    (∀ w', copy source destination config year w = .ok () w' →
      w'.tree.file? (destination.location w.current) = plain destination bytes ∧
      ∀ l, l ≠ destination.location w.current → w'.tree.file? l = w.tree.file? l) ∧
    (Writable w destination → Banner.applies destination = true → Text.decode? bytes = none →
      ∃ w', copy source destination config year w = .error .notText w' ∧
        w'.tree.file? = w.tree.file?) ∧
    ((∃ w', copy source destination config year w = .ok () w' ∧
        w'.tree.file? (destination.location w.current) = some bytes ∧
        w'.tree.file? (source.location w.current) = some bytes) ↔ Writable w destination ∧
      (Banner.applies destination = false ∨ ∃ t, Text.decode? bytes = some t ∧ '\r' ∉ t)) := by
  have hsource := (Workspace.readBytes_ok hread).2
  have hok := copy_ok_iff destination config year hread
  rw [content?_blank hheader hfooter] at hok
  have hleft (w' : Workspace) (h : copy source destination config year w = .ok () w') :
      w'.tree.file? (destination.location w.current) = plain destination bytes ∧
      ∀ l, l ≠ destination.location w.current → w'.tree.file? l = w.tree.file? l := by
    constructor
    · rw [copy_writes h, copied, hsource, Option.bind_some, content?_blank hheader hfooter]
    · intro l hl
      apply (copy_leads h).1.file_untouched
      intro x hx
      rw [List.mem_singleton.mp hx]
      exact hl.symm
  refine ⟨hok.trans (and_congr_right' plain_isSome_iff), hleft, copy_garbled config year hread, ?_⟩
  rw [← plain_eq_iff]
  constructor
  · rintro ⟨w', h, hkept, -⟩
    obtain ⟨hwritable, -⟩ := hok.mp ⟨w', h⟩
    exact ⟨hwritable, by rw [← (hleft w' h).1, hkept]⟩
  · rintro ⟨hwritable, hplain⟩
    obtain ⟨w', h⟩ := hok.mpr ⟨hwritable, by rw [hplain]; rfl⟩
    obtain ⟨hwritten, hrest⟩ := hleft w' h
    exact ⟨w', h, by rw [hwritten, hplain], by rw [hrest _ hapart, hsource]⟩

/-! A memo whose line ends with a carriage return and a line feed, copied as it is and as a Lua
module. -/

def sampleMemo : Path := Path.ofLocation [⟨"memo.txt".toList, by decide⟩]

def sampleBytes : ByteArray := Text.encode "return 1\r\n".toList

def sampleFolder : Workspace where
  tree := (Tree.empty.writeFile (sampleMemo.location []) sampleBytes).toOption.getD .empty

def sampleAsset : Path := along sampleDestination [⟨"memo.txt".toList, by decide⟩]

def sampleCopy : Path := along sampleDestination [⟨"memo.lua".toList, by decide⟩]

theorem sample_memo_read : sampleFolder.readBytes sampleMemo = .ok sampleBytes := by rfl

theorem sample_memo_copied : ∀ p ∈ [sampleAsset, sampleCopy],
    ∃ w', copy sampleMemo p {} 2024 sampleFolder = .ok () w' := by
  have hall : ∀ p ∈ [sampleAsset, sampleCopy],
      ((copy sampleMemo p {} 2024).result? sampleFolder).isSome = true := by
    decide +kernel
  intro p hp
  obtain ⟨⟨_, w'⟩, hresult⟩ := Option.isSome_iff_exists.mp (hall p hp)
  exact ⟨w', Action.result_eq_some.mp hresult⟩

theorem sample_memo_kept :
    (∃ w', copy sampleMemo sampleAsset {} 2024 sampleFolder = .ok () w' ∧
      w'.tree.file? (sampleAsset.location []) = some sampleBytes) ∧
    ∃ w', copy sampleMemo sampleCopy {} 2024 sampleFolder = .ok () w' ∧
      w'.tree.file? (sampleCopy.location []) = some (Text.encode "return 1\n".toList) := by
  have hasset : plain sampleAsset sampleBytes = some sampleBytes := by decide +kernel
  have hmodule : plain sampleCopy sampleBytes = some (Text.encode "return 1\n".toList) := by
    decide +kernel
  obtain ⟨w', h⟩ := sample_memo_copied sampleAsset (by simp)
  obtain ⟨w'', h'⟩ := sample_memo_copied sampleCopy (by simp)
  obtain ⟨-, hleft, -⟩ := copy_keeps_iff sampleMemo sampleAsset {} 2024 sampleFolder sampleBytes rfl
    rfl sample_memo_read (by decide)
  obtain ⟨-, hleft', -⟩ := copy_keeps_iff sampleMemo sampleCopy {} 2024 sampleFolder sampleBytes
    rfl rfl sample_memo_read (by decide)
  exact ⟨⟨w', h, (hleft w' h).1.trans hasset⟩, w'', h', (hleft' w'' h').1.trans hmodule⟩

theorem sample_memo_changed : ¬ ∀ (source destination : Path) (config : Config) (year : Nat)
    (w : Workspace) (bytes : ByteArray), config.header.getD [] = [] → config.footer.getD [] = [] →
    w.readBytes source = .ok bytes →
    source.location w.current ≠ destination.location w.current → Writable w destination →
    ∃ w', copy source destination config year w = .ok () w' ∧
      w'.tree.file? (destination.location w.current) = some bytes := by
  intro hall
  have hcopied := sample_memo_copied sampleCopy (by simp)
  have hwritable := ((copy_ok_iff sampleCopy {} 2024 sample_memo_read).mp hcopied).1
  obtain ⟨w', h, hkept⟩ := hall sampleMemo sampleCopy {} 2024 sampleFolder sampleBytes rfl rfl
    sample_memo_read (by decide) hwritable
  have hchanged : (copied {} 2024 sampleFolder sampleMemo sampleCopy).2 ≠ some sampleBytes := by
    decide +kernel
  exact hchanged ((copy_writes h).symm.trans hkept)

end ModBuild.Asset
