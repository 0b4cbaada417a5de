import Clipse.Store.Disk

/-!
# The invariant of the blob files (`clipse-store/src/blob.rs`)

`Sound` is what the files and the rows of `blob_meta` are to be, `Careful` what a step has to avoid
for that.

* `Orderly`: the invariant. Of the writers of a digest one at most has the temporary file, and a file
  without a row has a `put_blob` that will still write the row.
* `orderly_step`: a careful step keeps it.
-/

namespace Clipse

namespace Put

/-- The temporary file is this call's. -/
def Writing (p : Put) : Prop :=
  match p.phase with
  | .append .. | .rename => True
  | _ => False

/-- The blob's file is there, its row not yet. -/
def Settled (p : Put) : Prop :=
  match p.phase with
  | .sequence | .record _ => True
  | _ => False

/-- What the temporary file holds. -/
def Written (p : Put) (files : Files BlobPath) : Prop :=
  match p.phase with
  | .append file written =>
    files.dir (.tmp p.digest) = some file ∧
      files.read (.tmp p.digest) = some (p.bytes.take written)
  | .rename => files.read (.tmp p.digest) = some p.bytes
  | _ => True

theorem Written.congr {p : Put} {files files' : Files BlobPath} (h : p.Written files)
    (hsame : p.Writing → files'.dir (.tmp p.digest) = files.dir (.tmp p.digest) ∧
      files'.read (.tmp p.digest) = files.read (.tmp p.digest)) : p.Written files' := by
  obtain ⟨digest, bytes, phase⟩ := p
  cases phase with
  | append file written =>
    obtain ⟨hdir, hread⟩ := hsame trivial
    exact ⟨hdir.trans h.1, hread.trans h.2⟩
  | rename => exact (hsame trivial).2.trans h
  | _ => trivial

end Put

/-! ## The rows of `blob_meta` -/

namespace Store

theorem recorded_upsertMeta (s : Store) (digest d : ContentHash) (size seq : Nat) :
    (s.upsertMeta digest size seq).recorded d = (s.recorded d || d = digest) :=
  s.blobMeta.isSome_find?_upsert ⟨digest, size, seq⟩ (·.digest = digest)
    (fun m => { m with usedSeq := seq }) (fun _ => rfl) d

theorem recorded_deleteMeta (s : Store) (digest d : ContentHash) :
    (s.deleteMeta digest).recorded d = (s.recorded d && d ≠ digest) := by
  show ((s.blobMeta.erase (·.digest = digest)).find? d).isSome = _
  rw [Table.find?_erase]
  by_cases hd : d = digest <;> simp [recorded, hd]

end Store

namespace Disk

/-! ## What is to hold -/

/-- A file holds the bytes that it is named for. -/
def FilesGenuine [Blake3] (s : Disk) : Prop :=
  ∀ d, s.hasBlob d → ∃ bytes, s.files.read (.blob d) = some bytes ∧ ContentHash.of bytes = d

def Idle (s : Disk) : Prop := (∀ thread, s.puts thread = none) ∧ s.sweep = none

/-- `blob_meta` lists the files that there are. -/
def RowsMatch (s : Disk) : Prop :=
  s.Idle → s.crashed = false → ∀ d, s.tables.recorded d ↔ s.hasBlob d

def Sound [Blake3] (s : Disk) : Prop := s.FilesGenuine ∧ s.RowsMatch

/-- No temporary file is opened while another `put_blob` has it, and no file is removed while a
`put_blob` is still to write its row. -/
def Careful (s : Disk) : Act → Disk → Prop
  | .create thread, _ => ∀ p, s.puts thread = some p →
      ∀ other q, s.puts other = some q → q.digest = p.digest → ¬ q.Writing
  | .remove, _ => ∀ kind m todo, s.sweep = some ⟨kind, m :: todo, false⟩ →
      ∀ thread p, s.puts thread = some p → p.digest = m.digest → ¬ p.Settled
  | _, _ => True

/-! ## The invariant -/

/-- A running `put_blob` will write the row. -/
def Pending (s : Disk) (d : ContentHash) : Prop :=
  ∃ thread p, s.puts thread = some p ∧ p.digest = d ∧ p.Settled

/-- The file has been removed and the row is next. -/
def Removing (s : Disk) (d : ContentHash) : Prop :=
  ∃ kind m todo, s.sweep = some ⟨kind, m :: todo, true⟩ ∧ m.digest = d

structure Orderly [Blake3] (s : Disk) : Prop where
  genuine : ∀ d bytes, s.files.read (.blob d) = some bytes → ContentHash.of bytes = d
  hashed : ∀ thread p, s.puts thread = some p → ContentHash.of p.bytes = p.digest
  written : ∀ thread p, s.puts thread = some p → p.Written s.files
  alone : ∀ thread p other q, s.puts thread = some p → s.puts other = some q →
    q.digest = p.digest → p.Writing → q.Writing → other = thread
  settled : ∀ thread p, s.puts thread = some p → p.Settled → s.hasBlob p.digest
  recorded : s.crashed = false → ∀ d, s.hasBlob d → s.tables.recorded d ∨ s.Pending d
  kept : s.crashed = false → ∀ d, s.tables.recorded d → s.hasBlob d ∨ s.Removing d
  removing : s.crashed = false → ∀ d, s.Removing d → s.hasBlob d → s.Pending d

theorem Orderly.sound [Blake3] {s : Disk} (h : s.Orderly) : s.Sound := by
  refine ⟨fun d hd => ?_, fun hi hc d => ⟨fun hr => ?_, fun hb => ?_⟩⟩
  · obtain ⟨bytes, hr⟩ := Files.isFile_iff.1 hd
    exact ⟨bytes, hr, h.genuine d bytes hr⟩
  · refine (h.kept hc d hr).resolve_right ?_
    intro ⟨kind, m, todo, hs, _⟩
    rw [hi.2] at hs
    cases hs
  · refine (h.recorded hc d hb).resolve_right ?_
    intro ⟨thread, p, hp, _⟩
    rw [hi.1] at hp
    cases hp

theorem orderly_open [Blake3] (quota : UInt64) : (open_ quota).Orderly where
  genuine _ _ h := by cases h
  hashed _ _ h := by cases h
  written _ _ h := by cases h
  alone _ _ _ _ h := by cases h
  settled _ _ h := by cases h
  recorded _ _ h := by cases h
  kept _ _ h := by cases h
  removing _ _ := by
    intro ⟨_, _, _, h, _⟩
    cases h

/-! ## The calls after a step -/

section
variable {s s' : Disk} {thread other : Nat} {o : Option Put} {p q : Put} {d : ContentHash}

theorem puts_update (hputs : s'.puts = Function.update s.puts thread o)
    (h : s'.puts other = some q) : other = thread ∧ o = some q ∨ other ≠ thread ∧ s.puts other = some q := by
  rw [hputs] at h
  by_cases he : other = thread
  · subst he
    rw [Function.update_self] at h
    exact .inl ⟨rfl, h⟩
  · rw [Function.update_of_ne he] at h
    exact .inr ⟨he, h⟩

theorem hasBlob_congr (hblob : ∀ d, s'.files.read (.blob d) = s.files.read (.blob d))
    (d : ContentHash) : s'.hasBlob d = s.hasBlob d := by
  rw [hasBlob, hasBlob, Files.isFile_eq, Files.isFile_eq, hblob]

/-- A call that was pending still is, if it did not stop being so in this step. -/
theorem Pending.update (h : s.Pending d) (hputs : s'.puts = Function.update s.puts thread o)
    (hold : ∀ q, s.puts thread = some q → q.digest = d → q.Settled →
      ∃ p, o = some p ∧ p.digest = d ∧ p.Settled) : s'.Pending d := by
  obtain ⟨other, q, hq, hd, hs⟩ := h
  by_cases he : other = thread
  · subst he
    obtain ⟨p, hp, hd', hs'⟩ := hold q hq hd hs
    exact ⟨other, p, by rw [hputs, Function.update_self, hp], hd', hs'⟩
  · exact ⟨other, q, by rw [hputs, Function.update_of_ne he, hq], hd, hs⟩

variable [Blake3]

/-- A step of one `put_blob` that leaves the blobs' files and the tables' rows alone. -/
theorem Orderly.advance (h : s.Orderly) (hputs : s'.puts = Function.update s.puts thread (some p))
    (hblob : ∀ d, s'.files.read (.blob d) = s.files.read (.blob d))
    (hrows : s'.tables.blobMeta = s.tables.blobMeta) (hsweep : s'.sweep = s.sweep)
    (hcrashed : s'.crashed = s.crashed) (hhash : ContentHash.of p.bytes = p.digest)
    (hwritten : p.Written s'.files)
    (hothers : ∀ other q, other ≠ thread → s.puts other = some q → q.Written s'.files)
    (halone : p.Writing → ∀ other q, other ≠ thread → s.puts other = some q →
      q.digest = p.digest → ¬ q.Writing)
    (hsettled : p.Settled → s.hasBlob p.digest)
    (hold : ∀ q, s.puts thread = some q → q.Settled → p.digest = q.digest ∧ p.Settled) :
    s'.Orderly := by
  have hhas := hasBlob_congr hblob
  have hrec : ∀ d, s'.tables.recorded d = s.tables.recorded d := by
    intro d
    rw [Store.recorded, Store.recorded, hrows]
  have hpend : ∀ d, s.Pending d → s'.Pending d := fun d hd =>
    hd.update hputs fun q hq hd hs =>
      ⟨p, rfl, (hold q hq hs).1.trans hd, (hold q hq hs).2⟩
  have hrem : ∀ d, s'.Removing d ↔ s.Removing d := by
    intro d
    rw [Removing, hsweep, Removing]
  refine ⟨?_, ?_, ?_, ?_, ?_, ?_, ?_, ?_⟩
  · intro d bytes hr
    rw [hblob] at hr
    exact h.genuine d bytes hr
  · intro t q hq
    rcases puts_update hputs hq with ⟨-, he⟩ | ⟨-, hq⟩
    · cases he
      exact hhash
    · exact h.hashed t q hq
  · intro t q hq
    rcases puts_update hputs hq with ⟨-, he⟩ | ⟨hne, hq⟩
    · cases he
      exact hwritten
    · exact hothers t q hne hq
  · intro t q t' q' hq hq' hd hw hw'
    rcases puts_update hputs hq with ⟨ht, he⟩ | ⟨ht, hq⟩ <;>
      rcases puts_update hputs hq' with ⟨ht', he'⟩ | ⟨ht', hq'⟩
    · exact ht'.trans ht.symm
    · cases he
      exact absurd hw' (halone hw t' q' ht' hq' hd)
    · cases he'
      exact absurd hw (halone hw' t q ht hq hd.symm)
    · exact h.alone t q t' q' hq hq' hd hw hw'
  · intro t q hq hs
    rw [hhas]
    rcases puts_update hputs hq with ⟨-, he⟩ | ⟨-, hq⟩
    · cases he
      exact hsettled hs
    · exact h.settled t q hq hs
  · intro hc d hd
    rw [hhas] at hd
    rw [hrec]
    exact (h.recorded (hcrashed ▸ hc) d hd).imp_right (hpend d)
  · intro hc d hd
    rw [hrec] at hd
    rw [hhas, hrem]
    exact h.kept (hcrashed ▸ hc) d hd
  · intro hc d hd hb
    rw [hrem] at hd
    rw [hhas] at hb
    exact hpend d (h.removing (hcrashed ▸ hc) d hd hb)

/-- A step that touches neither the calls nor the files. -/
theorem Orderly.of_tables (h : s.Orderly) (hputs : s'.puts = s.puts) (hfiles : s'.files = s.files)
    (hcrashed : s'.crashed = s.crashed)
    (hrec : s.crashed = false → ∀ d, s.hasBlob d → s'.tables.recorded d ∨ s.Pending d)
    (hkept : s.crashed = false → ∀ d, s'.tables.recorded d → s.hasBlob d ∨ s'.Removing d)
    (hrem : s.crashed = false → ∀ d, s'.Removing d → s.hasBlob d → s.Pending d) : s'.Orderly := by
  have hpend : ∀ d, s'.Pending d ↔ s.Pending d := by
    intro d
    rw [Pending, hputs, Pending]
  have hhas : ∀ d, s'.hasBlob d = s.hasBlob d := by
    intro d
    rw [hasBlob, hfiles, hasBlob]
  refine ⟨?_, ?_, ?_, ?_, ?_, ?_, ?_, ?_⟩
  · rw [hfiles]
    exact h.genuine
  · rw [hputs]
    exact h.hashed
  · rw [hputs, hfiles]
    exact h.written
  · rw [hputs]
    exact h.alone
  · rw [hputs]
    intro t p hp hs
    rw [hhas]
    exact h.settled t p hp hs
  · intro hc d hd
    rw [hhas] at hd
    rw [hpend]
    exact hrec (hcrashed ▸ hc) d hd
  · intro hc d hd
    rw [hhas]
    exact hkept (hcrashed ▸ hc) d hd
  · intro hc d hd hb
    rw [hhas] at hb
    rw [hpend]
    exact hrem (hcrashed ▸ hc) d hd hb

end

/-! ## One step -/

section
variable [Blake3] {s : Disk} {thread other : Nat} {digest : ContentHash} {bytes : Bytes}
  {p q : Put} {file written count seq : Nat} {files : Files BlobPath}

/-- While a call has the temporary file, whoever else has one has another. -/
theorem Orderly.apart (h : s.Orderly) (hp : s.puts thread = some p) (hw : p.Writing)
    (hne : other ≠ thread) (hq : s.puts other = some q) (hw' : q.Writing) : q.digest ≠ p.digest :=
  fun hd => hne (h.alone thread p other q hp hq hd hw hw')

omit [Blake3] in
theorem tmp_ne (h : q.digest ≠ digest) : BlobPath.tmp q.digest ≠ .tmp digest :=
  fun he => h (BlobPath.tmp.inj he)

theorem orderly_test (h : s.Orderly) (hp : s.puts thread = some ⟨digest, bytes, .test⟩) :
    (s.setPut thread
      (some ⟨digest, bytes, if s.hasBlob digest then .sequence else .create⟩)).Orderly := by
  have hhash : ContentHash.of bytes = digest := h.hashed thread _ hp
  have hold : ∀ {phase : PutPhase} (q : Put), s.puts thread = some q → q.Settled →
      digest = q.digest ∧ Put.Settled ⟨digest, bytes, phase⟩ := by
    intro phase q hq hs
    rw [hp] at hq
    cases hq
    exact False.elim hs
  split
  next hb =>
    exact h.advance rfl (fun _ => rfl) rfl rfl rfl hhash trivial (fun t q _ hq => h.written t q hq)
      (fun hw => False.elim hw) (fun _ => hb) hold
  next =>
    exact h.advance rfl (fun _ => rfl) rfl rfl rfl hhash trivial (fun t q _ hq => h.written t q hq)
      (fun hw => False.elim hw) (fun hs => False.elim hs) hold

theorem orderly_create (h : s.Orderly) (hp : s.puts thread = some ⟨digest, bytes, .create⟩)
    (hc : ∀ other q, s.puts other = some q → q.digest = digest → ¬ q.Writing) :
    ({ s with files := (s.files.create (.tmp digest)).2 }.setPut thread
      (some ⟨digest, bytes, .append (s.files.create (.tmp digest)).1 0⟩)).Orderly := by
  have hhash : ContentHash.of bytes = digest := h.hashed thread _ hp
  refine h.advance rfl (fun d => Files.read_create_of_ne nofun) rfl rfl rfl hhash
    ⟨Files.dir_create_self _ _, Files.read_create_self _ _⟩ (fun t q _ hq => ?_)
    (fun _ t q _ hq hd => hc t q hq hd) (fun hs => False.elim hs) fun q hq hs => ?_
  · refine (h.written t q hq).congr fun hw => ?_
    have hne := tmp_ne fun hd => hc t q hq hd hw
    exact ⟨Files.dir_create_of_ne hne, Files.read_create_of_ne hne⟩
  · rw [hp] at hq
    cases hq
    exact False.elim hs

theorem orderly_append (h : s.Orderly)
    (hp : s.puts thread = some ⟨digest, bytes, .append file written⟩)
    (hl : written + count ≤ bytes.length) :
    ({ s with files := s.files.writeAt file written ((bytes.drop written).take count) }.setPut
      thread (some ⟨digest, bytes, .append file (written + count)⟩)).Orderly := by
  have hhash : ContentHash.of bytes = digest := h.hashed thread _ hp
  obtain ⟨hdir, hread⟩ : s.files.dir (.tmp digest) = some file ∧
    s.files.read (.tmp digest) = some (bytes.take written) := h.written thread _ hp
  have happ : Files.overwrite (bytes.take written) written ((bytes.drop written).take count) =
      bytes.take (written + count) := by
    have hlen : (bytes.take written).length = written := by
      rw [List.length_take]
      omega
    calc Files.overwrite (bytes.take written) written ((bytes.drop written).take count)
        = Files.overwrite (bytes.take written) (bytes.take written).length
            ((bytes.drop written).take count) := by rw [hlen]
      _ = bytes.take (written + count) := by rw [Files.overwrite_length, List.take_add]
  refine h.advance rfl (fun d => Files.read_writeAt_of_ne hdir nofun) rfl rfl rfl hhash
    ⟨hdir, ?_⟩ (fun t q hne hq => ?_)
    (fun _ t q hne hq hd hw => h.apart hp trivial hne hq hw hd) (fun hs => False.elim hs)
    fun q hq hs => ?_
  · show (s.files.writeAt file written _).read (.tmp digest) = _
    rw [Files.read_writeAt_self hdir, hread, Option.map_some, happ]
  · refine (h.written t q hq).congr fun hw => ⟨rfl, ?_⟩
    exact Files.read_writeAt_of_ne hdir (tmp_ne (h.apart hp trivial hne hq hw))
  · rw [hp] at hq
    cases hq
    exact False.elim hs

theorem orderly_close (h : s.Orderly)
    (hp : s.puts thread = some ⟨digest, bytes, .append file bytes.length⟩) :
    (s.setPut thread (some ⟨digest, bytes, .rename⟩)).Orderly := by
  have hhash : ContentHash.of bytes = digest := h.hashed thread _ hp
  have hread : s.files.read (.tmp digest) = some (bytes.take bytes.length) :=
    (h.written thread _ hp).2
  rw [List.take_length] at hread
  refine h.advance rfl (fun _ => rfl) rfl rfl rfl hhash hread
    (fun t q _ hq => h.written t q hq) (fun _ t q hne hq hd hw => h.apart hp trivial hne hq hw hd)
    (fun hs => False.elim hs) fun q hq hs => ?_
  rw [hp] at hq
  cases hq
  exact False.elim hs

theorem orderly_sequence (h : s.Orderly)
    (hp : s.puts thread = some ⟨digest, bytes, .sequence⟩) :
    ({ s with tables := { s.tables with usedSeq := s.tables.usedSeq + 1 } }.setPut thread
      (some ⟨digest, bytes, .record (s.tables.usedSeq + 1)⟩)).Orderly := by
  have hhash : ContentHash.of bytes = digest := h.hashed thread _ hp
  have hsettled : s.hasBlob digest := h.settled thread _ hp trivial
  refine h.advance rfl (fun _ => rfl) rfl rfl rfl hhash trivial
    (fun t q _ hq => h.written t q hq) (fun hw => False.elim hw)
    (fun _ => hsettled) fun q hq _ => ?_
  rw [hp] at hq
  cases hq
  exact ⟨rfl, trivial⟩

theorem orderly_rename (h : s.Orderly) (hp : s.puts thread = some ⟨digest, bytes, .rename⟩)
    (hf : s.files.rename (.tmp digest) (.blob digest) = some files) :
    ({ s with files }.setPut thread (some ⟨digest, bytes, .sequence⟩)).Orderly := by
  set s' : Disk := { s with files }.setPut thread (some ⟨digest, bytes, .sequence⟩) with hs'
  have hputs : s'.puts = Function.update s.puts thread (some ⟨digest, bytes, .sequence⟩) := rfl
  have hhash : ContentHash.of bytes = digest := h.hashed thread _ hp
  have hself : files.read (.blob digest) = some bytes := by
    rw [Files.read_rename_self hf]
    exact h.written thread _ hp
  have hother : ∀ d, d ≠ digest → files.read (.blob d) = s.files.read (.blob d) := fun d hd =>
    Files.read_rename_of_ne hf nofun fun he => hd (BlobPath.blob.inj he)
  have hhas : s'.hasBlob digest := Files.isFile_iff.2 ⟨bytes, hself⟩
  have hhas' : ∀ d, d ≠ digest → s'.hasBlob d = s.hasBlob d := by
    intro d hd
    rw [hasBlob, hasBlob, Files.isFile_eq, Files.isFile_eq, ← hother d hd]
    rfl
  have hpend : s'.Pending digest :=
    ⟨thread, ⟨digest, bytes, .sequence⟩, Function.update_self _ _ _, rfl, trivial⟩
  have hpend' : ∀ d, s.Pending d → s'.Pending d := fun d hd =>
    hd.update hputs fun q hq _ hs => by
      rw [hp] at hq
      cases hq
      exact False.elim hs
  refine ⟨?_, ?_, ?_, ?_, ?_, ?_, ?_, ?_⟩
  · intro d b hr
    by_cases hd : d = digest
    · subst hd
      rw [show s'.files.read (.blob d) = some bytes from hself] at hr
      cases hr
      exact hhash
    · rw [show s'.files.read (.blob d) = _ from hother d hd] at hr
      exact h.genuine d b hr
  · intro t q hq
    rcases puts_update hputs hq with ⟨-, he⟩ | ⟨-, hq⟩
    · cases he
      exact hhash
    · exact h.hashed t q hq
  · intro t q hq
    rcases puts_update hputs hq with ⟨-, he⟩ | ⟨hne, hq⟩
    · cases he
      trivial
    · refine (h.written t q hq).congr fun hw => ?_
      have hne' := tmp_ne (h.apart hp trivial hne hq hw)
      exact ⟨Files.dir_rename_of_ne hf hne' nofun, Files.read_rename_of_ne hf hne' nofun⟩
  · intro t q t' q' hq hq' hd hw hw'
    rcases puts_update hputs hq with ⟨-, he⟩ | ⟨-, hq⟩
    · cases he
      exact False.elim hw
    rcases puts_update hputs hq' with ⟨-, he⟩ | ⟨-, hq'⟩
    · cases he
      exact False.elim hw'
    · exact h.alone t q t' q' hq hq' hd hw hw'
  · intro t q hq hs
    by_cases hd : q.digest = digest
    · rw [hd]
      exact hhas
    rw [hhas' _ hd]
    rcases puts_update hputs hq with ⟨-, he⟩ | ⟨-, hq⟩
    · cases he
      exact absurd rfl hd
    · exact h.settled t q hq hs
  · intro hc d hb
    by_cases hd : d = digest
    · subst hd
      exact .inr hpend
    · rw [hhas' d hd] at hb
      exact (h.recorded hc d hb).imp_right (hpend' d)
  · intro hc d hr
    by_cases hd : d = digest
    · subst hd
      exact .inl hhas
    · rw [hhas' d hd]
      exact h.kept hc d hr
  · intro hc d hr hb
    by_cases hd : d = digest
    · subst hd
      exact hpend
    · rw [hhas' d hd] at hb
      exact hpend' d (h.removing hc d hr hb)

/-- The file of a temporary name that a call has is there. -/
theorem Orderly.rename_ne_none (h : s.Orderly)
    (hp : s.puts thread = some ⟨digest, bytes, .rename⟩) :
    s.files.rename (.tmp digest) (.blob digest) ≠ none := by
  intro hn
  have hread : s.files.read (.tmp digest) = some bytes := h.written thread _ hp
  rw [Files.rename_eq_none.1 hn] at hread
  cases hread

theorem orderly_record (h : s.Orderly) (hp : s.puts thread = some ⟨digest, bytes, .record seq⟩)
    (hm : s.sweep = none) :
    ({ s with tables := s.tables.upsertMeta digest bytes.length seq }.setPut thread none).Orderly := by
  set s' : Disk :=
    { s with tables := s.tables.upsertMeta digest bytes.length seq }.setPut thread none with hs'
  have hputs : s'.puts = Function.update s.puts thread none := rfl
  have hold : ∀ {t q}, s'.puts t = some q → s.puts t = some q := by
    intro t q hq
    rcases puts_update hputs hq with ⟨-, he⟩ | ⟨-, hq⟩
    · cases he
    · exact hq
  have hrec : ∀ d, s'.tables.recorded d = (s.tables.recorded d || d = digest) :=
    fun d => s.tables.recorded_upsertMeta digest d _ _
  have hnot : ∀ d, ¬ s'.Removing d := by
    intro d ⟨_, _, _, hsw, _⟩
    rw [show s'.sweep = none from hm] at hsw
    cases hsw
  refine ⟨h.genuine, fun t q hq => h.hashed t q (hold hq), fun t q hq => h.written t q (hold hq),
    fun t q t' q' hq hq' => h.alone t q t' q' (hold hq) (hold hq'),
    fun t q hq => h.settled t q (hold hq), fun hc d hb => ?_, fun hc d hr => ?_,
    fun hc d hr => absurd hr (hnot d)⟩
  · rw [hrec]
    by_cases hd : d = digest
    · exact .inl (by simp [hd])
    refine (h.recorded hc d hb).imp (fun hr => by simp [hr]) fun hpe => ?_
    refine hpe.update hputs fun q hq hd' _ => ?_
    rw [hp] at hq
    cases hq
    exact absurd hd'.symm hd
  · left
    rw [hrec, Bool.or_eq_true, decide_eq_true_eq] at hr
    rcases hr with hr | rfl
    · refine (h.kept hc d hr).resolve_right ?_
      intro ⟨_, _, _, hsw, _⟩
      rw [hm] at hsw
      cases hsw
    · exact h.settled thread _ hp trivial

theorem orderly_remove {kind : SweepKind} {m : BlobMeta} {todo : List BlobMeta} (h : s.Orderly)
    (hsw : s.sweep = some ⟨kind, m :: todo, false⟩)
    (hc : ∀ thread p, s.puts thread = some p → p.digest = m.digest → ¬ p.Settled) :
    Orderly { s with
      files := s.files.remove (.blob m.digest)
      sweep := some ⟨kind, m :: todo, true⟩ } := by
  set s' : Disk := { s with
    files := s.files.remove (.blob m.digest)
    sweep := some ⟨kind, m :: todo, true⟩ } with hs'
  have hself : s'.hasBlob m.digest = false := by
    rw [hasBlob, Files.isFile_eq]
    exact congrArg Option.isSome (Files.read_remove_self _ _)
  have hread : ∀ d, d ≠ m.digest → s'.files.read (.blob d) = s.files.read (.blob d) := fun d hd =>
    Files.read_remove_of_ne fun he => hd (BlobPath.blob.inj he)
  have hhas : ∀ d, d ≠ m.digest → s'.hasBlob d = s.hasBlob d := by
    intro d hd
    rw [hasBlob, hasBlob, Files.isFile_eq, Files.isFile_eq, hread d hd]
  have hrem : s'.Removing m.digest := ⟨kind, m, todo, rfl, rfl⟩
  refine ⟨fun d bytes hr => ?_, h.hashed, fun t q hq => ?_, h.alone, fun t q hq hs => ?_,
    fun hcr d hb => ?_, fun hcr d hr => ?_, fun hcr d hr hb => ?_⟩
  · by_cases hd : d = m.digest
    · subst hd
      rw [show s'.files.read (.blob m.digest) = none from Files.read_remove_self _ _] at hr
      cases hr
    · rw [hread d hd] at hr
      exact h.genuine d bytes hr
  · exact (h.written t q hq).congr fun _ =>
      ⟨Files.dir_remove_of_ne nofun, Files.read_remove_of_ne nofun⟩
  · rw [hhas _ fun hd => hc t q hq hd hs]
    exact h.settled t q hq hs
  · by_cases hd : d = m.digest
    · rw [hd, hself] at hb
      cases hb
    · rw [hhas d hd] at hb
      exact h.recorded hcr d hb
  · by_cases hd : d = m.digest
    · rw [hd]
      exact .inr hrem
    · rw [hhas d hd]
      refine (h.kept hcr d hr).imp_right fun ⟨_, _, _, hsw', _⟩ => ?_
      rw [hsw] at hsw'
      cases hsw'
  · obtain ⟨kind', m', todo', hsw', rfl⟩ := hr
    cases hsw'
    rw [hself] at hb
    cases hb

theorem orderly_delete {kind kind' : SweepKind} {m : BlobMeta} {todo : List BlobMeta}
    (h : s.Orderly) (hsw : s.sweep = some ⟨kind, m :: todo, true⟩) :
    Orderly { s with
      tables := s.tables.deleteMeta m.digest
      sweep := some ⟨kind', todo, false⟩ } := by
  have hrec := fun d => s.tables.recorded_deleteMeta m.digest d
  have hmem : ∀ d, s.Removing d ↔ d = m.digest := by
    intro d
    constructor
    · intro ⟨_, _, _, hsw', hd⟩
      rw [hsw] at hsw'
      cases hsw'
      exact hd.symm
    · intro hd
      exact ⟨kind, m, todo, hsw, hd.symm⟩
  refine h.of_tables rfl rfl rfl (fun hc d hb => ?_) (fun hc d hr => .inl ?_)
    fun hc d ⟨_, _, _, hsw', _⟩ => by cases hsw'
  · by_cases hd : d = m.digest
    · exact .inr (h.removing hc d ((hmem d).2 hd) hb)
    · refine (h.recorded hc d hb).imp_left fun hr => ?_
      rw [hrec, hr]
      simp [hd]
  · rw [hrec, Bool.and_eq_true, decide_eq_true_eq] at hr
    exact (h.kept hc d hr.1).resolve_right fun hrem => hr.2 ((hmem d).1 hrem)

/-- Rows and removals are as they were. -/
theorem Orderly.same_rows {s' : Disk} (h : s.Orderly) (hputs : s'.puts = s.puts)
    (hfiles : s'.files = s.files) (hcrashed : s'.crashed = s.crashed)
    (hrows : s'.tables.blobMeta = s.tables.blobMeta) (hnot : ∀ d, ¬ s.Removing d)
    (hnot' : ∀ d, ¬ s'.Removing d) : s'.Orderly := by
  have hrec : ∀ d, s'.tables.recorded d = s.tables.recorded d := by
    intro d
    rw [Store.recorded, Store.recorded, hrows]
  refine h.of_tables hputs hfiles hcrashed (fun hc d hb => ?_) (fun hc d hr => ?_)
    fun hc d hr => absurd hr (hnot' d)
  · rw [hrec]
    exact h.recorded hc d hb
  · rw [hrec] at hr
    exact .inl ((h.kept hc d hr).resolve_right (hnot d))

omit [Blake3] in
theorem not_removing_of {o : Option Sweep} (h : s.sweep = o)
    (ho : ∀ sw, o = some sw → sw.removed = false) (d : ContentHash) : ¬ s.Removing d := by
  intro ⟨kind, m, todo, hsw, _⟩
  have hr := ho _ (h.symm.trans hsw)
  cases hr

theorem orderly_crash (h : s.Orderly) :
    Orderly { tables := s.rolledBack.reopen, files := s.files, puts := fun _ => none, sweep := none,
              crashed := true } where
  genuine := h.genuine
  hashed _ _ hp := by cases hp
  written _ _ hp := by cases hp
  alone _ _ _ _ hp := by cases hp
  settled _ _ hp := by cases hp
  recorded hc := by cases hc
  kept hc := by cases hc
  removing hc := by cases hc

/-- **A careful step** keeps the invariant. -/
theorem orderly_step {s' : Disk} {a : Act} (h : s.Orderly) (hs : Step s a s')
    (hc : s.Careful a s') : s'.Orderly := by
  cases hs with
  | put hp hb =>
    refine h.advance rfl (fun _ => rfl) rfl rfl rfl hb trivial (fun t q _ hq => h.written t q hq)
      (fun hw => False.elim hw) (fun hs => False.elim hs) fun q hq => ?_
    rw [hp] at hq
    cases hq
  | test hp => exact orderly_test h hp
  | create hp => exact orderly_create h hp (hc _ hp)
  | append hp _ hl => exact orderly_append h hp hl
  | close hp => exact orderly_close h hp
  | rename hp hf => exact orderly_rename h hp hf
  | renameFailed hp hf => exact absurd hf (h.rename_ne_none hp)
  | sequence hp => exact orderly_sequence h hp
  | record hp hm => exact orderly_record h hp hm
  | write hm =>
    exact h.same_rows rfl rfl rfl (s.tables.sameBlobs_write _).blobMeta
      (not_removing_of hm nofun) (not_removing_of hm nofun)
  | enforce hm =>
    exact h.same_rows rfl rfl rfl rfl (not_removing_of hm nofun)
      (not_removing_of rfl fun sw he => by cases he; rfl)
  | purge hm =>
    exact h.same_rows rfl rfl rfl rfl (not_removing_of hm nofun)
      (not_removing_of rfl fun sw he => by cases he; rfl)
  | remove hsw _ => exact orderly_remove h hsw (hc _ _ _ hsw)
  | delete hsw => exact orderly_delete h hsw
  | finish hsw _ =>
    exact h.same_rows rfl rfl rfl rfl (not_removing_of hsw fun sw he => by cases he; rfl)
      (not_removing_of rfl nofun)
  | crash => exact orderly_crash h

end

end Disk
end Clipse
