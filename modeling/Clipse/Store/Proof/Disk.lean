import Clipse.Lib.Stepwise
import Clipse.Store.Proof.Orderly

/-!
# Blob files under interleaving and crashes (`clipse-store/src/blob.rs`)

Two things go wrong in `put_blob`. Every writer of a digest uses the same temporary file, so one can
truncate it, or rename it half written, under another; and between the test or the rename and the row
in `blob_meta` the file can be removed again. In runs where neither happens (`Careful`), the files hold
what they are named for and the rows match them (`blobs_sound`).

* `putBlob_alone`, `enforceBlobQuota_alone`, `purgeTombstones_alone`: a call that runs alone does what
  the store's function says, and all its steps are careful.
-/

namespace Clipse
namespace Disk

/-- These steps, all careful, lead from one state to the other. -/
def Does [Blake3] : Disk → List Act → Disk → Prop := Along fun s a s' => Step s a s' ∧ s.Careful a s'

/-- Careful steps lead from one state to the other. -/
def Ran [Blake3] : Disk → Disk → Prop :=
  Relation.ReflTransGen fun s s' => ∃ a, Step s a s' ∧ s.Careful a s'

/-- Nothing runs, and the tables and the files are those of the store. -/
structure Shows (s : Disk) (t : Store) : Prop where
  idle : s.Idle
  tables : { s.tables with files := t.files } = t
  files : ∀ d, s.files.read (.blob d) = (t.files.find? d).map (·.bytes)

theorem shows_open (quota : UInt64) : (open_ quota).Shows (.open_ quota) :=
  ⟨⟨fun _ => rfl, rfl⟩, rfl, fun _ => rfl⟩

/-! ## `put_blob` -/

/-- One `put_blob` at most, on the first thread. -/
def one (tables : Store) (files : Files BlobPath) (put : Option Put) (crashed : Bool) : Disk :=
  { tables, files, puts := Function.update (fun _ => none) 0 put, sweep := none, crashed }

section
variable {s : Disk} {t : Store} {tables : Store} {files : Files BlobPath} {put put' : Option Put}
  {crashed : Bool} {d : ContentHash} {bytes : Bytes} {p q : Put} {thread : Nat}

theorem one_none (hi : s.Idle) : s = one s.tables s.files none s.crashed := by
  obtain ⟨tables, files, puts, sweep, crashed⟩ := s
  obtain ⟨hputs, rfl : sweep = none⟩ := hi
  obtain rfl : puts = fun _ => none := funext hputs
  rw [one, Function.update_eq_self]

theorem idle_one (tables : Store) (files : Files BlobPath) (crashed : Bool) :
    (one tables files none crashed).Idle := by
  refine ⟨fun thread => ?_, rfl⟩
  rw [one, Function.update_eq_self]

@[simp] theorem setPut_one : (one tables files put crashed).setPut 0 put' =
    one tables files put' crashed := by
  rw [one, setPut, one, Function.update_idem]

theorem puts_setPut (s : Disk) (thread : Nat) (put : Option Put) :
    (s.setPut thread put).puts thread = put := Function.update_self _ _ _

theorem puts_one : (one tables files put crashed).puts 0 = put := by
  show Function.update (fun _ => none) 0 put 0 = put
  exact Function.update_self _ _ _

theorem eq_of_puts_one (h : (one tables files put crashed).puts thread = some q) :
    put = some q := by
  by_cases ht : thread = 0
  · subst ht
    exact puts_one.symm.trans h
  · have hnone : (one tables files put crashed).puts thread = none := by
      show Function.update (fun _ => none) 0 put thread = none
      exact Function.update_of_ne ht _ _
    rw [hnone] at h
    cases h

variable [Blake3]

theorem Does.single {a : Act} {s s' s'' : Disk} (h : Step s a s'') (hc : s.Careful a s'')
    (he : s'' = s') : Does s [a] s' := ⟨_, ⟨he ▸ h, he ▸ hc⟩, rfl⟩

theorem Does.append {as bs : List Act} {s s' s'' : Disk} (h : Does s as s') (h' : Does s' bs s'') :
    Does s (as ++ bs) s'' := Along.append h h'

theorem Does.ran {acts : List Act} {s s' : Disk} (h : Does s acts s') : Ran s s' := Along.reaches h

theorem does_put (hb : ContentHash.of bytes = d) :
    Does (one tables files none crashed) [.put 0]
      (one tables files (some ⟨d, bytes, .test⟩) crashed) :=
  .single (.put puts_one hb) trivial setPut_one

theorem does_test :
    Does (one tables files (some ⟨d, bytes, .test⟩) crashed) [.test 0]
      (one tables files
        (some ⟨d, bytes, if files.isFile (.blob d) then .sequence else .create⟩) crashed) :=
  .single (.test puts_one) trivial setPut_one

theorem does_create :
    Does (one tables files (some ⟨d, bytes, .create⟩) crashed) [.create 0]
      (one tables (files.create (.tmp d)).2
        (some ⟨d, bytes, .append (files.create (.tmp d)).1 0⟩) crashed) := by
  refine .single (.create puts_one) (fun p _ other q hq _ hw => ?_) setPut_one
  cases eq_of_puts_one hq
  exact hw

theorem does_append {file : Nat} (hl : 0 < bytes.length) :
    Does (one tables files (some ⟨d, bytes, .append file 0⟩) crashed) [.append 0 bytes.length]
      (one tables (files.writeAt file 0 bytes) (some ⟨d, bytes, .append file bytes.length⟩)
        crashed) := by
  refine .single (.append puts_one hl (Nat.zero_add _).le) trivial ?_
  rw [Nat.zero_add, List.drop_zero, List.take_length]
  exact setPut_one

/-- The bytes are written at once, if there are any. -/
theorem exists_append {file : Nat} :
    ∃ acts, (0 < bytes.length → acts = [.append 0 bytes.length]) ∧
      Does (one tables files (some ⟨d, bytes, .append file 0⟩) crashed) acts
        (one tables (files.writeAt file 0 bytes) (some ⟨d, bytes, .append file bytes.length⟩)
          crashed) := by
  by_cases hl : 0 < bytes.length
  · exact ⟨_, fun _ => rfl, does_append hl⟩
  · obtain rfl : bytes = [] := List.eq_nil_of_length_eq_zero (by omega)
    have hsame : files.writeAt file 0 [] = files := by
      have hnil : Files.overwrite (files.data file) 0 [] = files.data file := by
        simp [Files.overwrite]
      rw [Files.writeAt, hnil, Function.update_eq_self]
    rw [hsame]
    exact ⟨[], fun h => absurd h hl, rfl⟩

theorem does_close {file : Nat} :
    Does (one tables files (some ⟨d, bytes, .append file bytes.length⟩) crashed) [.close 0]
      (one tables files (some ⟨d, bytes, .rename⟩) crashed) :=
  .single (.close puts_one) trivial setPut_one

theorem does_rename {files' : Files BlobPath}
    (hf : files.rename (.tmp d) (.blob d) = some files') :
    Does (one tables files (some ⟨d, bytes, .rename⟩) crashed) [.rename 0]
      (one tables files' (some ⟨d, bytes, .sequence⟩) crashed) :=
  .single (.rename puts_one hf) trivial setPut_one

theorem does_record :
    Does (one tables files (some ⟨d, bytes, .sequence⟩) crashed) [.sequence 0, .record 0]
      (one ({ tables with usedSeq := tables.usedSeq + 1 }.upsertMeta d bytes.length
        (tables.usedSeq + 1)) files none crashed) :=
  (Does.single (.sequence puts_one) trivial setPut_one).append
    (.single (.record puts_one rfl) trivial setPut_one)

/-- A second call with the digest comes while the first has still to write its row. It finds the file,
and its row is the first. -/
theorem does_second (hb : ContentHash.of bytes = d) (hf : files.isFile (.blob d) = true) :
    Does (one tables files (some ⟨d, bytes, .sequence⟩) crashed)
      [.put 1, .test 1, .sequence 1, .record 1]
      (one ({ tables with usedSeq := tables.usedSeq + 1 }.upsertMeta d bytes.length
        (tables.usedSeq + 1)) files (some ⟨d, bytes, .sequence⟩) crashed) := by
  let s := one tables files (some ⟨d, bytes, .sequence⟩) crashed
  have htest : Step (s.setPut 1 (some ⟨d, bytes, .test⟩)) (.test 1) _ := .test (puts_setPut s 1 _)
  rw [show (s.setPut 1 _).hasBlob d = true from hf, if_pos rfl] at htest
  refine ⟨_, ⟨.put rfl hb, trivial⟩, _, ⟨htest, trivial⟩, _, ⟨.sequence (puts_setPut _ _ _), trivial⟩,
    _, ⟨.record (puts_setPut _ _ _) rfl, trivial⟩, ?_⟩
  have hputs : Function.update s.puts 1 none = s.puts := Function.update_eq_self _ _
  simp only [setPut, one, Function.update_idem] at hputs ⊢
  rw [hputs]
  rfl

/-- The file is written under its temporary name and renamed. -/
theorem exists_file (tables : Store) (files : Files BlobPath) (crashed : Bool) (d : ContentHash)
    (bytes : Bytes) :
    ∃ (files' : Files BlobPath) (acts : List Act),
      (0 < bytes.length → acts = [.create 0, .append 0 bytes.length, .close 0, .rename 0]) ∧
      Does (one tables files (some ⟨d, bytes, .create⟩) crashed) acts
        (one tables files' (some ⟨d, bytes, .sequence⟩) crashed) ∧
      files'.read (.blob d) = some bytes ∧
      ∀ d', d' ≠ d → files'.read (.blob d') = files.read (.blob d') := by
  have hdir := Files.dir_create_self files (.tmp d)
  have hread : ((files.create (.tmp d)).2.writeAt (files.create (.tmp d)).1 0 bytes).read (.tmp d) =
      some bytes := by
    rw [Files.read_writeAt_self hdir, Files.read_create_self]
    simp [Files.overwrite]
  obtain ⟨files', hf⟩ : ∃ files', ((files.create (.tmp d)).2.writeAt (files.create (.tmp d)).1 0
      bytes).rename (.tmp d) (.blob d) = some files' := by
    refine Option.ne_none_iff_exists'.1 fun hn => ?_
    rw [Files.rename_eq_none.1 hn] at hread
    cases hread
  obtain ⟨acts, hacts, happend⟩ : ∃ acts, (0 < bytes.length → acts = [.append 0 bytes.length]) ∧
      Does (one tables (files.create (.tmp d)).2 _ crashed) acts (one tables _ _ crashed) :=
    exists_append
  refine ⟨files', [.create 0] ++ (acts ++ ([.close 0] ++ [.rename 0])), fun hl => ?_,
    does_create.append (happend.append (does_close.append (does_rename hf))), ?_, fun d' hd => ?_⟩
  · rw [hacts hl]
    rfl
  · rw [Files.read_rename_self hf, hread]
  · have hne : BlobPath.blob d' ≠ .blob d := fun he => hd (BlobPath.blob.inj he)
    have htmp : BlobPath.blob d' ≠ .tmp d := fun he => by cases he
    rw [Files.read_rename_of_ne hf htmp hne, Files.read_writeAt_of_ne hdir htmp,
      Files.read_create_of_ne htmp]

omit [Blake3] in
/-- The tables and files that a `put_blob` leaves. -/
theorem shows_putBlob (h : s.Shows t) (hself : files.read (.blob d) =
      some (((s.files.read (.blob d))).getD bytes))
    (hother : ∀ d', d' ≠ d → files.read (.blob d') = s.files.read (.blob d')) :
    (one ({ s.tables with usedSeq := s.tables.usedSeq + 1 }.upsertMeta d bytes.length
      (s.tables.usedSeq + 1)) files none crashed).Shows (t.putBlob d bytes) := by
  refine ⟨idle_one _ _ _, ?_, fun d' => ?_⟩
  · have ht := h.tables
    cases hst : s.tables
    cases t
    rw [hst] at ht
    cases ht
    rfl
  · show files.read (.blob d') =
      (((t.files.insert? ⟨d, bytes⟩).getD t.files).find? d').map (·.bytes)
    rw [Table.find?_insert?_getD]
    by_cases hd : d' = d
    · subst hd
      rw [hself, h.files, if_pos rfl]
      cases t.files.find? d' <;> rfl
    · rw [hother d' hd, h.files, if_neg fun he => hd he.symm, Option.or_none]

/-- **`put_blob` alone** does what the store's function says. -/
theorem putBlob_alone (h : s.Shows t) (hb : ContentHash.of bytes = d) :
    ∃ s', Ran s s' ∧ s'.Shows (t.putBlob d bytes) ∧ s'.crashed = s.crashed := by
  have hstart : Ran s (one s.tables s.files
      (some ⟨d, bytes, if s.files.isFile (.blob d) then .sequence else .create⟩) s.crashed) := by
    have hran : Ran (one s.tables s.files none s.crashed) (one s.tables s.files _ s.crashed) :=
      ((does_put hb).append does_test).ran
    rwa [← one_none h.idle] at hran
  by_cases hf : s.files.isFile (.blob d)
  · obtain ⟨b, hb⟩ := Files.isFile_iff.1 hf
    rw [if_pos hf] at hstart
    refine ⟨_, hstart.trans does_record.ran, shows_putBlob h ?_ fun _ _ => rfl, rfl⟩
    rw [hb, Option.getD_some]
  · rw [if_neg hf] at hstart
    obtain ⟨files', acts, -, hdoes, hself, hother⟩ :=
      exists_file s.tables s.files s.crashed d bytes
    refine ⟨_, hstart.trans (hdoes.append does_record).ran, shows_putBlob h ?_ hother, rfl⟩
    rw [Files.isFile_eq, Bool.not_eq_true, Option.isSome_eq_false_iff,
      Option.isNone_iff_eq_none] at hf
    rw [hself, hf, Option.getD_none]

end

/-! ## The calls that remove blobs -/

/-- Only the sweep runs, and the rest is as in the store. -/
structure Sweeps (s : Disk) (kind : SweepKind) (todo : List BlobMeta) (t : Store) : Prop where
  puts : ∀ thread, s.puts thread = none
  sweep : s.sweep = some ⟨kind, todo, false⟩
  tables : { s.tables with files := t.files } = t
  files : ∀ d, s.files.read (.blob d) = (t.files.find? d).map (·.bytes)

section
variable [Blake3] {s : Disk} {t : Store} {kind : SweepKind} {m : BlobMeta} {todo : List BlobMeta}

omit [Blake3] in
theorem Sweeps.quota (h : s.Sweeps kind todo t) : s.tables.blobQuotaBytes = t.blobQuotaBytes := by
  have ht := congrArg Store.blobQuotaBytes h.tables
  exact ht

/-- The sweep is over. -/
theorem Sweeps.ran_finish (h : s.Sweeps kind todo t)
    (hg : todo = [] ∨ kind.goesOn t.blobQuotaBytes = false) :
    ∃ s', Ran s s' ∧ s'.Shows t ∧ s'.crashed = s.crashed := by
  rw [← h.quota] at hg
  exact ⟨_, .single ⟨_, .finish h.sweep hg, trivial⟩, ⟨⟨h.puts, rfl⟩, h.tables, h.files⟩, rfl⟩

/-- One blob is removed. -/
theorem Sweeps.ran_drop (h : s.Sweeps kind (m :: todo) t) (hg : kind.goesOn t.blobQuotaBytes) :
    ∃ s', Ran s s' ∧ s'.Sweeps (kind.deduct m.size) todo (t.dropBlob m.digest) ∧
      s'.crashed = s.crashed := by
  rw [← h.quota] at hg
  have hcare : s.Careful .remove { s with
      files := s.files.remove (.blob m.digest)
      sweep := some ⟨kind, m :: todo, true⟩ } := by
    intro _ _ _ _ thread p hp
    rw [h.puts] at hp
    cases hp
  refine ⟨_, .head ⟨_, .remove h.sweep hg, hcare⟩ (.single ⟨_, .delete rfl, trivial⟩),
    ⟨h.puts, rfl, ?_, fun d => ?_⟩, rfl⟩
  · have ht := h.tables
    cases hst : s.tables
    cases t
    rw [hst] at ht
    cases ht
    rfl
  · show (s.files.remove (.blob m.digest)).read (.blob d) =
      ((t.files.erase (·.digest = m.digest)).find? d).map (·.bytes)
    rw [Table.find?_erase]
    by_cases hd : d = m.digest
    · rw [if_pos hd, hd]
      exact Files.read_remove_self _ _
    · have hne : BlobPath.blob d ≠ .blob m.digest := fun he => hd (BlobPath.blob.inj he)
      rw [if_neg hd, Files.read_remove_of_ne hne, h.files]

theorem Sweeps.ran_evict {bytesUsed : Nat} (h : s.Sweeps (.quota bytesUsed) todo t) :
    ∃ s', Ran s s' ∧ s'.Shows (t.evict todo bytesUsed) ∧ s'.crashed = s.crashed := by
  induction todo generalizing s t bytesUsed with
  | nil => exact h.ran_finish (.inl rfl)
  | cons m todo ih =>
    rw [Store.evict]
    split
    next hle => exact h.ran_finish (.inr (by simpa [SweepKind.goesOn] using hle))
    next hlt =>
      obtain ⟨s₁, hran, h₁, hcr⟩ := h.ran_drop (by simpa [SweepKind.goesOn] using hlt)
      obtain ⟨s', hran', hs', hcr'⟩ := ih h₁
      exact ⟨s', hran.trans hran', hs', hcr'.trans hcr⟩

theorem Sweeps.ran_prune {before : Store} (h : s.Sweeps (.prune before) todo t) :
    ∃ s', Ran s s' ∧ s'.Shows ((todo.map (·.digest)).foldl Store.dropBlob t) ∧
      s'.crashed = s.crashed := by
  induction todo generalizing s t with
  | nil => exact h.ran_finish (.inl rfl)
  | cons m todo ih =>
    obtain ⟨s₁, hran, h₁, hcr⟩ := h.ran_drop rfl
    obtain ⟨s', hran', hs', hcr'⟩ := ih h₁
    exact ⟨s', hran.trans hran', hs', hcr'.trans hcr⟩

/-- **`enforce_blob_quota` alone** does what the store's function says. -/
theorem enforceBlobQuota_alone (h : s.Shows t) :
    ∃ s', Ran s s' ∧ s'.Shows t.enforceBlobQuota ∧ s'.crashed = s.crashed := by
  have hstep := Step.enforce h.idle.2
  have hcand : s.tables.candidates = t.candidates ∧ s.tables.blobBytes = t.blobBytes := by
    rw [← h.tables]
    exact ⟨rfl, rfl⟩
  rw [hcand.1, hcand.2] at hstep
  have hsw : Sweeps { s with sweep := some ⟨.quota t.blobBytes, t.candidates, false⟩ }
      (.quota t.blobBytes) t.candidates t := ⟨h.idle.1, rfl, h.tables, h.files⟩
  obtain ⟨s', hran, hs', hcr⟩ := hsw.ran_evict
  exact ⟨s', .head ⟨_, hstep, trivial⟩ hran, hs', hcr⟩

/-- **`purge_tombstones` alone** does what the store's function says. -/
theorem purgeTombstones_alone (h : s.Shows t) (olderThanMs now : UInt64) :
    ∃ s', Ran s s' ∧ s'.Shows (t.purgeTombstones olderThanMs now) ∧ s'.crashed = s.crashed := by
  have hstep : Step s (.purge olderThanMs now) _ := .purge h.idle.2
  have horphans : (s.tables.expire olderThanMs now).orphans = (t.expire olderThanMs now).orphans := by
    rw [← h.tables]
    rfl
  rw [horphans] at hstep
  have htables : { s.tables.expire olderThanMs now with files := (t.expire olderThanMs now).files } =
      t.expire olderThanMs now := by
    rw [← h.tables]
    rfl
  have hsw : Sweeps { s with
      tables := s.tables.expire olderThanMs now
      sweep := some ⟨.prune s.tables, (t.expire olderThanMs now).orphans, false⟩ }
      (.prune s.tables) (t.expire olderThanMs now).orphans (t.expire olderThanMs now) :=
    ⟨h.idle.1, rfl, htables, h.files⟩
  obtain ⟨s', hran, hs', hcr⟩ := hsw.ran_prune
  refine ⟨s', .head ⟨_, hstep, trivial⟩ hran, ?_, hcr⟩
  have hlist : (t.expire olderThanMs now).orphans.map (·.digest) =
      ((t.expire olderThanMs now).blobMeta.rows.map (·.digest)).filter
        (· ∉ (t.expire olderThanMs now).referenced fun _ => true) := by
    rw [Store.orphans, List.filter_map]
    rfl
  rw [hlist] at hs'
  exact hs'

end

/-! ## Any calls -/

section
variable [Blake3]

/-- **Blob files and their rows** are right in every state of a run of careful steps. -/
theorem blobs_sound {quota : UInt64} {run : List (Act × Disk)}
    (h : Trail Step (open_ quota) run) (hc : Trail Careful (open_ quota) run) :
    (open_ quota).Sound ∧ Trail (fun _ _ s => s.Sound) (open_ quota) run := by
  have ho := orderly_open quota
  have hall : Trail (fun _ _ s => s.Orderly) (open_ quota) run :=
    .invariant (R := Step) (fun _ _ _ hs hstep hcare => orderly_step hs hstep hcare) ho h hc
  exact ⟨ho.sound, hall.imp fun _ _ _ hs => hs.sound⟩

/-- Steps, careful or not. -/
def Steps : Disk → Disk → Prop := Relation.ReflTransGen fun s s' => ∃ a, Step s a s'

theorem Ran.steps {s s' : Disk} (h : Ran s s') : Steps s s' :=
  Relation.ReflTransGen.mono (fun _ _ ⟨a, ha, _⟩ => ⟨a, ha⟩) _ _ h

/-- What every run keeps holds in a state that is reached. -/
theorem Steps.holds {P : Disk → Prop} {quota : UInt64} {s : Disk} (h : Steps (open_ quota) s)
    (hP : ∀ (quota : UInt64) (run : List (Act × Disk)), Trail Step (open_ quota) run →
      Trail (fun _ _ s => P s) (open_ quota) run) (ho : P (open_ quota)) : P s := by
  obtain ⟨acts, hacts⟩ := exists_along h
  obtain ⟨run, -, hrun, rfl⟩ := hacts.exists_trail
  exact (hP quota run hrun).last ho

/-- One call truncates the temporary file that another is about to rename. -/
theorem truncated {d : ContentHash} {bytes : Bytes} (hb : ContentHash.of bytes = d) :
    ∃ s, Steps (open_ 0) s ∧ s.files.read (.blob d) = some [] := by
  obtain ⟨files, hran, hno⟩ : ∃ files : Files BlobPath,
      Ran (open_ 0) (one (.open_ 0) files (some ⟨d, bytes, .rename⟩) false) ∧
        files.isFile (.blob d) = false := by
    have htest : Does (one (.open_ 0) .empty (some ⟨d, bytes, .test⟩) false) [.test 0]
        (one (.open_ 0) .empty (some ⟨d, bytes, .create⟩) false) := does_test
    have hstart : open_ 0 = one (.open_ 0) .empty none false := one_none ⟨fun _ => rfl, rfl⟩
    have hdir := Files.dir_create_self (.empty : Files BlobPath) (.tmp d)
    have htmp : BlobPath.blob d ≠ .tmp d := nofun
    rw [hstart]
    obtain ⟨acts, -, happend⟩ : ∃ acts, (0 < bytes.length → acts = [.append 0 bytes.length]) ∧
        Does (one (.open_ 0) (Files.create .empty (.tmp d)).2 _ false) acts
          (one (.open_ 0) _ _ false) := exists_append
    refine ⟨_, ((does_put hb).append (htest.append (does_create.append
      (happend.append does_close)))).ran, ?_⟩
    rw [Files.isFile_eq, Files.read_writeAt_of_ne hdir htmp, Files.read_create_of_ne htmp]
    rfl
  -- the second call comes while the first has still to rename
  let s := one (.open_ 0) files (some ⟨d, bytes, .rename⟩) false
  have htest : Step (s.setPut 1 (some ⟨d, bytes, .test⟩)) (.test 1)
      ((s.setPut 1 (some ⟨d, bytes, .test⟩)).setPut 1 (some ⟨d, bytes, .create⟩)) := by
    have h : Step _ (.test 1) _ := .test (puts_setPut s 1 (some ⟨d, bytes, .test⟩))
    rwa [if_neg (by rw [show (s.setPut 1 _).hasBlob d = false from hno]; exact Bool.false_ne_true)]
      at h
  have hread := Files.read_create_self files (.tmp d)
  obtain ⟨files', hf⟩ : ∃ files', (files.create (.tmp d)).2.rename (.tmp d) (.blob d) =
      some files' := by
    refine Option.ne_none_iff_exists'.1 fun hn => ?_
    rw [Files.rename_eq_none.1 hn] at hread
    cases hread
  refine ⟨_, hran.steps.trans (.head ⟨.put 1, .put rfl hb⟩ (.head ⟨_, htest⟩
    (.head ⟨.create 1, .create rfl⟩ (.single ⟨.rename 0, .rename rfl hf⟩)))), ?_⟩
  exact (Files.read_rename_self hf).trans hread

/-- A file is removed after a second call has found it, and before that call has written the row. -/
theorem removed_meanwhile {d : ContentHash} {bytes : Bytes} (hb : ContentHash.of bytes = d)
    (hl : 0 < bytes.length) :
    ∃ s, Steps (open_ 0) s ∧ s.Idle ∧ s.crashed = false ∧ s.tables.recorded d ∧
      s.hasBlob d = false := by
  obtain ⟨s₁, hran, hshows, hcr⟩ := putBlob_alone (shows_open 0) hb
  have hfile : s₁.files.isFile (.blob d) := by
    refine Files.isFile_iff.2 ⟨bytes, ?_⟩
    rw [hshows.files]
    show (((Store.open_ 0).putBlob d bytes).files.find? d).map (·.bytes) = some bytes
    simp [Store.putBlob, Store.open_, Table.empty, Table.insert?, Table.find?]
  have hcand : s₁.tables.candidates = [⟨d, bytes.length, 1⟩] ∧
      s₁.tables.blobBytes = bytes.length ∧ s₁.tables.blobQuotaBytes = 0 := by
    have ht := hshows.tables
    have hc : s₁.tables.candidates = ((Store.open_ 0).putBlob d bytes).candidates := by
      rw [← ht]
      rfl
    have hq : s₁.tables.blobBytes = ((Store.open_ 0).putBlob d bytes).blobBytes := by
      rw [← ht]
      rfl
    have hz : s₁.tables.blobQuotaBytes = ((Store.open_ 0).putBlob d bytes).blobQuotaBytes := by
      rw [← ht]
    rw [hc, hq, hz]
    exact ⟨rfl, rfl, rfl⟩
  -- the second call has found the file
  have hfound : Ran s₁ (one s₁.tables s₁.files (some ⟨d, bytes, .sequence⟩) s₁.crashed) := by
    have htest : Ran (one s₁.tables s₁.files none s₁.crashed)
        (one s₁.tables s₁.files _ s₁.crashed) := ((does_put hb).append does_test).ran
    rwa [if_pos hfile, ← one_none hshows.idle] at htest
  have henforce : Step (one s₁.tables s₁.files (some ⟨d, bytes, .sequence⟩) s₁.crashed) .enforce _ :=
    .enforce rfl
  rw [show (one s₁.tables s₁.files (some ⟨d, bytes, .sequence⟩) s₁.crashed).tables.candidates = _
    from hcand.1] at henforce
  have hgoes : (SweepKind.quota s₁.tables.blobBytes).goesOn s₁.tables.blobQuotaBytes := by
    rw [hcand.2.1, hcand.2.2]
    exact decide_eq_true hl
  have hsweep : Steps (one s₁.tables s₁.files (some ⟨d, bytes, .sequence⟩) s₁.crashed)
      (one (s₁.tables.deleteMeta d) (s₁.files.remove (.blob d)) (some ⟨d, bytes, .sequence⟩)
        s₁.crashed) :=
    .head ⟨_, henforce⟩ (.head ⟨_, .remove rfl hgoes⟩ (.head ⟨_, .delete rfl⟩
      (.single ⟨_, .finish rfl (.inl rfl)⟩)))
  refine ⟨_, hran.steps.trans (hfound.steps.trans (hsweep.trans does_record.ran.steps)),
    idle_one _ _ _, hcr, ?_, ?_⟩
  · show ((_ : Store).upsertMeta d _ _).recorded d
    rw [Store.recorded_upsertMeta]
    simp
  · show (s₁.files.remove (.blob d)).isFile (.blob d) = false
    rw [Files.isFile_eq, Files.read_remove_self]
    rfl

end

/-! ## Worked runs -/

/-- BLAKE3 of no bytes. -/
def emptyDigest : ContentHash :=
  { bytes :=
    #v[0xaf, 0x13, 0x49, 0xb9, 0xf5, 0xf9, 0xa1, 0xa6, 0xa0, 0x40, 0x4d, 0xea, 0x36, 0xdc, 0xc9,
      0x49, 0x9b, 0xcb, 0x25, 0xc9, 0xad, 0xc1, 0x12, 0xb7, 0xcc, 0x9a, 0x93, 0xca, 0xe4, 0x1f,
      0x32, 0x62] }

/-- BLAKE3 on the worked inputs and on no bytes. -/
@[reducible] def blake3 : Blake3 where
  hash bytes := if bytes = [] then emptyDigest else Blake3.examples.hash bytes

section
attribute [local instance] blake3

theorem of_hi : ContentHash.of (utf8 "hi") = hiDigest := by
  have hne : utf8 "hi" ≠ [] := by decide
  unfold ContentHash.of blake3
  dsimp only
  rw [if_neg hne]
  exact if_pos rfl

/-- Neither half holds in every run. -/
theorem not_blobs_sound :
    (¬ ∀ (quota : UInt64) (run : List (Act × Disk)), Trail Step (open_ quota) run →
      Trail (fun _ _ s => s.FilesGenuine) (open_ quota) run) ∧
    ¬ ∀ (quota : UInt64) (run : List (Act × Disk)), Trail Step (open_ quota) run →
      Trail (fun _ _ s => s.RowsMatch) (open_ quota) run := by
  constructor
  · intro hall
    obtain ⟨s, hs, hread⟩ := truncated of_hi
    have hgen : s.FilesGenuine := hs.holds hall (orderly_open 0).sound.1
    obtain ⟨bytes, hb, hhash⟩ := hgen hiDigest (Files.isFile_iff.2 ⟨[], hread⟩)
    rw [hread] at hb
    cases hb
    have hempty : emptyDigest = hiDigest := hhash
    exact absurd hempty (by decide +kernel)
  · intro hall
    obtain ⟨s, hs, hidle, hcr, hrec, hno⟩ := removed_meanwhile of_hi (by decide)
    have hrows : s.RowsMatch := hs.holds hall (orderly_open 0).sound.2
    rw [(hrows hidle hcr hiDigest).1 hrec] at hno
    cases hno

/-- The daemon dies when `enforce_blob_quota` has removed a file and not yet its row. -/
theorem does_crash {tables : Store} {files : Files BlobPath} {m : BlobMeta} {todo : List BlobMeta}
    (hcand : tables.candidates = m :: todo)
    (hover : tables.blobQuotaBytes.toNat < tables.blobBytes) :
    Does (one tables files none false) [.enforce, .remove, .crash]
      (one tables.reopen (files.remove (.blob m.digest)) none true) := by
  have hidle := idle_one tables files false
  have henforce : Step (one tables files none false) .enforce _ := .enforce hidle.2
  rw [show (one tables files none false).tables.candidates = _ from hcand] at henforce
  refine ⟨_, ⟨henforce, trivial⟩, _, ⟨.remove rfl (decide_eq_true hover), ?_⟩, _,
    ⟨.crash, trivial⟩, ?_⟩
  · intro _ _ _ _ thread p hp
    exact absurd (hidle.1 thread ▸ hp : none = some p) nofun
  · simp only [one, Function.update_eq_self]
    rfl

theorem does_enforced : ∃ s : Disk, Does (open_ 0)
    [.put 0, .test 0, .create 0, .append 0 2, .close 0, .rename 0,
      .put 1, .test 1, .sequence 1, .record 1, .sequence 0, .record 0,
      .enforce, .remove, .crash,
      .put 0, .test 0, .create 0, .append 0 2, .close 0, .rename 0, .sequence 0, .record 0] s ∧
    s.hasBlob hiDigest := by
  have hstart : open_ 0 = one (.open_ 0) .empty none false := one_none ⟨fun _ => rfl, rfl⟩
  have hshort : (utf8 "hi").length = 2 := by decide
  obtain ⟨files, acts, hacts, hwrite, hread, -⟩ :=
    exists_file (.open_ 0) .empty false hiDigest (utf8 "hi")
  obtain rfl := hacts (by decide)
  rw [hshort] at hwrite
  -- the first call, and the second in the middle of it
  have hfound : files.isFile (.blob hiDigest) = true := Files.isFile_iff.2 ⟨_, hread⟩
  have htest : Does (one (.open_ 0) .empty (some ⟨hiDigest, utf8 "hi", .test⟩) false) [.test 0]
      (one (.open_ 0) .empty (some ⟨hiDigest, utf8 "hi", .create⟩) false) := does_test
  have hboth := (does_put of_hi).append (htest.append (hwrite.append
    ((does_second of_hi hfound).append does_record)))
  rw [← hstart, hshort] at hboth
  let tables := { Store.open_ 0 with usedSeq := 1 }.upsertMeta hiDigest 2 1
  let tables' := { tables with usedSeq := 2 }.upsertMeta hiDigest 2 2
  have hcand : tables'.candidates = [⟨hiDigest, 2, 2⟩] := by decide
  have hover : tables'.blobQuotaBytes.toNat < tables'.blobBytes := by decide
  have hgone := @does_crash _ files _ _ hcand hover
  have hmissing : (files.remove (.blob hiDigest)).isFile (.blob hiDigest) = false := by
    rw [Files.isFile_eq, Files.read_remove_self]
    rfl
  obtain ⟨files', acts', hacts', hwrite', hread', -⟩ :=
    exists_file tables'.reopen (files.remove (.blob hiDigest)) true hiDigest (utf8 "hi")
  obtain rfl := hacts' (by decide)
  rw [hshort] at hwrite'
  have htest' : Does (one tables'.reopen (files.remove (.blob hiDigest)) _ true) [.test 0]
      (one tables'.reopen (files.remove (.blob hiDigest)) (some ⟨hiDigest, utf8 "hi", _⟩) true) :=
    does_test
  rw [hmissing, if_neg Bool.false_ne_true] at htest'
  have hagain := (does_put of_hi).append (htest'.append (hwrite'.append does_record))
  exact ⟨_, hboth.append (hgone.append hagain), Files.isFile_iff.2 ⟨_, hread'⟩⟩

/-- Two calls put one text, the second while the first is under way; the quota is enforced, and the
daemon dies when the file is gone and the row is not; then the text is put again. -/
theorem blobs_sound_hi :
    ∃ run : List (Act × Disk),
      run.map Prod.fst =
        [.put 0, .test 0, .create 0, .append 0 2, .close 0, .rename 0,
          .put 1, .test 1, .sequence 1, .record 1, .sequence 0, .record 0,
          .enforce, .remove, .crash,
          .put 0, .test 0, .create 0, .append 0 2, .close 0, .rename 0, .sequence 0, .record 0] ∧
      (lastState (open_ 0) run).hasBlob hiDigest ∧
      Trail Step (open_ 0) run ∧ Trail Careful (open_ 0) run ∧
      (open_ 0).Sound ∧ Trail (fun _ _ s => s.Sound) (open_ 0) run := by
  obtain ⟨s₁, hput, hhas⟩ := does_enforced
  obtain ⟨run, hacts, hrun, rfl⟩ := hput.exists_trail
  obtain ⟨hsteps, hcare⟩ := trail_and.1 hrun
  exact ⟨run, hacts, hhas, hsteps, hcare, blobs_sound hsteps hcare⟩

end

end Disk
end Clipse
