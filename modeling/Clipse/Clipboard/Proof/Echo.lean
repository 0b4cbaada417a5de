import Clipse.Clipboard.Watch

/-!
# The echo of a write

A device that writes a list of payloads to the clipboard reads back what the platform keeps of it.
The guard knows the echo if the platform kept the whole list, in whatever order (`hash_eq_iff`).
-/

namespace Clipse

/-- Each format is the one that its label names, as in a clip that was read from the database. -/
def Named (payloads : List (ClipFormat × Bytes)) : Prop :=
  ∀ p ∈ payloads, ClipFormat.fromLabel p.1.label = p.1

instance (payloads : List (ClipFormat × Bytes)) : Decidable (Named payloads) :=
  inferInstanceAs (Decidable (∀ p ∈ payloads, ClipFormat.fromLabel p.1.label = p.1))

/-- The parts that `hash_payloads` hashes. -/
def parts (payloads : List (ClipFormat × Bytes)) : List (String × Bytes) :=
  (sortByLabel payloads).map fun p => (p.1.label, p.2)

variable {ps qs : List (ClipFormat × Bytes)}

theorem sortByLabel_perm (ps : List (ClipFormat × Bytes)) : (sortByLabel ps).Perm ps :=
  List.perm_insertionSort _ ps

theorem Named.of_perm (h : Named ps) (hp : qs.Perm ps) : Named qs :=
  fun p hm => h p (hp.mem_iff.1 hm)

/-- The parts say which formats there were. -/
theorem Named.map_parts (h : Named ps) :
    (parts ps).map (fun p => (ClipFormat.fromLabel p.1, p.2)) = sortByLabel ps := by
  rw [parts, List.map_map]
  conv_rhs => rw [← List.map_id (sortByLabel ps)]
  apply List.map_congr_left
  intro p hp
  exact Prod.ext (h.of_perm (sortByLabel_perm ps) p hp) rfl

/-- **Two lists hash the same parts** if they hold the same payloads. -/
theorem parts_eq_iff (hp : Named ps) (hq : Named qs) (hn : (qs.map (·.1)).Nodup) :
    parts ps = parts qs ↔ ps.Perm qs := by
  constructor
  · intro h
    have hs : sortByLabel ps = sortByLabel qs := by rw [← hp.map_parts, h, hq.map_parts]
    exact (sortByLabel_perm ps).symm.trans (hs ▸ sortByLabel_perm qs)
  · intro h
    have hperm : (sortByLabel ps).Perm (sortByLabel qs) :=
      (sortByLabel_perm ps).trans (h.trans (sortByLabel_perm qs).symm)
    have hs : sortByLabel ps = sortByLabel qs := by
      apply List.Perm.eq_of_pairwise _ (List.pairwise_insertionSort _ ps)
        (List.pairwise_insertionSort _ qs) hperm
      intro a b ha hb hab hba
      -- one label is one format, and no two payloads have the same
      have ha : a ∈ qs := h.mem_iff.1 ((sortByLabel_perm ps).mem_iff.1 ha)
      have hb : b ∈ qs := (sortByLabel_perm qs).mem_iff.1 hb
      have hlabel : a.1.label = b.1.label := le_antisymm hab hba
      have hformat : a.1 = b.1 := by rw [← hq a ha, ← hq b hb, hlabel]
      exact List.inj_on_of_nodup_map hn ha hb hformat
    rw [parts, parts, hs]

/-- Two lists that differ have the same hash. -/
def Collide [Blake3] (ps qs : List (ClipFormat × Bytes)) : Prop :=
  ¬ ps.Perm qs ∧ hashPayloads ps = hashPayloads qs

theorem hash_eq_iff [Blake3] (hp : Named ps) (hq : Named qs) (hn : (qs.map (·.1)).Nodup) :
    hashPayloads ps = hashPayloads qs ↔ ps.Perm qs ∨ Collide ps qs := by
  have hpart : ps.Perm qs → hashPayloads ps = hashPayloads qs :=
    fun h => congrArg ContentHash.ofParts ((parts_eq_iff hp hq hn).2 h)
  unfold Collide
  by_cases h : ps.Perm qs
  · simp [h, hpart h]
  · simp [h]

/-! ## What is read -/

/-- The formats that a platform reads, in the order in which it looks for them. -/
def readable : List ClipFormat := [.text, .html, .rtf, .png, .fileList]

theorem named_of_sublist (h : (ps.map (·.1)).Sublist readable) : Named ps := by
  intro p hp
  have hr : p.1 ∈ readable := h.subset (List.mem_map_of_mem hp)
  simp only [readable, List.mem_cons, List.not_mem_nil, or_false] at hr
  rcases hr with hr | hr | hr | hr | hr <;> rw [hr] <;> rfl

theorem nodup_of_sublist (h : (ps.map (·.1)).Sublist readable) : (ps.map (·.1)).Nodup :=
  h.nodup (by decide)

/-- What a platform reads back of a list of payloads: nothing when it takes them for hidden, else
those it kept. -/
structure Backend.Reads (b : Backend) (payloads : List (ClipFormat × Bytes)) (hidden : Prop)
    (kept : Capture) : Prop where
  untouched : b.write payloads = none → kept.payloads = []
  concealed : ∀ {contents}, b.write payloads = some contents → hidden →
    b.poll contents = .concealed
  plain : ∀ {contents}, b.write payloads = some contents → ¬ hidden →
    b.poll contents = .of kept.payloads kept.app

/-- **When an echo is captured**: the watcher takes a look and finds a clipboard that is not hidden,
no rule refuses what it reads, and the guard has another hash. -/
theorem Backend.Reads.captured_iff [Blake3] [Regex] {b : Backend} {hidden : Prop} {kept c : Capture}
    (h : b.Reads ps hidden kept) {config : WatchConfig} {guard : OwnWriteGuard} {last : RawPoll}
    {written now : Nat} (hnow : now - written ≤ guard.ttl) :
    b.echo config guard last ps written now = some (.captured c) ↔
      c = kept ∧ ¬ hidden ∧ b.sees last (.data kept) ∧ ¬ config.Refuses kept ∧
        hashPayloads ps ≠ hashPayloads kept.payloads := by
  have hempty : kept.payloads = [] → config.Refuses kept := .inl
  unfold echo
  cases hw : b.write ps with
  | none => simp [hempty (h.untouched hw)]
  | some contents =>
    by_cases hh : hidden
    · simp [h.concealed hw hh, hh, classify]
    by_cases hk : kept.payloads = []
    · simp [h.plain hw hh, RawPoll.of, hk, hempty hk, classify]
    have hpoll : b.poll contents = .data kept := by simp [h.plain hw hh, RawPoll.of, hk]
    simp only [hpoll, hh, not_false_eq_true, true_and]
    split
    · next hs =>
      rw [Option.some_inj, classify_data_eq, OwnWriteGuard.check_recordWrite hnow]
      simp [hs]
    · next hs => simp [hs]

end Clipse
