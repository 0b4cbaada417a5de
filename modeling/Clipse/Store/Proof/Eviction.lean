import Clipse.Store.Proof.Quota
import Clipse.Store.Quota

/-!
# What a quota pass evicts (`clipse-store/src/blob.rs`)

The blobs that go are a prefix of the candidates, oldest use first, and no shorter prefix would have
been enough (`evictReporting_spec`). The counters are right as long as they fit into 64 bits, which
the sum over `blob_meta` guarantees.
-/

namespace Clipse
namespace Store

/-- The blobs are gone, and nothing else is. -/
structure Dropped (s s' : Store) (blobs : List BlobMeta) : Prop where
  blobMeta : s'.blobMeta.rows = s.blobMeta.rows.filter (·.digest ∉ blobs.map BlobMeta.digest)
  files : s'.files.rows = s.files.rows.filter (·.digest ∉ blobs.map BlobMeta.digest)
  rows : s'.rows = s.rows
  clipFts : s'.clipFts = s.clipFts
  quota : s'.blobQuotaBytes = s.blobQuotaBytes

theorem Dropped.nil (s : Store) : s.Dropped s [] := by
  refine ⟨?_, ?_, rfl, rfl, rfl⟩ <;> simp

theorem Dropped.cons {s s' : Store} {m : BlobMeta} {blobs : List BlobMeta}
    (h : (s.dropBlob m.digest).Dropped s' blobs) : s.Dropped s' (m :: blobs) := by
  have hsplit : ∀ d : ContentHash, (d ∉ blobs.map BlobMeta.digest ∧ d ≠ m.digest) ↔
      d ∉ (m :: blobs).map BlobMeta.digest := by
    intro d
    rw [List.map_cons, List.mem_cons, not_or, and_comm]
  refine ⟨?_, ?_, h.rows, h.clipFts, h.quota⟩
  · rw [h.blobMeta]
    show (s.blobMeta.erase (·.digest = m.digest)).rows.filter _ = _
    rw [Table.rows_erase, List.filter_filter]
    refine List.filter_congr fun r _ => ?_
    rw [← decide_not, ← Bool.decide_and]
    exact decide_eq_decide.2 (hsplit r.digest)
  · rw [h.files]
    show (s.files.erase (·.digest = m.digest)).rows.filter _ = _
    rw [Table.rows_erase, List.filter_filter]
    refine List.filter_congr fun f _ => ?_
    rw [← decide_not, ← Bool.decide_and]
    exact decide_eq_decide.2 (hsplit f.digest)

/-! ## The loop -/

/-- The total size. -/
def sizes (blobs : List BlobMeta) : Nat := (blobs.map (·.size)).sum

@[simp] theorem sizes_nil : sizes [] = 0 := rfl

@[simp] theorem sizes_cons (m : BlobMeta) (blobs : List BlobMeta) :
    sizes (m :: blobs) = m.size + sizes blobs := rfl

/-- `evicted` is the least that has to go of these candidates, in their order. -/
structure Least (s : Store) (evicted rest : List BlobMeta) : Prop where
  enough : s.blobBytes ≤ s.blobQuotaBytes.toNat + sizes evicted ∨ rest = []
  needed : ∀ n < evicted.length, s.blobQuotaBytes.toNat + sizes (evicted.take n) < s.blobBytes

/-- The counters after a pass from `s` to `s'` that evicted these. -/
structure Counts (s s' : Store) (report report' : QuotaReport) (evicted : List BlobMeta) :
    Prop where
  quotaBytes : report'.quotaBytes = report.quotaBytes
  bytesBefore : report'.bytesBefore = report.bytesBefore
  bytesAfter : report'.bytesAfter.toNat = s'.blobBytes
  total : s'.blobBytes + sizes evicted = s.blobBytes
  blobsEvicted : report'.blobsEvicted = report.blobsEvicted + evicted.length
  bytesEvicted : report'.bytesEvicted.toNat = report.bytesEvicted.toNat + sizes evicted

theorem size_le_blobBytes {s : Store} {m : BlobMeta} (hm : m ∈ s.blobMeta.rows) :
    m.size ≤ s.blobBytes := by
  have h := s.blobMeta.sum_erase (·.size) hm
  unfold blobBytes
  omega

theorem evictReporting_spec {s : Store} {report : QuotaReport} {candidates : List BlobMeta}
    (hn : (candidates.map BlobMeta.digest).Nodup) (hc : ∀ m ∈ candidates, m ∈ s.blobMeta.rows)
    (hused : report.bytesAfter.toNat = s.blobBytes)
    (hsum : report.bytesEvicted.toNat + s.blobBytes < 2 ^ 63) :
    (s.evictReporting report candidates).2 = s.evict candidates s.blobBytes ∧
    ∃ evicted rest, evicted ++ rest = candidates ∧ s.Least evicted rest ∧
      s.Dropped (s.evictReporting report candidates).2 evicted ∧
      s.Counts (s.evictReporting report candidates).2 report
        (s.evictReporting report candidates).1 evicted := by
  induction candidates generalizing s report with
  | nil =>
    refine ⟨rfl, [], [], rfl, ⟨.inr rfl, nofun⟩, .nil s, ?_⟩
    exact ⟨rfl, rfl, hused, rfl, rfl, rfl⟩
  | cons m candidates ih =>
    rw [List.map_cons, List.nodup_cons] at hn
    have hm := hc m List.mem_cons_self
    have hiff : report.bytesAfter ≤ s.blobQuotaBytes ↔ s.blobBytes ≤ s.blobQuotaBytes.toNat := by
      rw [UInt64.le_iff_toNat_le, hused]
    rw [evictReporting, evict]
    by_cases hle : s.blobBytes ≤ s.blobQuotaBytes.toNat
    · rw [if_pos (hiff.2 hle), if_pos hle]
      exact ⟨rfl, [], m :: candidates, rfl, ⟨.inl hle, nofun⟩, .nil s,
        ⟨rfl, rfl, hused, rfl, rfl, rfl⟩⟩
    rw [if_neg (hiff.not.2 hle), if_neg hle]
    rw [Nat.not_le] at hle
    -- the counters stay within 64 bits
    have hsize := size_le_blobBytes hm
    have hdrop := blobBytes_dropBlob hm
    have hof : (UInt64.ofNat m.size).toNat = m.size := by
      rw [UInt64.toNat_ofNat', Nat.mod_eq_of_lt]
      omega
    have hlt : ¬ report.bytesAfter < UInt64.ofNat m.size := by
      rw [UInt64.lt_iff_toNat_lt, hof, hused]
      omega
    have hafter : (report.bytesAfter - UInt64.ofNat m.size).toNat =
        (s.dropBlob m.digest).blobBytes := by
      rw [UInt64.toNat_sub_of_le _ _ (by rwa [UInt64.le_iff_toNat_le, ← Nat.not_lt,
        ← UInt64.lt_iff_toNat_lt]), hof, hused, hdrop]
    have hevicted : (report.bytesEvicted + UInt64.ofNat m.size).toNat =
        report.bytesEvicted.toNat + m.size := by
      rw [UInt64.toNat_add, hof, Nat.mod_eq_of_lt]
      omega
    have hsum' : (report.bytesEvicted + UInt64.ofNat m.size).toNat +
        (s.dropBlob m.digest).blobBytes < 2 ^ 63 := by
      rw [hevicted, hdrop]
      omega
    have hrest : ∀ r ∈ candidates, r ∈ (s.dropBlob m.digest).blobMeta.rows := by
      intro r hr
      refine List.mem_filter.2 ⟨hc r (List.mem_cons_of_mem _ hr), ?_⟩
      have hne : r.digest ≠ m.digest := fun he => hn.1 (he ▸ List.mem_map_of_mem hr)
      simp [hne]
    dsimp only
    rw [if_neg hlt]
    obtain ⟨hevict, evicted, rest, hsplit, hleast, hdropped, hcounts⟩ :=
      @ih (s.dropBlob m.digest)
        { report with
          bytesAfter := report.bytesAfter - UInt64.ofNat m.size
          blobsEvicted := report.blobsEvicted + 1
          bytesEvicted := report.bytesEvicted + UInt64.ofNat m.size }
        hn.2 hrest hafter hsum'
    rw [hdrop] at hevict
    refine ⟨hevict, m :: evicted, rest, by rw [List.cons_append, hsplit], ?_, hdropped.cons, ?_⟩
    · refine ⟨hleast.enough.imp_left fun he => ?_, fun n hn' => ?_⟩
      · rw [quota_dropBlob] at he
        rw [sizes_cons]
        omega
      · cases n with
        | zero => exact hle
        | succ n =>
          have hneeded := hleast.needed n (Nat.lt_of_succ_lt_succ hn')
          rw [quota_dropBlob] at hneeded
          rw [List.take_succ_cons, sizes_cons]
          omega
    · obtain ⟨hquota, hbefore, hafter', htotal, hcount, hbytes⟩ := hcounts
      dsimp only at hcount hbytes
      refine ⟨hquota, hbefore, hafter', ?_, ?_, ?_⟩
      · rw [sizes_cons]
        omega
      · rw [hcount, List.length_cons]
        omega
      · rw [hbytes, hevicted, sizes_cons, Nat.add_assoc]

/-! ## The pass -/

/-- What one pass is to do, with the blobs that it evicts and those that it could have evicted
next. -/
structure MinimalEviction (s s' : Store) (report : QuotaReport) (evicted rest : List BlobMeta) :
    Prop where
  /-- Together they are the blobs that no live pinned clip refers to, oldest use first. -/
  candidates : (evicted ++ rest).Perm (s.blobMeta.rows.filter (·.digest ∉ s.kept))
  oldestFirst : (evicted ++ rest).Pairwise (fun a b => a.usedSeq ≤ b.usedSeq)
  unpinned : ∀ m ∈ evicted, m.digest ∉ s.kept
  least : s.Least evicted rest
  dropped : s.Dropped s' evicted
  quotaBytes : report.quotaBytes = s.blobQuotaBytes
  bytesBefore : report.bytesBefore.toNat = s.blobBytes
  bytesAfter : report.bytesAfter.toNat = s'.blobBytes
  blobsEvicted : report.blobsEvicted = evicted.length
  balance : report.bytesBefore.toNat = report.bytesAfter.toNat + report.bytesEvicted.toNat

theorem pairwise_candidates (s : Store) :
    s.candidates.Pairwise (fun a b => a.usedSeq ≤ b.usedSeq) := by
  have htotal : Std.Total (fun a b : BlobMeta => a.usedSeq ≤ b.usedSeq) :=
    ⟨fun a b => Nat.le_total _ _⟩
  have htrans : IsTrans BlobMeta (fun a b => a.usedSeq ≤ b.usedSeq) := ⟨fun a b c => Nat.le_trans⟩
  exact List.pairwise_insertionSort _ _

theorem nodup_candidates (s : Store) : (s.candidates.map BlobMeta.digest).Nodup :=
  ((s.candidates_perm.map _).nodup_iff).2 (s.blobMeta.nodup.sublist (List.filter_sublist.map _))

theorem sumSize_eq_some {s : Store} {total : UInt64} (h : s.sumSize = some total) :
    total.toNat = s.blobBytes ∧ s.blobBytes < 2 ^ 63 := by
  unfold sumSize at h
  split at h
  next hlt =>
    cases h
    rw [UInt64.toNat_ofNat', Nat.mod_eq_of_lt]
    · exact ⟨rfl, hlt⟩
    · omega
  next => cases h

/-- A pass over a store that is not within its quota. -/
theorem evictReporting_candidates {s : Store} {total : UInt64} (h : s.sumSize = some total) :
    let report : QuotaReport :=
      { quotaBytes := s.blobQuotaBytes, bytesBefore := total, bytesAfter := total,
        blobsEvicted := 0, bytesEvicted := 0 }
    (s.evictReporting report s.candidates).2 = s.enforceBlobQuota ∧
    ∃ evicted rest, evicted ++ rest = s.candidates ∧ s.Least evicted rest ∧
      s.Dropped (s.evictReporting report s.candidates).2 evicted ∧
      s.Counts (s.evictReporting report s.candidates).2 report
        (s.evictReporting report s.candidates).1 evicted := by
  obtain ⟨htotal, hfits⟩ := sumSize_eq_some h
  rw [enforceBlobQuota]
  refine evictReporting_spec s.nodup_candidates (fun m hm => (mem_candidates.1 hm).1) htotal ?_
  simpa using hfits

/-- One pass evicts the shortest prefix of the unreferenced blobs, oldest use first, that brings the
store within its quota, and nothing else; its report adds up. -/
theorem enforceBlobQuota_minimal {s s' : Store} {report : QuotaReport}
    (h : s.enforceBlobQuotaReporting = some (report, s')) :
    ∃ evicted rest, s.MinimalEviction s' report evicted rest := by
  unfold enforceBlobQuotaReporting at h
  split at h
  next => cases h
  next before hsum =>
  obtain ⟨hbefore, hfits⟩ := sumSize_eq_some hsum
  dsimp only at h
  split at h
  next hover =>
    obtain ⟨-, evicted, rest, hsplit, hleast, hdropped, hcounts⟩ := evictReporting_candidates hsum
    have hpair := Option.some.inj h
    rw [hpair] at hdropped hcounts
    refine ⟨evicted, rest, ?_⟩
    exact
      { candidates := hsplit ▸ s.candidates_perm
        oldestFirst := hsplit ▸ s.pairwise_candidates
        unpinned := fun m hm =>
          (mem_candidates.1 (hsplit ▸ List.mem_append_left rest hm)).2
        least := hleast
        dropped := hdropped
        quotaBytes := hcounts.quotaBytes
        bytesBefore := by rw [hcounts.bytesBefore, hbefore]
        bytesAfter := hcounts.bytesAfter
        blobsEvicted := by rw [hcounts.blobsEvicted, Nat.zero_add]
        balance := by
          have hevicted := hcounts.bytesEvicted
          have htotal := hcounts.total
          rw [hcounts.bytesBefore, hbefore, hcounts.bytesAfter, hevicted]
          simp only [UInt64.toNat_zero] at htotal ⊢
          omega }
  next hwithin =>
    cases h
    rw [UInt64.lt_iff_toNat_lt, hbefore, Nat.not_lt] at hwithin
    refine ⟨[], s.candidates, ?_⟩
    exact
      { candidates := s.candidates_perm
        oldestFirst := s.pairwise_candidates
        unpinned := nofun
        least := ⟨.inl hwithin, nofun⟩
        dropped := .nil s
        quotaBytes := rfl
        bytesBefore := hbefore
        bytesAfter := hbefore
        blobsEvicted := rfl
        balance := rfl }

/-- The pass with its counters does to the store what the pass without them does. -/
theorem enforceBlobQuotaReporting_eq_some {s s' : Store} {report : QuotaReport}
    (h : s.enforceBlobQuotaReporting = some (report, s')) : s' = s.enforceBlobQuota := by
  unfold enforceBlobQuotaReporting at h
  split at h
  next => cases h
  next before hsum =>
  dsimp only at h
  split at h
  next hover =>
    have hpair := Option.some.inj h
    rw [← (evictReporting_candidates hsum).1, hpair]
  next hwithin =>
    cases h
    rw [UInt64.lt_iff_toNat_lt, (sumSize_eq_some hsum).1, Nat.not_lt] at hwithin
    rw [enforceBlobQuota]
    cases hc : s.candidates with
    | nil => rfl
    | cons m candidates => rw [evict, if_pos hwithin]

/-! ## The order of use -/

/-- No two blobs were used last at the same time, and the counter is past all of them. -/
structure InOrder (s : Store) : Prop where
  apart : (s.blobMeta.rows.map (·.usedSeq)).Nodup
  le : ∀ m ∈ s.blobMeta.rows, m.usedSeq ≤ s.usedSeq

theorem InOrder.of_sublist {s s' : Store} (h : s.InOrder)
    (hrows : s'.blobMeta.rows.Sublist s.blobMeta.rows) (hseq : s'.usedSeq = s.usedSeq) :
    s'.InOrder :=
  ⟨h.apart.sublist (hrows.map _), fun m hm => hseq ▸ h.le m (hrows.subset hm)⟩

theorem InOrder.touchBlob {s : Store} (h : s.InOrder) (digest : ContentHash) :
    (s.touchBlob digest).InOrder := by
  have hrows : (s.touchBlob digest).blobMeta.rows = s.blobMeta.rows.map (fun m =>
      if m.digest = digest then { m with usedSeq := s.usedSeq + 1 } else m) := by
    simp [Store.touchBlob]
  have hboth := (List.pairwise_map.1 h.apart).and (List.pairwise_map.1 s.blobMeta.nodup)
  constructor
  · rw [hrows, List.map_map]
    refine List.pairwise_map.2 (hboth.imp_of_mem fun {a b} ha hb hne => ?_)
    have hla := h.le a ha
    have hlb := h.le b hb
    simp only [Function.comp_apply]
    split
    next hda =>
      -- the other blob was used before
      rw [if_neg fun hdb => hne.2 (hda.trans hdb.symm)]
      show s.usedSeq + 1 ≠ b.usedSeq
      omega
    next =>
      split
      next =>
        show a.usedSeq ≠ s.usedSeq + 1
        omega
      next => exact hne.1
  · intro m hm
    rw [hrows] at hm
    obtain ⟨r, hr, rfl⟩ := List.mem_map.1 hm
    have hle := h.le r hr
    show _ ≤ s.usedSeq + 1
    split
    · exact le_refl _
    · exact hle.trans (Nat.le_succ _)

theorem InOrder.putBlob {s : Store} (h : s.InOrder) (digest : ContentHash) (bytes : Bytes) :
    (s.putBlob digest bytes).InOrder := by
  cases hi : s.blobMeta.insert? ⟨digest, bytes.length, s.usedSeq + 1⟩ with
  | none =>
    have ht : (s.putBlob digest bytes).blobMeta = (s.touchBlob digest).blobMeta := by
      simp [Store.putBlob, hi]
    have htouch := h.touchBlob digest
    exact ⟨ht ▸ htouch.apart, ht ▸ htouch.le⟩
  | some t =>
    have ht : (s.putBlob digest bytes).blobMeta = t := by simp [Store.putBlob, hi]
    have hrows := (Table.insert?_eq_some.1 hi).2
    constructor
    · rw [ht, hrows, List.map_append, List.nodup_append]
      refine ⟨h.apart, List.nodup_singleton _, fun a ha b hb => ?_⟩
      obtain ⟨m, hm, rfl⟩ := List.mem_map.1 ha
      obtain rfl := List.mem_singleton.1 hb
      exact (Nat.lt_succ_of_le (h.le m hm)).ne
    · intro m hm
      rw [ht, hrows] at hm
      rcases List.mem_append.1 hm with hm | hm
      · exact (h.le m hm).trans (Nat.le_succ _)
      · rw [List.mem_singleton.1 hm]
        exact le_refl _

theorem InOrder.of_sameBlobs {s s' : Store} (h : s.InOrder) (hb : SameBlobs s s') : s'.InOrder :=
  h.of_sublist (by rw [hb.blobMeta]) hb.usedSeq

theorem InOrder.dropBlob {s : Store} (h : s.InOrder) (digest : ContentHash) :
    (s.dropBlob digest).InOrder := h.of_sublist List.filter_sublist rfl

theorem InOrder.evict {s : Store} (h : s.InOrder) (candidates : List BlobMeta) (bytesUsed : Nat) :
    (s.evict candidates bytesUsed).InOrder := by
  induction candidates generalizing s bytesUsed with
  | nil => exact h
  | cons m candidates ih =>
    rw [Store.evict]
    split
    · exact h
    · exact ih (h.dropBlob m.digest) _

theorem InOrder.pruneOrphanBlobs {s : Store} (h : s.InOrder) : s.pruneOrphanBlobs.InOrder := by
  unfold Store.pruneOrphanBlobs
  generalize (s.blobMeta.rows.map (·.digest)).filter _ = digests
  induction digests generalizing s with
  | nil => exact h
  | cons d digests ih => exact ih (h.dropBlob d)

/-- In stores in use the order of use is strict. -/
theorem Reachable.inOrder [Blake3] {s : Store} (h : Reachable s) : s.InOrder := by
  induction h with
  | open_ quota => exact ⟨List.nodup_nil, nofun⟩
  | insert hs hc h ih => exact ih.of_sameBlobs (sameBlobs_insert h)
  | setPinned hs h ih => exact ih.of_sameBlobs (setPinned_eq_ok h).2
  | delete hs h ih => exact ih.of_sameBlobs (delete_eq_ok h).2
  | purgeTombstones olderThanMs now hs ih =>
    exact InOrder.pruneOrphanBlobs (ih.of_sublist (List.Sublist.refl _) rfl)
  | putBlob hs h ih => exact ih.putBlob _ _
  | readBlob hs h ih =>
    unfold Store.readBlob at h
    split at h
    · cases h
    · cases h
      exact ih.touchBlob _
  | enforceBlobQuota hs ih => exact ih.evict _ _

/-- So what goes first is decided by the order of use alone. -/
theorem MinimalEviction.strictlyOldestFirst [Blake3] {s s' : Store} {report : QuotaReport}
    {evicted rest : List BlobMeta} (hs : Reachable s)
    (h : s.MinimalEviction s' report evicted rest) :
    (evicted ++ rest).Pairwise (fun a b => a.usedSeq < b.usedSeq) := by
  have hnodup : ((evicted ++ rest).map (·.usedSeq)).Nodup :=
    ((h.candidates.map _).nodup_iff).2 (hs.inOrder.apart.sublist (List.filter_sublist.map _))
  exact (h.oldestFirst.and (List.pairwise_map.1 hnodup)).imp fun hab => lt_of_le_of_ne hab.1 hab.2

/-! ## Two blobs -/

/-- BLAKE3 of the text `yo`. -/
def yoDigest : ContentHash :=
  { bytes :=
    #v[0xc1, 0x66, 0xf8, 0x75, 0x0a, 0x82, 0xa1, 0x93, 0x7f, 0x63, 0x53, 0x25, 0x8d, 0x73, 0x42,
      0x20, 0x14, 0x54, 0x46, 0x4a, 0x74, 0x12, 0x88, 0x01, 0x86, 0x29, 0xc3, 0xcc, 0xac, 0xbc,
      0xad, 0x5b] }

/-- Room for three bytes, and four in two blobs. -/
def twoBlobs : Store := ((open_ 3).putBlob hiDigest (utf8 "hi")).putBlob yoDigest (utf8 "yo")

theorem enforceBlobQuota_minimal_twoBlobs :
    ∃ evicted rest,
      twoBlobs.MinimalEviction (twoBlobs.dropBlob hiDigest) ⟨3, 4, 2, 1, 2⟩ evicted rest :=
  enforceBlobQuota_minimal rfl

end Store
end Clipse
