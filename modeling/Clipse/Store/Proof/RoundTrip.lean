import Clipse.Store.Proof.Ops

/-!
# A clip through the database

`insert` accepts every clip whose hash covers its payloads in the order in which they come, and
writes formats down by their labels. Reading sorts the payloads by label and names a format by its
label again.

* `toClip_of_iff`: a row is the clip it was written for exactly when that order and those names are
  the clip's own (`Clip.Storable`).
* `reads_back_iff`: the same of every query that can return the clip.
-/

namespace Clipse

namespace Clip

/-- The payloads are in the order of their labels, and none has a format of its own for a label
that another format has. -/
structure Storable (c : Clip) : Prop where
  sorted : c.payloads.Pairwise (fun a b => a.label ≤ b.label)
  formats : ∀ p ∈ c.payloads, ClipFormat.fromLabel p.label = p.format

end Clip

/-! ## Rows -/

/-- A row of `payload` loses nothing but a format that another one's label hides. -/
theorem PayloadRow.toPayload_of_iff {p : Payload} :
    (PayloadRow.of p).toPayload = p ↔ ClipFormat.fromLabel p.label = p.format := by
  obtain ⟨format, digest, size, body⟩ := p
  have hbody : (PayloadRow.of ⟨format, digest, size, body⟩).toPayload.body = body := by
    cases body <;> rfl
  constructor
  · intro h
    exact congrArg Payload.format h
  · intro h
    unfold PayloadRow.toPayload at hbody ⊢
    rw [Payload.mk.injEq]
    exact ⟨h, rfl, rfl, hbody⟩

namespace ClipRow

/-- What is read is in the order of its labels. -/
theorem loadPayloads_sorted (r : ClipRow) :
    r.loadPayloads.Pairwise (fun a b => a.label ≤ b.label) := by
  have hs := List.pairwise_insertionSort
    (fun a b : PayloadRow => a.formatLabel ≤ b.formatLabel) r.payloads
  refine List.pairwise_map.2 (hs.imp fun {a b} hle => ?_)
  rw [PayloadRow.toPayload_label, PayloadRow.toPayload_label]
  exact hle

/-- **A row loads as the clip it was written for** exactly when the clip is storable. -/
theorem toClip_of_iff {c : Clip} : (of c).toClip = c ↔ c.Storable := by
  constructor
  · intro h
    have hp : (of c).loadPayloads = c.payloads := congrArg Clip.payloads h
    have hs : c.payloads.Pairwise (fun a b => a.label ≤ b.label) := hp ▸ loadPayloads_sorted (of c)
    refine ⟨hs, fun p hmem => ?_⟩
    rw [loadPayloads_of_le hs] at hp
    have he := List.map_inj_left.1 (hp.trans (List.map_id _).symm) p hmem
    exact PayloadRow.toPayload_of_iff.1 he
  · intro h
    have hp : (of c).loadPayloads = c.payloads := by
      rw [loadPayloads_of_le h.sorted]
      refine (List.map_congr_left fun p hp => ?_).trans (List.map_id _)
      exact PayloadRow.toPayload_of_iff.2 (h.formats p hp)
    rw [toClip, hp]
    rfl

end ClipRow

namespace Store

/-- Every query that returns the clip with the id of `c` returns `c`, whose hash is genuine. -/
structure ReadsBack [Blake3] (s : Store) (c : Clip) : Prop where
  get : s.get c.id = some c
  byHash : c.deleted = false → s.byHash c.hash = some c
  recent : ∀ q, ∀ x ∈ s.recent q, x.id = c.id → x = c
  changesSince : ∀ cursor limit, ∀ x ∈ s.changesSince cursor limit, x.id = c.id → x = c
  genuine : ∀ x, s.get c.id = some x → x.hashMatches

/-! ## Queries load rows -/

theorem get_of_mem {s : Store} {r : ClipRow} (h : r ∈ s.rows) : s.get r.id = some r.toClip := by
  unfold get loadClip
  rw [Table.find?_of_mem h]
  rfl

/-- The live row with a hash is found by it. -/
theorem byHash_of_mem {s : Store} {r : ClipRow} (h : r ∈ s.rows) (hlive : r.deleted = false) :
    s.byHash r.hash = some r.toClip := by
  have hf : s.rows.find? (fun r' => r'.hash = r.hash && !r'.deleted) = some r := by
    obtain ⟨front, back, hrows⟩ := List.append_of_mem h
    rw [hrows, List.find?_append, List.find?_eq_none.2, List.find?_cons_of_pos]
    · rfl
    · simp [hlive]
    · intro r' hr'
      have hp := s.liveLast
      change s.rows.Pairwise _ at hp
      rw [hrows, List.pairwise_append] at hp
      have hdead := hp.2.2 r' hr' r List.mem_cons_self
      simpa using hdead
  have hid : s.selectId r.hash false = some r.id := by
    unfold selectId
    rw [if_neg Bool.false_ne_true]
    change (s.rows.find? _).map _ = _
    rw [hf]
    rfl
  unfold byHash lookupByHash
  rw [hid]
  exact get_of_mem h

theorem mem_of_mem_page {α : Type} {q : HistoryQuery} {rows : List α} {r : α}
    (h : r ∈ q.page rows) : r ∈ rows := by
  unfold HistoryQuery.page at h
  split at h
  · exact List.mem_of_mem_drop h
  · exact List.mem_of_mem_drop (List.mem_of_mem_take h)

theorem mem_recent {s : Store} {q : HistoryQuery} {x : Clip} (h : x ∈ s.recent q) :
    ∃ r ∈ s.rows, r.toClip = x := by
  obtain ⟨r, hr, rfl⟩ := List.mem_map.1 h
  have hs := (List.mem_insertionSort _).1 (mem_of_mem_page hr)
  exact ⟨r, List.mem_of_mem_filter hs, rfl⟩

theorem mem_changesSince {s : Store} {cursor : Option Hlc} {limit : Nat} {x : Clip}
    (h : x ∈ s.changesSince cursor limit) : ∃ r ∈ s.rows, r.toClip = x := by
  obtain ⟨r, hr, rfl⟩ := List.mem_map.1 h
  have hs := (List.mem_insertionSort _).1 (List.mem_of_mem_take hr)
  refine ⟨r, ?_, rfl⟩
  cases cursor with
  | none => exact hs
  | some cursor => exact List.mem_of_mem_filter hs

section
variable [Blake3]

theorem mem_of_inserted {s s' : Store} {c : Clip} {id : ClipId}
    (h : s.insert c = .ok (.inserted id, s')) : c.hashMatches = true ∧ ClipRow.of c ∈ s'.rows := by
  rcases insert_cases h with ⟨ho, -⟩ | ⟨e, -, ho, -⟩ | ⟨-, hm, -, -, hrows, -⟩
  · cases ho
  · cases ho
  · refine ⟨hm, ?_⟩
    rw [hrows]
    exact List.mem_append_right _ (List.mem_singleton_self _)

/-- **A clip that was inserted is read back as it was** exactly when it is storable. -/
theorem reads_back_iff {s s' : Store} {c : Clip} {id : ClipId}
    (h : s.insert c = .ok (.inserted id, s')) : s'.ReadsBack c ↔ c.Storable := by
  obtain ⟨hm, hmem⟩ := mem_of_inserted h
  have hget : s'.get c.id = some (ClipRow.of c).toClip := get_of_mem hmem
  rw [← ClipRow.toClip_of_iff]
  constructor
  · intro hb
    have he := hb.get
    rw [hget] at he
    exact Option.some.inj he
  · intro he
    -- the row is the only one with its id
    have hrow : ∀ {x : Clip}, (∃ r ∈ s'.rows, r.toClip = x) → x.id = c.id → x = c := by
      intro x hx hid
      obtain ⟨r, hr, rfl⟩ := hx
      obtain rfl : r = ClipRow.of c := s'.clip.eq_of_key_eq hr hmem hid
      exact he
    refine ⟨hget.trans (congrArg some he), fun hd => ?_, fun q x hx => hrow (mem_recent hx),
      fun cursor limit x hx => hrow (mem_changesSince hx), fun x hx => ?_⟩
    · have hbh := byHash_of_mem hmem hd
      rw [he] at hbh
      exact hbh
    · rw [hget, he] at hx
      cases hx
      exact hm

/-- A clip of a peer, with its text in front of its markup. -/
def textFirst : Clip :=
  { Clip.hi 0 (.repeated 2) ⟨0, 0, .repeated 2⟩ with
    payloads := [.new .text (utf8 "hi"), .new .html (utf8 "hi")]
    hash := Clip.computeHash [.new .text (utf8 "hi"), .new .html (utf8 "hi")] }

theorem insert_textFirst : ∃ s', (open_ 0).insert textFirst = .ok (.inserted textFirst.id, s') := by
  have hm : textFirst.hashMatches = true := by simp [Clip.hashMatches, textFirst]
  have hn : (textFirst.payloads.map (·.label)).Nodup := by
    show ["text/plain", "text/html"].Nodup
    decide
  unfold insert
  simp only [hm, hn, Bool.not_true, Bool.false_eq_true, ↓reduceIte, decide_true]
  exact ⟨_, rfl⟩

end

section
attribute [local instance] Blake3.examples

/-- The peer's clip comes back with its markup in front of its text. -/
theorem not_reads_back :
    ¬ ∀ (s s' : Store) (c : Clip) id, s.insert c = .ok (.inserted id, s') → s'.ReadsBack c := by
  intro h
  obtain ⟨s', hs⟩ := insert_textFirst
  have hb := (h (open_ 0) s' textFirst _ hs).get
  have hget := get_of_mem (mem_of_inserted hs).2
  have hs := ClipRow.toClip_of_iff.1 (Option.some.inj (hget.symm.trans hb))
  have hle : "text/plain" ≤ "text/html" := List.rel_of_pairwise_cons hs.sorted List.mem_cons_self
  exact absurd hle (by decide)

/-- A copy of the text comes back as it was. -/
theorem reads_back_hi :
    ∃ s', (open_ 0).insert (Clip.hi 0 (.repeated 1) ⟨0, 0, .repeated 1⟩) =
      .ok (.inserted ⟨0⟩, s') ∧ s'.ReadsBack (Clip.hi 0 (.repeated 1) ⟨0, 0, .repeated 1⟩) := by
  obtain ⟨s', hs, -⟩ := insert_fresh (s := open_ 0)
    (Clip.hi_canonical 0 (.repeated 1) ⟨0, 0, .repeated 1⟩) nofun nofun
  refine ⟨s', hs, (reads_back_iff hs).2 ⟨List.pairwise_singleton _ _, fun p hp => ?_⟩⟩
  obtain rfl := List.mem_singleton.1 hp
  rfl

end

end Store
end Clipse
