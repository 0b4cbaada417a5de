import Clipse.Store.Proof.RoundTrip
import Clipse.Store.Proof.Search
import Clipse.Store.Proof.Tombstone

/-!
# A search finds what is stored (`clipse-store/src/store.rs`, `fts.rs`)

The calls keep the search index in step with the live rows (`Findable`): each has one search row,
with the text of the clip that the row loads as. So a search through the index gives what reading
every live clip would give (`search_eq_scan`).
-/

namespace Clipse

/-! ## The indexed text -/

/-- What there is to find of the clip that a row loads as. -/
def ClipRow.searchText (r : ClipRow) : String := bodyText r.toClip

theorem ClipRow.searchText_congr {r r' : ClipRow} (hpreview : r.preview = r'.preview)
    (hpayloads : r.payloads = r'.payloads) : r.searchText = r'.searchText := by
  have hload : r.loadPayloads = r'.loadPayloads := by rw [loadPayloads, loadPayloads, hpayloads]
  unfold searchText bodyText toClip Clip.text
  rw [hload, hpreview]

/-- At most one element has the property, so its place does not matter. -/
theorem find?_eq_of_perm {α : Type} {p : α → Bool} {l l' : List α} (h : l.Perm l')
    (hone : ∀ a ∈ l, ∀ b ∈ l, p a = true → p b = true → a = b) : l.find? p = l'.find? p := by
  cases ha : l.find? p with
  | none =>
    rw [eq_comm, List.find?_eq_none]
    exact fun b hb => List.find?_eq_none.1 ha b (h.mem_iff.2 hb)
  | some a =>
    have hmem := List.mem_of_find?_eq_some ha
    have hpa := List.find?_some ha
    cases hb : l'.find? p with
    | none => exact absurd hpa (List.find?_eq_none.1 hb a (h.mem_iff.1 hmem))
    | some b =>
      exact congrArg some (hone a hmem b (h.mem_iff.2 (List.mem_of_find?_eq_some hb)) hpa
        (List.find?_some hb))

/-- No payload has a format of its own for a label that another format has. -/
def Clip.Labelled (c : Clip) : Prop := ∀ p ∈ c.payloads, ClipFormat.fromLabel p.label = p.format

/-- What is indexed of a clip is what there is to find of its row. -/
theorem ClipRow.searchText_of {c : Clip} (hlabels : (c.payloads.map (·.label)).Nodup)
    (hc : c.Labelled) : (of c).searchText = bodyText c := by
  have hback : (c.payloads.map PayloadRow.of).map PayloadRow.toPayload = c.payloads := by
    rw [List.map_map]
    refine (List.map_congr_left fun p hp => ?_).trans (List.map_id _)
    exact PayloadRow.toPayload_of_iff.2 (hc p hp)
  have hperm : (of c).loadPayloads.Perm c.payloads := by
    have hsort := (List.perm_insertionSort
      (fun a b : PayloadRow => a.formatLabel ≤ b.formatLabel) (c.payloads.map .of)).map
        PayloadRow.toPayload
    rwa [hback] at hsort
  have hone : ∀ a ∈ (of c).loadPayloads, ∀ b ∈ (of c).loadPayloads,
      decide (a.format = .text) = true → decide (b.format = .text) = true → a = b := by
    intro a ha b hb hat hbt
    have hlabel : a.label = b.label := by
      rw [Payload.label, Payload.label, of_decide_eq_true hat, of_decide_eq_true hbt]
    exact List.inj_on_of_nodup_map hlabels (hperm.mem_iff.1 ha) (hperm.mem_iff.1 hb) hlabel
  have htext : (of c).toClip.text = c.text := by
    unfold Clip.text toClip
    rw [find?_eq_of_perm hperm hone]
  unfold searchText bodyText
  rw [htext]
  rfl

/-! ## Phrases -/

/-- What the manual says of strings that stand side by side: each is a phrase, and a text has to hold
all of them; it holds a phrase if it has the tokens of the phrase one after the other. -/
structure Fts5.Conjoins [Fts5] (tokens : List Char → List (List Char)) : Prop where
  documented : Fts5.Documented
  parse : ∀ words : List (List Char), words ≠ [] → (∀ word ∈ words, tokens word ≠ []) →
    ∃ isMatch, Fts5.parse (words.map .literal) = .ok isMatch ∧
      ∀ body, isMatch body = words.all fun word => tokens word <:+: tokens body.toList

namespace Store

variable {s s' : Store}

/-! ## The index in step -/

/-- Every live row has its search row and no other, and a row that was deleted here has none. -/
structure Findable (s : Store) : Prop where
  indexed : Indexed s
  live : ∀ r ∈ s.rows, r.deleted = false → s.ftsOf r.id = [⟨r.id, r.searchText⟩]
  dropped : ∀ r ∈ s.rows, r.deletedAtMs.isSome → s.ftsOf r.id = []

theorem findable_open (quota : UInt64) : Findable (open_ quota) where
  indexed f hf := by cases hf
  live r hr := by cases hr
  dropped r hr := by cases hr

/-- Updates that leave alone what is found, and whether. -/
theorem Findable.of_map {f : ClipRow → ClipRow} (h : s.Findable) (hr : s'.rows = s.rows.map f)
    (hf : s'.clipFts = s.clipFts) (hid : ∀ r, (f r).id = r.id)
    (hdel : ∀ r, (f r).deleted = r.deleted) (hat : ∀ r, (f r).deletedAtMs = r.deletedAtMs)
    (htext : ∀ r, (f r).searchText = r.searchText) : s'.Findable := by
  have hfts : s'.ftsOf = s.ftsOf := by
    funext id
    rw [ftsOf, ftsOf, hf]
  have hcases : ∀ r ∈ s'.rows, ∃ r₀ ∈ s.rows, f r₀ = r := by
    intro r hr'
    rw [hr] at hr'
    exact List.mem_map.1 hr'
  refine ⟨fun g hg => ?_, fun r hr' hd => ?_, fun r hr' hd => ?_⟩
  · rw [hf] at hg
    obtain ⟨r₀, hr₀, he⟩ := h.indexed g hg
    exact ⟨f r₀, hr ▸ List.mem_map_of_mem hr₀, (hid r₀).trans he⟩
  · obtain ⟨r₀, hr₀, rfl⟩ := hcases r hr'
    rw [hfts, hid, htext]
    exact h.live r₀ hr₀ (hdel r₀ ▸ hd)
  · obtain ⟨r₀, hr₀, rfl⟩ := hcases r hr'
    rw [hfts, hid]
    exact h.dropped r₀ hr₀ (hat r₀ ▸ hd)

theorem ftsOf_append (hf : s'.clipFts = s.clipFts ++ [f]) (id : ClipId) :
    s'.ftsOf id = s.ftsOf id ++ if f.clipId = id then [f] else [] := by
  rw [ftsOf, hf, List.filter_append, List.filter_singleton]
  by_cases hid : f.clipId = id
  · simp [ftsOf, hid]
  · simp [ftsOf, hid]

/-- A row of its own for a clip. -/
theorem Findable.of_append {c : Clip} (h : s.Findable) (hlabels : (c.payloads.map (·.label)).Nodup)
    (hc : c.Labelled) (hid : ∀ r ∈ s.rows, r.id ≠ c.id) (hr : s'.rows = s.rows ++ [.of c])
    (hf : s'.clipFts = s.clipFts ++ [.of c]) : s'.Findable := by
  have hold : ∀ r ∈ s.rows, s'.ftsOf r.id = s.ftsOf r.id := by
    intro r hr₀
    have hne : ¬ (FtsRow.of c).clipId = r.id := fun he => hid r hr₀ he.symm
    rw [ftsOf_append hf, if_neg hne, List.append_nil]
  have hnone : s.ftsOf c.id = [] := by
    refine List.filter_eq_nil_iff.2 fun f hf₀ he => ?_
    obtain ⟨r, hr₀, hrf⟩ := h.indexed f hf₀
    exact hid r hr₀ (hrf.trans (of_decide_eq_true he))
  have hnew : s'.ftsOf c.id = [.of c] := by
    rw [ftsOf_append hf, hnone]
    exact if_pos rfl
  have hcases : ∀ r ∈ s'.rows, r ∈ s.rows ∨ r = .of c := by
    intro r hr'
    rw [hr] at hr'
    exact (List.mem_append.1 hr').imp_right List.mem_singleton.1
  refine ⟨fun f hf' => ?_, fun r hr' hd => ?_, fun r hr' hd => ?_⟩
  · rw [hr]
    rw [hf] at hf'
    rcases List.mem_append.1 hf' with hf' | hf'
    · obtain ⟨r, hr₀, he⟩ := h.indexed f hf'
      exact ⟨r, List.mem_append_left _ hr₀, he⟩
    · rw [List.mem_singleton.1 hf']
      exact ⟨.of c, List.mem_append_right _ (List.mem_singleton_self _), rfl⟩
  · rcases hcases r hr' with hr' | rfl
    · rw [hold r hr']
      exact h.live r hr' hd
    · rw [ClipRow.searchText_of hlabels hc]
      exact hnew
  · rcases hcases r hr' with hr' | rfl
    · rw [hold r hr']
      exact h.dropped r hr' hd
    · cases hd

/-- A deletion takes the search row away with the live row. -/
theorem Findable.of_delete {id : ClipId} {hlc : Hlc} {now : UInt64} (h : s.Findable)
    (hr : s'.rows = s.rows.map (fun r => if r.id = id && !r.deleted then bury now hlc r else r))
    (hf : s'.clipFts =
      if ∃ r ∈ s.rows, r.id = id ∧ r.deleted = false then s.clipFts.filter (·.clipId ≠ id)
      else s.clipFts) : s'.Findable := by
  by_cases hlive : ∃ r ∈ s.rows, r.id = id ∧ r.deleted = false
  swap
  · -- no row is hit
    have hmiss : ∀ r ∈ s.rows, ¬ (r.id = id && !r.deleted) := by
      intro r hr₀ he
      simp only [Bool.and_eq_true, decide_eq_true_eq, Bool.not_eq_true'] at he
      exact hlive ⟨r, hr₀, he⟩
    rw [map_eq_self hmiss] at hr
    rw [if_neg hlive] at hf
    refine h.of_map (f := fun r => r) ?_ hf (fun _ => rfl) (fun _ => rfl) (fun _ => rfl) fun _ => rfl
    rw [hr, List.map_id']
  obtain ⟨e, he, rfl, hd⟩ := hlive
  rw [if_pos ⟨e, he, rfl, hd⟩] at hf
  have hgone : s'.ftsOf e.id = [] := by
    rw [ftsOf, hf, List.filter_filter]
    exact List.filter_eq_nil_iff.2 fun f _ => by simp
  have hother : ∀ id', id' ≠ e.id → s'.ftsOf id' = s.ftsOf id' := by
    intro id' hne
    rw [ftsOf, hf, List.filter_filter]
    refine List.filter_congr fun f _ => ?_
    by_cases hfi : f.clipId = id'
    · simp [hfi, hne]
    · simp [hfi]
  have hcases : ∀ r ∈ s'.rows, r = bury now hlc e ∨ (r ∈ s.rows ∧ r.id ≠ e.id) := by
    intro r hr'
    rw [hr] at hr'
    obtain ⟨r₀, hr₀, rfl⟩ := List.mem_map.1 hr'
    by_cases hid : r₀.id = e.id
    · obtain rfl := s.clip.eq_of_key_eq hr₀ he hid
      exact .inl (by simp [hd])
    · exact .inr (by simp [hid, hr₀])
  refine ⟨fun f hf' => ?_, fun r hr' hrd => ?_, fun r hr' hrd => ?_⟩
  · rw [hf, List.mem_filter] at hf'
    obtain ⟨r, hr₀, hrf⟩ := h.indexed f hf'.1
    have hne : r.id ≠ e.id := by simpa [hrf] using hf'.2
    refine ⟨r, ?_, hrf⟩
    rw [hr]
    exact List.mem_map.2 ⟨r, hr₀, by simp [hne]⟩
  · rcases hcases r hr' with rfl | ⟨hr', hne⟩
    · cases hrd
    · rw [hother _ hne]
      exact h.live r hr' hrd
  · rcases hcases r hr' with rfl | ⟨hr', hne⟩
    · exact hgone
    · rw [hother _ hne]
      exact h.dropped r hr' hrd

/-- Only rows without a search row are purged. -/
theorem Findable.of_purge {olderThanMs now : UInt64} (h : s.Findable) :
    (s.purgeTombstones olderThanMs now).Findable := by
  have hfts : (s.purgeTombstones olderThanMs now).ftsOf = s.ftsOf := by
    funext id
    rw [ftsOf, ftsOf, clipFts_purgeTombstones]
  have hmem : ∀ r ∈ (s.purgeTombstones olderThanMs now).rows, r ∈ s.rows :=
    fun r => rows_purgeTombstones_subset
  refine ⟨fun f hf => ?_, fun r hr hd => ?_, fun r hr hd => ?_⟩
  · rw [clipFts_purgeTombstones] at hf
    obtain ⟨r, hr₀, he⟩ := h.indexed f hf
    have hkept : due olderThanMs now r = false := by
      by_contra hdue
      have hstamped : r.deletedAtMs.isSome := by
        cases hat : r.deletedAtMs with
        | none => simp [due, hat] at hdue
        | some at_ => rfl
      have hnil := h.dropped r hr₀ hstamped
      have hrow : f ∈ s.ftsOf r.id := List.mem_filter.2 ⟨hf, decide_eq_true he.symm⟩
      rw [hnil] at hrow
      cases hrow
    refine ⟨r, ?_, he⟩
    rw [rows_purgeTombstones, List.mem_filter]
    exact ⟨hr₀, by rw [hkept]; rfl⟩
  · rw [hfts]
    exact h.live r (hmem r hr) hd
  · rw [hfts]
    exact h.dropped r (hmem r hr) hd

section
variable [Blake3]

/-- The clips that a call inserts have formats that their labels name. -/
def Call.Labelled : Call → Prop
  | .write (.insert c) => c.Labelled
  | _ => True

/-- **Every call keeps the index in step.** -/
theorem Findable.call (h : s.Findable) {c : Call} (hc : c.Labelled) : (s.call c).Findable := by
  cases c with
  | write w =>
    cases w with
    | insert c =>
      rcases write_insert_cases s c with ⟨e, -, -, -, -, hr, hf⟩ | ⟨-, hlab, -, hid, hr, hf⟩ | ⟨hs, -⟩
      · refine h.of_map hr hf (fun r => ?_) (fun r => ?_) (fun r => ?_) fun r => ?_
        · split <;> rfl
        · split <;> rfl
        · split <;> rfl
        · split
          · exact ClipRow.searchText_congr rfl rfl
          · rfl
      · exact h.of_append hlab hc hid hr hf
      · show (s.write (.insert c)).Findable
        rwa [hs]
    | setPinned id pinned hlc =>
      refine h.of_map (rows_write_setPinned s id pinned hlc) (clipFts_write_setPinned s id pinned hlc)
        (fun r => ?_) (fun r => ?_) (fun r => ?_) fun r => ?_
      · split <;> rfl
      · split <;> rfl
      · split <;> rfl
      · split
        · exact ClipRow.searchText_congr rfl rfl
        · rfl
    | delete id hlc now =>
      exact h.of_delete (rows_write_delete s id hlc now) (clipFts_write_delete s id hlc now)
  | purgeTombstones olderThanMs now => exact h.of_purge

theorem findable_foldl (quota : UInt64) {calls : List Call} (hcalls : ∀ c ∈ calls, c.Labelled) :
    (calls.foldl call (open_ quota)).Findable :=
  List.foldlRecOn calls call (findable_open quota) fun _ h c hc => h.call (hcalls c hc)

end

/-! ## Searches -/

/-- A search without the index: every live clip is read, and has to hold all words of the text. -/
def scan (tokens : List Char → List (List Char)) (s : Store) (text : List Char) (q : HistoryQuery) :
    List Clip :=
  let words := splitWhitespace text
  let rows := s.rows.filter fun r =>
    !r.deleted && q.kind.all (r.kind = ·) && (!q.pinnedOnly || r.pinned) && words ≠ [] &&
      words.all fun word => tokens word <:+: tokens (bodyText r.toClip).toList
  (q.page (rows.insertionSort fun a b => b.hlc.column ≤ a.hlc.column)).map ClipRow.toClip

/-- The index names a live row exactly if its text matches. -/
theorem Findable.mem_ids_iff (h : s.Findable) {r : ClipRow} (hr : r ∈ s.rows)
    (hlive : r.deleted = false) (isMatch : String → Bool) :
    r.id ∈ (s.clipFts.filter (isMatch ·.body)).map (·.clipId) ↔ isMatch r.searchText = true := by
  have hrow := h.live r hr hlive
  constructor
  · intro hmem
    obtain ⟨f, hf, hid⟩ := List.mem_map.1 hmem
    obtain ⟨hf, hmatch⟩ := List.mem_filter.1 hf
    have hfts : f ∈ s.ftsOf r.id := List.mem_filter.2 ⟨hf, decide_eq_true hid⟩
    rw [hrow, List.mem_singleton] at hfts
    rwa [hfts] at hmatch
  · intro hmatch
    have hfts : (⟨r.id, r.searchText⟩ : FtsRow) ∈ s.ftsOf r.id := by
      rw [hrow]
      exact List.mem_singleton_self _
    exact List.mem_map.2 ⟨_, List.mem_filter.2 ⟨List.mem_of_mem_filter hfts, hmatch⟩, rfl⟩

variable [Fts5] {tokens : List Char → List (List Char)} {text : List Char}

theorem Findable.search_eq_scan (h : s.Findable) (hfts : Fts5.Conjoins tokens)
    (hnul : '\x00' ∉ text) (hwords : ∀ word ∈ splitWhitespace text, tokens word ≠ [])
    (q : HistoryQuery) : s.search text q = .ok (s.scan tokens text q) := by
  unfold search scan
  by_cases hnone : splitWhitespace text = []
  · rw [escapeQuery, if_pos hnone]
    simp [hnone, HistoryQuery.page]
  · have hclean : ∀ word ∈ splitWhitespace text, '\x00' ∉ word :=
      fun word hword => not_mem_of_mem_splitWhitespace hnul hword
    have hlex := lex_words hfts.documented hclean
    obtain ⟨isMatch, hparse, hmatch⟩ := hfts.parse _ hnone hwords
    have hrows : (s.clip.rows.filter fun r => !r.deleted && q.kind.all (r.kind = ·) &&
          (!q.pinnedOnly || r.pinned) &&
          r.id ∈ (s.clipFts.filter (isMatch ·.body)).map (·.clipId)) =
        s.rows.filter fun r => !r.deleted && q.kind.all (r.kind = ·) &&
          (!q.pinnedOnly || r.pinned) && splitWhitespace text ≠ [] &&
          (splitWhitespace text).all fun word =>
            tokens word <:+: tokens (bodyText r.toClip).toList := by
      refine List.filter_congr fun r hr => ?_
      cases hlive : r.deleted with
      | true => simp
      | false =>
        have hids := h.mem_ids_iff hr hlive isMatch
        rw [hmatch, ClipRow.searchText] at hids
        rw [decide_eq_decide.2 hids, Bool.decide_coe, decide_eq_true hnone, Bool.and_true]
    rw [escapeQuery, if_neg hnone]
    simp only [hlex, hparse, bind, Except.bind, pure, Except.pure]
    rw [hrows]

/-- **A search finds what is stored.** After any calls, what a search through the index returns is the
page of the live clips, newest first, of which the own text holds every word that was typed. -/
theorem search_exact [Blake3] (hfts : Fts5.Conjoins tokens) (quota : UInt64) (calls : List Call)
    (hcalls : ∀ c ∈ calls, c.Labelled) (hnul : '\x00' ∉ text)
    (hwords : ∀ word ∈ splitWhitespace text, tokens word ≠ []) (q : HistoryQuery) :
    (calls.foldl call (open_ quota)).search text q =
      .ok ((calls.foldl call (open_ quota)).scan tokens text q) :=
  (findable_foldl quota hcalls).search_eq_scan hfts hnul hwords q

end Store

/-! ## A search for a greeting -/

/-- Letters and digits between anything else, in lower case. -/
def asciiTokens (text : List Char) : List (List Char) :=
  ((text.map Char.toLower).splitOnP (!·.isAlphanum)).filter (· ≠ [])

/-- FTS5 with these tokens, for expressions that are strings. -/
@[reducible] def Fts5.phrases : Fts5 where
  lex := fts5Lex
  parse literals := .ok fun body => literals.all fun
    | .literal content => asciiTokens content <:+: asciiTokens body.toList
    | _ => false

section
attribute [local instance] Blake3.examples Fts5.phrases

theorem conjoins_phrases : Fts5.Conjoins asciiTokens where
  documented :=
    -- the lexer is the one of the other example
    have h : @Fts5.Documented Fts5.examples := documented_examples
    ⟨@Fts5.Documented.nil Fts5.examples h, @Fts5.Documented.space Fts5.examples h,
      @Fts5.Documented.string Fts5.examples h⟩
  parse _ _ _ := ⟨_, rfl, fun _ => List.all_map⟩

theorem Store.search_exact_greeting :
    let s := [Store.Call.write (.insert (Clip.hi 0 (.repeated 1) ⟨7, 0, .repeated 1⟩))].foldl
      Store.call (Store.open_ 0)
    s.search "\"HI\"!".toList {} = .ok (s.scan asciiTokens "\"HI\"!".toList {}) := by
  refine search_exact conjoins_phrases 0 _ (fun c hc => ?_) (by decide) (by decide) {}
  rw [List.mem_singleton.1 hc]
  intro p hp
  rw [List.mem_singleton.1 hp]
  rfl

end

end Clipse
