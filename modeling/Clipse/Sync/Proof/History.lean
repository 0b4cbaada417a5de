import Clipse.Store.Proof.Order
import Clipse.Store.Proof.Reachable
import Clipse.Sync.Session

/-!
# The history on the wire

What one end offers (`offerSummaries`) and the other accumulates (`recvSummaries`).

* `steps_summaries`: the offered pages arrive as the one list of summaries they were cut from.
* `offered_iff`: the receiver gets every row of the offering store, in HLC order and on properly
  marked pages, exactly when the store holds at most `historyLimit` rows whose wall clocks are on
  one side of 2^63.
-/

namespace Clipse

open Duplex

/-- The summary of a row. -/
def ClipRow.summary (r : ClipRow) : ClipSummary := .of r.toClip

/-- The summaries that `offer_our_history` computes. -/
def Store.summaries (s : Store) : List ClipSummary :=
  (s.changesSince none Session.historyLimit).map ClipSummary.of

theorem Store.summaries_eq (s : Store) :
    s.summaries = ((byHlc s.clip.rows).take Session.historyLimit).map ClipRow.summary := by
  rw [summaries, changesSince, List.map_map]
  rfl

namespace Session

/-! ## Pages -/

/-- Pages of which the last one, and only that, is marked complete. -/
def Paged (msgs : List SyncMessage) (entries : List ClipSummary) : Prop :=
  ∃ (front : List (List ClipSummary)) (last : List ClipSummary),
    msgs = front.map (SyncMessage.summary · false) ++ [.summary last true] ∧ entries = front.flatten ++ last

theorem mapIdx_complete (front : List (List ClipSummary)) (last : List ClipSummary) :
    (front ++ [last]).mapIdx (fun index page =>
      SyncMessage.summary page (index + 1 = (front ++ [last]).length)) =
      front.map (SyncMessage.summary · false) ++ [.summary last true] := by
  rw [List.mapIdx_append]
  congr 1
  · refine List.ext_getElem (by simp) fun i hi _ => ?_
    have hi' : i < front.length := by simpa using hi
    simp [show i ≠ front.length by omega]
  · simp

theorem summaryPages_paged (entries : List ClipSummary) : Paged (summaryPages entries) entries := by
  by_cases h : entries = []
  · exact ⟨[], [], by simp [summaryPages, h], h⟩
  · have hne : entries.chunks summaryPage ≠ [] := List.chunks_ne_nil (by decide) h
    refine ⟨(entries.chunks summaryPage).dropLast, (entries.chunks summaryPage).getLast hne, ?_, ?_⟩
    · have he : entries.isEmpty = false := by simpa using h
      have hm := mapIdx_complete (entries.chunks summaryPage).dropLast
        ((entries.chunks summaryPage).getLast hne)
      rw [List.dropLast_append_getLast hne] at hm
      simpa [summaryPages, he] using hm
    · have hf : (entries.chunks summaryPage).flatten = entries :=
        List.flatten_chunks (by decide) entries
      rw [← List.dropLast_append_getLast hne, List.flatten_append] at hf
      simpa using hf.symm

theorem foldlM_moreSummaries (front : List (List ClipSummary)) (entries : List ClipSummary) :
    (front.map (SyncMessage.summary · false)).foldlM moreSummaries entries =
      some (entries ++ front.flatten) := by
  induction front generalizing entries with
  | nil => simp
  | cons page front ih => simp [moreSummaries, ih, List.append_assoc]

/-! ## The exchange -/

section
variable {α : Type} {q : Unit → Session α} {q' : List ClipSummary → Session α}
  {p : End syncWire α} {s : SyncContext} {inbox : List SyncMessage} {streams : List Bytes}
  {log : List (Traffic SyncMessage Bytes)}

theorem steps_sendAll (ms : List SyncMessage) :
    Steps (⟨sendAll ms >>= q, s, inbox, streams, log⟩, p)
      (⟨q (), s, inbox, streams, log ++ ms.map .sent⟩, p.deliver ms []) := by
  induction ms generalizing log p with
  | nil =>
    rw [deliver_nil, List.map_nil, List.append_nil]
    exact .refl
  | cons m ms ih =>
    have hd : p.deliver (m :: ms) [] = (p.deliver [m] []).deliver ms [] := by
      rw [deliver_deliver]
      rfl
    rw [sendAll, bind_assoc, List.map_cons, List.append_cons, hd]
    exact (steps_tell (W := syncWire) m).trans ih

theorem steps_offerSummaries :
    Steps (⟨offerSummaries >>= q, s, inbox, streams, log⟩, p)
      (⟨q (), s, inbox, streams, log ++ (summaryPages s.store.summaries).map .sent⟩,
        p.deliver (summaryPages s.store.summaries) []) := by
  rw [offerSummaries, bind_assoc]
  exact (steps_eval (Proc.eval_read _ _ _)).trans (steps_sendAll _)

theorem steps_recvSummaries {msgs : List SyncMessage} {entries : List ClipSummary}
    (h : Paged msgs entries) :
    Steps (⟨recvSummaries >>= q', s, msgs ++ inbox, streams, log⟩, p)
      (⟨q' entries, s, inbox, streams, log ++ msgs.map .received⟩, p) := by
  obtain ⟨front, last, rfl, rfl⟩ := h
  have hf := foldlM_moreSummaries front []
  rw [List.append_assoc, List.singleton_append, recvSummaries, bind_assoc]
  exact steps_hearWhile (by simp [moreSummaries]) hf

/-- **The pages arrive as the list they were cut from.** -/
theorem steps_summaries {t : SyncContext} {log' : List (Traffic SyncMessage Bytes)} :
    Steps (⟨offerSummaries >>= q, s, [], [], log⟩, ⟨recvSummaries >>= q', t, [], [], log'⟩)
      (⟨q (), s, [], [], log ++ (summaryPages s.store.summaries).map .sent⟩,
        ⟨q' s.store.summaries, t, [], [],
          log' ++ (summaryPages s.store.summaries).map .received⟩) := by
  refine steps_offerSummaries.trans ?_
  rw [End.deliver, List.nil_append, List.nil_append,
    ← List.append_nil (summaryPages s.store.summaries)]
  have hs := (@steps_recvSummaries _ q' ⟨q (), s, [], [],
    log ++ (summaryPages s.store.summaries).map .sent⟩ t [] [] log' _ _
    (summaryPages_paged s.store.summaries)).swap
  simpa using hs

end

/-! ## Every row is offered -/

/-- One summary per row of the store, in HLC order, on pages that are marked properly. -/
structure Offered (s : Store) (msgs : List SyncMessage) (entries : List ClipSummary) : Prop where
  perRow : entries.Perm (s.clip.rows.map ClipRow.summary)
  ordered : entries.Pairwise (fun a b => a.hlc ≤ b.hlc)
  paged : Paged msgs entries

theorem offered_summaries_iff (s : Store) :
    Offered s (summaryPages s.summaries) s.summaries ↔
      s.clip.rows.length ≤ historyLimit ∧ Store.OneSide s.clip.rows := by
  have hperm := Store.byHlc_perm s.clip.rows
  constructor
  · rintro ⟨hrow, hord, -⟩
    rw [Store.summaries_eq] at hrow hord
    have hlen : s.clip.rows.length ≤ historyLimit := by
      have h := hrow.length_eq
      rw [List.length_map, List.length_map, List.length_take, hperm.length_eq] at h
      omega
    rw [List.take_of_length_le (hperm.length_eq ▸ hlen), List.pairwise_map] at hord
    exact ⟨hlen, (Store.byHlc_ordered_iff _).1 hord⟩
  · rintro ⟨hlen, hside⟩
    have hs : s.summaries = (Store.byHlc s.clip.rows).map ClipRow.summary := by
      rw [Store.summaries_eq, List.take_of_length_le (hperm.length_eq ▸ hlen)]
    refine ⟨hs ▸ hperm.map _, ?_, summaryPages_paged _⟩
    rw [hs]
    exact List.pairwise_map.2 ((Store.byHlc_ordered_iff _).2 hside)

/-- The link of an end that offers the history of `a` and one that accumulates it. -/
def historyLink (a b : SyncContext) : Link syncWire (List ClipSummary) :=
  ({ proc := offerSummaries >>= fun _ => pure [], state := a },
    { proc := recvSummaries >>= pure, state := b })

/-- **Every stored row is offered**, in HLC order and with the last page marked, exactly when the
store holds at most `historyLimit` rows and their wall clocks lie on one side of 2^63. -/
theorem offered_iff (a b : SyncContext) :
    ∃ F entries, Completes (historyLink a b) F ∧ F.2.proc = .done entries ∧
      (Offered a.store F.1.sent entries ↔
        a.store.clip.rows.length ≤ historyLimit ∧ Store.OneSide a.store.clip.rows) := by
  refine ⟨_, _, ⟨steps_summaries, ⟨_, rfl⟩, ⟨_, rfl⟩⟩, rfl, ?_⟩
  simpa [End.sent] using offered_summaries_iff a.store

/-! ## A history that is cut off -/

/-- A store with too many rows is not offered as a whole. -/
theorem not_offered_of_long {s : Store} (h : historyLimit < s.rows.length) :
    ¬ Offered s (summaryPages s.summaries) s.summaries :=
  fun ho => absurd ((offered_summaries_iff s).1 ho).1 (not_le.2 h)

/-- A history of 100001 rows is cut off: the receiver does not get every row. -/
theorem long_history_cut_off :
    ¬ ∀ (a b : SyncContext) (F : Link syncWire (List ClipSummary)) (entries : List ClipSummary),
      Completes (historyLink a b) F → F.2.proc = .done entries →
        Offered a.store F.1.sent entries := by
  obtain ⟨s, hlong⟩ : ∃ s : Store, historyLimit < s.rows.length := by
    refine ⟨@Store.recopied .examples (historyLimit + 1), ?_⟩
    rw [(@Store.recopied_spec .examples _).2, List.length_map, List.length_range]
    exact Nat.lt_succ_self _
  intro h
  have ho := h (.start s (.repeated 1) fun _ => 0) (.start (.open_ 0) (.repeated 2) fun _ => 0) _ _
    ⟨steps_summaries, ⟨_, rfl⟩, ⟨_, rfl⟩⟩ rfl
  exact not_offered_of_long hlong (by simpa [End.sent] using ho)

end Session
end Clipse
