import Clipse.Daemon.Privacy
import Clipse.Daemon.Proof.Saved
import Clipse.Lib.Stepwise
import Clipse.Store.Proof.Quota

/-!
# Settings that are saved and not in force (`clipsed/src/lib.rs`, `daemon.rs`)

No request reaches the copies that `run` has made of the privacy settings: the watcher classifies by
the settings of the start, and the store enforces their quota, until the next start. What is captured
is what the saved settings admit exactly as long as they ask for nothing new of it
(`saved_settings_in_force_iff`).
-/

namespace Clipse

/-! ## The two copies -/

theorem AppBlocklist.isBlocked_withExtra {l : AppBlocklist} {entries : List String} {app : String} :
    (l.withExtra entries).isBlocked app = (l.isBlocked app || (new entries).isBlocked app) := by
  unfold isBlocked withExtra
  simp only [List.any_append]
  cases decide (normalize app.toList ≠ [])
  · rfl
  · rfl

theorem WatchConfig.blocked_eq_none_iff {config : WatchConfig} {app : Option String} :
    config.blocked app = none ↔ ∀ a, app = some a → config.appBlocklist.isBlocked a = false := by
  unfold blocked
  cases app <;> simp

/-- What settings ask of a capture beyond what those of the start asked. -/
def Settings.AsksNoMore [Regex] (started settings : Settings) (capture : Capture) : Prop :=
  (∀ app, capture.app = some app →
      (AppBlocklist.new settings.blockedApps).isBlocked app = false) ∧
    (settings.detectSecrets = true → started.detectSecrets = true ∨
      detectSecretInPayloads capture.payloads = none)

section
variable [Regex] {started settings : Settings} {capture : Capture}

/-- The size limit is not a setting, and the blocked applications of the start are no part of what
is saved later. -/
theorem WatchConfig.not_refuses_of_iff (h : ¬ (WatchConfig.of started).Refuses capture) :
    ¬ (WatchConfig.of settings).Refuses capture ↔ started.AsksNoMore settings capture := by
  unfold Refuses at h
  simp only [not_or, not_not, blocked_eq_none_iff] at h
  obtain ⟨hempty, hlarge, hblocked, hsecret⟩ := h
  have hsize : ¬ (WatchConfig.of settings).maxPayloadBytes.toNat < totalBytes capture.payloads :=
    hlarge
  have hdefaults : ∀ app, capture.app = some app →
      AppBlocklist.defaults.isBlocked app = false := by
    intro app happ
    have hstart := hblocked app happ
    simp only [WatchConfig.of, AppBlocklist.isBlocked_withExtra, Bool.or_eq_false_iff] at hstart
    exact hstart.1
  have happs : (∀ app, capture.app = some app →
        (WatchConfig.of settings).appBlocklist.isBlocked app = false) ↔
      ∀ app, capture.app = some app →
        (AppBlocklist.new settings.blockedApps).isBlocked app = false := by
    refine forall₂_congr fun app happ => ?_
    simp [WatchConfig.of, AppBlocklist.isBlocked_withExtra, hdefaults app happ]
  have hsecrets : (WatchConfig.of settings).secret capture.payloads = none ↔
      (settings.detectSecrets = true → started.detectSecrets = true ∨
        detectSecretInPayloads capture.payloads = none) := by
    unfold secret at hsecret ⊢
    cases hold : started.detectSecrets with
    | true => simp_all [WatchConfig.of]
    | false =>
      cases hnew : settings.detectSecrets with
      | true => simp [WatchConfig.of, hnew]
      | false => simp [WatchConfig.of, hnew]
  unfold Refuses
  simp only [not_or, not_not, blocked_eq_none_iff, happs, hsecrets]
  exact ⟨fun h => h.2.2, fun h => ⟨hempty, hsize, h⟩⟩

end

/-! ## Changes -/

section
variable [Blake3] [Regex] {poll : RawPoll} {config : WatchConfig} {guard : OwnWriteGuard} {now : Nat}
  {capture : Capture}

theorem poll_eq_of_captured (h : (classify poll config guard now).1 = .captured capture) :
    poll = .data capture := by
  cases poll with
  | concealed => cases h
  | empty => cases h
  | data c => rw [(classify_data_eq.1 h).1]

/-- What the settings of the start have let through, others would let through too. -/
theorem classify_of_iff {started settings : Settings}
    (h : (classify poll (.of started) guard now).1 = .captured capture) :
    (classify poll (.of settings) guard now).1 = .captured capture ↔
      started.AsksNoMore settings capture := by
  obtain rfl := poll_eq_of_captured h
  obtain ⟨-, hrefuses, hguard⟩ := classify_data_eq.1 h
  rw [classify_data_eq, WatchConfig.not_refuses_of_iff hrefuses]
  simp [hguard]

end

/-! ## The quota -/

namespace Store

theorem quota_foldl_putBlob [Blake3] (s : Store) (blobs : List Bytes) :
    (blobs.foldl (fun s bytes => s.putBlob (.of bytes) bytes) s).blobQuotaBytes =
      s.blobQuotaBytes := by
  induction blobs generalizing s with
  | nil => rfl
  | cons bytes blobs ih => exact ih (s.putBlob (.of bytes) bytes)

end Store

theorem SyncContext.quota_storeCapture [Blake3] {ctx ctx' : SyncContext} {id : ClipId}
    {capture : Capture} {outcome : InsertOutcome}
    (h : ctx.storeCapture id capture = .ok (outcome, ctx')) :
    ctx'.store.blobQuotaBytes = ctx.store.blobQuotaBytes := by
  obtain ⟨clip, s, hinsert, hstore⟩ := storeCapture_eq_ok h
  rw [hstore, Store.enforceBlobQuota, Store.quota_evict, (Store.sameBlobs_insert hinsert).quota,
    Store.quota_foldl_putBlob]

theorem SyncContext.quota_onCaptureEvent [Blake3] {ctx ctx' : SyncContext} {paused : Bool}
    {id : ClipId} {event : CaptureEvent} (h : ctx.onCaptureEvent paused id event = .ok ctx') :
    ctx'.store.blobQuotaBytes = ctx.store.blobQuotaBytes := by
  cases event with
  | suppressed reason =>
    cases h
    rfl
  | captured capture =>
    unfold onCaptureEvent at h
    dsimp only at h
    split at h
    · cases h
      rfl
    · cases hstore : ctx.storeCapture id capture with
      | error e =>
        rw [hstore] at h
        cases h
      | ok stored =>
        rw [hstore] at h
        cases h
        exact quota_storeCapture hstore

/-! ## Every run -/

namespace RunningDaemon

section
variable [Blake3] [Regex] [SavedFormats] {s : RunningDaemon} {op : RunningOp}

/-- The capture loop stores what the watcher has captured at the change. -/
def Stores (s : RunningDaemon) (id : ClipId) (c : Change) (capture : Capture) : Prop :=
  s.changes.head? = some c ∧ c.event = .captured capture ∧ s.paused = false ∧
    ∃ outcome ctx, s.ctx.storeCapture id capture = .ok (outcome, ctx)

/-- **Saved settings are in force.** What is stored is what `classify` admits under the settings that
were last saved before the change, and the quota that is enforced is the one last saved. -/
def InForce (s : RunningDaemon) : RunningOp → Prop
  | .take id => ∀ c capture, s.Stores id c capture →
      (∀ settings, c.saved = some settings →
        (classify c.poll (.of settings) c.guard c.now).1 = .captured capture) ∧
      ∀ settings, s.saved = some settings → s.ctx.store.blobQuotaBytes = settings.blobQuotaBytes
  | _ => True

/-- The settings that were saved ask nothing of what is stored that those of the start did not ask,
and have the quota of the start. -/
def NothingNew (s : RunningDaemon) : RunningOp → Prop
  | .take id => ∀ c capture, s.Stores id c capture →
      (∀ settings, c.saved = some settings → s.started.AsksNoMore settings capture) ∧
      ∀ settings, s.saved = some settings →
        settings.blobQuotaBytes = s.started.blobQuotaBytes
  | _ => True

/-- The copies are those that `run` has made. -/
structure Copies (s : RunningDaemon) : Prop where
  watch : s.watch = .of s.started
  quota : s.ctx.store.blobQuotaBytes = s.started.blobQuotaBytes
  changes : ∀ c ∈ s.changes, c.event = (classify c.poll (.of s.started) c.guard c.now).1

omit [SavedFormats] in
theorem Copies.inForce_iff (h : s.Copies) : s.InForce op ↔ s.NothingNew op := by
  cases op with
  | take id =>
    refine forall₃_congr fun c capture hstores => and_congr ?_ ?_
    · have hmem : c ∈ s.changes := List.mem_of_mem_head? hstores.1
      have hcaptured := (h.changes c hmem).symm.trans hstores.2.1
      exact forall₂_congr fun settings _ => classify_of_iff hcaptured
    · refine forall₂_congr fun settings _ => ?_
      rw [h.quota]
      exact eq_comm
  | updateSettings | setPaused | change | ownWrite | others => exact Iff.rfl

theorem Copies.step (h : s.Copies) (op : RunningOp) : (s.step op).Copies := by
  cases op with
  | updateSettings settings outcome =>
    unfold RunningDaemon.step
    dsimp only
    split
    · exact ⟨h.watch, h.quota, h.changes⟩
    · exact ⟨h.watch, h.quota, h.changes⟩
  | setPaused paused => exact ⟨h.watch, h.quota, h.changes⟩
  | change poll now =>
    refine ⟨h.watch, h.quota, ?_⟩
    intro c hc
    rcases List.mem_append.1 hc with hc | hc
    · exact h.changes c hc
    · rw [List.mem_singleton.1 hc]
      show (classify poll s.watch s.guard now).1 = (classify poll (.of s.started) s.guard now).1
      rw [h.watch]
  | ownWrite hash now => exact ⟨h.watch, h.quota, h.changes⟩
  | take id =>
    unfold RunningDaemon.step
    dsimp only
    split
    · exact h
    · next c changes hchanges =>
      have hrest : ∀ c' ∈ changes,
          c'.event = (classify c'.poll (.of s.started) c'.guard c'.now).1 := by
        intro c' hc'
        exact h.changes c' (hchanges ▸ List.mem_cons_of_mem c hc')
      split
      · next ctx hctx =>
        exact ⟨h.watch, (SyncContext.quota_onCaptureEvent hctx).trans h.quota, hrest⟩
      · exact ⟨h.watch, h.quota, hrest⟩
  | others ctx =>
    unfold RunningDaemon.step
    dsimp only
    split
    · next hquota => exact ⟨h.watch, hquota.trans h.quota, h.changes⟩
    · exact h

omit [SavedFormats] in
theorem copies_run (daemon : Daemon) (guard : OwnWriteGuard) (ctx : SyncContext) :
    (run daemon guard ctx).Copies where
  watch := rfl
  quota := rfl
  changes := by
    intro c hc
    cases hc

/-- In every run of the daemon, the settings that have been saved are in force in all that is stored
if and only if they ask nothing new of it. -/
theorem saved_settings_in_force_iff (daemon : Daemon) (guard : OwnWriteGuard) (ctx : SyncContext)
    (ops : List RunningOp) :
    Stepwise step InForce (run daemon guard ctx) ops ↔
      Stepwise step NothingNew (run daemon guard ctx) ops :=
  stepwise_congr (fun _ op (h : Copies _) _ => h.step op) (fun _ _ h => Copies.inForce_iff h)
    (copies_run daemon guard ctx)

end

/-! ## A card number -/

/-- The number of a test card. -/
def card : String := "4111 1111 1111 1111"

/-- BLAKE3 of the text. -/
def cardDigest : ContentHash :=
  { bytes :=
    #v[0x30, 0x7b, 0x2a, 0xeb, 0xf0, 0x3d, 0x85, 0x23, 0x9f, 0x7b, 0xf0, 0x97, 0x00, 0xa6, 0x8a,
      0x9a, 0xea, 0x1b, 0xa3, 0x30, 0x5b, 0x69, 0x23, 0x42, 0x34, 0x46, 0x5c, 0xf6, 0x47, 0xa5,
      0x30, 0xd2] }

/-- The content hash of a clip with it. -/
def cardHash : ContentHash :=
  { bytes :=
    #v[0x7e, 0xdf, 0x42, 0x20, 0x65, 0x26, 0xdc, 0x8c, 0x0e, 0x76, 0xe5, 0x5a, 0xd5, 0xdc, 0xa8,
      0x01, 0x31, 0xa0, 0xe1, 0x7f, 0x89, 0xc7, 0x69, 0x49, 0xeb, 0x92, 0x43, 0xf5, 0xf3, 0xe5,
      0x7e, 0x7b] }

/-- The hash of the text, as it is read from the clipboard. -/
def cardRead : ContentHash :=
  { bytes :=
    #v[0x73, 0x47, 0xd8, 0x3d, 0x86, 0x2a, 0x87, 0x98, 0xfa, 0x51, 0x0a, 0xaf, 0x1a, 0x82, 0x93,
      0x38, 0x9f, 0xad, 0x03, 0xf8, 0x02, 0xdf, 0x74, 0xe4, 0xae, 0xf3, 0xe5, 0xdc, 0x68, 0x76,
      0x04, 0xa5] }

/-- BLAKE3 on what is hashed here. -/
@[reducible] def cardBlake3 : Blake3 where
  hash bytes :=
    if bytes = utf8 card then cardDigest
    else if bytes = ContentHash.framed "text/plain" cardDigest.bytes.toList then cardHash
    else if bytes = ContentHash.framed "text/plain" (utf8 card) then cardRead
    else Blake3.examples.hash bytes

/-- The patterns on the number, in which none of them matches. -/
@[reducible] def noMatch : Regex where
  isMatch _ _ := false
  findIter _ _ := []

attribute [local instance] cardBlake3 noMatch SavedFormats.laptop

/-- Secrets are not looked for when the daemon starts. -/
def careless : Daemon :=
  { Daemon.laptop with
    config.settings.detectSecrets := false
    configFile.text := some <|
      (configText "desktop").replace "detect_secrets = true" "detect_secrets = false" }

def cardCapture : Capture := { payloads := [(.text, utf8 card)], app := none }

/-- They are to be, from now on; and the number is copied. -/
def cardRun : List RunningOp :=
  [.updateSettings (.default_ "desktop") .done, .change (.data cardCapture) 0, .take ⟨1⟩]

theorem not_saved_settings_in_force :
    ¬ ∀ daemon guard ctx ops, Stepwise step InForce (run daemon guard ctx) ops := by
  intro h
  have hrun := h careless (.new 5000) (.start (.open_ 0) (.repeated 1) fun _ => 0) cardRun
  obtain ⟨-, -, hforce, -⟩ := hrun
  have htoml : SavedFormats.toToml ⟨careless.config.device, .default_ "desktop"⟩ =
      .ok (configText "desktop") := if_pos rfl
  have hupdate : ∃ daemon, careless.updateSettings (.default_ "desktop") .done = (.ok (), daemon) := by
    unfold Daemon.updateSettings Config.save SavedFile.save
    dsimp only
    rw [htoml]
    exact ⟨_, rfl⟩
  obtain ⟨daemon, hupdate⟩ := hupdate
  have hcaptured : (classify (.data cardCapture) (.of careless.config.settings) (.new 5000) 0).1 =
      .captured cardCapture := by decide +kernel
  have hsecret : (classify (.data cardCapture) (.of (.default_ "desktop")) (.new 5000) 0).1 =
      .suppressed (.detectedSecret .creditCard) := by decide +kernel
  simp only [step, run, hupdate, hcaptured, List.nil_append] at hforce
  have hadmits := (hforce _ cardCapture ⟨rfl, rfl, rfl, _, _, rfl⟩).1 _ rfl
  rw [hsecret] at hadmits
  cases hadmits

end RunningDaemon
end Clipse
