import Clipse.Clipboard.Proof.Secrets
import Clipse.Daemon.Proof.OwnWrite

/-!
# Secrets are not stored (`clipse-clipboard/src/watch.rs`, `clipsed/src/capture.rs`)

A daemon that was started with the search for secrets on stores no text that holds one, and it holds
back for a secret only what holds one (`secrets_screened`).
-/

namespace Clipse

section
variable [Regex] [WordTable] {capture : Capture}

/-- No text of the capture holds a secret. -/
def Capture.Clear (capture : Capture) : Prop :=
  ∀ p ∈ capture.payloads, p.1.isTextLike = true → ∀ kind, ¬ HoldsSecret (Utf.decode8 p.2) kind

theorem Capture.clear_iff [DocumentedRegex] :
    capture.Clear ↔ detectSecretInPayloads capture.payloads = none := by
  rw [detectSecretInPayloads, List.findSome?_eq_none_iff]
  refine forall₂_congr fun p _ => ?_
  by_cases htext : p.1.isTextLike = true
  · simp only [htext, if_true, true_imp_iff, detectSecret_eq_none_iff]
  · simp [htext]

variable [DocumentedRegex] [Blake3] {config : WatchConfig} {guard : OwnWriteGuard} {now : Nat}

/-- A change is held back for a secret if no other rule applies and some text holds one. -/
theorem classify_secret_iff (hdetect : config.detectSecrets = true) :
    (∃ kind, (classify (.data capture) config guard now).1 = .suppressed (.detectedSecret kind)) ↔
      config.Admits capture ∧ (guard.check (hashPayloads capture.payloads) now).1 = false ∧
        ¬ capture.Clear := by
  have hsecret : config.secret capture.payloads = detectSecretInPayloads capture.payloads :=
    if_pos hdetect
  rw [Capture.clear_iff, ← hsecret]
  unfold classify WatchConfig.Admits
  by_cases hempty : capture.payloads = []
  · simp [hempty]
  by_cases hlarge : config.maxPayloadBytes.toNat < totalBytes capture.payloads
  · simp [hempty, hlarge]
  cases hblocked : config.blocked capture.app with
  | some app => simp [hempty, hlarge, hblocked]
  | none =>
    cases hown : (guard.check (hashPayloads capture.payloads) now).1 with
    | true => simp [hempty, hlarge, hblocked, hown]
    | false =>
      cases hfound : config.secret capture.payloads with
      | some kind => simp [hempty, hlarge, Nat.not_lt.1 hlarge, hblocked, hown, hfound]
      | none => simp [hempty, hlarge, hblocked, hown, hfound]

end

namespace RunningDaemon

section
variable [Blake3] [Regex] [SavedFormats] [WordTable] {s : RunningDaemon} {op : RunningOp}

/-- **Secrets are screened.** What is stored holds none, and what is held back for one holds one:
every change that no other rule keeps out. -/
def Screened (s : RunningDaemon) : RunningOp → Prop
  | .take id => ∀ c capture, s.Stores id c capture → capture.Clear
  | .change (.data capture) now =>
      (∃ kind, (classify (.data capture) s.watch s.guard now).1 =
        .suppressed (.detectedSecret kind)) ↔
      s.watch.Admits capture ∧ (s.guard.check (hashPayloads capture.payloads) now).1 = false ∧
        ¬ capture.Clear
  | _ => True

omit [SavedFormats] in
theorem Copies.screened [DocumentedRegex] (h : s.Copies)
    (hdetect : s.started.detectSecrets = true) : s.Screened op := by
  cases op with
  | take id =>
    intro c capture hstores
    have hcaptured := (h.changes c (List.mem_of_mem_head? hstores.1)).symm.trans hstores.2.1
    rw [poll_eq_of_captured hcaptured] at hcaptured
    obtain ⟨-, hrefuses, -⟩ := classify_data_eq.1 hcaptured
    rw [Capture.clear_iff]
    by_contra hsecret
    refine hrefuses (.inr (.inr (.inr ?_)))
    have hlooks : (WatchConfig.of s.started).detectSecrets = true := hdetect
    rwa [WatchConfig.secret, if_pos hlooks]
  | change poll now =>
    cases poll with
    | concealed | empty => trivial
    | data capture =>
      have hwatch : s.watch.detectSecrets = true := by rw [h.watch]; exact hdetect
      exact classify_secret_iff hwatch
  | updateSettings | setPaused | ownWrite | others => trivial

omit [WordTable] in
theorem started_step (s : RunningDaemon) (op : RunningOp) : (s.step op).started = s.started := by
  cases op with
  | updateSettings settings outcome =>
    unfold RunningDaemon.step
    dsimp only
    split <;> rfl
  | setPaused | change | ownWrite => rfl
  | take id =>
    unfold RunningDaemon.step
    dsimp only
    split
    · rfl
    · split <;> rfl
  | others ctx =>
    unfold RunningDaemon.step
    dsimp only
    split <;> rfl

/-- In every run of a daemon that was started with the search for secrets on, they are screened. -/
theorem secrets_screened [DocumentedRegex] (daemon : Daemon) (guard : OwnWriteGuard)
    (ctx : SyncContext) (ops : List RunningOp)
    (hdetect : daemon.config.settings.detectSecrets = true) :
    Stepwise step Screened (run daemon guard ctx) ops := by
  have hinv : Stepwise step (fun _ _ => True) (run daemon guard ctx) ops := by
    rw [stepwise_iff_forall]
    exact fun _ _ _ _ => trivial
  refine hinv.imp (I := fun s => s.Copies ∧ s.started.detectSecrets = true) ?_ ?_
    ⟨copies_run daemon guard ctx, hdetect⟩
  · rintro s op ⟨h, hstarted⟩ -
    exact ⟨h.step op, by rw [started_step]; exact hstarted⟩
  · rintro s op ⟨h, hstarted⟩ -
    exact h.screened hstarted

end

/-! ## A key that is copied -/

attribute [local instance] cardBlake3 SavedFormats.laptop Regex.documented WordTable.ofAscii
  Regex.documented_spec

def keyCapture : Capture := { payloads := [(.text, utf8 (String.ofList keyLine))], app := none }

theorem secrets_screened_key : ¬ keyCapture.Clear :=
  ((secrets_screened Daemon.laptop (.new 5000) (.start (.open_ 0) (.repeated 1) fun _ => 0)
    [.change (.data keyCapture) 0] rfl).1.1 ⟨.gitHubToken, by decide +kernel⟩).2.2

end RunningDaemon
end Clipse
