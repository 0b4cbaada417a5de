import Clipse.Clipboard.Proof.Linux
import Clipse.Clipboard.Proof.Windows

/-!
# The echo on each desktop

* `Desktop.captured_iff`: after this device wrote a list of payloads, its own watcher captures what
  the platform kept of it, unless the list is spared (`Desktop.Spared`).
-/

namespace Clipse

/-- The platforms with a watcher that reports changes by itself, each with what its system adds: the
library that copies on Wayland; on Windows the byte that an empty block has, and the process that
owns the clipboard after a write. -/
inductive Desktop where
  | x11
  | wayland (lib : Wayland.CopyLibrary)
  | windows (stale : UInt8) (owner : Option String)

namespace Desktop

variable {payloads : List (ClipFormat × Bytes)}

def backend [Blake3] : Desktop → Backend
  | x11 => X11.backend
  | wayland lib => Wayland.backend lib
  | windows stale owner => Windows.backend stale owner

/-- What is kept of a list that is written. -/
def kept (payloads : List (ClipFormat × Bytes)) : Desktop → Capture
  | x11 => { payloads := X11.kept payloads, app := none }
  | wayland lib => { payloads := Wayland.kept lib payloads, app := none }
  | windows stale owner => { payloads := Windows.kept stale payloads, app := owner }

/-- The list is kept whole. -/
def Whole (payloads : List (ClipFormat × Bytes)) : Desktop → Prop
  | x11 => X11.Whole payloads
  | wayland lib => Wayland.Whole lib payloads
  | windows _ _ => Windows.Whole payloads

/-- The list reads as the hint of a password manager. -/
def Hidden (payloads : List (ClipFormat × Bytes)) : Desktop → Prop
  | wayland lib => Wayland.Hidden lib payloads
  | x11 | windows _ _ => False

/-- The clipboard had the content that is kept before, which the watcher takes for no change. -/
def Unseen [Blake3] (payloads : List (ClipFormat × Bytes)) : Desktop → RawPoll → Prop
  | wayland lib, .data before =>
    hashPayloads (Wayland.kept lib payloads) = hashPayloads before.payloads
  | _, _ => False

theorem reads [Blake3] (d : Desktop) (payloads : List (ClipFormat × Bytes)) :
    d.backend.Reads payloads (d.Hidden payloads) (d.kept payloads) := by
  cases d with
  | x11 => exact X11.reads payloads
  | wayland lib => exact Wayland.reads lib payloads
  | windows stale owner => exact Windows.reads stale owner payloads

theorem kept_sublist (d : Desktop) (payloads : List (ClipFormat × Bytes)) :
    ((d.kept payloads).payloads.map (·.1)).Sublist readable := by
  cases d with
  | x11 => exact X11.kept_sublist payloads
  | wayland lib => exact Wayland.kept_sublist lib payloads
  | windows stale owner => exact Windows.kept_sublist stale payloads

theorem kept_nil (d : Desktop) : (d.kept []).payloads = [] := by
  cases d <;> rfl

theorem whole_iff (d : Desktop) (hne : payloads ≠ []) :
    payloads.Perm (d.kept payloads).payloads ↔ d.Whole payloads := by
  cases d with
  | x11 => exact X11.whole_iff hne
  | wayland lib => exact Wayland.whole_iff hne
  | windows stale owner => exact Windows.whole_iff

theorem sees_iff [Blake3] (d : Desktop) (last : RawPoll) :
    d.backend.sees last (.data (d.kept payloads)) ↔ ¬ d.Unseen payloads last := by
  cases d with
  | x11 | windows _ _ => simp [backend, X11.backend, Windows.backend, Unseen]
  | wayland lib =>
    cases last <;> simp [backend, Wayland.backend, Wayland.same, Unseen, kept]

/-- The echo of the list is not captured.

* The list is kept whole, so the guard knows the hash; or another list has the same hash.
* What is kept is hidden, refused by a rule, or no change. -/
def Spared [Blake3] [Regex] (d : Desktop) (config : WatchConfig) (last : RawPoll)
    (payloads : List (ClipFormat × Bytes)) : Prop :=
  d.Whole payloads ∨ Collide payloads (d.kept payloads).payloads ∨ d.Hidden payloads ∨
    config.Refuses (d.kept payloads) ∨ d.Unseen payloads last

/-- **When the echo of a write is captured.** -/
theorem captured_iff [Blake3] [Regex] {d : Desktop} {config : WatchConfig} {guard : OwnWriteGuard}
    {last : RawPoll} {written now : Nat} {c : Capture} (hp : Named payloads)
    (hnow : now - written ≤ guard.ttl) :
    d.backend.echo config guard last payloads written now = some (.captured c) ↔
      c = d.kept payloads ∧ ¬ d.Spared config last payloads := by
  rw [(d.reads payloads).captured_iff hnow, sees_iff, Ne,
    hash_eq_iff hp (named_of_sublist (d.kept_sublist payloads))
      (nodup_of_sublist (d.kept_sublist payloads))]
  by_cases hne : payloads = []
  · have hr : config.Refuses (d.kept payloads) := .inl (hne ▸ d.kept_nil)
    simp [Spared, hr]
  · rw [d.whole_iff hne]
    unfold Spared
    tauto

end Desktop
end Clipse
