import Clipse.Crypto.Device
import Mathlib.Data.List.Induction
import Mathlib.Order.Compare
import Std.Data.TreeMap.Lemmas

/-!
# The trust set (`clipse-crypto/src/rotation.rs`)

Whom the device talks to, and the epoch that a removal moves forward. The map is keyed by the
device's id, which is a field of the record too; the two agree (`Trust.keyed`).

`peer_applyAll` and `epoch_applyAll` say what a whole sequence of changes leaves behind: the last
change of a device decides its record, and the epoch counts the removals that succeeded.
-/

namespace Clipse

instance : Std.LawfulEqCmp (compare : DeviceId → DeviceId → Ordering) where
  eq_of_compare h := compare_eq_iff_eq.1 h

structure Trust where
  localDeviceId : DeviceId
  epoch : UInt64
  peers : Std.TreeMap DeviceId PairedDevice
  keyed : ∀ (d : DeviceId) (p : PairedDevice), peers[d]? = some p → p.deviceId = d

namespace Trust

/-- `Trust::new`. -/
def new (localDeviceId : DeviceId) : Trust where
  localDeviceId
  epoch := 0
  peers := ∅
  keyed := by simp

def peer (t : Trust) (device : DeviceId) : Option PairedDevice := t.peers[device]?

def isPaired (t : Trust) (device : DeviceId) : Bool := t.peers.contains device

/-- `Trust::peer_by_static_key`: the first record with the key, in the order of the ids. -/
def peerByStaticKey (t : Trust) (key : DevicePublicKey) : Option PairedDevice :=
  (t.peers.toList.find? (fun e => e.2.staticPublic = key)).map (·.2)

/-- `Trust::add_peer`. -/
def addPeer (t : Trust) (p : PairedDevice) : Trust where
  localDeviceId := t.localDeviceId
  epoch := t.epoch
  peers := t.peers.insert p.deviceId p
  keyed d q h := by
    rw [Std.TreeMap.getElem?_insert] at h
    split at h
    next he => cases h; exact Std.LawfulEqCmp.eq_of_compare he
    next => exact t.keyed d q h

/-- `Trust::remove_peer`. -/
def removePeer (t : Trust) (device : DeviceId) : Except CryptoError (PairedDevice × Trust) :=
  match t.peers[device]? with
  | none => .error .notTrusted
  | some removed =>
    .ok (removed,
      { localDeviceId := t.localDeviceId
        epoch := t.epoch + 1
        peers := t.peers.erase device
        keyed := fun d q h => by
          rw [Std.TreeMap.getElem?_erase] at h
          split at h
          next => cases h
          next => exact t.keyed d q h })

/-- `Trust::authorize_static_key`. -/
def authorizeStaticKey (t : Trust) (key : DevicePublicKey) : Except CryptoError PairedDevice :=
  match t.peerByStaticKey key with
  | some p => .ok p
  | none => .error .notTrusted

/-! ## One operation -/

theorem isPaired_iff {t : Trust} {d : DeviceId} : t.isPaired d ↔ ∃ p, t.peer d = some p := by
  unfold isPaired peer
  rw [← Option.isSome_iff_exists, Std.TreeMap.isSome_getElem?_eq_contains]

theorem peer_addPeer (t : Trust) (p : PairedDevice) (d : DeviceId) :
    (t.addPeer p).peer d = if p.deviceId = d then some p else t.peer d := by
  show (t.peers.insert p.deviceId p)[d]? = _
  rw [Std.TreeMap.getElem?_insert]
  simp only [compare_eq_iff_eq]
  rfl

/-- A key is looked up by going through the records; the record found is a record of its id. -/
theorem peerByStaticKey_eq_some {t : Trust} {key : DevicePublicKey} {p : PairedDevice}
    (h : t.peerByStaticKey key = some p) : p.staticPublic = key ∧ t.peer p.deviceId = some p := by
  obtain ⟨⟨d, q⟩, hf, rfl⟩ := Option.map_eq_some_iff.1 h
  have hd : t.peers[d]? = some q :=
    Std.TreeMap.mem_toList_iff_getElem?_eq_some.1 (List.mem_of_find?_eq_some hf)
  refine ⟨by simpa using List.find?_some hf, ?_⟩
  show t.peers[q.deviceId]? = some q
  rw [t.keyed d q hd, hd]

theorem authorizeStaticKey_eq_ok {t : Trust} {key : DevicePublicKey} {p : PairedDevice}
    (h : t.authorizeStaticKey key = .ok p) : p.staticPublic = key ∧ t.peer p.deviceId = some p := by
  unfold authorizeStaticKey at h
  split at h
  next q hq => cases h; exact peerByStaticKey_eq_some hq
  next => cases h

theorem removePeer_eq_ok {t t' : Trust} {d : DeviceId} {p : PairedDevice}
    (h : t.removePeer d = .ok (p, t')) :
    t.peer d = some p ∧ t'.epoch = t.epoch + 1 ∧
      ∀ d', t'.peer d' = if d = d' then none else t.peer d' := by
  unfold removePeer at h
  split at h
  next => cases h
  next q hq =>
    cases h
    refine ⟨hq, rfl, fun d' => ?_⟩
    show (t.peers.erase d)[d']? = _
    rw [Std.TreeMap.getElem?_erase]
    simp only [compare_eq_iff_eq]
    rfl

theorem removePeer_eq_error {t : Trust} {d : DeviceId} {e : CryptoError}
    (h : t.removePeer d = .error e) : t.peer d = none := by
  unfold removePeer at h
  split at h
  next hn => exact hn
  next => cases h

end Trust

/-! ## Sequences of changes -/

/-- The operations that change a trust set. -/
inductive TrustOp where
  | addPeer (p : PairedDevice)
  | removePeer (device : DeviceId)

namespace TrustOp

/-- The device whose record the operation is about. -/
def device : TrustOp → DeviceId
  | addPeer p => p.deviceId
  | removePeer d => d

/-- What the operation leaves for its device. -/
def record : TrustOp → Option PairedDevice
  | addPeer p => some p
  | removePeer _ => none

end TrustOp

namespace Trust

/-- Run an operation; a removal that fails changes nothing. -/
def apply (t : Trust) : TrustOp → Trust
  | .addPeer p => t.addPeer p
  | .removePeer d =>
    match t.removePeer d with
    | .ok (_, t') => t'
    | .error _ => t

def applyAll (t : Trust) (ops : List TrustOp) : Trust := ops.foldl apply t

/-- Is the operation a removal that succeeds? -/
def removes (t : Trust) : TrustOp → Bool
  | .addPeer _ => false
  | .removePeer d => t.isPaired d

/-- How many of the operations are removals that succeed. -/
def removals (t : Trust) : List TrustOp → Nat
  | [] => 0
  | op :: ops => (t.removes op).toNat + (t.apply op).removals ops

/-- The last of the operations about a device. -/
def lastAbout (device : DeviceId) (ops : List TrustOp) : Option TrustOp :=
  (ops.filter (fun op => op.device = device)).getLast?

@[simp] theorem applyAll_nil (t : Trust) : t.applyAll [] = t := rfl

@[simp] theorem applyAll_cons (t : Trust) (op : TrustOp) (ops : List TrustOp) :
    t.applyAll (op :: ops) = (t.apply op).applyAll ops := rfl

theorem applyAll_append (t : Trust) (ops ops' : List TrustOp) :
    t.applyAll (ops ++ ops') = (t.applyAll ops).applyAll ops' := List.foldl_append

theorem peer_apply (t : Trust) (op : TrustOp) (d : DeviceId) :
    (t.apply op).peer d = if op.device = d then op.record else t.peer d := by
  cases op with
  | addPeer p => exact peer_addPeer t p d
  | removePeer d' =>
    show (t.apply (.removePeer d')).peer d = if d' = d then none else t.peer d
    unfold apply
    dsimp only
    split
    next p t' h => exact (removePeer_eq_ok h).2.2 d
    next e h =>
      split
      next hd => exact hd ▸ removePeer_eq_error h
      next => rfl

theorem epoch_apply (t : Trust) (op : TrustOp) :
    (t.apply op).epoch = t.epoch + UInt64.ofNat (t.removes op).toNat := by
  cases op with
  | addPeer p =>
    show t.epoch = t.epoch + 0
    rw [UInt64.add_zero]
  | removePeer d =>
    show (t.apply (.removePeer d)).epoch = t.epoch + UInt64.ofNat (t.isPaired d).toNat
    unfold apply
    dsimp only
    split
    next p t' h =>
      obtain ⟨hp, he, -⟩ := removePeer_eq_ok h
      rw [he, isPaired_iff.2 ⟨p, hp⟩]
      rfl
    next e h =>
      have hd : t.isPaired d = false := by
        rw [Bool.eq_false_iff, ne_eq, isPaired_iff, removePeer_eq_error h]
        simp
      rw [hd]
      simp

/-- **The last change of a device decides its record.** -/
theorem peer_applyAll (t : Trust) (ops : List TrustOp) (d : DeviceId) :
    (t.applyAll ops).peer d =
      match lastAbout d ops with
      | some op => op.record
      | none => t.peer d := by
  induction ops using List.reverseRecOn with
  | nil => rfl
  | append_singleton ops op ih =>
    rw [applyAll_append, applyAll_cons, applyAll_nil, peer_apply]
    by_cases h : op.device = d
    · simp [lastAbout, List.filter_append, h]
    · rw [if_neg h, ih]
      simp [lastAbout, List.filter_append, h]

/-- **The epoch counts the removals.** -/
theorem epoch_applyAll (t : Trust) (ops : List TrustOp) :
    (t.applyAll ops).epoch = t.epoch + UInt64.ofNat (t.removals ops) := by
  induction ops generalizing t with
  | nil => simp [removals]
  | cons op ops ih =>
    rw [applyAll_cons, ih, epoch_apply, removals, UInt64.ofNat_add, UInt64.add_assoc]

end Trust
end Clipse
