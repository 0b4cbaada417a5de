import Clipse.Net.Discovery

/-!
# What is advertised is found

* `truncate_longest`: an advertised label is the longest beginning of the label that fits.
* `ServiceRecord.fromTxt_toTxt`: a record is read back from its texts.
* `Discovery.found_iff`: after any sweeps, an advertised device is found with what it advertises,
  unless it has the short id of this device or no address that can be dialled.
* `Discovery.lost_iff`: a device is reported lost exactly for the name under which it was found last.
-/

namespace Clipse

/-! ## Labels -/

section
variable {text p : List Char} {n maxBytes : Nat}

@[simp] theorem utf8Len_nil : utf8Len [] = 0 := rfl

@[simp] theorem utf8Len_cons (c : Char) (text : List Char) :
    utf8Len (c :: text) = c.utf8Size + utf8Len text := by
  rw [utf8Len, List.map_cons, List.sum_cons]
  rfl

theorem utf8Len_append (a b : List Char) : utf8Len (a ++ b) = utf8Len a + utf8Len b := by
  rw [utf8Len, List.map_append, List.sum_append]
  rfl

theorem eq_nil_of_utf8Len_eq_zero (h : utf8Len text = 0) : text = [] := by
  cases text with
  | nil => rfl
  | cons c text =>
    have := c.utf8Size_pos
    rw [utf8Len_cons] at h
    omega

theorem sliceTo_prefix : ∀ (text : List Char) (n : Nat), sliceTo text n <+: text
  | text, 0 => by
    cases text <;> exact List.nil_prefix
  | [], n + 1 => List.prefix_rfl
  | c :: text, n + 1 => by
    rw [sliceTo]
    exact List.cons_prefix_cons.2 ⟨rfl, sliceTo_prefix text _⟩

/-- A slice up to a boundary has the length that it was asked for. -/
theorem utf8Len_sliceTo : ∀ {text : List Char} {n : Nat}, isCharBoundary text n = true →
    utf8Len (sliceTo text n) = n
  | text, 0, _ => by
    cases text <;> rfl
  | [], n + 1, h => by
    rw [isCharBoundary] at h
    cases h
  | c :: text, n + 1, h => by
    rw [isCharBoundary, Bool.and_eq_true, decide_eq_true_eq] at h
    rw [sliceTo, utf8Len_cons, utf8Len_sliceTo h.2]
    omega

theorem isCharBoundary_utf8Len : ∀ {p text : List Char}, p <+: text →
    isCharBoundary text (utf8Len p) = true
  | [], text, _ => by
    cases text <;> rfl
  | c :: p, [], h => absurd (List.prefix_nil.1 h) (by simp)
  | c :: p, c' :: text, h => by
    obtain ⟨rfl, hp⟩ := List.cons_prefix_cons.1 h
    obtain ⟨m, hm⟩ := Nat.exists_eq_add_of_lt c.utf8Size_pos
    have hlen : utf8Len (c :: p) = m + utf8Len p + 1 := by
      rw [utf8Len_cons]
      omega
    have hrest : m + utf8Len p + 1 - c.utf8Size = utf8Len p := by omega
    have ih : isCharBoundary text (utf8Len p) = true := isCharBoundary_utf8Len hp
    rw [hlen, isCharBoundary, hrest, ih, Bool.and_true, decide_eq_true_eq]
    omega

theorem isCharBoundary_zero (text : List Char) : isCharBoundary text 0 = true := by
  cases text <;> rfl

variable (text) in
/-- The loop ends at the last boundary on its way down. -/
theorem boundaryBelow_spec : ∀ n, isCharBoundary text (boundaryBelow text n) = true ∧
    boundaryBelow text n ≤ n ∧ ∀ k ≤ n, isCharBoundary text k = true → k ≤ boundaryBelow text n
  | 0 => ⟨isCharBoundary_zero text, Nat.le_refl 0, fun _ hk _ => hk⟩
  | n + 1 => by
    rw [boundaryBelow]
    obtain ⟨hboundary, hle, hlast⟩ := boundaryBelow_spec n
    split
    · next h => exact ⟨h, Nat.le_refl _, fun _ hk _ => hk⟩
    · next h =>
      refine ⟨hboundary, Nat.le_succ_of_le hle, fun k hk hkb => ?_⟩
      have hne : k ≠ n + 1 := fun he => h (he ▸ hkb)
      exact hlast k (by omega) hkb

/-- **A label that is too long** is cut after the last character that fits. -/
theorem truncate_longest (text : List Char) (maxBytes : Nat) :
    truncateOnCharBoundary text maxBytes <+: text ∧
      utf8Len (truncateOnCharBoundary text maxBytes) ≤ maxBytes ∧
      ∀ p, p <+: text → utf8Len p ≤ maxBytes → p <+: truncateOnCharBoundary text maxBytes := by
  unfold truncateOnCharBoundary
  split
  · next h => exact ⟨List.prefix_rfl, h, fun p hp _ => hp⟩
  · obtain ⟨hboundary, hle, hlast⟩ := boundaryBelow_spec text maxBytes
    have hlen := utf8Len_sliceTo hboundary
    have hslice := sliceTo_prefix text (boundaryBelow text maxBytes)
    refine ⟨hslice, hlen.trans_le hle, fun p hp hpmax => ?_⟩
    have hple := hlast _ hpmax (isCharBoundary_utf8Len hp)
    rcases List.prefix_or_prefix_of_prefix hp hslice with hpre | ⟨rest, rfl⟩
    · exact hpre
    · rw [utf8Len_append, hlen] at hple
      rw [eq_nil_of_utf8Len_eq_zero (show utf8Len rest = 0 by omega), List.append_nil]

end

/-! ## Records -/

theorem parseU16_toString (n : UInt16) : parseU16 (toString n.toNat) = some n := by
  have htext : (toString n.toNat).toList = Nat.toDigits 10 n.toNat := by
    rw [Nat.toString_eq_ofList_toDigits, String.toList_ofList]
  have hdigits : ∀ c ∈ Nat.toDigits 10 n.toNat, c.isDigit = true := fun c hc =>
    Nat.isDigit_of_mem_toDigits (by decide) (by decide) hc
  have hsign : (Nat.toDigits 10 n.toNat).head? ≠ some '+' := fun h =>
    absurd (hdigits _ (List.mem_of_mem_head? h)) (by decide)
  unfold parseU16
  simp only [htext, if_neg hsign]
  rw [if_neg]
  · rw [Nat.ofDigitChars_toDigits (by decide) (by decide), if_pos n.toNat_lt, UInt16.ofNat_toNat]
  · rintro (h | h)
    · exact Nat.toDigits_ne_nil h
    · exact h (List.all_eq_true.2 hdigits)

namespace ServiceRecord

variable [UuidText]

/-- What a record reads back as, of this protocol version or another. -/
theorem fromTxt_toTxt (r : ServiceRecord) :
    fromTxt (collect r.toTxt) =
      if r.protocol = protocolVersion then .ok r
      else .error (.protocolMismatch r.protocol protocolVersion) := by
  have hv : field (collect r.toTxt) "v" = .ok (toString r.protocol.toNat) := by
    simp [field, collect, toTxt]
  have hid : field (collect r.toTxt) "id" = .ok (String.ofList r.device.text) := by
    simp [field, collect, toTxt]
  have hfp : field (collect r.toTxt) "fp" = .ok r.fingerprint := by simp [field, collect, toTxt]
  have hlabel : field (collect r.toTxt) "label" = .ok r.label := by simp [field, collect, toTxt]
  have hos : field (collect r.toTxt) "os" = .ok r.platform := by simp [field, collect, toTxt]
  unfold fromTxt
  simp only [hv, bind, Except.bind, parseU16_toString]
  by_cases hp : r.protocol = protocolVersion
  · simp only [hp, ne_eq, not_true_eq_false, if_false, hid, UuidText.parseStr_text, hfp, hlabel, hos,
      pure, Except.pure, if_true]
    rw [← hp]
  · simp only [hp, ne_eq, not_false_eq_true, if_true, if_false]

end ServiceRecord

/-! ## Sightings -/

namespace Discovery

variable [UuidText]

/-- What a sighting of a device tells of the advertisement. -/
theorem seen_found {s : Discovery} {info : ResolvedService} {peer : DiscoveredPeer}
    (h : s.seen info = some (.found peer)) :
    instanceOf info.fullname ≠ s.instanceName ∧ peer.device ≠ s.selfDevice ∧
      peer.addresses = (info.addresses.map (SocketAddr.new · info.port)).filter dialable := by
  unfold seen at h
  split at h
  · cases h
  next hname =>
  split at h
  · cases h
  · cases h
  · next record hrecord =>
    split at h
    · cases h
    next hdevice =>
    dsimp only at h
    split at h
    · cases h
    · obtain rfl := Sighting.found.inj (Option.some.inj h)
      exact ⟨hname, hdevice, rfl⟩

/-- Neither the name nor the device changes, and a sighting depends on nothing else. -/
structure SameSelf (s s' : Discovery) : Prop where
  instanceName : s'.instanceName = s.instanceName
  selfDevice : s'.selfDevice = s.selfDevice

theorem SameSelf.seen {s s' : Discovery} (h : SameSelf s s') (info : ResolvedService) :
    s'.seen info = s.seen info := by
  unfold Discovery.seen
  rw [h.instanceName, h.selfDevice]

theorem receive_resolved (s : Discovery) (info : ResolvedService) :
    (s.receive (.resolved info)).1 = s.seen info := by
  show (s.onResolved info).1 = s.seen info
  unfold onResolved
  split
  · next hseen => exact hseen.symm
  · rfl

theorem sameSelf_receive (s : Discovery) (event : ServiceEvent) : SameSelf s (s.receive event).2 := by
  cases event with
  | resolved info =>
    show SameSelf s (s.onResolved info).2
    unfold onResolved
    split <;> exact ⟨rfl, rfl⟩
  | removed fullName =>
    unfold receive
    dsimp only
    split <;> exact ⟨rfl, rfl⟩
  | other => exact ⟨rfl, rfl⟩

/-! ## Runs -/

/-- The state after some events. -/
def after (s : Discovery) (events : List ServiceEvent) : Discovery :=
  events.foldl (fun s event => (s.receive event).2) s

theorem sweep_eq (s : Discovery) (events : List ServiceEvent) : (s.sweep events).2 = s.after events := by
  induction events generalizing s with
  | nil => rfl
  | cons event events ih => exact ih (s.receive event).2

/-- Sweeps follow on one another. -/
theorem sweeps_eq (s : Discovery) (runs : List (List ServiceEvent)) :
    s.sweeps runs = s.after runs.flatten := by
  unfold sweeps
  induction runs generalizing s with
  | nil => rfl
  | cons events runs ih =>
    rw [List.foldl_cons, ih, sweep_eq, List.flatten_cons]
    exact List.foldl_append.symm

theorem sameSelf_after (s : Discovery) (events : List ServiceEvent) : SameSelf s (s.after events) := by
  induction events generalizing s with
  | nil => exact ⟨rfl, rfl⟩
  | cons event events ih =>
    have hstep := sameSelf_receive s event
    have hrest := ih (s.receive event).2
    exact ⟨hrest.instanceName.trans hstep.instanceName, hrest.selfDevice.trans hstep.selfDevice⟩

/-- The service is an advertisement of the record. -/
structure Advertises (info : ResolvedService) (r : ServiceRecord) : Prop where
  fullname : instanceOf info.fullname = r.instanceName
  txt : info.txtProperties = r.toTxt

/-- **What a device advertises is what others find**, whatever they have seen before: its id, its
fingerprint, its platform, as much of its label as fits, and every address that can be dialled. Only a
device with the same short id, or without such an address, is not found. -/
theorem found_iff (self : ServiceRecord) (runs : List (List ServiceEvent)) {info : ResolvedService}
    {device : DeviceId} {fingerprint label platform : String}
    (h : Advertises info (.new device fingerprint label platform)) (peer : DiscoveredPeer) :
    (((start self).sweeps runs).receive (.resolved info)).1 = some (.found peer) ↔
      device.short ≠ self.device.short ∧ peer.device = device ∧ peer.fingerprint = fingerprint ∧
        peer.platform = platform ∧
        peer.label = String.ofList (truncateOnCharBoundary label.toList maxLabelBytes) ∧
        peer.addresses = (info.addresses.map (SocketAddr.new · info.port)).filter dialable := by
  have hself := sameSelf_after (start self) runs.flatten
  rw [receive_resolved, sweeps_eq, hself.seen]
  have hname : instanceOf info.fullname = (start self).instanceName ↔
      device.short = self.device.short := by
    rw [h.fullname]
    show "clipse-" ++ device.short = "clipse-" ++ self.device.short ↔ _
    rw [String.append_right_inj]
  have hprotocol : (ServiceRecord.new device fingerprint label platform).protocol = protocolVersion :=
    rfl
  have hread := ServiceRecord.fromTxt_toTxt (.new device fingerprint label platform)
  rw [if_pos hprotocol] at hread
  unfold seen
  rw [h.txt, hread]
  by_cases hshort : device.short = self.device.short
  · rw [if_pos (hname.2 hshort)]
    simp [hshort]
  · have hdevice : device ≠ self.device := fun he => hshort (he ▸ rfl)
    rw [if_neg (hname.not.2 hshort)]
    dsimp only
    rw [if_neg (show ¬ (ServiceRecord.new device fingerprint label platform).device =
      (start self).selfDevice from hdevice)]
    obtain ⟨pdevice, plabel, pplatform, pfingerprint, paddresses, pnonempty⟩ := peer
    split
    · next hempty =>
      refine iff_of_false (by simp) fun hpeer => pnonempty ?_
      exact hpeer.2.2.2.2.2.trans hempty
    · next hne =>
      rw [Option.some_inj, Sighting.found.injEq, DiscoveredPeer.mk.injEq]
      constructor
      · rintro ⟨rfl, rfl, rfl, rfl, rfl⟩
        exact ⟨hshort, rfl, rfl, rfl, rfl, rfl⟩
      · rintro ⟨-, rfl, rfl, rfl, rfl, rfl⟩
        exact ⟨rfl, rfl, rfl, rfl, rfl⟩

/-! ## Withdrawals -/

/-- The event is about the name: a sighting of a device under it, or its withdrawal. -/
def Touches (s : Discovery) (name : String) : ServiceEvent → Prop
  | .resolved info => instanceOf info.fullname = name ∧ ∃ peer, s.seen info = some (.found peer)
  | .removed fullName => instanceOf fullName = name
  | .other => False

/-- The device was the last to be found under the name, and the name has not been withdrawn. -/
def FoundLast (s : Discovery) (events : List ServiceEvent) (name : String) (device : DeviceId) : Prop :=
  ∃ before info peer rest, events = before ++ .resolved info :: rest ∧
    instanceOf info.fullname = name ∧ s.seen info = some (.found peer) ∧ peer.device = device ∧
      ∀ event ∈ rest, ¬ Touches s name event

variable {s : Discovery} {events : List ServiceEvent} {event : ServiceEvent} {name : String}
  {device : DeviceId}

theorem foundLast_snoc : FoundLast s (events ++ [event]) name device ↔
    (∃ info peer, event = .resolved info ∧ instanceOf info.fullname = name ∧
        s.seen info = some (.found peer) ∧ peer.device = device) ∨
      ¬ Touches s name event ∧ FoundLast s events name device := by
  constructor
  · rintro ⟨before, info, peer, rest, he, hname, hseen, hdevice, hrest⟩
    rcases List.eq_nil_or_concat rest with rfl | ⟨rest, last, rfl⟩
    · exact .inl ⟨info, peer, List.head_eq_of_cons_eq (List.append_inj' he rfl).2, hname, hseen, hdevice⟩
    · rw [List.concat_eq_append] at he hrest
      rw [← List.cons_append, ← List.append_assoc] at he
      obtain ⟨hevents, hevent⟩ := List.append_inj' he rfl
      obtain rfl : event = last := List.head_eq_of_cons_eq hevent
      refine .inr ⟨hrest event (by simp), before, info, peer, rest, hevents, hname, hseen, hdevice, ?_⟩
      exact fun e he => hrest e (List.mem_append_left _ he)
  · rintro (⟨info, peer, rfl, hname, hseen, hdevice⟩ | ⟨htouch, before, info, peer, rest, rfl, hname,
      hseen, hdevice, hrest⟩)
    · exact ⟨events, info, peer, [], rfl, hname, hseen, hdevice, fun e he => absurd he List.not_mem_nil⟩
    · refine ⟨before, info, peer, rest ++ [event], by simp, hname, hseen, hdevice, fun e he => ?_⟩
      rcases List.mem_append.1 he with he | he
      · exact hrest e he
      · rwa [List.mem_singleton.1 he]

/-- An event leaves what is known of the other names. -/
theorem known_of_not_touches (h : ¬ Touches s name event) :
    (s.receive event).2.known name = s.known name := by
  cases event with
  | resolved info =>
    show (s.onResolved info).2.known name = _
    unfold onResolved
    split
    · next peer hseen =>
      have hname : name ≠ instanceOf info.fullname := fun he => h ⟨he.symm, peer, hseen⟩
      exact Function.update_of_ne hname _ _
    · rfl
  | removed fullName =>
    have hname : name ≠ instanceOf fullName := fun he => h he.symm
    unfold receive
    dsimp only
    split
    · exact Function.update_of_ne hname _ _
    · rfl
  | other => rfl

/-- **What is known of a name** after any events. -/
theorem known_iff (hstart : ∀ name, s.known name = none) :
    (s.after events).known name = some device ↔ FoundLast s events name device := by
  induction events using List.reverseRecOn with
  | nil =>
    refine iff_of_false (by simp [after, hstart]) ?_
    rintro ⟨before, info, peer, rest, he, -⟩
    exact absurd he (by simp)
  | append_singleton events event ih =>
    have hself := sameSelf_after s events
    have hafter : s.after (events ++ [event]) = ((s.after events).receive event).2 :=
      List.foldl_append
    rw [hafter, foundLast_snoc]
    by_cases htouch : Touches s name event
    · have hnot : ¬ (¬ Touches s name event ∧ FoundLast s events name device) := fun h => h.1 htouch
      rw [or_iff_left hnot]
      cases event with
      | resolved info =>
        obtain ⟨hname, peer, hseen⟩ := htouch
        have hknown : ((s.after events).receive (.resolved info)).2.known name = some peer.device := by
          show ((s.after events).onResolved info).2.known name = _
          unfold onResolved
          rw [hself.seen, hseen]
          dsimp only
          rw [hname]
          exact Function.update_self name _ _
        rw [hknown, Option.some_inj]
        constructor
        · exact fun he => ⟨info, peer, rfl, hname, hseen, he⟩
        · rintro ⟨info', peer', he, -, hseen', hdevice⟩
          obtain rfl := ServiceEvent.resolved.inj he
          rw [hseen] at hseen'
          rw [Sighting.found.inj (Option.some.inj hseen')]
          exact hdevice
      | removed fullName =>
        refine iff_of_false ?_ fun ⟨info, peer, he, _⟩ => by cases he
        have hname : instanceOf fullName = name := htouch
        unfold receive
        dsimp only
        split
        · rw [hname]
          simp
        · next hnone =>
          rw [hname] at hnone
          simp [hnone]
      | other => exact htouch.elim
    · have htouch' : ¬ Touches (s.after events) name event := by
        cases event with
        | resolved info =>
          rintro ⟨hname, peer, hseen⟩
          exact htouch ⟨hname, peer, hself.seen info ▸ hseen⟩
        | removed fullName => exact htouch
        | other => exact htouch
      rw [known_of_not_touches htouch', ih, or_iff_right, and_iff_right htouch]
      rintro ⟨info, peer, rfl, hname, hseen, -⟩
      exact htouch ⟨hname, peer, hseen⟩

/-- **A device is lost once for each time that it was found.** In any sweeps a withdrawal is reported
if and only if a device was found under the name and the name has been neither withdrawn nor given to
another device since; it is that device. And nothing that anybody advertises is ever a sighting of
this device itself, or leads to an address that cannot be dialled. -/
theorem lost_iff (self : ServiceRecord) (runs : List (List ServiceEvent)) :
    let s := (start self).sweeps runs
    (∀ fullName device, (s.receive (.removed fullName)).1 = some (.lost device) ↔
        FoundLast (start self) runs.flatten (instanceOf fullName) device) ∧
      ∀ event peer, (s.receive event).1 = some (.found peer) →
        peer.device ≠ self.device ∧ peer.addresses ≠ [] ∧ ∀ a ∈ peer.addresses, dialable a = true := by
  intro s
  have hs : s = (start self).after runs.flatten := sweeps_eq _ runs
  have hself : SameSelf (start self) s := hs ▸ sameSelf_after (start self) runs.flatten
  constructor
  · intro fullName device
    rw [← known_iff fun _ => rfl, ← hs]
    unfold receive
    dsimp only
    cases hknown : s.known (instanceOf fullName) with
    | none => simp
    | some d =>
      dsimp only
      rw [Option.some_inj, Sighting.lost.injEq, Option.some_inj]
  · intro event peer hfound
    cases event with
    | resolved info =>
      rw [receive_resolved] at hfound
      obtain ⟨-, hdevice, haddresses⟩ := seen_found hfound
      refine ⟨fun he => hdevice (he.trans hself.selfDevice.symm), peer.nonempty, fun a ha => ?_⟩
      rw [haddresses] at ha
      exact (List.mem_filter.1 ha).2
    | removed fullName =>
      unfold receive at hfound
      dsimp only at hfound
      split at hfound <;> cases hfound
    | other => cases hfound


/-! ## A phone -/

end Discovery

/-- The value of a hexadecimal digit. -/
def hexValue (c : Char) : Option Nat :=
  if '0' ≤ c ∧ c ≤ '9' then some (c.toNat - 48)
  else if 'a' ≤ c ∧ c ≤ 'f' then some (c.toNat - 87)
  else none

/-- Two digits for each byte. -/
def readHex : List Char → Option Bytes
  | [] => some []
  | [_] => none
  | a :: b :: rest => do
    let a ← hexValue a
    let b ← hexValue b
    let rest ← readHex rest
    return .ofNat (16 * a + b) :: rest

theorem hexValue_hexDigit : ∀ n < 16, hexValue (DeviceId.hexDigit n) = some n := by decide

theorem hexDigit_ne_hyphen : ∀ n < 16, DeviceId.hexDigit n ≠ '-' := by decide

theorem readHex_hexByte (bytes : Bytes) :
    readHex ((bytes.map UInt8.toNat).flatMap DeviceId.hexByte) = some bytes := by
  induction bytes with
  | nil => rfl
  | cons b bytes ih =>
    have hb := b.toNat_lt
    rw [List.map_cons, List.flatMap_cons]
    show readHex (DeviceId.hexDigit (b.toNat / 16) :: DeviceId.hexDigit (b.toNat % 16) ::
      (bytes.map UInt8.toNat).flatMap DeviceId.hexByte) = _
    rw [readHex, hexValue_hexDigit _ (by omega), hexValue_hexDigit _ (by omega), ih]
    show some (UInt8.ofNat (16 * (b.toNat / 16) + b.toNat % 16) :: bytes) = _
    rw [Nat.div_add_mod, UInt8.ofNat_toNat]

theorem filter_hexBytes {l : List Nat} (h : ∀ n ∈ l, n < 256) :
    (l.flatMap DeviceId.hexByte).filter (· ≠ '-') = l.flatMap DeviceId.hexByte := by
  rw [List.filter_eq_self]
  intro c hc
  obtain ⟨n, hn, hc⟩ := List.mem_flatMap.1 hc
  have hlt := h n hn
  rw [DeviceId.hexByte, List.mem_cons, List.mem_singleton] at hc
  rw [decide_eq_true_eq]
  rcases hc with rfl | rfl
  · exact hexDigit_ne_hyphen _ (by omega)
  · exact hexDigit_ne_hyphen _ (by omega)

/-- Without its hyphens, a UUID is its bytes. -/
theorem filter_hyphenated : ∀ (groups l : List Nat), (∀ n ∈ l, n < 256) →
    (DeviceId.hyphenated groups l).filter (· ≠ '-') = l.flatMap DeviceId.hexByte
  | [], l, h => filter_hexBytes h
  | k :: groups, l, h => by
    have ih := filter_hyphenated groups (l.drop k) fun n hn => h n (List.mem_of_mem_drop hn)
    rw [DeviceId.hyphenated, List.filter_append, List.filter_cons_of_neg (by simp), ih,
      filter_hexBytes fun n hn => h n (List.mem_of_mem_take hn), ← List.flatMap_append,
      List.take_append_drop]

/-- UUIDs in their usual form. -/
@[reducible]
def UuidText.usual : UuidText where
  parseStr s :=
    match readHex (s.toList.filter (· ≠ '-')) with
    | some bytes => if h : bytes.length = 16 then some ⟨⟨bytes.toArray, h⟩⟩ else none
    | none => none
  parseStr_text d := by
    have hkey : ∀ n ∈ d.key, n < 256 := by
      intro n hn
      obtain ⟨b, -, rfl⟩ := List.mem_map.1 hn
      exact b.toNat_lt
    have hread : readHex ((String.ofList d.text).toList.filter (· ≠ '-')) = some d.bytes.toList := by
      rw [String.toList_ofList, DeviceId.text, filter_hyphenated _ _ hkey]
      exact readHex_hexByte d.bytes.toList
    rw [hread]
    exact dif_pos d.bytes.length_toList

namespace Discovery

attribute [local instance] UuidText.usual

def phoneInfo : ResolvedService where
  fullname := "clipse-020202._clipse._udp.local."
  port := 7420
  addresses := [.v6 (.replicate 16 0xfe), .v4 (.replicate 4 10)]
  txtProperties := (ServiceRecord.new (.repeated 2) "a1b2c3d4" "Phone" "ios").toTxt

def phonePeer : DiscoveredPeer where
  device := .repeated 2
  label := String.ofList (truncateOnCharBoundary "Phone".toList maxLabelBytes)
  platform := "ios"
  fingerprint := "a1b2c3d4"
  addresses := (phoneInfo.addresses.map (SocketAddr.new · phoneInfo.port)).filter dialable
  nonempty := by decide

theorem found_iff_phone :
    (((start (.new (.repeated 1) "aaaaaaaa" "laptop" "linux")).sweeps []).receive
      (.resolved phoneInfo)).1 = some (.found phonePeer) :=
  have hadvertises : Advertises phoneInfo (.new (.repeated 2) "a1b2c3d4" "Phone" "ios") :=
    ⟨by decide +kernel, rfl⟩
  have hshort : (DeviceId.repeated 2).short ≠ (DeviceId.repeated 1).short := by decide +kernel
  (found_iff (.new (.repeated 1) "aaaaaaaa" "laptop" "linux") [] hadvertises phonePeer).2
    ⟨hshort, rfl, rfl, rfl, by rw [phonePeer], by rw [phonePeer]⟩

end Discovery
end Clipse
