import Clipse.Daemon.Saved
import Clipse.Lib.Stepwise

/-!
# Requests that cannot be saved (`clipsed/src/daemon.rs`)

The three requests change memory before they know that the change is saved, and none of them takes it
back: a request that fails has changed nothing exactly if there was nothing to change
(`failed_requests_iff`). As long as every request is `Lasting`, what is in memory is what the next
start would load.
-/

namespace Clipse

/-! ## Saving -/

/-- What a file is to hold can be written, and is. -/
def Saves (text : Except String String) (outcome : WriteOutcome) : Prop :=
  outcome = .done ∧ ∃ t, text = .ok t

namespace SavedFile

variable (f f' : SavedFile) (what : String) {text : Except String String} {outcome : WriteOutcome}

theorem save_of_saves (h : Saves text outcome) :
    ∃ t, text = .ok t ∧ f.save what text outcome = (.ok (), { f with text := some t, tmp := none }) := by
  obtain ⟨rfl, t, rfl⟩ := h
  exact ⟨t, rfl, rfl⟩

/-- Whatever goes wrong, the file is still what it was. -/
theorem save_of_not_saves (h : ¬ Saves text outcome) :
    ∃ e f', f.save what text outcome = (.error e, f') ∧ f'.text = f.text := by
  cases text with
  | error source => exact ⟨_, f, rfl, rfl⟩
  | ok t =>
    cases outcome with
    | done => exact absurd ⟨rfl, t, rfl⟩ h
    | noDirectory source => exact ⟨_, f, rfl, rfl⟩
    | unwritten source tmp => exact ⟨_, { f with tmp }, rfl, rfl⟩
    | unrenamed source => exact ⟨_, { f with tmp := some (utf8 t) }, rfl, rfl⟩

variable {f f' what}

theorem saves_of_ok (h : f.save what text outcome = (.ok (), f')) : Saves text outcome := by
  by_contra hunsaved
  obtain ⟨e, f'', hsave, -⟩ := save_of_not_saves f what hunsaved
  rw [hsave] at h
  cases h

theorem isOk_save_eq_false :
    (f.save what text outcome).1.isOk = false ↔ ¬ Saves text outcome := by
  by_cases h : Saves text outcome
  · obtain ⟨t, -, hsave⟩ := save_of_saves f what h
    rw [hsave]
    simp [h, Except.isOk, Except.toBool]
  · obtain ⟨e, f', hsave, -⟩ := save_of_not_saves f what h
    rw [hsave]
    simp [h, Except.isOk, Except.toBool]

end SavedFile

/-! ## Trust sets that are the same -/

namespace Trust

variable {t t' t'' : Trust}

theorem Same.refl (t : Trust) : t.Same t := ⟨rfl, rfl, fun _ => rfl⟩

theorem Same.symm (h : t.Same t') : t'.Same t :=
  ⟨h.localDeviceId.symm, h.epoch.symm, fun d => (h.peer d).symm⟩

theorem Same.trans (h : t.Same t') (h' : t'.Same t'') : t.Same t'' :=
  ⟨h'.localDeviceId.trans h.localDeviceId, h'.epoch.trans h.epoch,
    fun d => (h'.peer d).trans (h.peer d)⟩

theorem same_addPeer_iff {p : PairedDevice} :
    t.Same (t.addPeer p) ↔ t.peer p.deviceId = some p := by
  constructor
  · intro h
    rw [← h.peer, peer_addPeer, if_pos rfl]
  · intro h
    refine ⟨rfl, rfl, fun d => ?_⟩
    rw [peer_addPeer]
    split
    · next hd => rw [← hd, h]
    · rfl

/-- A removal is never nothing: the epoch moves. -/
theorem not_same_of_removePeer {d : DeviceId} {p : PairedDevice}
    (h : t.removePeer d = .ok (p, t')) : ¬ t.Same t' := by
  intro hsame
  have hepoch : t'.epoch = t.epoch + 1 := by
    unfold removePeer at h
    split at h
    · cases h
    · cases h
      rfl
  rw [hsame.epoch] at hepoch
  have hne := congrArg UInt64.toNat hepoch
  rw [UInt64.toNat_add] at hne
  have hlt := t.epoch.toNat_lt
  simp at hne
  omega

end Trust

/-! ## The next start -/

/-- What a start parses out of the file is the same as `value`. -/
def SavedFile.Holds {A : Type} (parse : String → Except String A) (same : A → A → Prop)
    (f : SavedFile) (value : A) : Prop :=
  ∃ text read, f.text = some text ∧ parse text = .ok read ∧ same value read

namespace SavedFile

section
variable {A : Type} {f f' : SavedFile} {parse : String → Except String A} {same : A → A → Prop}
  {text : Except String String} {value value' : A} {outcome : WriteOutcome} {what : String}

theorem holds_congr (h : f'.text = f.text) : f'.Holds parse same value ↔ f.Holds parse same value := by
  unfold Holds
  rw [h]

theorem holds_save_of_saves (hread : ∀ t, text = .ok t → ∃ read, parse t = .ok read ∧ same value read)
    (h : Saves text outcome) : (f.save what text outcome).2.Holds parse same value := by
  obtain ⟨t, ht, hsave⟩ := save_of_saves f what h
  obtain ⟨read, hparse, hsame⟩ := hread t ht
  rw [hsave]
  exact ⟨t, read, rfl, hparse, hsame⟩

/-- A file that has not been written holds the new value only if it is the old one. -/
theorem holds_save_of_not_saves (hsame : Equivalence same) (hf : f.Holds parse same value)
    (h : ¬ Saves text outcome) :
    (f.save what text outcome).2.Holds parse same value' ↔ same value value' := by
  obtain ⟨e, f', hsave, htext⟩ := save_of_not_saves f what h
  rw [hsave, holds_congr htext]
  obtain ⟨t, read, ht, hparse, hread⟩ := hf
  constructor
  · rintro ⟨t', read', ht', hparse', hread'⟩
    rw [ht] at ht'
    cases ht'
    rw [hparse] at hparse'
    cases hparse'
    exact hsame.trans hread (hsame.symm hread')
  · intro hvalue
    exact ⟨t, read, ht, hparse, hsame.trans (hsame.symm hvalue) hread⟩

end

end SavedFile

/-- The same key, and the same trust set. -/
def Identity.Same (this this' : Identity) : Prop :=
  this'.identity = this.identity ∧ this.trust.Same this'.trust

theorem Identity.same_equivalence : Equivalence Identity.Same where
  refl this := ⟨rfl, .refl this.trust⟩
  symm h := ⟨h.1.symm, h.2.symm⟩
  trans h h' := ⟨h'.1.trans h.1, h.2.trans h'.2⟩

section
variable [formats : SavedFormats]

open SavedFormats

/-- No start on this file writes it. -/
theorem Config.loadOrCreate_iff {f : SavedFile} {config : Config} :
    (∀ device deviceLabel outcome,
        Config.loadOrCreate f device deviceLabel outcome = .ok (config, f)) ↔
      f.Holds fromToml Eq config := by
  constructor
  · intro h
    have hload := h config.device "" (.noDirectory "")
    unfold Config.loadOrCreate at hload
    split at hload
    · next text htext =>
      split at hload
      · cases hload
      · next read hread =>
        cases hload
        exact ⟨text, config, htext, hread, rfl⟩
    · dsimp only at hload
      split at hload
      · cases hload
      · next hsave =>
        have hunsaved : ¬ Saves (toToml ⟨config.device, .default_ ""⟩) (.noDirectory "") := by
          intro hsaves
          cases hsaves.1
        obtain ⟨e, f', hsave', -⟩ := SavedFile.save_of_not_saves f "config" hunsaved
        unfold Config.save at hsave
        rw [hsave'] at hsave
        cases hsave
  · rintro ⟨text, read, htext, hread, rfl⟩ device deviceLabel outcome
    unfold Config.loadOrCreate
    rw [htext]
    dsimp only
    rw [hread]

/-- As it is with the settings, if the key is that of the device. -/
theorem Identity.loadOrCreate_iff {f : SavedFile} {this : Identity} {device : DeviceId} :
    (∀ generated outcome, ∃ read,
        Identity.loadOrCreate f device generated outcome = .ok (read, f) ∧ this.Same read) ↔
      f.Holds fromJson Identity.Same this ∧ this.identity.deviceId = device := by
  constructor
  · intro h
    obtain ⟨read, hload, hsame⟩ := h this.identity (.noDirectory "")
    unfold Identity.loadOrCreate at hload
    split at hload
    · next text htext =>
      split at hload
      · cases hload
      · next stored hstored =>
        split at hload
        · cases hload
        · next hdevice =>
          cases hload
          rw [not_not, hsame.1] at hdevice
          exact ⟨⟨text, read, htext, hstored, hsame⟩, hdevice⟩
    · dsimp only at hload
      split at hload
      · cases hload
      · next hsave =>
        have hunsaved : ¬ Saves (toJson ⟨this.identity, .new device⟩) (.noDirectory "") := by
          intro hsaves
          cases hsaves.1
        obtain ⟨e, f', hsave', -⟩ := SavedFile.save_of_not_saves f "the identity" hunsaved
        unfold saveParts at hsave
        rw [hsave'] at hsave
        cases hsave
  · rintro ⟨⟨text, read, htext, hread, hsame⟩, hdevice⟩ generated outcome
    refine ⟨read, ?_, hsame⟩
    unfold Identity.loadOrCreate
    rw [htext]
    dsimp only
    rw [hread]
    dsimp only
    rw [if_neg]
    rw [not_not, hsame.1, hdevice]

theorem Config.holds_of_loadOrCreate {f f' : SavedFile} {device : DeviceId} {deviceLabel : String}
    {outcome : WriteOutcome} {config : Config} (hreads : formats.ReadsBack)
    (h : Config.loadOrCreate f device deviceLabel outcome = .ok (config, f')) :
    f'.Holds fromToml Eq config := by
  unfold Config.loadOrCreate at h
  split at h
  · next text htext =>
    split at h
    · cases h
    · next read hread =>
      cases h
      exact ⟨text, config, htext, hread, rfl⟩
  · dsimp only at h
    split at h
    · cases h
    · next f'' hsave =>
      cases h
      have hholds : (Config.save _ f outcome).2.Holds fromToml Eq _ :=
        SavedFile.holds_save_of_saves (fun t ht => ⟨_, hreads.config _ t ht, rfl⟩)
          (SavedFile.saves_of_ok hsave)
      rwa [hsave] at hholds

theorem Identity.holds_of_loadOrCreate {f f' : SavedFile} {device : DeviceId}
    {generated : DeviceIdentity} {outcome : WriteOutcome} {this : Identity}
    (hreads : formats.ReadsBack) (hgenerated : generated.deviceId = device)
    (h : Identity.loadOrCreate f device generated outcome = .ok (this, f')) :
    f'.Holds fromJson Identity.Same this ∧ this.identity.deviceId = device := by
  unfold Identity.loadOrCreate at h
  split at h
  · next text htext =>
    split at h
    · cases h
    · next stored hstored =>
      split at h
      · cases h
      · next hdevice =>
        cases h
        exact ⟨⟨text, this, htext, hstored, Identity.same_equivalence.refl this⟩, not_not.1 hdevice⟩
  · dsimp only at h
    split at h
    · cases h
    · next f'' hsave =>
      cases h
      have hholds : (saveParts _ f outcome).2.Holds fromJson Identity.Same _ :=
        SavedFile.holds_save_of_saves (hreads.identity _) (SavedFile.saves_of_ok hsave)
      rw [hsave] at hholds
      exact ⟨hholds, hgenerated⟩

end

/-! ## What a request leaves behind -/

namespace Daemon

/-- The settings, the peer table and the trust set are what they were. -/
structure SameMemory (d d' : Daemon) : Prop where
  settings : d'.config.settings = d.config.settings
  table : d'.peers.map (·.peers) = d.peers.map (·.peers)
  trust : ∀ manager ∈ d.peers, ∀ manager' ∈ d'.peers, manager.trust.Same manager'.trust

theorem SameMemory.refl (d : Daemon) : SameMemory d d where
  settings := rfl
  table := rfl
  trust manager h manager' h' := by
    rw [Option.mem_def] at h h'
    rw [h] at h'
    cases h'
    exact .refl _

section
variable [formats : SavedFormats]

open SavedFormats

/-- The next start loads what is in memory, whatever it would make up. -/
structure LoadsBack (d : Daemon) : Prop where
  config : ∀ device deviceLabel outcome,
    Config.loadOrCreate d.configFile device deviceLabel outcome = .ok (d.config, d.configFile)
  identity : ∀ manager ∈ d.peers, ∀ generated outcome, ∃ read,
    Identity.loadOrCreate d.identityFile d.config.device generated outcome =
        .ok (read, d.identityFile) ∧
      (Identity.mk manager.identity manager.trust).Same read

theorem loadsBack_iff {d : Daemon} :
    d.LoadsBack ↔
      d.configFile.Holds fromToml Eq d.config ∧
        ∀ manager ∈ d.peers,
          d.identityFile.Holds fromJson Identity.Same ⟨manager.identity, manager.trust⟩ ∧
            manager.identity.deviceId = d.config.device := by
  constructor
  · intro h
    exact ⟨Config.loadOrCreate_iff.1 h.config,
      fun manager hm => Identity.loadOrCreate_iff.1 (h.identity manager hm)⟩
  · rintro ⟨hconfig, hidentity⟩
    exact ⟨Config.loadOrCreate_iff.2 hconfig,
      fun manager hm => Identity.loadOrCreate_iff.2 (hidentity manager hm)⟩

/-- What the two requests that change the trust set do once they have changed it. -/
def changeTrust (d : Daemon) (manager : PeerManager) (trust : Trust) (outcome : WriteOutcome) :
    Bool × Daemon :=
  match saveParts ⟨manager.identity, trust⟩ d.identityFile outcome with
  | (.error _, identityFile) =>
    (false, { d with peers := some { manager with trust }, identityFile })
  | (.ok (), identityFile) =>
    (true, { d with peers := some { manager with trust }.reloadFromTrust, identityFile })

section
variable {d : Daemon} {manager : PeerManager} {trust : Trust} {outcome : WriteOutcome}

theorem handle_commitPairing_eq {peer : PairedDevice} (h : d.peers = some manager) :
    d.handle outcome (.commitPairing peer) =
      d.changeTrust manager (manager.trust.addPeer peer) outcome := by
  unfold handle commitPairing changeTrust
  rw [h]
  dsimp only
  generalize saveParts _ d.identityFile outcome = saved
  obtain ⟨_ | _, identityFile⟩ := saved
  · rfl
  · rfl

theorem handle_forgetDevice_eq {device : DeviceId} {p : PairedDevice} (h : d.peers = some manager)
    (hremove : manager.trust.removePeer device = .ok (p, trust)) :
    d.handle outcome (.forgetDevice device) = d.changeTrust manager trust outcome := by
  unfold handle forgetDevice changeTrust
  rw [h]
  dsimp only
  rw [hremove]
  dsimp only
  generalize saveParts _ d.identityFile outcome = saved
  obtain ⟨_ | _, identityFile⟩ := saved
  · rfl
  · rfl

/-- A change of the trust set that is not saved is there all the same. -/
theorem changeTrust_of_not_saves (h : ¬ Saves (toJson ⟨manager.identity, trust⟩) outcome) :
    d.changeTrust manager trust outcome =
      (false, { d with
        peers := some { manager with trust }
        identityFile := (saveParts ⟨manager.identity, trust⟩ d.identityFile outcome).2 }) := by
  obtain ⟨e, f, hsave, -⟩ :=
    SavedFile.save_of_not_saves d.identityFile "the identity" h
  unfold changeTrust saveParts
  rw [hsave]

theorem changeTrust_of_saves (h : Saves (toJson ⟨manager.identity, trust⟩) outcome) :
    d.changeTrust manager trust outcome =
      (true, { d with
        peers := some { manager with trust }.reloadFromTrust
        identityFile := (saveParts ⟨manager.identity, trust⟩ d.identityFile outcome).2 }) := by
  obtain ⟨t, -, hsave⟩ := SavedFile.save_of_saves d.identityFile "the identity" h
  unfold changeTrust saveParts
  rw [hsave]

theorem changeTrust_unchanged_iff (hm : d.peers = some manager) :
    ((d.changeTrust manager trust outcome).1 = false →
        SameMemory d (d.changeTrust manager trust outcome).2) ↔
      manager.trust.Same trust ∨ Saves (toJson ⟨manager.identity, trust⟩) outcome := by
  by_cases h : Saves (toJson ⟨manager.identity, trust⟩) outcome
  · rw [changeTrust_of_saves h]
    simp [h]
  · rw [changeTrust_of_not_saves h]
    simp only [h, or_false, forall_const]
    constructor
    · intro hsame
      exact hsame.trust manager hm _ rfl
    · intro hsame
      refine ⟨rfl, by rw [hm]; rfl, ?_⟩
      intro manager' hm' manager'' hm''
      rw [Option.mem_def] at hm' hm''
      rw [hm] at hm'
      cases hm'
      cases hm''
      exact hsame

theorem loadsBack_changeTrust_iff (hreads : formats.ReadsBack) (hd : d.LoadsBack)
    (hm : d.peers = some manager) :
    (d.changeTrust manager trust outcome).2.LoadsBack ↔
      manager.trust.Same trust ∨ Saves (toJson ⟨manager.identity, trust⟩) outcome := by
  obtain ⟨hconfig, hidentity⟩ := loadsBack_iff.1 hd
  obtain ⟨hholds, hdevice⟩ := hidentity manager hm
  by_cases h : Saves (toJson ⟨manager.identity, trust⟩) outcome
  · have hsaved : (saveParts ⟨manager.identity, trust⟩ d.identityFile outcome).2.Holds fromJson
        Identity.Same ⟨manager.identity, trust⟩ :=
      SavedFile.holds_save_of_saves (hreads.identity _) h
    rw [changeTrust_of_saves h, loadsBack_iff]
    simp only [h, or_true, iff_true]
    refine ⟨hconfig, ?_⟩
    intro manager' hm'
    cases hm'
    exact ⟨hsaved, hdevice⟩
  · have hsaved : (saveParts ⟨manager.identity, trust⟩ d.identityFile outcome).2.Holds fromJson
        Identity.Same ⟨manager.identity, trust⟩ ↔
          Identity.Same ⟨manager.identity, manager.trust⟩ ⟨manager.identity, trust⟩ :=
      SavedFile.holds_save_of_not_saves Identity.same_equivalence hholds h
    rw [changeTrust_of_not_saves h, loadsBack_iff]
    simp only [h, or_false]
    constructor
    · intro hnew
      exact (hsaved.1 (hnew.2 _ rfl).1).2
    · intro hsame
      refine ⟨hconfig, ?_⟩
      intro manager' hm'
      cases hm'
      exact ⟨hsaved.2 ⟨rfl, hsame⟩, hdevice⟩

end

/-! ## Settings -/

section
variable {d : Daemon} {settings : Settings} {outcome : WriteOutcome}

/-- The settings are in memory, whatever becomes of the file. -/
theorem handle_updateSettings :
    d.handle outcome (.updateSettings settings) =
      (({ d.config with settings }.save d.configFile outcome).1.isOk, { d with
        config := { d.config with settings }
        configFile := ({ d.config with settings }.save d.configFile outcome).2 }) := by
  unfold handle updateSettings
  dsimp only
  generalize Config.save _ d.configFile outcome = saved
  obtain ⟨_ | _, configFile⟩ := saved
  · rfl
  · rfl

theorem updateSettings_unchanged_iff :
    ((d.handle outcome (.updateSettings settings)).1 = false →
        SameMemory d (d.handle outcome (.updateSettings settings)).2) ↔
      settings = d.config.settings ∨ Saves (toToml { d.config with settings }) outcome := by
  rw [handle_updateSettings]
  unfold Config.save
  dsimp only
  rw [SavedFile.isOk_save_eq_false]
  constructor
  · intro h
    by_cases hsaves : Saves (toToml { d.config with settings }) outcome
    · exact .inr hsaves
    · exact .inl (h hsaves).settings
  · rintro (rfl | hsaves) hunsaved
    · exact ⟨rfl, rfl, (SameMemory.refl d).trust⟩
    · exact absurd hsaves hunsaved

theorem loadsBack_updateSettings_iff (hreads : formats.ReadsBack) (hd : d.LoadsBack) :
    (d.handle outcome (.updateSettings settings)).2.LoadsBack ↔
      settings = d.config.settings ∨ Saves (toToml { d.config with settings }) outcome := by
  obtain ⟨hconfig, hidentity⟩ := loadsBack_iff.1 hd
  rw [handle_updateSettings, loadsBack_iff]
  dsimp only
  rw [and_iff_left hidentity]
  by_cases h : Saves (toToml { d.config with settings }) outcome
  · simp only [h, or_true, iff_true]
    refine SavedFile.holds_save_of_saves ?_ h
    intro t ht
    exact ⟨_, hreads.config _ t ht, rfl⟩
  · simp only [h, or_false]
    refine (SavedFile.holds_save_of_not_saves eq_equivalence hconfig h).trans ?_
    rw [Config.ext_iff]
    simp [eq_comm]

end

/-! ## Every run -/

/-- Whatever is to be written can be, or there is nothing to change. -/
def Lasting (d : Daemon) (outcome : WriteOutcome) : DaemonRequest → Prop
  | .commitPairing peer =>
    ∀ manager ∈ d.peers, manager.trust.peer peer.deviceId = some peer ∨
      Saves (toJson ⟨manager.identity, manager.trust.addPeer peer⟩) outcome
  | .forgetDevice device =>
    ∀ manager ∈ d.peers, ∀ p trust, manager.trust.removePeer device = .ok (p, trust) →
      Saves (toJson ⟨manager.identity, trust⟩) outcome
  | .updateSettings settings =>
    settings = d.config.settings ∨ Saves (toToml { d.config with settings }) outcome

/-- **A failed request changes nothing** in memory, exactly if it is lasting. -/
theorem unchanged_iff_lasting {d : Daemon} {outcome : WriteOutcome} {r : DaemonRequest} :
    ((d.handle outcome r).1 = false → SameMemory d (d.handle outcome r).2) ↔
      d.Lasting outcome r := by
  cases r with
  | commitPairing peer =>
    cases hm : d.peers with
    | none => simp [handle, commitPairing, Lasting, hm, SameMemory.refl]
    | some manager =>
      rw [handle_commitPairing_eq hm, changeTrust_unchanged_iff hm, Trust.same_addPeer_iff]
      simp [Lasting, hm]
  | forgetDevice device =>
    cases hm : d.peers with
    | none => simp [handle, forgetDevice, Lasting, hm, SameMemory.refl]
    | some manager =>
      cases hremove : manager.trust.removePeer device with
      | error e => simp [handle, forgetDevice, Lasting, hm, hremove, SameMemory.refl]
      | ok removed =>
        obtain ⟨p, trust⟩ := removed
        rw [handle_forgetDevice_eq hm hremove, changeTrust_unchanged_iff hm]
        simp [Lasting, hm, hremove, Trust.not_same_of_removePeer hremove]
  | updateSettings settings => exact updateSettings_unchanged_iff

/-- **The next start loads what is in memory** after a request, exactly if it is lasting. -/
theorem loadsBack_handle_iff {d : Daemon} {outcome : WriteOutcome} {r : DaemonRequest}
    (hreads : formats.ReadsBack) (hd : d.LoadsBack) :
    (d.handle outcome r).2.LoadsBack ↔ d.Lasting outcome r := by
  cases r with
  | commitPairing peer =>
    cases hm : d.peers with
    | none => simp [handle, commitPairing, Lasting, hm, hd]
    | some manager =>
      rw [handle_commitPairing_eq hm, loadsBack_changeTrust_iff hreads hd hm, Trust.same_addPeer_iff]
      simp [Lasting, hm]
  | forgetDevice device =>
    cases hm : d.peers with
    | none => simp [handle, forgetDevice, Lasting, hm, hd]
    | some manager =>
      cases hremove : manager.trust.removePeer device with
      | error e => simp [handle, forgetDevice, Lasting, hm, hremove, hd]
      | ok removed =>
        obtain ⟨p, trust⟩ := removed
        rw [handle_forgetDevice_eq hm hremove, loadsBack_changeTrust_iff hreads hd hm]
        simp [Lasting, hm, hremove, Trust.not_same_of_removePeer hremove]
  | updateSettings settings => exact loadsBack_updateSettings_iff hreads hd

/-- A start leaves both files such that the next one loads what it has. -/
theorem loadsBack_start {configFile identityFile : SavedFile} {first : FirstStart} {d : Daemon}
    (hreads : formats.ReadsBack) (h : start configFile identityFile first = .ok d) :
    d.LoadsBack := by
  unfold start at h
  cases hconfig : Config.loadOrCreate configFile first.device first.deviceLabel
      first.configOutcome with
  | error e =>
    rw [hconfig] at h
    cases h
  | ok loaded =>
    obtain ⟨config, configFile'⟩ := loaded
    rw [hconfig] at h
    cases hidentity : Identity.loadOrCreate identityFile config.device
        (first.generate config.device) first.identityOutcome with
    | error e =>
      simp only [bind, Except.bind, hidentity] at h
      cases h
    | ok loaded =>
      obtain ⟨this, identityFile'⟩ := loaded
      simp only [bind, Except.bind, hidentity, pure, Except.pure, Except.ok.injEq] at h
      have hthis := Identity.holds_of_loadOrCreate hreads (first.generate_deviceId _) hidentity
      rw [← h, loadsBack_iff]
      refine ⟨Config.holds_of_loadOrCreate hreads hconfig, ?_⟩
      intro manager hm
      dsimp only at hm
      split at hm
      · cases hm
        exact hthis
      · cases hm

/-- What happens to a running daemon. -/
inductive Op where
  | request (r : DaemonRequest) (outcome : WriteOutcome)
  /-- Discovery and sessions change the peer table. -/
  | loops (peers : DeviceId → Option PeerState)

def after (d : Daemon) : Op → Daemon
  | .request r outcome => (d.handle outcome r).2
  | .loops peers => { d with peers := d.peers.map fun manager => { manager with peers } }

/-- **Failed requests change nothing.** A request that fails leaves the memory as it was, and after
every request the next start loads what is in memory. -/
def Honest (d : Daemon) : Op → Prop
  | .request r outcome =>
    ((d.handle outcome r).1 = false → SameMemory d (d.handle outcome r).2) ∧
      (d.handle outcome r).2.LoadsBack
  | .loops _ => True

/-- Every request is `Lasting`. -/
def OnlyLasting (d : Daemon) : Op → Prop
  | .request r outcome => d.Lasting outcome r
  | .loops _ => True

theorem loadsBack_loops {d : Daemon} (hd : d.LoadsBack) (peers : DeviceId → Option PeerState) :
    (d.after (.loops peers)).LoadsBack := by
  obtain ⟨hconfig, hidentity⟩ := loadsBack_iff.1 hd
  refine loadsBack_iff.2 ⟨hconfig, ?_⟩
  intro manager hm
  obtain ⟨manager', hm', rfl⟩ := Option.map_eq_some_iff.1 hm
  exact hidentity manager' hm'

theorem honest_iff {d : Daemon} {op : Op} (hreads : formats.ReadsBack) (hd : d.LoadsBack) :
    d.Honest op ↔ d.OnlyLasting op := by
  cases op with
  | request r outcome =>
    exact (and_congr unchanged_iff_lasting (loadsBack_handle_iff hreads hd)).trans and_self_iff
  | loops peers => exact Iff.rfl

theorem Honest.loadsBack_after {d : Daemon} {op : Op} (hd : d.LoadsBack) (h : d.Honest op) :
    (d.after op).LoadsBack := by
  cases op with
  | request r outcome => exact h.2
  | loops peers => exact loadsBack_loops hd peers

/-- A failed request changes nothing in any state, and every request of a run since a start leaves on
disk what is in memory, if and only if every request is lasting. -/
theorem failed_requests_iff (hreads : formats.ReadsBack) :
    (∀ (d : Daemon) outcome r,
        ((d.handle outcome r).1 = false → SameMemory d (d.handle outcome r).2) ↔
          d.Lasting outcome r) ∧
      ∀ configFile identityFile first d ops, start configFile identityFile first = .ok d →
        (Stepwise after Honest d ops ↔ Stepwise after OnlyLasting d ops) := by
  refine ⟨fun d outcome r => unchanged_iff_lasting, ?_⟩
  intro configFile identityFile first d ops hstart
  exact stepwise_congr (fun d op hd h => h.loadsBack_after hd) (fun d op hd => honest_iff hreads hd)
    (loadsBack_start hreads hstart)

end

end Daemon

/-! ## A laptop -/

/-- The settings as the laptop's `config.toml` has them. -/
def configText (deviceLabel : String) : String :=
  "device = \"01010101-0101-0101-0101-010101010101\"\n\n[settings]\n" ++
    "hotkey = \"CmdOrCtrl+Shift+V\"\napply_incoming_to_clipboard = true\n" ++
    "blob_quota_bytes = 2147483648\nblocked_apps = []\ndetect_secrets = true\n" ++
    "sync_enabled = true\nannounce_on_network = true\nstart_at_login = true\n" ++
    "device_label = \"" ++ deviceLabel ++ "\"\n"

def laptopConfig (deviceLabel : String) : Config :=
  { device := .repeated 1, settings := .default_ deviceLabel }

/-- The 32 bytes of a key. -/
def keyText (indent : String) (b : UInt8) : String :=
  "[\n" ++ ",\n".intercalate (.replicate 32 (indent ++ "  " ++ toString b.toNat)) ++ "\n" ++ indent ++
    "]"

/-- The laptop's `identity.json`. -/
def identityText (records : String) : String :=
  "\x7b\n  \"identity\": \x7b\n    \"device_id\": \"01010101-0101-0101-0101-010101010101\",\n" ++
    "    \"secret\": " ++ keyText "    " 7 ++ ",\n    \"public\": " ++ keyText "    " 8 ++
    "\n  \x7d,\n  \"trust\": \x7b\n" ++
    "    \"local_device_id\": \"01010101-0101-0101-0101-010101010101\",\n    \"epoch\": 0,\n" ++
    "    \"peers\": \x7b" ++ records ++ "\x7d\n  \x7d\n\x7d"

def unpairedText : String := identityText ""

def pairedText : String :=
  identityText ("\n      \"02020202-0202-0202-0202-020202020202\": \x7b\n" ++
    "        \"device_id\": \"02020202-0202-0202-0202-020202020202\",\n" ++
    "        \"static_public\": " ++ keyText "        " 9 ++ ",\n" ++
    "        \"label\": \"desktop\",\n        \"platform\": \"Linux\",\n" ++
    "        \"addresses\": [],\n        \"paired_at_ms\": 0\n      \x7d\n    ")

theorem configText_inj {l l' : String} : configText l = configText l' ↔ l = l' := by
  unfold configText
  rw [String.append_left_inj, String.append_right_inj]

theorem unpairedText_ne : unpairedText ≠ pairedText := by
  unfold unpairedText pairedText identityText
  rw [ne_eq, String.append_left_inj, String.append_right_inj]
  simp

attribute [irreducible] configText unpairedText pairedText

def unpairedLaptop : Identity := ⟨.laptop, .new (.repeated 1)⟩

def pairedLaptop : Identity := ⟨.laptop, unpairedLaptop.trust.addPeer (recordOf .phone)⟩

/-- The same key, and trust sets with the same entries. -/
def Identity.sameEntries (this this' : Identity) : Bool :=
  this'.identity = this.identity ∧ this'.trust.localDeviceId = this.trust.localDeviceId ∧
    this'.trust.epoch = this.trust.epoch ∧
    this'.trust.peers.toList = this.trust.peers.toList

theorem Identity.same_of_sameEntries {this this' : Identity} (h : this.sameEntries this' = true) :
    this.Same this' := by
  simp only [sameEntries, decide_eq_true_eq] at h
  obtain ⟨hidentity, hlocal, hepoch, hlist⟩ := h
  have hequiv := Std.TreeMap.equiv_iff_toList_eq.2 hlist
  exact ⟨hidentity, hlocal, hepoch, fun d => hequiv.getElem?_eq⟩

/-- The formats on what the laptop reads and writes. -/
@[reducible]
def SavedFormats.laptop : SavedFormats where
  toToml config :=
    if config = laptopConfig "desktop" then .ok (configText "desktop")
    else if config = laptopConfig "study" then .ok (configText "study")
    else .error "unsupported value"
  fromToml text :=
    if text = configText "desktop" then .ok (laptopConfig "desktop")
    else if text = configText "study" then .ok (laptopConfig "study")
    else .error "expected key-value separator"
  toJson this :=
    if this.sameEntries pairedLaptop then .ok pairedText
    else if this.sameEntries unpairedLaptop then .ok unpairedText
    else .error "unsupported value"
  fromJson text :=
    if text = pairedText then .ok pairedLaptop
    else if text = unpairedText then .ok unpairedLaptop
    else .error "expected value"

namespace SavedFormats

theorem laptopConfig_ne : laptopConfig "study" ≠ laptopConfig "desktop" := by decide

theorem fromToml_desktop :
    laptop.fromToml (configText "desktop") = .ok (laptopConfig "desktop") := if_pos rfl

theorem fromToml_study : laptop.fromToml (configText "study") = .ok (laptopConfig "study") :=
  (if_neg (configText_inj.not.2 (by decide))).trans (if_pos rfl)

theorem toToml_study : laptop.toToml (laptopConfig "study") = .ok (configText "study") :=
  (if_neg laptopConfig_ne).trans (if_pos rfl)

theorem fromJson_paired : laptop.fromJson pairedText = .ok pairedLaptop := if_pos rfl

theorem fromJson_unpaired : laptop.fromJson unpairedText = .ok unpairedLaptop :=
  (if_neg unpairedText_ne).trans (if_pos rfl)

theorem toJson_paired : laptop.toJson pairedLaptop = .ok pairedText := if_pos (by simp [Identity.sameEntries])

theorem readsBack_laptop : laptop.ReadsBack where
  config config text h := by
    simp only [toToml] at h
    split at h
    · next hconfig =>
      rw [← Except.ok.inj h, hconfig]
      exact fromToml_desktop
    · split at h
      · next hconfig =>
        rw [← Except.ok.inj h, hconfig]
        exact fromToml_study
      · cases h
  identity this text h := by
    simp only [toJson] at h
    split at h
    · next hsame =>
      rw [← Except.ok.inj h]
      exact ⟨pairedLaptop, fromJson_paired, Identity.same_of_sameEntries hsame⟩
    · split at h
      · next hsame =>
        rw [← Except.ok.inj h]
        exact ⟨unpairedLaptop, fromJson_unpaired, Identity.same_of_sameEntries hsame⟩
      · cases h

end SavedFormats

attribute [local instance] SavedFormats.laptop

namespace Daemon

open SavedFormats

/-- The files of a laptop that is not paired yet. -/
def laptopConfigFile : SavedFile where
  path := "/home/u/.local/share/clipse/config.toml"
  text := some (configText "desktop")
  tmp := none

def laptopIdentityFile : SavedFile where
  path := "/home/u/.local/share/clipse/identity.json"
  text := some unpairedText
  tmp := none

/-- What a first start would make up. -/
def laptopFirst : FirstStart where
  device := .repeated 9
  deviceLabel := "This device"
  generate device := { DeviceIdentity.laptop with deviceId := device }
  generate_deviceId _ := rfl
  configOutcome := .done
  identityOutcome := .done

def laptop : Daemon where
  config := laptopConfig "desktop"
  peers := some (.new .laptop unpairedLaptop.trust)
  configFile := laptopConfigFile
  identityFile := laptopIdentityFile

theorem start_laptop : start laptopConfigFile laptopIdentityFile laptopFirst = .ok laptop := by
  have hholds : laptopConfigFile.Holds fromToml Eq (laptopConfig "desktop") :=
    ⟨_, _, rfl, fromToml_desktop, rfl⟩
  have hidentity : Identity.loadOrCreate laptopIdentityFile (laptopConfig "desktop").device
      (laptopFirst.generate (laptopConfig "desktop").device) laptopFirst.identityOutcome =
        .ok (unpairedLaptop, laptopIdentityFile) := by
    unfold Identity.loadOrCreate laptopIdentityFile
    dsimp only
    rw [fromJson_unpaired]
    rfl
  unfold start
  rw [Config.loadOrCreate_iff.2 hholds]
  simp only [bind, Except.bind, hidentity]
  rfl

/-- The label is changed, and the phone paired. -/
def laptopRun : List Op :=
  [.request (.updateSettings (.default_ "study")) .done,
    .request (.commitPairing (recordOf .phone)) .done]

theorem failed_requests_laptop : Stepwise after Honest laptop laptopRun := by
  refine ((failed_requests_iff SavedFormats.readsBack_laptop).2 _ _ _ _ _ start_laptop).2 ?_
  refine ⟨.inr ⟨rfl, _, toToml_study⟩, ?_, trivial⟩
  intro manager hm
  cases hm
  exact .inr ⟨rfl, _, toJson_paired⟩

def fullDisk : WriteOutcome := .unwritten "No space left on device (os error 28)" (some [])

/-- The disk is full when the phone is to be written: the request fails, and the phone is trusted. -/
theorem not_failed_requests :
    ¬ ∀ formats : SavedFormats, formats.ReadsBack → ∀ configFile identityFile first d ops,
      start configFile identityFile first = .ok d → Stepwise after Honest d ops := by
  intro h
  have hfull : ¬ Saves (toJson pairedLaptop) fullDisk := by
    intro hsaves
    cases hsaves.1
  have hhandle : laptop.handle fullDisk (.commitPairing (recordOf .phone)) = _ :=
    (handle_commitPairing_eq rfl).trans (changeTrust_of_not_saves hfull)
  have hhonest := (h _ SavedFormats.readsBack_laptop _ _ _ laptop
    [.request (.commitPairing (recordOf .phone)) fullDisk] start_laptop).1
  have hsame := hhonest.1 (congrArg Prod.fst hhandle)
  rw [hhandle] at hsame
  have hpeer := Trust.same_addPeer_iff.1 (hsame.trust _ rfl _ rfl)
  have hnone : unpairedLaptop.trust.peer (.repeated 2) = none := by
    simp [Trust.peer, unpairedLaptop, Trust.new]
  cases hnone.symm.trans hpeer

end Daemon
end Clipse
