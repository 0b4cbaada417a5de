import Clipse.Daemon.Installation
import Clipse.Daemon.Proof.Saved

/-!
# One device for good

An installation that begins with an empty data directory settles on a device id and a key with its
first two completed writes (`Deeds`). As long as no start begins during another one while a file is
missing (`Apart`), no later start finds a file that it cannot read or that belongs to another device,
whatever is cut off in a start, a request or an exit, and every daemon that runs has that id and that
key (`identity_is_kept`). Two first starts at once can leave the files of two devices
(`overlapping_first_starts`).
-/

namespace Clipse

/-- On the way to the files. -/
def Process.Loading : Process → Prop
  | .begun | .newConfig _ | .configured _ | .newIdentity _ _ => True
  | _ => False

namespace Installation

section
variable [formats : SavedFormats]

open SavedFormats

/-- The device id that `config.toml` names, if it is there. -/
def NamesDevice (f : SavedFile) : Option DeviceId → Prop
  | none => f.text = none
  | some device => ∃ config, f.Holds fromToml Eq config ∧ config.device = device

/-- The key in `identity.json`, if it is there. -/
def HasKey (f : SavedFile) : Option DeviceIdentity → Prop
  | none => f.text = none
  | some key => ∃ this, f.Holds fromJson Identity.Same this ∧ this.identity = key

omit formats in
/-- What a process goes by agrees with what is settled. -/
def Held (device : Option DeviceId) (key : Option DeviceIdentity) : Process → Prop
  | .ended | .begun => True
  | .newConfig _ => device = none
  | .configured config => device = some config.device
  | .newIdentity config this =>
    device = some config.device ∧ key = none ∧ this.identity.deviceId = config.device
  | .loaded config this => device = some config.device ∧ key = some this.identity
  | .running d => device = some d.config.device ∧
    (∃ k, key = some k) ∧ ∀ manager ∈ d.peers, key = some manager.identity
  | .failed e => ∃ message, e = .save message

/-- The device id and the key of the installation, as far as they are settled. -/
structure Deeds (s : Installation) (device : Option DeviceId) (key : Option DeviceIdentity) : Prop where
  config : NamesDevice s.configFile device
  identity : HasKey s.identityFile key
  same : ∀ k ∈ key, device = some k.deviceId
  held : ∀ p, Held device key (s.process p)
  alone : device = none ∨ key = none →
    ∀ p q, (s.process p).Loading → (s.process q).Loading → p = q

/-- While a file is missing, no start begins during another one. -/
def Apart (s : Installation) : Nat × LifeOp → Prop
  | (_, .start) =>
    s.configFile.text = none ∨ s.identityFile.text = none → ∀ q, ¬ (s.process q).Loading
  | _ => True

/-- Nothing is forgotten: what was settled stays. -/
def Grows {A : Type} (before after : Option A) : Prop := ∀ a ∈ before, after = some a

variable {s : Installation} {configFile identityFile : SavedFile} {first : FirstStart} {p : Nat}
  {device device' : Option DeviceId} {key key' : Option DeviceIdentity} {next : Process}
  {d : Daemon}

omit formats in
theorem Grows.refl {A : Type} (a : Option A) : Grows a a := fun _ h => h

omit formats in
theorem Grows.trans {A : Type} {a b c : Option A} (h : Grows a b) (h' : Grows b c) : Grows a c :=
  fun x hx => h' x (h x hx)

/-! ## Files -/

theorem NamesDevice.missing_iff {f : SavedFile} (h : NamesDevice f device) :
    f.text = none ↔ device = none := by
  cases device with
  | none => exact ⟨fun _ => rfl, fun _ => h⟩
  | some d =>
    obtain ⟨config, ⟨text, read, htext, -, -⟩, -⟩ := h
    rw [htext]
    exact ⟨fun h => (by cases h), fun h => (by cases h)⟩

theorem HasKey.missing_iff {f : SavedFile} (h : HasKey f key) : f.text = none ↔ key = none := by
  cases key with
  | none => exact ⟨fun _ => rfl, fun _ => h⟩
  | some k =>
    obtain ⟨this, ⟨text, read, htext, -, -⟩, -⟩ := h
    rw [htext]
    exact ⟨fun h => (by cases h), fun h => (by cases h)⟩

/-- A write that was cut off changes nothing, and one that was not is what the next start reads. -/
theorem NamesDevice.save {f : SavedFile} (hreads : formats.ReadsBack) (h : NamesDevice f device)
    (config : Config) (outcome : WriteOutcome) :
    NamesDevice (config.save f outcome).2
      (if (config.save f outcome).1.isOk then some config.device else device) := by
  unfold Config.save
  by_cases hsaves : Saves (toToml config) outcome
  · obtain ⟨t, ht, hsave⟩ := SavedFile.save_of_saves f "config" hsaves
    rw [hsave]
    exact ⟨config, ⟨t, config, rfl, hreads.config _ _ ht, rfl⟩, rfl⟩
  · obtain ⟨e, f', hsave, htext⟩ := SavedFile.save_of_not_saves f "config" hsaves
    rw [hsave]
    show NamesDevice f' device
    cases device with
    | none => exact htext.trans h
    | some d =>
      obtain ⟨config', hholds, hd⟩ := h
      exact ⟨config', (SavedFile.holds_congr htext).2 hholds, hd⟩

theorem HasKey.save {f : SavedFile} (hreads : formats.ReadsBack) (h : HasKey f key)
    (this : Identity) (outcome : WriteOutcome) :
    HasKey (saveParts this f outcome).2
      (if (saveParts this f outcome).1.isOk then some this.identity else key) := by
  unfold saveParts
  by_cases hsaves : Saves (toJson this) outcome
  · obtain ⟨t, ht, hsave⟩ := SavedFile.save_of_saves f "the identity" hsaves
    obtain ⟨read, hread, hsame⟩ := hreads.identity _ _ ht
    rw [hsave]
    exact ⟨this, ⟨t, read, rfl, hread, hsame⟩, rfl⟩
  · obtain ⟨e, f', hsave, htext⟩ := SavedFile.save_of_not_saves f "the identity" hsaves
    rw [hsave]
    show HasKey f' key
    cases key with
    | none => exact htext.trans h
    | some k =>
      obtain ⟨this', hholds, hk⟩ := h
      exact ⟨this', (SavedFile.holds_congr htext).2 hholds, hk⟩

/-! ## A start by itself -/

/-- What a process does to start. -/
def startOps (p : Nat) (first : FirstStart) : List (Nat × LifeOp) :=
  [(p, .start), (p, .load first), (p, .load first), (p, .load first), (p, .load first),
    (p, .bind true)]

omit formats in
@[simp] theorem process_move (s : Installation) (p : Nat) (next : Process) :
    (s.move p next).process p = next := Function.update_self ..

omit formats in
@[simp] theorem move_move (s : Installation) (p : Nat) (t t' : Process) :
    (s.move p t).move p t' = s.move p t' := by
  unfold Installation.move
  simp only [Function.update_idem]

/-- What two more steps make of a process that is to read `identity.json`. -/
theorem load_identity_ok {config : Config} {this : Identity} (hp : s.process p = .configured config)
    (h : Identity.loadOrCreate s.identityFile config.device (first.generate config.device)
      first.identityOutcome = .ok (this, identityFile)) :
    (s.load p first).load p first = { s.move p (.loaded config this) with identityFile } := by
  unfold Identity.loadOrCreate at h
  split at h
  · next text htext =>
    split at h
    · cases h
    · next stored hread =>
      split at h
      · cases h
      · next hdevice =>
        cases h
        simp [load, move, hp, htext, hread, not_not.1 hdevice]
  · next htext =>
    dsimp only at h
    split at h
    · cases h
    · next hsave =>
      cases h
      simp [load, move, hp, htext, hsave]

theorem load_identity_error {config : Config} {e : StartError}
    (hp : s.process p = .configured config)
    (h : Identity.loadOrCreate s.identityFile config.device (first.generate config.device)
      first.identityOutcome = .error e) :
    ((s.load p first).load p first).process p = .failed e := by
  unfold Identity.loadOrCreate at h
  split at h
  · next text htext =>
    split at h
    · next source hread =>
      cases h
      simp [load, move, hp, htext, hread]
    · next stored hread =>
      split at h
      · next hdevice =>
        cases h
        simp [load, move, hp, htext, hread, hdevice]
      · cases h
  · next htext =>
    dsimp only at h
    split at h
    · next message f hsave =>
      cases h
      simp [load, move, hp, htext, hsave]
    · cases h

/-- `config.toml` takes one step if it is there, and two if it is not. -/
theorem load_config_ok {config : Config} (hp : s.process p = .begun)
    (h : Config.loadOrCreate s.configFile first.device first.deviceLabel first.configOutcome =
      .ok (config, configFile)) :
    s.load p first = { s.move p (.configured config) with configFile } ∨
      (s.load p first).load p first = { s.move p (.configured config) with configFile } := by
  unfold Config.loadOrCreate at h
  split at h
  · next text htext =>
    split at h
    · cases h
    · next read hread =>
      cases h
      exact .inl (by simp [load, move, hp, htext, hread])
  · next htext =>
    dsimp only at h
    split at h
    · cases h
    · next hsave =>
      cases h
      exact .inr (by simp [load, move, hp, htext, hsave])

theorem load_config_error {e : StartError} (hp : s.process p = .begun)
    (h : Config.loadOrCreate s.configFile first.device first.deviceLabel first.configOutcome =
      .error e) : ((s.load p first).load p first).process p = .failed e := by
  unfold Config.loadOrCreate at h
  split at h
  · next text htext =>
    split at h
    · next source hread =>
      cases h
      simp [load, move, hp, htext, hread]
    · cases h
  · next htext =>
    dsimp only at h
    split at h
    · next message f hsave =>
      cases h
      simp [load, move, hp, htext, hsave]
    · cases h

theorem load_of_failed {e : StartError} (hp : s.process p = .failed e) (first : FirstStart) :
    s.load p first = s := by
  simp only [load, hp]

theorem load_of_loaded {config : Config} {this : Identity} (hp : s.process p = .loaded config this)
    (first : FirstStart) : s.load p first = s := by
  simp only [load, hp]

theorem run_startOps (hp : s.process p = .ended) (first : FirstStart) :
    s.run (startOps p first) =
      (((((s.move p .begun).load p first).load p first).load p first).load p first).step p
        (.bind true) := by
  simp only [run, startOps, List.foldl_cons, List.foldl_nil, stepOf, step, hp]

/-- **A start by itself** ends with the daemon of `Daemon.start`... -/
theorem start_alone_ok (hp : s.process p = .ended)
    (h : Daemon.start s.configFile s.identityFile first = .ok d) :
    s.run (startOps p first) =
      { s.move p (.running d) with configFile := d.configFile, identityFile := d.identityFile } := by
  unfold Daemon.start at h
  cases hconfig : Config.loadOrCreate s.configFile first.device first.deviceLabel first.configOutcome with
  | error e => simp [hconfig, bind, Except.bind] at h
  | ok loaded =>
    obtain ⟨config, configFile⟩ := loaded
    simp only [hconfig, bind, Except.bind] at h
    cases hidentity : Identity.loadOrCreate s.identityFile config.device
        (first.generate config.device) first.identityOutcome with
    | error e => simp [hidentity] at h
    | ok loaded =>
      obtain ⟨this, identityFile⟩ := loaded
      simp only [hidentity, pure, Except.pure, Except.ok.injEq] at h
      subst h
      let s₁ : Installation := { s.move p (.configured config) with configFile }
      let s₂ : Installation := { s₁.move p (.loaded config this) with identityFile }
      have hloaded : (s₁.load p first).load p first = s₂ :=
        load_identity_ok (process_move s p (.configured config)) hidentity
      have hs₂ : s₂.process p = .loaded config this := process_move s₁ p _
      have hbind : s₂.step p (.bind true) =
          { s.move p (.running (s₂.daemonOf config this)) with configFile, identityFile } := by
        simp [step, s₂, s₁, move]
      rw [run_startOps hp]
      rcases load_config_ok (process_move s p .begun) hconfig with hone | htwo
      · rw [hone, move_move, hloaded, load_of_loaded hs₂, hbind]
        rfl
      · rw [htwo, move_move, hloaded, hbind]
        rfl

/-- ...or with its error. -/
theorem start_alone_error {e : StartError} (hp : s.process p = .ended)
    (h : Daemon.start s.configFile s.identityFile first = .error e) :
    (s.run (startOps p first)).process p = .failed e := by
  have hlast {s : Installation} (hs : (s.load p first).process p = .failed e) :
      ((s.load p first).step p (.bind true)).process p = .failed e := by
    simp only [step, hs]
  rw [run_startOps hp]
  unfold Daemon.start at h
  cases hconfig : Config.loadOrCreate s.configFile first.device first.deviceLabel first.configOutcome with
  | error e' =>
    simp only [hconfig, bind, Except.bind, Except.error.injEq] at h
    subst h
    have hfailed := load_config_error (process_move s p .begun) hconfig
    refine hlast ?_
    rw [load_of_failed hfailed, load_of_failed hfailed]
    exact hfailed
  | ok loaded =>
    obtain ⟨config, configFile⟩ := loaded
    simp only [hconfig, bind, Except.bind] at h
    cases hidentity : Identity.loadOrCreate s.identityFile config.device
        (first.generate config.device) first.identityOutcome with
    | ok loaded => simp [hidentity, pure, Except.pure] at h
    | error e' =>
      simp only [hidentity, Except.error.injEq] at h
      subst h
      let s₁ : Installation := { s.move p (.configured config) with configFile }
      have hfailed : ((s₁.load p first).load p first).process p = .failed e' :=
        load_identity_error (process_move s p (.configured config)) hidentity
      refine hlast ?_
      rcases load_config_ok (process_move s p .begun) hconfig with hone | htwo
      · rw [hone, move_move, load_of_failed hfailed]
        exact hfailed
      · rw [htwo, move_move]
        exact hfailed

/-! ## One process moves -/

omit formats in
/-- What the others go by stays right, unless one of them is still on its way to the files. -/
theorem Held.grow (hdevice : Grows device device') (hkey : Grows key key') (h : Held device key next)
    (hcalm : next.Loading → device' = device ∧ key' = key) : Held device' key' next := by
  cases next with
  | ended => trivial
  | begun => trivial
  | newConfig config => exact (hcalm trivial).1.trans h
  | configured config => exact hdevice _ h
  | newIdentity config this => exact ⟨hdevice _ h.1, (hcalm trivial).2.trans h.2.1, h.2.2⟩
  | loaded config this => exact ⟨hdevice _ h.1, hkey _ h.2⟩
  | running d =>
    obtain ⟨hd, ⟨k, hk⟩, hpeers⟩ := h
    exact ⟨hdevice _ hd, ⟨k, hkey _ hk⟩, fun manager hm => hkey _ (hpeers manager hm)⟩
  | failed e => exact h

/-- Process `p` moves on, and may settle something if it is the one on its way to the files. -/
theorem Deeds.move (h : s.Deeds device key) (hconfig : NamesDevice configFile device')
    (hidentity : HasKey identityFile key') (hsame : ∀ k ∈ key', device' = some k.deviceId)
    (hdevice : Grows device device') (hkey : Grows key key') (hnext : Held device' key' next)
    (hsettles : (device' = device ∧ key' = key) ∨
      (device = none ∨ key = none) ∧ (s.process p).Loading)
    (hloading : next.Loading → (s.process p).Loading ∨
      (device = none ∨ key = none → ∀ q, ¬ (s.process q).Loading)) :
    ({ s.move p next with configFile, identityFile } : Installation).Deeds device' key' := by
  have hmissing : device' = none ∨ key' = none → device = none ∨ key = none := by
    refine Or.imp (fun hd => ?_) fun hk => ?_
    · cases device with
      | none => rfl
      | some d => rw [hdevice d rfl] at hd; cases hd
    · cases key with
      | none => rfl
      | some k => rw [hkey k rfl] at hk; cases hk
  refine ⟨hconfig, hidentity, hsame, fun q => ?_, fun hnone q r hq hr => ?_⟩
  · show Held device' key' (Function.update s.process p next q)
    by_cases hqp : q = p
    · rw [hqp, Function.update_self]
      exact hnext
    · rw [Function.update_of_ne hqp]
      refine (h.held q).grow hdevice hkey fun hq => hsettles.resolve_right ?_
      rintro ⟨hnone, hp⟩
      exact hqp (h.alone hnone q p hq hp)
  · replace hnone := hmissing hnone
    change (Function.update s.process p next q).Loading at hq
    change (Function.update s.process p next r).Loading at hr
    -- A process that is loading now was loading before, unless nobody else is.
    have hbefore {q r : Nat} (hq : (Function.update s.process p next q).Loading)
        (hr : (Function.update s.process p next r).Loading) (hqp : q ≠ p) : q = r := by
      rw [Function.update_of_ne hqp] at hq
      by_cases hrp : r = p
      · rw [hrp, Function.update_self] at hr
        rcases hloading hr with hp | hnobody
        · exact hrp ▸ h.alone hnone q p hq hp
        · exact absurd hq (hnobody hnone q)
      · rw [Function.update_of_ne hrp] at hr
        exact h.alone hnone q r hq hr
    by_cases hqp : q = p
    · by_cases hrp : r = p
      · rw [hqp, hrp]
      · exact (hbefore hr hq hrp).symm
    · exact hbefore hq hr hqp

/-- Process `p` moves on, and nothing is written. -/
theorem Deeds.stay (h : s.Deeds device key) (hnext : Held device key next)
    (hloading : next.Loading → (s.process p).Loading ∨
      (device = none ∨ key = none → ∀ q, ¬ (s.process q).Loading)) :
    (s.move p next).Deeds device key :=
  h.move h.config h.identity h.same (.refl _) (.refl _) hnext (.inl ⟨rfl, rfl⟩) hloading

/-! ## A start -/

/-- There is more than there was. -/
def Further (s : Installation) (device : Option DeviceId) (key : Option DeviceIdentity) : Prop :=
  ∃ device' key', s.Deeds device' key' ∧ Grows device device' ∧ Grows key key'

theorem Deeds.further (h : s.Deeds device key) : s.Further device key :=
  ⟨device, key, h, .refl _, .refl _⟩

theorem Deeds.readConfig (h : s.Deeds device key) (hp : s.process p = .begun) :
    (s.load p first).Deeds device key := by
  have hloading : (s.process p).Loading := hp ▸ trivial
  have hconfig := h.config
  unfold Installation.load
  simp only [hp]
  cases device with
  | none =>
    have htext : s.configFile.text = none := hconfig
    rw [htext]
    exact h.stay rfl fun _ => .inl hloading
  | some d =>
    obtain ⟨config, ⟨text, read, htext, hread, rfl⟩, rfl⟩ := hconfig
    simp only [htext, hread]
    exact h.stay rfl fun _ => .inl hloading

theorem Deeds.saveConfig (hreads : formats.ReadsBack) (h : s.Deeds device key) {config : Config}
    (hp : s.process p = .newConfig config) : (s.load p first).Further device key := by
  have hloading : (s.process p).Loading := hp ▸ trivial
  have hheld := h.held p
  rw [hp] at hheld
  obtain rfl : device = none := hheld
  have hkey : key = none := by
    cases key with
    | none => rfl
    | some k => cases h.same k rfl
  subst hkey
  have hsave := NamesDevice.save hreads h.config config first.configOutcome
  unfold Installation.load
  simp only [hp]
  generalize config.save s.configFile first.configOutcome = saved at hsave ⊢
  obtain ⟨message | _, configFile⟩ := saved
  · refine Deeds.further ?_
    exact h.move hsave h.identity h.same (.refl _) (.refl _) ⟨message, rfl⟩ (.inl ⟨rfl, rfl⟩)
      fun hnext => hnext.elim
  · refine ⟨some config.device, none, ?_, fun d hd => (by cases hd), .refl _⟩
    exact h.move hsave h.identity (fun k hk => (by cases hk)) (fun d hd => (by cases hd)) (.refl _)
      rfl (.inr ⟨.inl rfl, hloading⟩) fun _ => .inl hloading

theorem Deeds.readIdentity (h : s.Deeds device key) {config : Config}
    (hp : s.process p = .configured config) : (s.load p first).Deeds device key := by
  have hloading : (s.process p).Loading := hp ▸ trivial
  have hheld := h.held p
  rw [hp] at hheld
  obtain rfl : device = some config.device := hheld
  have hidentity := h.identity
  unfold Installation.load
  simp only [hp]
  cases key with
  | none =>
    have htext : s.identityFile.text = none := hidentity
    rw [htext]
    exact h.stay ⟨rfl, rfl, first.generate_deviceId _⟩ fun _ => .inl hloading
  | some k =>
    obtain ⟨this, ⟨text, read, htext, hread, hsame⟩, rfl⟩ := hidentity
    have hdevice : read.identity.deviceId = config.device := by
      rw [hsame.1]
      exact (Option.some.inj (h.same _ rfl)).symm
    simp only [htext, hread, hdevice, ne_eq, not_true_eq_false, if_false]
    exact h.stay ⟨rfl, congrArg some hsame.1.symm⟩ fun hnext => hnext.elim

theorem Deeds.saveIdentity (hreads : formats.ReadsBack) (h : s.Deeds device key) {config : Config}
    {this : Identity} (hp : s.process p = .newIdentity config this) :
    (s.load p first).Further device key := by
  have hloading : (s.process p).Loading := hp ▸ trivial
  have hheld := h.held p
  rw [hp] at hheld
  obtain ⟨rfl, rfl, hthis⟩ := hheld
  have hsave := HasKey.save hreads h.identity this first.identityOutcome
  unfold Installation.load
  simp only [hp]
  generalize saveParts this s.identityFile first.identityOutcome = saved at hsave ⊢
  obtain ⟨message | _, identityFile⟩ := saved
  · refine Deeds.further ?_
    exact h.move h.config hsave h.same (.refl _) (.refl _) ⟨message, rfl⟩ (.inl ⟨rfl, rfl⟩)
      fun hnext => hnext.elim
  · refine ⟨some config.device, some this.identity, ?_, .refl _, fun k hk => (by cases hk)⟩
    refine h.move h.config hsave ?_ (.refl _) (fun k hk => (by cases hk)) ⟨rfl, rfl⟩
      (.inr ⟨.inr rfl, hloading⟩) fun hnext => hnext.elim
    rintro k ⟨⟩
    rw [hthis]

/-- **A step of a start** finds nothing that it cannot read. -/
theorem Deeds.load (hreads : formats.ReadsBack) (h : s.Deeds device key) (p : Nat)
    (first : FirstStart) : (s.load p first).Further device key := by
  have hstays (hload : s.load p first = s) : (s.load p first).Further device key := by
    rw [hload]
    exact h.further
  cases hp : s.process p with
  | begun => exact (h.readConfig hp).further
  | newConfig config => exact h.saveConfig hreads hp
  | configured config => exact (h.readIdentity hp).further
  | newIdentity config this => exact h.saveIdentity hreads hp
  | ended => exact hstays (by simp only [Installation.load, hp])
  | loaded config this => exact hstays (by simp only [Installation.load, hp])
  | running d => exact hstays (by simp only [Installation.load, hp])
  | failed e => exact hstays (by simp only [Installation.load, hp])

/-! ## Requests -/

/-- A daemon's files and memory agree with what is settled. -/
structure Kept (d : Daemon) (device : Option DeviceId) (key : Option DeviceIdentity) : Prop where
  config : NamesDevice d.configFile device
  identity : HasKey d.identityFile key
  held : Held device key (.running d)

/-- The trust set has changed, and is saved or not. -/
theorem Kept.changeTrust (hreads : formats.ReadsBack) (h : Kept d device key)
    {manager : PeerManager} (hm : d.peers = some manager) (trust : Trust) (outcome : WriteOutcome) :
    Kept (d.changeTrust manager trust outcome).2 device key := by
  obtain ⟨hdevice, ⟨k, rfl⟩, hpeers⟩ := h.held
  have hkey : k = manager.identity := Option.some.inj (hpeers manager hm)
  have hsave := HasKey.save hreads h.identity ⟨manager.identity, trust⟩ outcome
  rw [← hkey, ite_self, hkey] at hsave
  subst hkey
  by_cases hsaves : Saves (toJson ⟨manager.identity, trust⟩) outcome
  · rw [Daemon.changeTrust_of_saves hsaves]
    refine ⟨h.config, hsave, hdevice, ⟨_, rfl⟩, ?_⟩
    rintro manager' ⟨⟩
    rfl
  · rw [Daemon.changeTrust_of_not_saves hsaves]
    refine ⟨h.config, hsave, hdevice, ⟨_, rfl⟩, ?_⟩
    rintro manager' ⟨⟩
    rfl

theorem Kept.handle (hreads : formats.ReadsBack) (h : Kept d device key)
    (r : DaemonRequest) (outcome : WriteOutcome) :
    Kept (d.handle outcome r).2 device key := by
  cases r with
  | commitPairing peer =>
    cases hm : d.peers with
    | none => simpa [Daemon.handle, Daemon.commitPairing, hm] using h
    | some manager =>
      rw [Daemon.handle_commitPairing_eq hm]
      exact h.changeTrust hreads hm _ outcome
  | forgetDevice peer =>
    cases hm : d.peers with
    | none => simpa [Daemon.handle, Daemon.forgetDevice, hm] using h
    | some manager =>
      cases hremove : manager.trust.removePeer peer with
      | error e => simpa [Daemon.handle, Daemon.forgetDevice, hm, hremove] using h
      | ok removed =>
        obtain ⟨p, trust⟩ := removed
        rw [Daemon.handle_forgetDevice_eq hm hremove]
        exact h.changeTrust hreads hm _ outcome
  | updateSettings settings =>
    obtain ⟨rfl, hpeers⟩ := h.held
    have hsave := NamesDevice.save hreads h.config { d.config with settings } outcome
    rw [ite_self] at hsave
    rw [Daemon.handle_updateSettings]
    exact ⟨hsave, h.identity, rfl, hpeers⟩

/-- A request writes the files as all processes have left them. -/
theorem Deeds.request (hreads : formats.ReadsBack) (h : s.Deeds device key)
    (hp : s.process p = .running d) (r : DaemonRequest) (outcome : WriteOutcome) :
    (s.step p (.request r outcome)).Deeds device key := by
  have hheld := h.held p
  rw [hp] at hheld
  have hkeeps : Kept { d with configFile := s.configFile, identityFile := s.identityFile }
      device key := ⟨h.config, h.identity, hheld⟩
  obtain ⟨hconfig, hidentity, hafter⟩ := hkeeps.handle hreads r outcome
  simp only [Installation.step, hp]
  exact h.move hconfig hidentity h.same (.refl _) (.refl _) hafter (.inl ⟨rfl, rfl⟩)
    fun hnext => hnext.elim

/-- The settings are written once more at the end. -/
theorem Deeds.exit (hreads : formats.ReadsBack) (h : s.Deeds device key)
    (hp : s.process p = .running d) (outcome : WriteOutcome) :
    (s.step p (.exit outcome)).Deeds device key := by
  have hheld := h.held p
  rw [hp] at hheld
  obtain ⟨rfl, -⟩ := hheld
  have hsave := NamesDevice.save hreads h.config d.config outcome
  rw [ite_self] at hsave
  simp only [Installation.step, hp]
  exact h.move hsave h.identity h.same (.refl _) (.refl _) trivial (.inl ⟨rfl, rfl⟩)
    fun hnext => hnext.elim

/-! ## Lifetimes -/

theorem Deeds.bind (h : s.Deeds device key) {config : Config} {this : Identity}
    (hp : s.process p = .loaded config this) (free : Bool) :
    (s.step p (.bind free)).Deeds device key := by
  have hheld := h.held p
  rw [hp] at hheld
  obtain ⟨rfl, rfl⟩ := hheld
  simp only [Installation.step, hp]
  split
  · refine h.stay ⟨rfl, ⟨_, rfl⟩, fun manager hm => ?_⟩ fun hnext => hnext.elim
    simp only [daemonOf] at hm
    split at hm
    · cases hm
      rfl
    · cases hm
  · exact h.stay trivial fun hnext => hnext.elim

theorem Deeds.loops (h : s.Deeds device key) (hp : s.process p = .running d)
    (peers : DeviceId → Option PeerState) : (s.step p (.loops peers)).Deeds device key := by
  have hheld := h.held p
  rw [hp] at hheld
  obtain ⟨hdevice, hkey, hpeers⟩ := hheld
  simp only [Installation.step, hp]
  refine h.stay ⟨hdevice, hkey, fun manager hm => ?_⟩ fun hnext => hnext.elim
  obtain ⟨manager', hm', rfl⟩ := Option.map_eq_some_iff.1 hm
  exact hpeers manager' hm'

/-- **One step**, whatever is cut off in it. -/
theorem Deeds.step (hreads : formats.ReadsBack) (h : s.Deeds device key) (op : Nat × LifeOp)
    (hapart : s.Apart op) : (s.stepOf op).Further device key := by
  obtain ⟨p, op⟩ := op
  have hstays (hstep : s.step p op = s) : (s.step p op).Further device key := by
    rw [hstep]
    exact h.further
  cases op with
  | start =>
    cases hp : s.process p with
    | ended =>
      have hbegun : Held device key .begun := trivial
      simp only [stepOf, Installation.step, hp]
      refine (h.stay hbegun fun _ => .inr fun hnone => hapart ?_).further
      rwa [h.config.missing_iff, h.identity.missing_iff]
    | _ => exact hstays (by simp only [Installation.step, hp])
  | load first => exact h.load hreads p first
  | bind free =>
    cases hp : s.process p with
    | loaded config this => exact (h.bind hp free).further
    | _ => exact hstays (by simp only [Installation.step, hp])
  | request r outcome =>
    cases hp : s.process p with
    | running d => exact (h.request hreads hp r outcome).further
    | _ => exact hstays (by simp only [Installation.step, hp])
  | loops peers =>
    cases hp : s.process p with
    | running d => exact (h.loops hp peers).further
    | _ => exact hstays (by simp only [Installation.step, hp])
  | exit outcome =>
    cases hp : s.process p with
    | running d => exact (h.exit hreads hp outcome).further
    | _ => exact hstays (by simp only [Installation.step, hp])
  | kill =>
    have hended : Held device key .ended := trivial
    exact (h.stay hended fun hnext => hnext.elim).further

theorem Deeds.run (hreads : formats.ReadsBack) {ops : List (Nat × LifeOp)} (h : s.Deeds device key)
    (hapart : Stepwise stepOf Apart s ops) : (s.run ops).Further device key := by
  induction ops generalizing s device key with
  | nil => exact h.further
  | cons op ops ih =>
    obtain ⟨device₁, key₁, h₁, hdevice₁, hkey₁⟩ := h.step hreads op hapart.1
    obtain ⟨device₂, key₂, h₂, hdevice₂, hkey₂⟩ := ih h₁ hapart.2
    exact ⟨device₂, key₂, h₂, hdevice₁.trans hdevice₂, hkey₁.trans hkey₂⟩

/-- **The identity of an installation is kept.** From an empty data directory, through any starts,
requests and ends of any processes, with any writes cut off or failing, and with no start that begins
during another one while a file is missing: no start finds a file corrupt or of another device, and
all daemons that run have the same device id and the same key. -/
theorem identity_is_kept (hreads : formats.ReadsBack) {configFile identityFile : SavedFile}
    (hconfig : configFile.text = none) (hidentity : identityFile.text = none)
    (ops ops' : List (Nat × LifeOp))
    (hapart : Stepwise stepOf Apart (initial configFile identityFile) (ops ++ ops')) :
    let s := (initial configFile identityFile).run ops
    (∀ p e, s.process p = .failed e → ∃ message, e = .save message) ∧
      ∀ p p' d d', s.process p = .running d → (s.run ops').process p' = .running d' →
        d'.config.device = d.config.device ∧
          ∀ manager ∈ d.peers, ∀ manager' ∈ d'.peers, manager'.identity = manager.identity := by
  intro s
  have hempty : (initial configFile identityFile).Deeds none none :=
    ⟨hconfig, hidentity, fun k hk => (by cases hk), fun p => trivial, fun _ p q hp => hp.elim⟩
  obtain ⟨hfirst, hsecond⟩ := stepwise_append.1 hapart
  obtain ⟨device, key, hs, -, -⟩ := hempty.run hreads hfirst
  refine ⟨fun p e he => ?_, fun p p' d d' hd hd' => ?_⟩
  · have hheld := hs.held p
    rwa [he] at hheld
  · obtain ⟨device', key', hs', hdevice, hkey⟩ := hs.run hreads hsecond
    have hheld := hs.held p
    have hheld' := hs'.held p'
    rw [hd] at hheld
    rw [hd'] at hheld'
    obtain ⟨rfl, ⟨k, rfl⟩, hpeers⟩ := hheld
    obtain ⟨hsame, -, hpeers'⟩ := hheld'
    rw [hdevice _ rfl] at hsame
    refine ⟨(Option.some.inj hsame).symm, fun manager hm manager' hm' => ?_⟩
    have hk := hpeers' manager' hm'
    rw [hkey _ (hpeers manager hm)] at hk
    exact (Option.some.inj hk).symm

/-- Why starts are to be apart: of two first starts at once, one saves its settings over those of the
other, which saves its key. No start works any more. -/
theorem overlapping_first_starts (hreads : formats.ReadsBack) {first first' : FirstStart}
    (hne : first.device ≠ first'.device)
    (hconfig : Saves (toToml ⟨first.device, .default_ first.deviceLabel⟩) first.configOutcome)
    (hconfig' : Saves (toToml ⟨first'.device, .default_ first'.deviceLabel⟩) first'.configOutcome)
    (hidentity : Saves (toJson ⟨first.generate first.device, .new first.device⟩) first.identityOutcome)
    (hnone : configFile.text = none) (hnone' : identityFile.text = none) :
    ∃ ops, ((initial configFile identityFile).run ops).process 2 =
      .failed (.mismatch identityFile.path first.device first'.device) := by
  obtain ⟨hdone, text, htext⟩ := hconfig
  obtain ⟨hdone', text', htext'⟩ := hconfig'
  obtain ⟨hdone'', key, hkey⟩ := hidentity
  obtain ⟨read, hread, hsame, -⟩ := hreads.identity _ _ hkey
  have hdevice : read.identity.deviceId = first.device := by
    rw [hsame]
    exact first.generate_deviceId _
  refine ⟨[(0, .start), (1, .start), (0, .load first), (1, .load first'), (0, .load first),
    (1, .load first'), (0, .load first), (0, .load first), (2, .start), (2, .load first),
    (2, .load first)], ?_⟩
  simp [run, stepOf, step, initial, load, move, hnone, hnone', Config.save, saveParts, SavedFile.save,
    SavedFile.writeAtomically, hdone, hdone', hdone'', htext, htext', hkey, hreads.config _ _ htext',
    hread, hdevice, hne]

end

/-! ## A new laptop -/

attribute [local instance] SavedFormats.laptop

open SavedFormats

theorem toToml_desktop : laptop.toToml (laptopConfig "desktop") = .ok (configText "desktop") := if_pos rfl

theorem toJson_unpaired : laptop.toJson unpairedLaptop = .ok unpairedText := by
  have hne : ¬ unpairedLaptop.sameEntries pairedLaptop = true := by
    intro hsame
    have hpeer := (Identity.same_of_sameEntries hsame).2.peer (.repeated 2)
    have hnone : unpairedLaptop.trust.peer (.repeated 2) = none := by
      simp [Trust.peer, unpairedLaptop, Trust.new]
    have hsome : pairedLaptop.trust.peer (.repeated 2) = some (recordOf .phone) :=
      (Trust.peer_addPeer ..).trans (if_pos rfl)
    rw [hnone, hsome] at hpeer
    cases hpeer
  exact (if_neg hne).trans (if_pos (by simp [Identity.sameEntries]))

def emptyFile (path : String) : SavedFile := { path, text := none, tmp := none }

def newLaptop : Installation := initial (emptyFile "config.toml") (emptyFile "identity.json")

def first : FirstStart := { Daemon.laptopFirst with device := .repeated 1, deviceLabel := "desktop" }

/-- The first start is cut off at the key. -/
def cutOff : List (Nat × LifeOp) :=
  startOps 0 { first with identityOutcome := .unrenamed "killed" } ++ [(0, .kill)]

/-- What it leaves behind. -/
def halfNew : Installation :=
  initial { emptyFile "config.toml" with text := some (configText "desktop") }
    { emptyFile "identity.json" with tmp := some (utf8 unpairedText) }

/-- The daemon of the second one. -/
def firstDaemon : Daemon where
  config := laptopConfig "desktop"
  peers := some (.new .laptop unpairedLaptop.trust)
  configFile := { emptyFile "config.toml" with text := some (configText "desktop") }
  identityFile := { emptyFile "identity.json" with text := some unpairedText }

/-- The label is changed and the daemon ends; two more start at once, and one of them finds the
endpoint free. -/
def relabel : List (Nat × LifeOp) :=
  [(1, .request (.updateSettings (.default_ "study")) .done), (1, .exit .done)]

def twoStarts : List (Nat × LifeOp) :=
  [(2, .start), (3, .start), (2, .load first), (3, .load first), (3, .load first), (2, .load first),
    (3, .bind true), (2, .bind false)]

def settled : Installation :=
  initial { emptyFile "config.toml" with text := some (configText "study") } firstDaemon.identityFile

def secondDaemon : Daemon :=
  { firstDaemon with config := laptopConfig "study", configFile := settled.configFile }

theorem run_cutOff : newLaptop.run cutOff = halfNew := by
  have hconfig : toToml { device := first.device, settings := .default_ first.deviceLabel } =
      .ok (configText "desktop") := toToml_desktop
  have hidentity : toJson { identity := first.generate first.device, trust := .new first.device } =
      .ok unpairedText := toJson_unpaired
  have hdone : first.configOutcome = .done := rfl
  simp [run, newLaptop, cutOff, startOps, stepOf, step, initial, load, move, emptyFile, hconfig, hdone,
    Config.save, SavedFile.save, SavedFile.writeAtomically, saveParts, hidentity, halfNew]

theorem run_second : halfNew.run (startOps 1 first) =
    { halfNew.move 1 (.running firstDaemon) with identityFile := firstDaemon.identityFile } := by
  have hidentity : Identity.loadOrCreate halfNew.identityFile (laptopConfig "desktop").device
      (first.generate (laptopConfig "desktop").device) first.identityOutcome =
        .ok (unpairedLaptop, firstDaemon.identityFile) := by
    have hjson : toJson ⟨first.generate (laptopConfig "desktop").device,
        .new (laptopConfig "desktop").device⟩ = .ok unpairedText := toJson_unpaired
    have hdone : first.identityOutcome = .done := rfl
    simp only [Identity.loadOrCreate, halfNew, initial, saveParts, hjson, hdone, SavedFile.save]
    rfl
  have hconfig : halfNew.configFile.Holds fromToml Eq (laptopConfig "desktop") :=
    ⟨_, _, rfl, fromToml_desktop, rfl⟩
  have hstart : Daemon.start halfNew.configFile halfNew.identityFile first = .ok firstDaemon := by
    unfold Daemon.start
    rw [Config.loadOrCreate_iff.2 hconfig]
    simp only [bind, Except.bind, hidentity]
    rfl
  exact start_alone_ok (rfl : halfNew.process 1 = .ended) hstart

theorem run_relabel : (halfNew.run (startOps 1 first)).run relabel = settled := by
  have hstudy : toToml { laptopConfig "desktop" with settings := .default_ "study" } =
      .ok (configText "study") := toToml_study
  rw [run_second]
  simp [run, relabel, stepOf, step, halfNew, initial, move, emptyFile, firstDaemon, Config.save,
    SavedFile.save, SavedFile.writeAtomically, settled, hstudy, Daemon.handle, Daemon.updateSettings]

theorem run_twoStarts : (settled.run twoStarts).process 3 = .running secondDaemon := by
  have hdevice : unpairedLaptop.identity.deviceId = (laptopConfig "study").device := rfl
  simp [run, twoStarts, stepOf, step, settled, initial, load, move, emptyFile, firstDaemon,
    fromToml_study, fromJson_unpaired, hdevice, secondDaemon, daemonOf]
  exact ⟨rfl, rfl⟩

theorem apart_newLaptop :
    Stepwise stepOf Apart newLaptop ((cutOff ++ startOps 1 first) ++ (relabel ++ twoStarts)) := by
  have hcutOff : newLaptop.run cutOff = halfNew := run_cutOff
  have hsettled : (halfNew.run (startOps 1 first)).run relabel = settled := run_relabel
  unfold run at hcutOff hsettled
  rw [stepwise_append, stepwise_append, stepwise_append, List.foldl_append, hcutOff, hsettled]
  refine ⟨⟨?_, ?_⟩, ⟨trivial, trivial, trivial⟩, ?_⟩
  · exact ⟨fun _ _ h => h, trivial, trivial, trivial, trivial, trivial, trivial, trivial⟩
  · exact ⟨fun _ _ h => h, trivial, trivial, trivial, trivial, trivial, trivial⟩
  · refine ⟨fun h => ?_, fun h => ?_, trivial, trivial, trivial, trivial, trivial, trivial, trivial⟩
    · rcases h with h | h <;> cases h
    · rcases h with h | h <;> cases h

/-- The second start and the one after the relabelling run as the same device. -/
theorem identity_is_kept_laptop :
    let s := newLaptop.run (cutOff ++ startOps 1 first)
    (∀ p e, s.process p = .failed e → ∃ message, e = .save message) ∧
      s.process 1 = .running firstDaemon ∧
        (s.run (relabel ++ twoStarts)).process 3 = .running secondDaemon ∧
          secondDaemon.config.device = firstDaemon.config.device ∧
            ∀ manager ∈ firstDaemon.peers, ∀ manager' ∈ secondDaemon.peers,
              manager'.identity = manager.identity := by
  intro s
  have hs : s = halfNew.run (startOps 1 first) := by
    show List.foldl stepOf newLaptop _ = _
    rw [List.foldl_append]
    exact congrArg (List.foldl stepOf · (startOps 1 first)) run_cutOff
  have hfirst : s.process 1 = .running firstDaemon := by
    rw [hs, run_second]
    rfl
  have hsecond : (s.run (relabel ++ twoStarts)).process 3 = .running secondDaemon := by
    have hsettled : List.foldl stepOf s relabel = settled := hs ▸ run_relabel
    unfold run
    rw [List.foldl_append, hsettled]
    exact run_twoStarts
  obtain ⟨herrors, hsame⟩ := identity_is_kept SavedFormats.readsBack_laptop rfl rfl
    (cutOff ++ startOps 1 first) (relabel ++ twoStarts) apart_newLaptop
  exact ⟨herrors, hfirst, hsecond, hsame 1 3 _ _ hfirst hsecond⟩

end Installation
end Clipse
