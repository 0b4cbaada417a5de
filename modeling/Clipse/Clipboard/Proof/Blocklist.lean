import Clipse.Clipboard.Sensitive
import Clipse.Lib.Runs

/-!
# What the list of blocked applications tells apart

The list compares what names have of ASCII letters and digits. An entry without any is part of every
name that has some, and a name without any is never blocked. `Sound` says what the list is for, with
the letters and digits of every script, and `Told` for which names it does so: for those that an
entry in ASCII stands in, and for those that nothing of any entry occurs in.
-/

namespace Clipse

/-- The Unicode properties of a character, `char::is_alphanumeric` and `char::to_lowercase`. -/
class Unicode where
  isAlphanumeric : Char → Bool
  toLowercase : Char → List Char
  toLowercase_ne_nil : ∀ c, toLowercase c ≠ []

namespace AppBlocklist

variable [Unicode] {entries : List String} {app : String}

/-- The letters and digits of a name in any script, in lower case. -/
def letters (s : List Char) : List Char :=
  (s.filter Unicode.isAlphanumeric).flatMap Unicode.toLowercase

/-- The name equals an entry that is not blank, up to letter case, spaces and punctuation. -/
def EqualsEntry (entries : List String) (app : String) : Prop :=
  ∃ e ∈ entries, letters e.toList ≠ [] ∧ letters e.toList = letters app.toList

/-- The letters and digits of an entry that is not blank occur in the name. -/
def HoldsEntry (entries : List String) (app : String) : Prop :=
  ∃ e ∈ entries, letters e.toList ≠ [] ∧ letters e.toList <:+: letters app.toList

/-- A name that equals an entry is blocked, and one that holds none is not. -/
def Sound (entries : List String) (app : String) : Prop :=
  (EqualsEntry entries app → (new entries).isBlocked app = true) ∧
    (¬ HoldsEntry entries app → (new entries).isBlocked app = false)

/-- A name whose letters and digits are all ASCII. -/
def Plain (s : List Char) : Prop := ∀ c ∈ s, Unicode.isAlphanumeric c = true → c.toNat < 128

instance (s : List Char) : Decidable (Plain s) :=
  List.decidableBAll (fun c => Unicode.isAlphanumeric c = true → c.toNat < 128) s

/-- No letter outside ASCII has its small letter in ASCII, as the Kelvin sign does. -/
def Apart (s : List Char) : Prop :=
  ∀ c ∈ s, Unicode.isAlphanumeric c = true → 128 ≤ c.toNat →
    ∀ d ∈ Unicode.toLowercase c, 128 ≤ d.toNat

instance (s : List Char) : Decidable (Apart s) :=
  have (c : Char) : Decidable (∀ d ∈ Unicode.toLowercase c, 128 ≤ d.toNat) :=
    List.decidableBAll (fun d => 128 ≤ d.toNat) (Unicode.toLowercase c)
  List.decidableBAll (fun c => Unicode.isAlphanumeric c = true → 128 ≤ c.toNat →
    ∀ d ∈ Unicode.toLowercase c, 128 ≤ d.toNat) s

/-- The pieces of a name between its letters and digits outside ASCII. -/
def asciiRuns (s : List Char) : List (List Char) := (letters s).splitOnP (128 ≤ ·.toNat)

/-- The name is told from the entries, by what they have of ASCII letters and digits.

* `apart`: no letter of theirs changes from one to the other in lower case.
* `told`: of no entry does what it has of them occur in what the name has; or an entry in ASCII, not
  blank, stands in the name without a letter of another script in between; or the name has none of
  them, and equals no entry. -/
structure Told (entries : List String) (app : String) : Prop where
  apart : ∀ s ∈ app :: entries, Apart s.toList
  told : (∀ e ∈ entries, ¬ normalize e.toList <:+: normalize app.toList) ∨
    (∃ e ∈ entries, Plain e.toList ∧ normalize e.toList ≠ [] ∧
      ∃ run ∈ asciiRuns app.toList, normalize e.toList <:+: run) ∨
    normalize app.toList = [] ∧ ∀ e ∈ entries, letters e.toList = letters app.toList →
      letters e.toList = []

/-- The name is in ASCII, or has nothing of ASCII, or is compared with entries in ASCII only. -/
structure Unmixed (entries : List String) (app : String) : Prop where
  apart : ∀ s ∈ app :: entries, Apart s.toList
  unmixed : Plain app.toList ∨ normalize app.toList = [] ∨
    ∀ e ∈ entries, Plain e.toList ∧ letters e.toList ≠ []

omit [Unicode] in
theorem isBlocked_new_iff :
    (new entries).isBlocked app = true ↔ normalize app.toList ≠ [] ∧
      ∃ e ∈ entries, normalize e.toList <:+: normalize app.toList := by
  rw [isBlocked, new, Bool.and_eq_true, decide_eq_true_eq, List.any_map, List.any_eq_true]
  simp only [Function.comp_apply, decide_eq_true_eq]

/-! ## ASCII -/

/-- The character has the properties of ASCII. -/
def Agrees (c : Char) : Prop :=
  Unicode.isAlphanumeric c = c.isAlphanum ∧ Unicode.toLowercase c = [c.toLower]

omit [Unicode] in
theorem toNat_of_isAlphanum {c : Char} (h : c.isAlphanum = true) : c.toNat < 128 := by
  delta Char.isAlphanum Char.isAlpha Char.isUpper Char.isLower Char.isDigit at h
  simp only [Bool.or_eq_true, Bool.and_eq_true, decide_eq_true_eq, UInt32.le_iff_toNat_le] at h
  simp only [Char.toNat]
  rcases h with (⟨-, h⟩ | ⟨-, h⟩) | ⟨-, h⟩
  · exact lt_of_le_of_lt h (by decide)
  · exact lt_of_le_of_lt h (by decide)
  · exact lt_of_le_of_lt h (by decide)

omit [Unicode] in
theorem toNat_toLower_lt {c : Char} (h : c.toNat < 128) : c.toLower.toNat < 128 := by
  have hsmall : ∀ n < 128, (Char.ofNat n).toLower.toNat < 128 := by decide
  simpa [Char.ofNat_toNat] using hsmall c.toNat h

section
variable (hascii : ∀ c : Char, c.toNat < 128 → Agrees c)
include hascii

/-- **What the list compares** are the letters and digits of a name, without those outside ASCII. -/
theorem normalize_eq : ∀ {s : List Char}, Apart s →
    normalize s = (letters s).filter (!128 ≤ ·.toNat)
  | [], _ => rfl
  | c :: s, h => by
    have ih : normalize s = (letters s).filter (!128 ≤ ·.toNat) :=
      normalize_eq fun d hd => h d (List.mem_cons_of_mem c hd)
    simp only [letters, normalize] at ih ⊢
    by_cases hc : c.toNat < 128
    · obtain ⟨halnum, hlower⟩ := hascii c hc
      have hlow := toNat_toLower_lt hc
      rw [List.filter_cons, List.filter_cons, halnum]
      split
      · rw [List.flatMap_cons, hlower, List.map_cons, ih, List.singleton_append,
          List.filter_cons_of_pos (by simpa using hlow)]
      · exact ih
    · have hnot : ¬ c.isAlphanum = true := fun ha => hc (toNat_of_isAlphanum ha)
      rw [List.filter_cons_of_neg hnot, List.filter_cons]
      split
      · next hletter =>
        -- what a letter of another script becomes is dropped as well
        have hhigh := h c List.mem_cons_self hletter (Nat.le_of_not_lt hc)
        have hnone : (Unicode.toLowercase c).filter (!128 ≤ ·.toNat) = [] :=
          List.filter_eq_nil_iff.2 fun d hd => by simpa using hhigh d hd
        rw [List.flatMap_cons, List.filter_append, hnone, ih, List.nil_append]
      · exact ih

theorem lt_of_mem_letters {s : List Char} (h : Plain s) {d : Char} (hd : d ∈ letters s) :
    d.toNat < 128 := by
  obtain ⟨c, hc, hd⟩ := List.mem_flatMap.1 hd
  obtain ⟨hc, hletter⟩ := List.mem_filter.1 hc
  have hlow := h c hc hletter
  rw [(hascii c hlow).2, List.mem_singleton] at hd
  exact hd ▸ toNat_toLower_lt hlow

omit hascii in
theorem Plain.apart {s : List Char} (h : Plain s) : Apart s := fun c hc hletter hhigh =>
  absurd (h c hc hletter) (Nat.not_lt.2 hhigh)

theorem Plain.normalize_eq {s : List Char} (h : Plain s) : normalize s = letters s := by
  rw [AppBlocklist.normalize_eq hascii h.apart]
  exact List.filter_eq_self.2 fun d hd => by simpa using lt_of_mem_letters hascii h hd

omit hascii in
/-- A name is in ASCII if its letters and digits in lower case are. -/
theorem plain_of_letters {s : List Char} (hapart : Apart s)
    (h : ∀ d ∈ letters s, d.toNat < 128) : Plain s := by
  intro c hc hletter
  by_contra hhigh
  obtain ⟨d, hd⟩ := List.exists_mem_of_ne_nil _ (Unicode.toLowercase_ne_nil c)
  have hlow := h d (List.mem_flatMap.2 ⟨c, List.mem_filter.2 ⟨hc, hletter⟩, hd⟩)
  exact absurd hlow (Nat.not_lt.2 (hapart c hc hletter (Nat.le_of_not_lt hhigh) d hd))

/-- An entry in ASCII occurs in a name exactly where it stands in one of its runs. -/
theorem infix_letters_iff {e s : List Char} (h : Plain e) :
    letters e <:+: letters s ↔ ∃ run ∈ asciiRuns s, normalize e <:+: run := by
  rw [h.normalize_eq hascii]
  exact List.infix_iff_splitOnP fun d hd => by simpa using lt_of_mem_letters hascii h hd

theorem occurs_normalize {e s : List Char} (he : Apart e) (hs : Apart s)
    (h : letters e <:+: letters s) : normalize e <:+: normalize s := by
  rw [normalize_eq hascii he, normalize_eq hascii hs]
  exact h.filter _

/-! ## What is told apart -/

/-- **The condition is enough.** -/
theorem sound_of_told (h : Told entries app) : Sound entries app := by
  obtain ⟨happ, hentry⟩ := List.forall_mem_cons.1 h.apart
  rw [Sound, ← Bool.not_eq_true, isBlocked_new_iff]
  rcases h.told with hnone | ⟨e, he, hplain, hne, hrun⟩ | ⟨hnil, hother⟩
  · -- no entry that is equal, and none that blocks
    refine ⟨?_, fun _ hb => ?_⟩
    · rintro ⟨e, he, -, heq⟩
      exact absurd (occurs_normalize hascii (hentry e he) happ (heq ▸ List.infix_refl _)) (hnone e he)
    · obtain ⟨-, e, he, hin⟩ := hb
      exact hnone e he hin
  · have hin := (infix_letters_iff hascii hplain).2 hrun
    have hblocks := occurs_normalize hascii (hentry e he) happ hin
    have happne : normalize app.toList ≠ [] := by
      intro hnil
      rw [hnil, List.infix_nil] at hblocks
      exact hne hblocks
    refine ⟨fun _ => ⟨happne, e, he, hblocks⟩, fun hholds => absurd ⟨e, he, ?_, hin⟩ hholds⟩
    rwa [← hplain.normalize_eq hascii]
  · refine ⟨?_, fun _ hb => hb.1 hnil⟩
    rintro ⟨e, he, hne, heq⟩
    exact absurd (hother e he heq) hne

/-- **Nothing less is** where nothing mixed is compared. -/
theorem told_of_sound (hunmixed : Unmixed entries app) (h : Sound entries app) :
    Told entries app := by
  refine ⟨hunmixed.apart, ?_⟩
  rw [Sound, ← Bool.not_eq_true, isBlocked_new_iff] at h
  by_cases hnil : normalize app.toList = []
  · refine .inr (.inr ⟨hnil, fun e he heq => ?_⟩)
    by_contra hne
    exact (h.1 ⟨e, he, hne, heq⟩).1 hnil
  by_cases hmatch : ∃ e ∈ entries, normalize e.toList <:+: normalize app.toList
  · -- the name is blocked, so that some entry really occurs in it
    obtain ⟨e, he, hne, hin⟩ : HoldsEntry entries app := by
      by_contra hnot
      exact h.2 hnot ⟨hnil, hmatch⟩
    have hplain : Plain e.toList := by
      rcases hunmixed.unmixed with hname | hnil' | hall
      · refine plain_of_letters (hunmixed.apart e (List.mem_cons_of_mem _ he)) fun d hd => ?_
        exact lt_of_mem_letters hascii hname (hin.subset hd)
      · exact absurd hnil' hnil
      · exact (hall e he).1
    refine .inr (.inl ⟨e, he, hplain, ?_, (infix_letters_iff hascii hplain).1 hin⟩)
    rwa [hplain.normalize_eq hascii]
  · exact .inl fun e he hin => hmatch ⟨e, he, hin⟩

/-- Names and entries in ASCII are told apart. -/
theorem told_of_plain (happ : Plain app.toList)
    (hentries : ∀ e ∈ entries, Plain e.toList ∧ letters e.toList ≠ []) : Told entries app := by
  refine ⟨List.forall_mem_cons.2 ⟨happ.apart, fun e he => (hentries e he).1.apart⟩, ?_⟩
  by_cases hmatch : ∃ e ∈ entries, normalize e.toList <:+: normalize app.toList
  · obtain ⟨e, he, hin⟩ := hmatch
    obtain ⟨hplain, hne⟩ := hentries e he
    have hletters : letters e.toList <:+: letters app.toList := by
      rwa [hplain.normalize_eq hascii, happ.normalize_eq hascii] at hin
    refine .inr (.inl ⟨e, he, hplain, ?_, (infix_letters_iff hascii hplain).1 hletters⟩)
    rwa [hplain.normalize_eq hascii]
  · exact .inl fun e he hin => hmatch ⟨e, he, hin⟩

end

end AppBlocklist

/-! ## The list -/

/-- **The blocked applications.** A list does what it is for of a name that is told from its entries;
exactly then, unless a name with letters of ASCII and of other scripts meets an entry that is blank
or has letters of other scripts; and in particular where all of them are in ASCII and none is
blank. -/
theorem blocklist_sound_iff [Unicode] (hascii : ∀ c : Char, c.toNat < 128 → AppBlocklist.Agrees c)
    (entries : List String) (app : String) :
    (AppBlocklist.Told entries app → AppBlocklist.Sound entries app) ∧
      (AppBlocklist.Unmixed entries app →
        (AppBlocklist.Sound entries app ↔ AppBlocklist.Told entries app)) ∧
      (AppBlocklist.Plain app.toList →
        (∀ e ∈ entries, AppBlocklist.Plain e.toList ∧ AppBlocklist.letters e.toList ≠ []) →
        AppBlocklist.Told entries app) := by
  refine ⟨AppBlocklist.sound_of_told hascii, fun hunmixed => ⟨?_, ?_⟩, fun happ hentries => ?_⟩
  · exact AppBlocklist.told_of_sound hascii hunmixed
  · exact AppBlocklist.sound_of_told hascii
  · exact AppBlocklist.told_of_plain hascii happ hentries

/-- The letters and digits of ASCII, and the letters of Russian with their small letters. -/
@[reducible] def Unicode.examples : Unicode where
  isAlphanumeric c := c.isAlphanum || (0x410 ≤ c.toNat && c.toNat ≤ 0x44F)
  toLowercase c :=
    if 0x410 ≤ c.toNat ∧ c.toNat < 0x430 then [Char.ofNat (c.toNat + 32)] else [c.toLower]
  toLowercase_ne_nil c := by
    split
    · exact List.cons_ne_nil _ _
    · exact List.cons_ne_nil _ _

section Examples

attribute [local instance] Unicode.examples

theorem Unicode.examples_agrees {c : Char} (h : c.toNat < 128) : AppBlocklist.Agrees c := by
  have hlow : ¬ 0x410 ≤ c.toNat := by omega
  constructor
  · show (c.isAlphanum || (0x410 ≤ c.toNat && c.toNat ≤ 0x44F)) = c.isAlphanum
    rw [decide_eq_false hlow, Bool.false_and, Bool.or_false]
  · exact if_neg fun h' => hlow h'.1

/-- An entry in ASCII, in a name that has other letters around it. -/
theorem blocklist_sound_iff_keeper :
    AppBlocklist.Sound ["1Password", "Пароли", "Keeper"] "Мой KEEPER-2, новый" ∧
      (AppBlocklist.Sound ["1Password", "Keeper"] "1-PASSWORD.exe" ↔
        AppBlocklist.Told ["1Password", "Keeper"] "1-PASSWORD.exe") ∧
      AppBlocklist.Told ["1Password", "Keeper"] "1-PASSWORD.exe" := by
  obtain ⟨henough, -⟩ := blocklist_sound_iff (fun _ => Unicode.examples_agrees)
    ["1Password", "Пароли", "Keeper"] "Мой KEEPER-2, новый"
  obtain ⟨-, hiff, hplain⟩ := blocklist_sound_iff (fun _ => Unicode.examples_agrees)
    ["1Password", "Keeper"] "1-PASSWORD.exe"
  refine ⟨henough ⟨by decide, .inr (.inl ⟨"Keeper", by simp, by decide, by decide, ?_⟩)⟩,
    hiff ⟨by decide, .inl (by decide)⟩, hplain (by decide) (by decide)⟩
  exact ⟨"keeper2".toList, by decide, by decide⟩

/-- A blank entry blocks an application of another name, and one in another script blocks nothing,
not the application of that name. -/
theorem blocklist_not_sound :
    ¬ AppBlocklist.Sound [""] "notepad.exe" ∧ ¬ AppBlocklist.Sound ["Пароли"] "ПАРОЛИ" := by
  constructor
  · intro h
    have hfree : ¬ AppBlocklist.HoldsEntry [""] "notepad.exe" := by
      rintro ⟨e, he, hne, -⟩
      rw [List.mem_singleton.1 he] at hne
      exact hne rfl
    exact absurd (h.2 hfree) (by decide)
  · intro h
    have hequal : AppBlocklist.EqualsEntry ["Пароли"] "ПАРОЛИ" :=
      ⟨"Пароли", List.mem_singleton_self _, by decide, by decide⟩
    exact absurd (h.1 hequal) (by decide)

end Examples

end Clipse
