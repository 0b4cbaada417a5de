import Clipse.Clipboard.Watch
import Clipse.Core.Proof.Hash
import Clipse.Lib.Table

/-!
# The identity of content

A platform lists the formats of a copy in any order. Both hashes that the code computes, of a clip
over the digests of its payloads and of a capture over their bytes, put them in the order of their
labels first.

* `new_of_perm`: a clip made of the payloads in another order has the same content.
* `same_parts_of_hashPayloads`, `same_parts_of_hash`: what has one hash has the same formats with
  the same bytes, unless BLAKE3 collides.
-/

namespace Clipse

/-- Two clips of one content. -/
structure Clip.SameContent (c c' : Clip) : Prop where
  hash : c.hash = c'.hash
  payloads : c.payloads = c'.payloads
  kind : c.kind = c'.kind
  preview : c.preview = c'.preview

/-- The labels and the bytes of a capture. -/
def labelled (payloads : List (ClipFormat × Bytes)) : List (String × Bytes) :=
  payloads.map fun p => (p.1.label, p.2)

/-- The labels and the digests of payloads. -/
def digested (payloads : List Payload) : List (String × Bytes) :=
  payloads.map fun p => (p.label, p.digest.bytes.toList)

/-- What `hash_payloads` feeds to the hasher. -/
def captureInput (payloads : List (ClipFormat × Bytes)) : Bytes :=
  partsInput (labelled (sortByLabel payloads))

section
variable [Blake3]

/-! ## Order -/

/-- What `Clip::compute_hash` feeds to the hasher, for a clip made of a capture. -/
def clipInput (payloads : List (ClipFormat × Bytes)) : Bytes :=
  partsInput (digested (Clip.sortPayloads (payloads.map fun p => Payload.new p.1 p.2)))

/-- **A clip does not depend on the order of its payloads**, where no two have one label. -/
theorem new_of_perm {payloads permuted : List Payload} (hp : permuted.Perm payloads)
    (hn : (payloads.map Payload.label).Nodup) (id id' : ClipId) (source source' : ClipSource)
    (hlc hlc' : Hlc) :
    (Clip.new id permuted source hlc).SameContent (Clip.new id' payloads source' hlc') := by
  have hsort : Clip.sortPayloads permuted = Clip.sortPayloads payloads :=
    (Table.sort_of_perm hp.symm hn).symm
  unfold Clip.new
  rw [hsort]
  exact ⟨rfl, rfl, rfl, rfl⟩

theorem hashPayloads_of_perm {payloads permuted : List (ClipFormat × Bytes)}
    (hp : permuted.Perm payloads) (hn : (payloads.map (·.1.label)).Nodup) :
    hashPayloads permuted = hashPayloads payloads := by
  have hsort : sortByLabel permuted = sortByLabel payloads := (Table.sort_of_perm hp.symm hn).symm
  rw [hashPayloads, hashPayloads, hsort]

/-! ## Injectivity -/

omit [Blake3] in
theorem mem_labelled_sortByLabel {payloads : List (ClipFormat × Bytes)} {part : String × Bytes} :
    part ∈ labelled (sortByLabel payloads) ↔ part ∈ labelled payloads :=
  ((List.perm_insertionSort _ payloads).map _).mem_iff

omit [Blake3] in
theorem mem_digested_sortPayloads {payloads : List Payload} {part : String × Bytes} :
    part ∈ digested (Clip.sortPayloads payloads) ↔ part ∈ digested payloads :=
  ((List.perm_insertionSort _ payloads).map _).mem_iff

omit [Blake3] in
theorem ShortParts.of_mem_iff {parts parts' : List (String × Bytes)} (h : ShortParts parts)
    (hm : ∀ {part}, part ∈ parts' ↔ part ∈ parts) : ShortParts parts' :=
  fun p hp => h p (hm.1 hp)

/-- Captures with one hash have the same formats with the same bytes. -/
theorem same_parts_of_hashPayloads {payloads other : List (ClipFormat × Bytes)}
    (hs : ShortParts (labelled payloads)) (hs' : ShortParts (labelled other))
    (hc : CollisionFree [captureInput payloads, captureInput other])
    (h : hashPayloads payloads = hashPayloads other) (part : String × Bytes) :
    part ∈ labelled payloads ↔ part ∈ labelled other := by
  have hparts : labelled (sortByLabel payloads) = labelled (sortByLabel other) :=
    ContentHash.ofParts_inj (hs.of_mem_iff mem_labelled_sortByLabel)
      (hs'.of_mem_iff mem_labelled_sortByLabel) hc h
  rw [← mem_labelled_sortByLabel, hparts, mem_labelled_sortByLabel]

theorem mem_digested_new {payloads : List (ClipFormat × Bytes)} {part : String × Bytes} :
    part ∈ digested (payloads.map fun p => Payload.new p.1 p.2) ↔
      ∃ p ∈ labelled payloads, (p.1, (ContentHash.of p.2).bytes.toList) = part := by
  simp only [digested, labelled, List.map_map, List.mem_map, exists_exists_and_eq_and]
  rfl

/-- A digest is short, whatever it is the digest of. -/
theorem shortParts_digested {payloads : List (ClipFormat × Bytes)}
    (hs : ShortParts (labelled payloads)) :
    ShortParts (digested (payloads.map fun p => Payload.new p.1 p.2)) := by
  intro part hp
  obtain ⟨p, hmem, rfl⟩ := mem_digested_new.1 hp
  refine ⟨(hs p hmem).1, ?_⟩
  rw [Vector.length_toList]
  decide

omit [Blake3] in
theorem ContentHash.ext_toList {h h' : ContentHash} (he : h.bytes.toList = h'.bytes.toList) :
    h = h' := by
  cases h
  cases h'
  exact congrArg _ (Vector.toList_inj.1 he)

/-- A part of one capture is a part of another that has its digest under its label. -/
theorem mem_labelled_of_digested {payloads other : List (ClipFormat × Bytes)} {part : String × Bytes}
    (hc : CollisionFree ((labelled payloads ++ labelled other).map (·.2)))
    (hp : part ∈ labelled payloads)
    (h : (part.1, (ContentHash.of part.2).bytes.toList) ∈
      digested (other.map fun p => Payload.new p.1 p.2)) : part ∈ labelled other := by
  obtain ⟨p, hp', he⟩ := mem_digested_new.1 h
  have hbytes : p.2 = part.2 :=
    hc _ (List.mem_map_of_mem (List.mem_append_right _ hp')) _
      (List.mem_map_of_mem (List.mem_append_left _ hp)) (ContentHash.ext_toList (Prod.mk.inj he).2)
  have hlabel : p.1 = part.1 := (Prod.mk.inj he).1
  rwa [← Prod.ext hlabel hbytes]

/-- Captures that become clips with one hash have the same formats with the same bytes. -/
theorem same_parts_of_hash {payloads other : List (ClipFormat × Bytes)} {id id' : ClipId}
    {source source' : ClipSource} {hlc hlc' : Hlc} (hs : ShortParts (labelled payloads))
    (hs' : ShortParts (labelled other)) (hc : CollisionFree [clipInput payloads, clipInput other])
    (hd : CollisionFree ((labelled payloads ++ labelled other).map (·.2)))
    (h : (Clip.new id (payloads.map fun p => .new p.1 p.2) source hlc).hash =
      (Clip.new id' (other.map fun p => .new p.1 p.2) source' hlc').hash) (part : String × Bytes) :
    part ∈ labelled payloads ↔ part ∈ labelled other := by
  have hparts := ContentHash.ofParts_inj
    ((shortParts_digested hs).of_mem_iff mem_digested_sortPayloads)
    ((shortParts_digested hs').of_mem_iff mem_digested_sortPayloads) hc h
  have hsame : ∀ part, part ∈ digested (payloads.map fun p => Payload.new p.1 p.2) ↔
      part ∈ digested (other.map fun p => Payload.new p.1 p.2) := by
    intro part
    rw [← mem_digested_sortPayloads, hparts, mem_digested_sortPayloads]
  have hd' : CollisionFree ((labelled other ++ labelled payloads).map (·.2)) := by
    intro x hx y hy
    rw [List.map_append, List.mem_append, or_comm, ← List.mem_append, ← List.map_append] at hx hy
    exact hd x hx y hy
  constructor
  · intro hp
    exact mem_labelled_of_digested hd hp ((hsame _).1 (mem_digested_new.2 ⟨part, hp, rfl⟩))
  · intro hp
    exact mem_labelled_of_digested hd' hp ((hsame _).2 (mem_digested_new.2 ⟨part, hp, rfl⟩))

/-- **Identity does not depend on the order of enumeration**: payloads with different labels make one
clip in any order, which passes the hash check, and one capture hash. Captures with different formats
or bytes get different hashes, as captures and as clips, unless BLAKE3 collides. -/
theorem identity_of_content :
    (∀ (payloads permuted : List Payload) (id id' : ClipId) (source source' : ClipSource)
      (hlc hlc' : Hlc), permuted.Perm payloads → (payloads.map Payload.label).Nodup →
        (Clip.new id permuted source hlc).SameContent (Clip.new id' payloads source' hlc') ∧
          (Clip.new id permuted source hlc).hashMatches) ∧
      (∀ payloads permuted : List (ClipFormat × Bytes), permuted.Perm payloads →
        (payloads.map (·.1.label)).Nodup → hashPayloads permuted = hashPayloads payloads) ∧
      (∀ payloads other : List (ClipFormat × Bytes), ShortParts (labelled payloads) →
        ShortParts (labelled other) → (∃ part, ¬ (part ∈ labelled payloads ↔ part ∈ labelled other)) →
        CollisionFree [captureInput payloads, captureInput other] →
        hashPayloads payloads ≠ hashPayloads other) ∧
      ∀ (payloads other : List (ClipFormat × Bytes)) (id id' : ClipId) (source source' : ClipSource)
        (hlc hlc' : Hlc), ShortParts (labelled payloads) → ShortParts (labelled other) →
        (∃ part, ¬ (part ∈ labelled payloads ↔ part ∈ labelled other)) →
        CollisionFree [clipInput payloads, clipInput other] →
        CollisionFree ((labelled payloads ++ labelled other).map (·.2)) →
        (Clip.new id (payloads.map fun p => .new p.1 p.2) source hlc).hash ≠
          (Clip.new id' (other.map fun p => .new p.1 p.2) source' hlc').hash := by
  refine ⟨?_, ?_, ?_, ?_⟩
  · intro payloads permuted id id' source source' hlc hlc' hp hn
    exact ⟨new_of_perm hp hn id id' source source' hlc hlc', decide_eq_true rfl⟩
  · intro payloads permuted hp hn
    exact hashPayloads_of_perm hp hn
  · rintro payloads other hs hs' ⟨part, hne⟩ hc h
    exact hne (same_parts_of_hashPayloads hs hs' hc h part)
  · rintro payloads other id id' source source' hlc hlc' hs hs' ⟨part, hne⟩ hc hd h
    exact hne (same_parts_of_hash hs hs' hc hd h part)

end

/-! ## A worked example -/

/-- BLAKE3 of the text `ho`. -/
def hoDigest : ContentHash :=
  { bytes :=
    #v[0x3a, 0x7e, 0x0e, 0xf8, 0xa3, 0xa0, 0xbb, 0x01, 0x99, 0x57, 0x63, 0xbb, 0xba, 0x2b, 0x7a, 0x97,
      0xec, 0xfe, 0x5a, 0x0b, 0x5f, 0x8c, 0x4e, 0x42, 0xcc, 0x3a, 0x53, 0xb8, 0x66, 0x17, 0x59,
      0x7f] }

/-- The hash of the text `hi`, as it is read from the clipboard. -/
def hiRead : ContentHash :=
  { bytes :=
    #v[0x56, 0x7e, 0x90, 0x12, 0xfc, 0x55, 0x96, 0xec, 0x14, 0xda, 0xc6, 0x26, 0x13, 0x24, 0x9b,
      0xbb, 0xa0, 0x25, 0xbc, 0x82, 0xb9, 0x3f, 0x74, 0x84, 0x0a, 0x3a, 0x0a, 0x74, 0x8e, 0x8d,
      0x7a, 0x01] }

/-- BLAKE3 on what is hashed of the texts `hi` and `ho`. -/
@[reducible] def Blake3.greetings : Blake3 where
  hash bytes :=
    if bytes = utf8 "hi" then hiDigest
    else if bytes = utf8 "ho" then hoDigest
    else if bytes = ContentHash.framed "text/plain" (utf8 "hi") then hiRead
    else if bytes = ContentHash.framed "text/plain" (utf8 "ho") then
      { bytes :=
        #v[0x49, 0x6f, 0xe9, 0x42, 0xd9, 0xc1, 0x16, 0x97, 0x12, 0x0b, 0xfc, 0x01, 0xd7, 0x47, 0xbf,
          0x5f, 0xbf, 0xe9, 0xb9, 0x17, 0x75, 0x11, 0x7f, 0x16, 0x13, 0x06, 0x62, 0x05, 0x48, 0x24,
          0x29, 0x50] }
    else if bytes = ContentHash.framed "text/plain" hiDigest.bytes.toList then hiHash
    else if bytes = ContentHash.framed "text/plain" hoDigest.bytes.toList then
      { bytes :=
        #v[0x63, 0xbd, 0x53, 0x8d, 0xdc, 0xb5, 0xac, 0x95, 0xf4, 0x66, 0x2f, 0xe9, 0x42, 0xbd, 0xad,
          0x6a, 0x1c, 0xb3, 0x7b, 0x27, 0x1c, 0xe6, 0x0e, 0x2e, 0x6a, 0xd2, 0x7a, 0x71, 0xcf, 0xfc,
          0x31, 0xb9] }
    else { bytes := .replicate 32 0 }

section
attribute [local instance] Blake3.greetings

/-- The text `hi` and its HTML in either order, and the texts `hi` and `ho`. -/
theorem identity_of_content_greetings :
    let text : ClipFormat × Bytes := (.text, utf8 "hi")
    let html : ClipFormat × Bytes := (.html, utf8 "<i>hi</i>")
    let source : ClipSource := { device := .repeated 1, deviceLabel := "desktop", app := none }
    let clip (id : Nat) (payloads : List (ClipFormat × Bytes)) : Clip :=
      .new ⟨id⟩ (payloads.map fun p => .new p.1 p.2) source ⟨id.toUInt64, 0, .repeated 1⟩
    ((clip 1 [text, html]).SameContent (clip 2 [html, text]) ∧ (clip 1 [text, html]).hashMatches) ∧
      hashPayloads [text, html] = hashPayloads [html, text] ∧
      hashPayloads [text] ≠ hashPayloads [(.text, utf8 "ho")] ∧
      (clip 1 [text]).hash ≠ (clip 2 [(.text, utf8 "ho")]).hash := by
  intro text html source clip
  obtain ⟨hclip, hcapture, hcaptures, hclips⟩ := identity_of_content
  refine ⟨hclip _ _ _ _ _ _ _ _ (.swap _ _ _) (by decide), hcapture _ _ (.swap _ _ _) (by decide),
    hcaptures [text] _ ?_ ?_ ⟨("text/plain", utf8 "hi"), by decide⟩ (by decide +kernel),
    hclips [text] [(.text, utf8 "ho")] _ _ _ _ _ _ ?_ ?_ ⟨("text/plain", utf8 "hi"), by decide⟩
      (by decide +kernel) (by decide +kernel)⟩
  · exact List.forall_mem_singleton.2 (by decide)
  · exact List.forall_mem_singleton.2 (by decide)
  · exact List.forall_mem_singleton.2 (by decide)
  · exact List.forall_mem_singleton.2 (by decide)

end

end Clipse
